import Firmware.Proofs.Stream.Turn

namespace Firmware

open Feed

/-- A peer with the chunks that it delivers, each with the time that it takes, and the receives that come to
nothing in between and behind them. It keeps the moment at which it last delivered a chunk of the session. -/
structure Courier where
  clock : Nat
  script : List (Option (Chunk × Nat))
  /-- The time that the next receives take that come to nothing, by the time that they may take. -/
  pause : Nat → Nat → Nat
  requests : List (Except Failure Unit)
  statuses : List (Except Failure Unit)
  session : UInt32
  heard : Nat

namespace Courier

def reply (s : Courier) : Except Failure Unit → EStateM.Result Failure Courier Unit
  | .ok u => .ok u s
  | .error e => .error e s

def deliver (c : Chunk) (t : Nat) (s : Courier) : Courier := { s with
  script := s.script.tail
  clock := s.clock + t
  heard := if c.session = s.session then s.clock + t else s.heard }

def rest (wait : Nat) (s : Courier) : Courier := { s with
  script := s.script.tail
  clock := s.clock + s.pause 0 wait
  pause := fun k => s.pause (k + 1) }

instance : Transport Courier where
  now s := (s.clock, s)
  request _ _ s := { s with requests := s.requests.tail }.reply (s.requests.headD (.ok ()))
  receive wait s :=
    match s.script with
    | some (c, t) :: _ => .ok (some c) (s.deliver c t)
    | _ => .ok none (s.rest wait)
  status _ _ _ s := { s with statuses := s.statuses.tail }.reply (s.statuses.headD (.ok ()))

def remaining (s : Courier) : Nat := s.script.countP Option.isSome

/-- Receives that come to nothing take some time, and no more than they may. Nothing that the peer answers looks
like a timeout. -/
structure Fair (s : Courier) : Prop where
  pause : ∀ k wait, 1 ≤ s.pause k wait ∧ s.pause k wait ≤ max 1 wait
  requests : ∀ r ∈ s.requests, r ≠ .error .timeout
  statuses : ∀ r ∈ s.statuses, r ≠ .error .timeout

structure Answers (s t : Courier) : Prop where
  clock : t.clock = s.clock
  script : t.script = s.script
  pause : t.pause = s.pause
  session : t.session = s.session
  heard : t.heard = s.heard
  requests : t.requests ⊆ s.requests
  statuses : t.statuses ⊆ s.statuses

variable {s t u : Courier} {e : Failure} {rs : List (Except Failure Unit)} {x : Unit} {T : Nat}

lemma reply_headD_eq_ok (h : s.reply (rs.headD (.ok ())) = .ok x t) : t = s := by
  cases rs with
  | nil =>
    cases h
    rfl
  | cons r rs =>
    cases r <;> cases h
    rfl

lemma reply_headD_eq_error (h : s.reply (rs.headD (.ok ())) = .error e t) : t = s ∧ .error e ∈ rs := by
  cases rs with
  | nil => cases h
  | cons r rs =>
    cases r <;> cases h
    exact ⟨rfl, List.mem_cons_self⟩

lemma Answers.refl (s : Courier) : Answers s s :=
  ⟨rfl, rfl, rfl, rfl, rfl, List.Subset.refl _, List.Subset.refl _⟩

lemma Answers.trans (h : Answers s t) (h' : Answers t u) : Answers s u where
  clock := h'.clock.trans h.clock
  script := h'.script.trans h.script
  pause := h'.pause.trans h.pause
  session := h'.session.trans h.session
  heard := h'.heard.trans h.heard
  requests := fun _ hr => h.requests (h'.requests hr)
  statuses := fun _ hr => h.statuses (h'.statuses hr)

lemma answers_request (s : Courier) : Answers s { s with requests := s.requests.tail } :=
  { Answers.refl s with requests := fun _ => List.mem_of_mem_tail }

lemma answers_status (s : Courier) : Answers s { s with statuses := s.statuses.tail } :=
  { Answers.refl s with statuses := fun _ => List.mem_of_mem_tail }

lemma Answers.rest (h : Answers s t) (wait : Nat) : Answers (s.rest wait) (t.rest wait) where
  clock := by simp only [Courier.rest, h.clock, h.pause]
  script := by simp only [Courier.rest, h.script]
  pause := by simp only [Courier.rest, h.pause]
  session := h.session
  heard := h.heard
  requests := h.requests
  statuses := h.statuses

lemma Answers.deliver (h : Answers s t) (c : Chunk) (d : Nat) : Answers (s.deliver c d) (t.deliver c d) where
  clock := by simp only [Courier.deliver, h.clock]
  script := by simp only [Courier.deliver, h.script]
  pause := h.pause
  session := h.session
  heard := by simp only [Courier.deliver, h.clock, h.session, h.heard]
  requests := h.requests
  statuses := h.statuses

lemma Fair.answers (h : s.Fair) (ha : Answers s t) : t.Fair where
  pause := ha.pause ▸ h.pause
  requests r hr := h.requests r (ha.requests hr)
  statuses r hr := h.statuses r (ha.statuses hr)

lemma Fair.deliver (h : s.Fair) (c : Chunk) (t : Nat) : (s.deliver c t).Fair := { h with }

lemma Fair.rest (h : s.Fair) (wait : Nat) : (s.rest wait).Fair := { h with pause := fun k => h.pause (k + 1) }

/-- How many steps a stream can still take: as many as it would take to time out, with each chunk and behind
all of them. -/
def toll (T : Nat) (s : Courier) : Nat := s.remaining * (T + 1) + (T - (s.clock - s.heard))

lemma Answers.toll (h : Answers s t) : t.toll T = s.toll T := by
  simp only [Courier.toll, remaining, h.clock, h.script, h.heard]

lemma toll_deliver {c : Chunk} {d : Nat} (hs : s.script.head? = some (some (c, d))) :
    (s.deliver c d).toll T < s.toll T := by
  have hn : s.remaining = (s.deliver c d).remaining + 1 := by
    obtain ⟨script, hl⟩ := List.head?_eq_some_iff.mp hs
    simp only [remaining, Courier.deliver, hl, List.tail_cons]
    exact List.countP_cons_of_pos rfl
  have hm : (s.deliver c d).toll T ≤ (s.deliver c d).remaining * (T + 1) + T :=
    Nat.add_le_add_left (Nat.sub_le _ _) _
  rw [Courier.toll, Courier.toll, hn, Nat.add_mul] at *
  omega

lemma toll_rest (h : s.Fair) (hs : s.script.head?.join = none) (hp : s.heard ≤ s.clock) (hT : s.clock - s.heard < T)
    (wait : Nat) : (s.rest wait).toll T < s.toll T := by
  have hn : (s.rest wait).remaining = s.remaining := by
    simp only [remaining, Courier.rest]
    rcases hl : s.script with _ | ⟨_ | c, script⟩
    · rfl
    · rfl
    · rw [hl] at hs
      cases hs
  have h1 := (h.pause 0 wait).1
  have hc : (s.rest wait).clock = s.clock + s.pause 0 wait := rfl
  have hh : (s.rest wait).heard = s.heard := rfl
  rw [Courier.toll, Courier.toll, hn, hc, hh]
  omega

end Courier

namespace Requestor

open Courier

variable {uri : Text} {session : UInt32} {o : StreamOptions} {es : List Happening} {p q : Progress Courier}
  {x : Outcome × Progress Courier}

lemma Asks.courier {period now wait : Nat} {y : Except Failure Nat × Progress Courier}
    (h : Asks uri session period now wait p es y) :
    Answers p.transport y.2.transport ∧ y.2.lastResponse = p.lastResponse ∧
      (∀ e, y.1 = .error e → .error e ∈ p.transport.requests) ∧ ∀ wait', y.1 = .ok wait' → wait' ≤ wait := by
  cases h with
  | served _ => exact ⟨.refl _, rfl, nofun, by rintro _ ⟨⟩; exact Nat.le_refl _⟩
  | early _ _ _ => exact ⟨.refl _, rfl, nofun, by rintro _ ⟨⟩; exact Nat.min_le_left _ _⟩
  | sent _ _ hr =>
    obtain rfl := reply_headD_eq_ok hr
    exact ⟨answers_request _, rfl, nofun, by rintro _ ⟨⟩; exact Nat.min_le_left _ _⟩
  | failed _ _ hr =>
    obtain ⟨rfl, he⟩ := reply_headD_eq_error hr
    exact ⟨answers_request _, rfl, by rintro _ ⟨⟩; exact he, nofun⟩

lemma Reports.courier {id : UInt32} {st : ChunkStatus} {last : Bool} (h : Reports session id st last p es x) :
    Answers p.transport x.2.transport ∧ x.2.lastResponse = p.lastResponse ∧
      ∀ e, x.1 = some (.error e) → .error e ∈ p.transport.statuses := by
  cases h with
  | delivered hr =>
    obtain rfl := reply_headD_eq_ok hr
    exact ⟨answers_status _, rfl, by cases last <;> simp⟩
  | lost hr =>
    obtain ⟨rfl, he⟩ := reply_headD_eq_error hr
    exact ⟨answers_status _, rfl, by rintro _ ⟨⟩; exact he⟩

lemma sinkFailure_ne_timeout (e : Failure) : sinkFailure e ≠ .timeout := by
  cases e <;> simp [sinkFailure]

lemma Handles.courier {c : Chunk} (h : Handles session c p es x) :
    Answers p.transport x.2.transport ∧
      x.2.lastResponse = (if c.session = session then p.transport.clock else p.lastResponse) ∧
      (x.1 = some (.error .timeout) → .error .timeout ∈ p.transport.statuses) := by
  cases h with
  | foreign hc hr =>
    obtain ⟨ha, hl, he⟩ := hr.courier
    exact ⟨ha, by rw [if_neg hc, hl], he _⟩
  | written hc _ hr =>
    obtain ⟨ha, hl, he⟩ := hr.courier
    exact ⟨ha, by rw [if_pos hc, hl]; rfl, he _⟩
  | failed hc _ hr =>
    obtain ⟨ha, hl, -⟩ := hr.courier
    refine ⟨ha, by rw [if_pos hc, hl]; rfl, fun h => ?_⟩
    exact absurd (Except.error.inj (Option.some.inj h)) (sinkFailure_ne_timeout _)

/-- A stream and its peer agree on when a chunk of the session was last heard of. -/
structure Tracks (session : UInt32) (p : Progress Courier) : Prop where
  session : p.transport.session = session
  heard : p.lastResponse = p.transport.heard
  past : p.transport.heard ≤ p.transport.clock
  fair : p.transport.Fair

inductive Serves (T : Nat) (s : Courier) : Outcome → Courier → Prop
  | late : T ≤ s.clock - s.heard → Serves T s (some (.error .timeout)) s
  | unsent {e : Failure} {t : Courier} : e ≠ .timeout → Answers s t → Serves T s (some (.error e)) t
  | rest {wait : Nat} {t : Courier} : s.clock - s.heard < T → wait ≤ T - (s.clock - s.heard) →
      s.script.head?.join = none → Answers (s.rest wait) t → Serves T s none t
  | deliver {r : Outcome} {c : Chunk} {d : Nat} {t : Courier} : s.script.head? = some (some (c, d)) →
      r ≠ some (.error .timeout) → Answers (s.deliver c d) t → Serves T s r t

lemma receive_eq_error {wait : Nat} {s t : Courier} {e : Failure} : Transport.receive wait s ≠ .error e t := by
  intro h
  simp only [Transport.receive] at h
  split at h <;> cases h

lemma receive_eq_none {wait : Nat} {s t : Courier} (h : Transport.receive wait s = .ok none t) :
    s.script.head?.join = none ∧ t = s.rest wait := by
  simp only [Transport.receive] at h
  rcases hl : s.script with _ | ⟨_ | c, script⟩ <;> rw [hl] at h <;> cases h <;> exact ⟨rfl, rfl⟩

lemma receive_eq_some {wait : Nat} {s t : Courier} {c : Chunk} (h : Transport.receive wait s = .ok (some c) t) :
    ∃ d, s.script.head? = some (some (c, d)) ∧ t = s.deliver c d := by
  simp only [Transport.receive] at h
  rcases hl : s.script with _ | ⟨_ | ⟨c', d⟩, script⟩ <;> rw [hl] at h <;> cases h
  exact ⟨d, rfl, rfl⟩

variable {T : Nat} {s t : Courier} {r : Outcome}

lemma Turns.courier (h : Turns uri session o p es x) (hp : Tracks session p) :
    Serves o.chunkTimeout.toNat p.transport x.1 x.2.transport ∧
      (x.1 = none → x.2.lastResponse = x.2.transport.heard) := by
  have hm : p.moment - p.lastResponse = p.transport.clock - p.transport.heard := by rw [hp.heard]; rfl
  cases h with
  | late ht => exact ⟨.late (hm ▸ ht), nofun⟩
  | unsent _ _ ha =>
    obtain ⟨has, -, he, -⟩ := ha.courier
    refine ⟨.unsent ?_ has, nofun⟩
    rintro rfl
    exact hp.fair.requests _ (he _ rfl) rfl
  | broken _ _ _ hr => exact absurd hr receive_eq_error
  | @idle wait wait' _ q t hw h0 ha hr =>
    obtain ⟨has, hl, -, hle⟩ := ha.courier
    obtain ⟨hs, rfl⟩ := receive_eq_none hr
    have hle : wait' ≤ wait := hle wait' rfl
    rw [hm] at hw
    refine ⟨.rest (Nat.lt_of_sub_pos (hw ▸ h0)) (hw ▸ hle) (has.script ▸ hs) (has.rest wait'), fun _ => ?_⟩
    exact hl.trans (hp.heard.trans has.heard.symm)
  | @heard wait wait' _ _ q t c x hw h0 ha hr hh =>
    obtain ⟨has, hl, -⟩ := ha.courier
    obtain ⟨d, hs, rfl⟩ := receive_eq_some hr
    obtain ⟨hhs, hhl, hhe⟩ := hh.courier
    have hd := (has.deliver c d).trans hhs
    refine ⟨.deliver (has.script ▸ hs) (fun he => ?_) hd, fun _ => ?_⟩
    · exact hp.fair.statuses _ (has.statuses (hhe he)) rfl
    · rw [hhl, hd.heard]
      have hc : q.transport.clock = p.transport.clock := has.clock
      have hlq : q.lastResponse = p.transport.heard := hl.trans hp.heard
      have hsn : p.timed.transport.session = session := hp.session
      simp only [Courier.deliver, hc, hlq, hsn]
      rfl

lemma Serves.fair (h : Serves T s r t) (hs : s.Fair) : t.Fair := by
  cases h with
  | late _ => exact hs
  | unsent _ ha => exact hs.answers ha
  | rest _ _ _ ha => exact (hs.rest _).answers ha
  | deliver _ _ ha => exact (hs.deliver _ _).answers ha

lemma Serves.past (h : Serves T s r t) (hs : s.heard ≤ s.clock) : t.heard ≤ t.clock := by
  cases h with
  | late _ => exact hs
  | unsent _ ha => exact ha.heard ▸ ha.clock ▸ hs
  | rest _ _ _ ha =>
    rw [ha.heard, ha.clock]
    exact Nat.le_add_right_of_le hs
  | deliver _ _ ha =>
    rw [ha.heard, ha.clock]
    simp only [Courier.deliver]
    split
    · exact Nat.le_refl _
    · exact Nat.le_add_right_of_le hs

lemma Serves.toll (h : Serves T s none t) (hs : s.Fair) (hp : s.heard ≤ s.clock) : t.toll T < s.toll T := by
  cases h with
  | rest hT _ hn ha =>
    rw [ha.toll]
    exact toll_rest hs hn hp hT _
  | deliver hd _ ha =>
    rw [ha.toll]
    exact toll_deliver hd

end Requestor

end Firmware
