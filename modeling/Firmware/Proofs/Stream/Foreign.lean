import Firmware.Stream.Requestor
import Mathlib.Data.List.Basic
import Mathlib.Tactic.Lemma

/-!
Chunks of foreign sessions. A stream refuses them and is otherwise the same with them as without: it ends
alike, its sink sees the same calls, and its requests go out at the same times.
-/

namespace Firmware

inductive Happening where
  | note (n : Note)
  | call (c : SinkCall) (reply : Except Failure Unit)

namespace Feed

variable {α β ω : Type} (perform : SinkCall → EStateM Failure ω Unit)

def transcript : Feed α → ω → List Happening
  | done _, _ => []
  | note n next, w => .note n :: next.transcript w
  | call c next, w =>
    match perform c w with
    | .ok () v => .call c (.ok ()) :: (next (.ok ())).transcript v
    | .error e v => .call c (.error e) :: (next (.error e)).transcript v

def outcome (f : Feed α) (w : ω) : α × ω := f.run perform (fun _ v => v) w

variable {perform} {f : Feed α} {g : α → Feed β} {w v u : ω} {es es' : List Happening} {a : α} {b : β}

variable (perform) in
/-- A feed ends like this, after these happenings. -/
structure Plays (f : Feed α) (w : ω) (es : List Happening) (a : α) (v : ω) : Prop where
  transcript : f.transcript perform w = es
  outcome : f.outcome perform w = (a, v)

variable (perform) in
lemma plays_some (f : Feed α) (w : ω) : ∃ es a v, f.Plays perform w es a v := ⟨_, _, _, rfl, rfl⟩

lemma plays_done (a : α) (w : ω) : (done a).Plays perform w [] a w := ⟨rfl, rfl⟩

lemma Plays.note {n : Note} (h : f.Plays perform w es a v) :
    (Feed.note n f).Plays perform w (.note n :: es) a v := by
  constructor
  · rw [Feed.transcript, h.transcript]
  · exact h.outcome

lemma bind_bind {γ : Type} (f : Feed α) (g : α → Feed β) (h : β → Feed γ) :
    f >>= g >>= h = f >>= fun a => g a >>= h := by
  change (f.bind g).bind h = f.bind fun a => (g a).bind h
  induction f with
  | done a => rfl
  | note n next ih => exact congrArg (Feed.note n) ih
  | call c next ih => exact congrArg (Feed.call c) (funext ih)

lemma Plays.bind (hf : f.Plays perform w es a v) (hg : (g a).Plays perform v es' b u) :
    (f >>= g).Plays perform w (es ++ es') b u := by
  change (f.bind g).Plays perform w _ b u
  obtain ⟨rfl, ho⟩ := hf
  induction f generalizing w with
  | done c =>
    cases ho
    exact hg
  | note n next ih => exact (ih ho).note
  | call c next ih =>
    rw [Feed.outcome, Feed.run] at ho
    constructor
    · simp only [Feed.bind, Feed.transcript]
      revert ho
      cases perform c w with
      | ok x w => exact fun ho => congrArg _ (ih (.ok x) ho).transcript
      | error e w => exact fun ho => congrArg _ (ih (.error e) ho).transcript
    · simp only [Feed.bind, Feed.outcome, Feed.run]
      revert ho
      cases perform c w with
      | ok x w => exact fun ho => (ih (.ok x) ho).outcome
      | error e w => exact fun ho => (ih (.error e) ho).outcome

end Feed

open Feed

inductive Arrival where
  /-- A chunk of its own session, or of the one that was requested last. -/
  | chunk (c : Chunk) (current : Bool)
  | nothing
  | failure (e : Failure)

def Arrival.reply (session : UInt32) : Arrival → Except Failure (Option Chunk)
  | chunk c current => .ok (some (if current then { c with session } else c))
  | nothing => .ok none
  | failure e => .error e

structure Incident where
  arrival : Arrival
  lapse : Nat → Nat

/-- A transport that follows a script. Requests and statuses are answered in order. -/
structure Scripted where
  clock : Nat
  session : UInt32
  script : List Incident
  idle : Nat → Nat
  requests : List (Except Failure Unit)
  statuses : List (Except Failure Unit)

namespace Scripted

def answer {α : Type} (s : Scripted) : Except Failure α → EStateM.Result Failure Scripted α
  | .ok a => .ok a s
  | .error e => .error e s

instance : Transport Scripted where
  now s := (s.clock, s)
  request _ session s :=
    { s with session, requests := s.requests.tail }.answer (s.requests.headD (.ok ()))
  receive wait s :=
    match s.script with
    | [] => .ok none { s with clock := s.clock + s.idle wait }
    | i :: rest =>
      { s with script := rest, clock := s.clock + i.lapse wait }.answer (i.arrival.reply s.session)
  status _ _ _ s := { s with statuses := s.statuses.tail }.answer (s.statuses.headD (.ok ()))

end Scripted

/-- The second script is the first one with some chunks of other sessions put in, which take no time. -/
inductive Infiltrates (session : UInt32) : List Chunk → List Incident → List Incident → Prop
  | nil : Infiltrates session [] [] []
  | keep (i : Incident) {cs s s'} : Infiltrates session cs s s' → Infiltrates session cs (i :: s) (i :: s')
  | insert {c : Chunk} (hc : c.session ≠ session) {cs s s'} : Infiltrates session cs s s' →
      Infiltrates session (c :: cs) s (⟨.chunk c false, fun _ => 0⟩ :: s')

/-- The second transcript is the first one with some chunks received and refused in between. -/
inductive Interspersed : List Chunk → List Happening → List Happening → Prop
  | nil : Interspersed [] [] []
  | keep (e : Happening) {cs es es'} : Interspersed cs es es' → Interspersed cs (e :: es) (e :: es')
  | refuse (c : Chunk) (wait now : Nat) {cs es es'} : Interspersed cs es es' →
      Interspersed (c :: cs) es (.note (.receive wait now (.ok (some c))) ::
        .note (.status c.session c.id .refused (.ok ())) :: es')

namespace Interspersed

variable {cs : List Chunk} {es es' : List Happening}

lemma append (ds : List Happening) (h : Interspersed cs es es') :
    Interspersed cs (ds ++ es) (ds ++ es') := by
  induction ds with
  | nil => exact h
  | cons e ds ih => exact .keep e ih

lemma filter {P : Happening → Bool} (hr : ∀ wait now reply, P (.note (.receive wait now reply)) = false)
    (hs : ∀ session id st reply, P (.note (.status session id st reply)) = false)
    (h : Interspersed cs es es') : es'.filter P = es.filter P := by
  induction h with
  | nil => rfl
  | keep e _ ih => simp only [List.filter_cons, ih]
  | refuse c wait now _ ih => simp [hr, hs, ih]

end Interspersed

def Happening.ofSink : Happening → Bool
  | call .. => true
  | note _ => false

def Happening.ofRequest : Happening → Bool
  | note (.request ..) => true
  | _ => false

namespace Requestor

variable {ω : Type} {perform : SinkCall → EStateM Failure ω Unit} {uri : Text} {session : UInt32}

def listen {θ : Type} [Transport θ] (session : UInt32) (now wait : Nat) (p : Progress θ) :
    Feed (Outcome × Progress θ) := do
  let (r, t) ← exchange (Transport.receive wait) (.receive wait now) p.transport
  let p := { p with transport := t }
  match r with
  | .error e => return (some (.error e), p)
  | .ok none => return (none, p)
  | .ok (some c) => handle session c p

def onward {θ : Type} [Transport θ] (uri : Text) (session : UInt32) (o : StreamOptions) (n : Nat)
    (x : Outcome × Progress θ) : Feed (Outcome × Progress θ) :=
  match x with
  | (some r, p) => return (some r, p)
  | (none, p) => steps uri session o n p

lemma steps_succ {θ : Type} [Transport θ] (o : StreamOptions) (n : Nat) (p : Progress θ) :
    steps uri session o (n + 1) p = step uri session o p >>= onward uri session o n := rfl

namespace Progress

def facing (p : Progress Scripted) (script : List Incident) (statuses : List (Except Failure Unit)) :
    Progress Scripted :=
  { p with transport := { p.transport with script, statuses } }

end Progress

abbrev Fine (statuses : List (Except Failure Unit)) : Prop := ∀ r ∈ statuses, r = .ok ()

variable {p q : Progress Scripted} {s s' : List Incident} {r r' : List (Except Failure Unit)}

lemma Fine.tail (h : Fine r) : Fine r.tail := fun _ hx => h _ (List.mem_of_mem_tail hx)

lemma Fine.headD (h : Fine r) : r.headD (.ok ()) = .ok () := by
  cases r with
  | nil => rfl
  | cons x r => exact h x List.mem_cons_self

lemma plays_report (h : Fine r) (i id : UInt32) (st : ChunkStatus) (last : Bool) (w : ω) :
    (report i id st last (p.facing s r)).Plays perform w [.note (.status i id st (.ok ()))]
      (if last then some (.ok ()) else none, p.facing s r.tail) w := by
  have hs : Transport.status i id st (p.facing s r).transport =
      .ok () (p.facing s r.tail).transport := by
    change Scripted.answer _ (r.headD _) = _
    rw [h.headD]
    rfl
  rw [report, exchange, hs]
  exact (plays_done _ w).note

/-- A feed takes one course, whatever is still to come in the script. -/
def Settled (perform : SinkCall → EStateM Failure ω Unit)
    (f : List Incident → List (Except Failure Unit) → Feed (Outcome × Progress Scripted)) (w : ω) : Prop :=
  ∃ es x, ∃ q : Progress Scripted, ∃ v, ∀ s r, Fine r → ∃ r', Fine r' ∧
    (f s r).Plays perform w es (x, q.facing s r') v

variable (perform session) in
lemma settled_handle (c : Chunk) (p : Progress Scripted) (w : ω) :
    Settled perform (fun s r => handle session c (p.facing s r)) w := by
  by_cases hc : c.session ≠ session
  · refine ⟨[.note (.status c.session c.id .refused (.ok ()))], none, p, w, fun s r hr =>
      ⟨r.tail, hr.tail, ?_⟩⟩
    simp only [handle, if_pos hc]
    exact plays_report hr c.session c.id .refused false w
  · let q : Progress Scripted := { p with pending := false, lastResponse := p.transport.clock }
    obtain ⟨es, x, v, hw⟩ := plays_some perform (writeChunk c p.position) w
    cases x with
    | ok position =>
      refine ⟨es ++ [.note (.status session c.id .processed (.ok ()))],
        if c.last then some (.ok ()) else none, { q with position }, v, fun s r hr => ⟨r.tail, hr.tail, ?_⟩⟩
      simp only [handle, if_neg hc]
      exact hw.bind (plays_report (p := { q with position }) hr session c.id .processed c.last v)
    | error e =>
      refine ⟨es ++ ([.note (.status session c.id .refused (.ok ()))] ++ []),
        some (.error (sinkFailure e)), q, v, fun s r hr => ⟨r.tail, hr.tail, ?_⟩⟩
      simp only [handle, if_neg hc]
      exact hw.bind ((plays_report (p := q) hr session c.id .refused false v).bind (plays_done _ v))

variable (perform session) in
lemma settled_listen (i : Incident) (now wait : Nat) (p : Progress Scripted) (w : ω) :
    Settled perform (fun s r => listen session now wait (p.facing (i :: s) r)) w := by
  let q : Progress Scripted :=
    { p with transport := { p.transport with clock := p.transport.clock + i.lapse wait } }
  have hr (s r) : Transport.receive wait (p.facing (i :: s) r).transport =
      (q.facing s r).transport.answer (i.arrival.reply p.transport.session) := rfl
  cases h : i.arrival.reply p.transport.session with
  | error e =>
    refine ⟨[.note (.receive wait now (.error e))], some (.error e), q, w, fun s r hf => ⟨r, hf, ?_⟩⟩
    simp only [listen, exchange, hr, h]
    exact (plays_done _ w).note
  | ok c =>
    cases c with
    | none =>
      refine ⟨[.note (.receive wait now (.ok none))], none, q, w, fun s r hf => ⟨r, hf, ?_⟩⟩
      simp only [listen, exchange, hr, h]
      exact (plays_done _ w).note
    | some c =>
      obtain ⟨es, x, q', v, hc⟩ := settled_handle perform session c q w
      refine ⟨.note (.receive wait now (.ok (some c))) :: es, x, q', v, fun s r hf => ?_⟩
      obtain ⟨r', hr', hp⟩ := hc s r hf
      refine ⟨r', hr', ?_⟩
      simp only [listen, exchange, hr, h]
      exact hp.note

lemma plays_listen_end (now wait : Nat) (p : Progress Scripted) (r : List (Except Failure Unit)) (w : ω) :
    (listen session now wait (p.facing [] r)).Plays perform w [.note (.receive wait now (.ok none))]
      (none, { p with transport := { p.transport with
        clock := p.transport.clock + p.transport.idle wait } }.facing [] r) w :=
  (plays_done _ w).note

lemma plays_listen_foreign {c : Chunk} (hc : c.session ≠ session) (hr : Fine r) (now wait : Nat)
    (p : Progress Scripted) (s : List Incident) (w : ω) :
    (listen session now wait (p.facing (⟨.chunk c false, fun _ => 0⟩ :: s) r)).Plays perform w
      [.note (.receive wait now (.ok (some c))), .note (.status c.session c.id .refused (.ok ()))]
      (none, p.facing s r.tail) w := by
  have hh : (handle session c (p.facing s r)).Plays perform w
      [.note (.status c.session c.id .refused (.ok ()))] (none, p.facing s r.tail) w := by
    rw [handle, if_pos hc]
    exact plays_report hr c.session c.id .refused false w
  exact hh.note

section

variable {θ : Type} [Transport θ] {p : Progress θ} {period now wait : Nat}

lemma requestIfDue_served (h : p.pending = false) :
    requestIfDue uri session period now wait p = done (.ok wait, p) := by
  simp only [requestIfDue, h]
  rfl

lemma requestIfDue_early (h : p.pending = true)
    (hd : p.lastRequest.all (fun t => period ≤ now - t) = false) :
    requestIfDue uri session period now wait p =
      done (.ok (min wait (p.lastRequest.getD now + period - now)), p) := by
  simp only [requestIfDue, h, hd]
  rfl

lemma requestIfDue_due (h : p.pending = true)
    (hd : p.lastRequest.all (fun t => period ≤ now - t) = true) :
    requestIfDue uri session period now wait p =
      exchange (Transport.request uri session) (.request uri session now) p.transport >>= fun x =>
        match x.1 with
        | .error e => done (.error e, { p with transport := x.2 })
        | .ok () => done (.ok (min wait period), { p with transport := x.2, lastRequest := some now }) := by
  simp only [requestIfDue, h, hd]
  rfl

end

variable (perform uri session) in
lemma requestIfDue_again {period : Nat} (hp : 0 < period) (now wait : Nat) (p : Progress Scripted) :
    ∃ es x, ∃ q : Progress Scripted, q.transport.clock = p.transport.clock ∧
      q.lastResponse = p.lastResponse ∧
      (∀ s r (w : ω), (requestIfDue uri session period now wait (p.facing s r)).Plays perform w es
        (x, q.facing s r) w) ∧
      ∀ wait', x = .ok wait' → ∀ s r,
        requestIfDue uri session period now wait (q.facing s r) = done (.ok wait', q.facing s r) := by
  by_cases hn : p.pending = true
  · by_cases hd : p.lastRequest.all (fun t => period ≤ now - t) = true
    · let q : Progress Scripted := { p with
        lastRequest := some now
        transport := { p.transport with session, requests := p.transport.requests.tail } }
      have ht (s r) : Transport.request uri session (p.facing s r).transport =
          (q.facing s r).transport.answer (p.transport.requests.headD (.ok ())) := rfl
      cases h : p.transport.requests.headD (.ok ()) with
      | error e =>
        refine ⟨[.note (.request uri session now (.error e))], .error e,
          { q with lastRequest := p.lastRequest }, rfl, rfl, fun s r w => ?_, nofun⟩
        rw [requestIfDue_due (p := p.facing s r) hn hd, exchange, ht, h]
        exact (plays_done _ w).note
      | ok u =>
        refine ⟨[.note (.request uri session now (.ok ()))], .ok (min wait period), q, rfl, rfl,
          fun s r w => ?_, ?_⟩
        · rw [requestIfDue_due (p := p.facing s r) hn hd, exchange, ht, h]
          exact (plays_done _ w).note
        · rintro _ ⟨rfl⟩ s r
          have hl : ¬period ≤ now - now := by omega
          rw [requestIfDue_early (p := q.facing s r) hn (by simpa [Progress.facing, q] using hl)]
          simp [Progress.facing, q]
    · rw [Bool.not_eq_true] at hd
      refine ⟨[], .ok (min wait (p.lastRequest.getD now + period - now)), p, rfl, rfl,
        fun s r w => ?_, ?_⟩
      · rw [requestIfDue_early (p := p.facing s r) hn hd]
        exact plays_done _ w
      · rintro _ ⟨rfl⟩ s r
        exact requestIfDue_early hn hd
  · rw [Bool.not_eq_true] at hn
    refine ⟨[], .ok wait, p, rfl, rfl, fun s r w => ?_, ?_⟩
    · rw [requestIfDue_served (p := p.facing s r) hn]
      exact plays_done _ w
    · rintro _ ⟨rfl⟩ s r
      exact requestIfDue_served hn

def Parallel {ρ : Type} (perform : SinkCall → EStateM Failure ω Unit) (received : List Chunk)
    (f f' : Feed (Outcome × ρ)) (w : ω) : Prop :=
  ∃ es es' x q q' v, f.Plays perform w es (x, q) v ∧ f'.Plays perform w es' (x, q') v ∧
    Interspersed received es es'

section

variable {ρ : Type} {received : List Chunk} {w v : ω}

lemma parallel_done (x : Outcome) (q q' : ρ) (w : ω) :
    Parallel perform [] (done (x, q)) (done (x, q')) w :=
  ⟨[], [], x, q, q', w, plays_done _ w, plays_done _ w, .nil⟩

lemma Parallel.map {σ : Type} {f f' : Feed (Outcome × ρ)} (h : Parallel perform received f f' w)
    (k k' : ρ → σ) :
    Parallel perform received (f >>= fun x => done (x.1, k x.2)) (f' >>= fun x => done (x.1, k' x.2)) w := by
  obtain ⟨es, es', x, q, q', v, hf, hf', hi⟩ := h
  refine ⟨es ++ [], es' ++ [], x, k q, k' q', v, hf.bind (plays_done _ v), hf'.bind (plays_done _ v), ?_⟩
  rw [List.append_nil, List.append_nil]
  exact hi

variable {α β : Type} {f : Feed α} {f' : Feed β} {g : α → Feed (Outcome × ρ)}
  {g' : β → Feed (Outcome × ρ)} {es : List Happening} {a : α} {b : β}

lemma Parallel.after (hf : f.Plays perform w es a v) (hf' : f'.Plays perform w es b v)
    (h : Parallel perform received (g a) (g' b) v) :
    Parallel perform received (f >>= g) (f' >>= g') w := by
  obtain ⟨ds, ds', x, q, q', u, hg, hg', hi⟩ := h
  exact ⟨es ++ ds, es ++ ds', x, q, q', u, hf.bind hg, hf'.bind hg', hi.append es⟩

lemma Parallel.refuse {f : Feed (Outcome × ρ)} {c : Chunk} {wait now : Nat}
    (hf' : f'.Plays perform w [.note (.receive wait now (.ok (some c))),
      .note (.status c.session c.id .refused (.ok ()))] b w)
    (h : Parallel perform received f (g' b) w) : Parallel perform (c :: received) f (f' >>= g') w := by
  obtain ⟨ds, ds', x, q, q', u, hg, hg', hi⟩ := h
  exact ⟨ds, _, x, q, q', u, hg, hf'.bind hg', hi.refuse c wait now⟩

end

variable {o : StreamOptions} {cs : List Chunk}

lemma listen_infiltrated {now wait n : Nat} (p : Progress Scripted)
    (hs : ∀ s r, step uri session o (p.facing s r) = listen session now wait (p.facing s r))
    (ih : ∀ {cs s s' r r'} (q : Progress Scripted) (v : ω), Infiltrates session cs s s' → Fine r → Fine r' →
      ∃ received, received <+: cs ∧ Parallel perform received (steps uri session o n (q.facing s r))
        (steps uri session o (n + received.length) (q.facing s' r')) v)
    (h : Infiltrates session cs s s') (hr : Fine r) (hr' : Fine r') (w : ω) :
    ∃ received, received <+: cs ∧
      Parallel perform received (listen session now wait (p.facing s r) >>= onward uri session o n)
        (listen session now wait (p.facing s' r') >>= onward uri session o (n + received.length)) w := by
  -- On what is put in. It takes no time, so that all of it is received and refused before the stream goes on.
  induction h generalizing r' with
  | nil =>
    obtain ⟨received, hc, hp⟩ := ih _ w .nil hr hr'
    exact ⟨received, hc, hp.after (plays_listen_end now wait p r w) (plays_listen_end now wait p r' w)⟩
  | keep i h =>
    obtain ⟨es, x, q, v, hi⟩ := settled_listen perform session i now wait p w
    obtain ⟨t, ht, hf⟩ := hi _ r hr
    obtain ⟨t', ht', hf'⟩ := hi _ r' hr'
    cases x with
    | some x => exact ⟨[], List.nil_prefix, (parallel_done _ _ _ v).after hf hf'⟩
    | none =>
      obtain ⟨received, hc, hp⟩ := ih q v h ht ht'
      exact ⟨received, hc, hp.after hf hf'⟩
  | @insert c hc cs s s' h ih' =>
    obtain ⟨received, hp, hl⟩ := ih' hr'.tail
    refine ⟨c :: received, List.cons_prefix_cons.mpr ⟨rfl, hp⟩,
      Parallel.refuse (plays_listen_foreign hc hr' now wait p s' w) ?_⟩
    rw [List.length_cons, ← Nat.add_assoc, onward, steps_succ, hs]
    exact hl

lemma step_late (h : o.chunkTimeout.toNat - (p.transport.clock - p.lastResponse) = 0) :
    step uri session o p = done (some (.error .timeout), p) :=
  if_pos h

variable (uri session) in
lemma step_early (h : o.chunkTimeout.toNat - (p.transport.clock - p.lastResponse) ≠ 0) :
    step uri session o p =
      requestIfDue uri session o.requestPeriod.toNat p.transport.clock
        (o.chunkTimeout.toNat - (p.transport.clock - p.lastResponse)) p >>= fun x =>
        match x.1 with
        | .error e => done (some (.error e), x.2)
        | .ok wait => listen session p.transport.clock wait x.2 := by
  apply (if_neg h).trans
  apply congrArg (Feed.bind _) (funext _)
  rintro ⟨x, q⟩
  cases x <;> rfl

variable (perform uri) in
lemma steps_infiltrated (ho : 0 < o.requestPeriod.toNat) (n : Nat) (p : Progress Scripted)
    (h : Infiltrates session cs s s') (hr : Fine r) (hr' : Fine r') (w : ω) :
    ∃ received, received <+: cs ∧ Parallel perform received (steps uri session o n (p.facing s r))
      (steps uri session o (n + received.length) (p.facing s' r')) w := by
  induction n generalizing cs s s' r r' p w with
  | zero => exact ⟨[], List.nil_prefix, parallel_done none _ _ w⟩
  | succ n ih =>
    by_cases hw : o.chunkTimeout.toNat - (p.transport.clock - p.lastResponse) = 0
    · refine ⟨[], List.nil_prefix, ?_⟩
      rw [List.length_nil, Nat.add_zero, steps_succ, steps_succ, step_late (p := p.facing s r) hw,
        step_late (p := p.facing s' r') hw]
      exact parallel_done _ _ _ w
    -- Once a request has gone out, a step at the same moment does nothing but listen.
    · obtain ⟨es, x, q, hc, hl, hq, hx⟩ := requestIfDue_again perform uri session ho
        p.transport.clock (o.chunkTimeout.toNat - (p.transport.clock - p.lastResponse)) p
      have hp (s r) := step_early uri session (p := p.facing s r) hw
      simp only [steps_succ, Nat.add_right_comm n 1, hp, bind_bind]
      cases x with
      | error e => exact ⟨[], List.nil_prefix, (parallel_done _ _ _ w).after (hq s r w) (hq s' r' w)⟩
      | ok wait =>
        have hs (s r) : step uri session o (q.facing s r) =
            listen session p.transport.clock wait (q.facing s r) := by
          rw [← hc, ← hl] at hw hx
          rw [step_early uri session (p := q.facing s r) hw, ← hc]
          exact congrArg (Feed.bind · _) (hx wait rfl s r)
        obtain ⟨received, hp, hl⟩ := listen_infiltrated q hs
          (fun q v h hr hr' => ih q h hr hr' v) h hr hr' w
        exact ⟨received, hp, hl.after (hq s r w) (hq s' r' w)⟩

lemma steps_ended {θ : Type} [Transport θ] {n : Nat} {p : Progress θ} {w : ω} {x : Except Failure Unit}
    (h : ((steps uri session o n p).outcome perform w).1.1 = some x) (k : Nat) :
    ((steps uri session o (n + k) p).outcome perform w).1.1 = some x := by
  induction n generalizing p w with
  | zero => cases h
  | succ n ih =>
    rw [Nat.add_right_comm, steps_succ, outcome, run_bind] at *
    revert h
    rcases ((step uri session o p).run perform (fun _ v => v) w).1 with ⟨_ | y, q⟩
    · exact ih
    · exact id

lemma streamImage_idle {θ : Type} [Transport θ] {q : Requestor θ} (hu : uri.isEmpty = false)
    (hb : q.busy = false) (n : Nat) :
    streamImage n uri o q =
      steps uri (nextSession q.lastSession) o n
        ⟨(Transport.now q.transport).2, true, none, (Transport.now q.transport).1, 0⟩ >>= fun x =>
        done (x.1, { q with transport := x.2.transport, lastSession := nextSession q.lastSession }) := by
  simp only [streamImage, hu, hb]
  rfl

lemma streamImage_ended {θ : Type} [Transport θ] {n : Nat} {q : Requestor θ} {w : ω}
    {x : Except Failure Unit} (h : ((streamImage n uri o q).outcome perform w).1.1 = some x) (k : Nat) :
    ((streamImage (n + k) uri o q).outcome perform w).1.1 = some x := by
  revert h
  simp only [streamImage]
  split
  · exact id
  · split
    · exact id
    · simp only [outcome, run_bind]
      intro h
      exact steps_ended h k

variable (perform uri) in
lemma streamImage_parallel (ho : 0 < o.requestPeriod.toNat) (q : Requestor Scripted)
    (hi : Infiltrates (nextSession q.lastSession) cs q.transport.script s')
    (hr : Fine q.transport.statuses) (hr' : Fine r') (n : Nat) (w : ω) :
    ∃ received, received <+: cs ∧ Parallel perform received (streamImage n uri o q)
      (streamImage (n + received.length) uri o
        { q with transport := { q.transport with script := s', statuses := r' } }) w := by
  by_cases hu : uri.isEmpty = true
  · refine ⟨[], List.nil_prefix, ?_⟩
    simp only [streamImage, hu]
    exact parallel_done _ _ _ w
  · by_cases hb : q.busy = true
    · refine ⟨[], List.nil_prefix, ?_⟩
      simp only [streamImage, hu, hb]
      exact parallel_done _ _ _ w
    · obtain ⟨received, hp, h⟩ := steps_infiltrated perform uri ho n
        ⟨q.transport, true, none, q.transport.clock, 0⟩ hi hr hr' w
      rw [Bool.not_eq_true] at hu hb
      refine ⟨received, hp, ?_⟩
      simp only [streamImage_idle hu, hb]
      let conclude (p : Progress Scripted) : Requestor Scripted :=
        ⟨p.transport, nextSession q.lastSession, false, q.patience⟩
      exact h.map conclude conclude

/-- The second stream does what the first one does, and receives and refuses some chunks besides. -/
structure Undisturbed (perform : SinkCall → EStateM Failure ω Unit) (w : ω) (received : List Chunk)
    (f f' : Feed (Outcome × Requestor Scripted)) : Prop where
  result : (f'.outcome perform w).1.1 = (f.outcome perform w).1.1
  sink : (f'.outcome perform w).2 = (f.outcome perform w).2
  transcript : Interspersed received (f.transcript perform w) (f'.transcript perform w)
  calls : (f'.transcript perform w).filter (·.ofSink) = (f.transcript perform w).filter (·.ofSink)
  requests : (f'.transcript perform w).filter (·.ofRequest) = (f.transcript perform w).filter (·.ofRequest)

lemma Parallel.undisturbed {received : List Chunk} {f f' : Feed (Outcome × Requestor Scripted)} {w : ω}
    (h : Parallel perform received f f' w) : Undisturbed perform w received f f' := by
  obtain ⟨es, es', x, q, q', v, ⟨rfl, hf⟩, ⟨rfl, hf'⟩, hi⟩ := h
  constructor
  · rw [hf, hf']
  · rw [hf, hf']
  · exact hi
  · apply hi.filter <;> intros <;> rfl
  · apply hi.filter <;> intros <;> rfl

/-- A stream ends as it would without the chunks of other sessions that come in between. Those of them
that it receives are refused once each, and nothing else is different. -/
theorem streamImage_infiltrated (perform : SinkCall → EStateM Failure ω Unit) (w : ω) (uri : Text)
    (o : StreamOptions) (ho : 1 ≤ o.requestPeriod) (q : Requestor Scripted) (cs : List Chunk)
    (script : List Incident) (hi : Infiltrates (nextSession q.lastSession) cs q.transport.script script)
    (statuses : List (Except Failure Unit)) (hs : ∀ r ∈ q.transport.statuses, r = .ok ())
    (hs' : ∀ r ∈ statuses, r = .ok ()) :
    let f n := streamImage n uri o q
    let f' n := streamImage n uri o { q with transport := { q.transport with script, statuses } }
    (∀ n, ∃ received, received <+: cs ∧
      Undisturbed perform w received (f n) (f' (n + received.length))) ∧
    ∀ n r, ((f' n).outcome perform w).1.1 = some r → ((f n).outcome perform w).1.1 = some r := by
  have hp (n : Nat) := streamImage_parallel perform uri ho q hi hs hs' n w
  constructor
  · intro n
    obtain ⟨received, hc, h⟩ := hp n
    exact ⟨received, hc, h.undisturbed⟩
  · intro n r hn
    obtain ⟨received, -, h⟩ := hp n
    rw [← h.undisturbed.result]
    exact streamImage_ended hn received.length

def stale : Chunk := ⟨42, 9, 0, [7, 7], true⟩

def briefScript : List Incident :=
  [⟨.nothing, id⟩, ⟨.chunk ⟨0, 0, 0, [1, 2], false⟩ true, fun _ => 10⟩,
    ⟨.chunk ⟨0, 1, 2, [3], true⟩ true, fun _ => 10⟩]

def staleScript : List Incident :=
  ⟨.chunk stale false, fun _ => 0⟩ :: briefScript.take 2 ++ ⟨.chunk stale false, fun _ => 0⟩ ::
    briefScript.drop 2 ++ [⟨.chunk stale false, fun _ => 0⟩]

lemma infiltrates_stale : Infiltrates 1 [stale, stale, stale] briefScript staleScript :=
  .insert (by decide) (.keep _ (.keep _ (.insert (by decide) (.keep _ (.insert (by decide) .nil)))))

def briefly (script : List Incident) (n : Nat) : Feed (Outcome × Requestor Scripted) :=
  streamImage n ⟨[0x7a], rfl⟩ ⟨500, 100⟩ (ofTransport ⟨0, 0, script, id, [], []⟩ 0)

/-- The third stale chunk comes too late to be received. -/
theorem streamImage_infiltrated_stale :
    Infiltrates 1 [stale, stale, stale] briefScript staleScript ∧
    ((∀ n, ∃ received, received <+: [stale, stale, stale] ∧
      Undisturbed Sink.call (⟨[]⟩ : Buffer) received (briefly briefScript n)
        (briefly staleScript (n + received.length))) ∧
    ∀ n r, ((briefly staleScript n).outcome Sink.call (⟨[]⟩ : Buffer)).1.1 = some r →
      ((briefly briefScript n).outcome Sink.call (⟨[]⟩ : Buffer)).1.1 = some r) ∧
    ((briefly briefScript 3).outcome Sink.call (⟨[]⟩ : Buffer)).1.1 = some (.ok ()) ∧
    ((briefly staleScript 4).outcome Sink.call (⟨[]⟩ : Buffer)).1.1 = none ∧
    ((briefly staleScript 5).outcome Sink.call (⟨[]⟩ : Buffer)).1.1 = some (.ok ()) :=
  ⟨infiltrates_stale,
    streamImage_infiltrated Sink.call (⟨[]⟩ : Buffer) ⟨[0x7a], rfl⟩ ⟨500, 100⟩ (by decide)
      (ofTransport ⟨0, 0, briefScript, id, [], []⟩ 0) [stale, stale, stale] staleScript infiltrates_stale []
      (List.forall_mem_nil _) (List.forall_mem_nil _),
    by decide +kernel, by decide +kernel, by decide +kernel⟩

end Requestor

end Firmware
