import Firmware.Proofs.Stream.Link

/-!
Streaming over a channel delivers the image that was asked for. In between the buffer holds what has
come of it, whatever else is in flight from earlier sessions and repeated requests.
-/

namespace Firmware

namespace Feed

variable {α β ω : Type} [Sink ω]

def visits : Feed α → ω → List ω
  | done _, w => [w]
  | note _ next, w => next.visits w
  | call c next, w =>
    w :: match Sink.call c w with
      | .ok () v => (next (.ok ())).visits v
      | .error e v => (next (.error e)).visits v

lemma getLast?_visits (f : Feed α) (w : ω) : (f.visits w).getLast? = some (f.into w).2 := by
  induction f generalizing w with
  | done a => rfl
  | note n next ih => exact ih w
  | call c next ih =>
    rw [visits, List.getLast?_cons, into, run]
    cases Sink.call c w with
    | ok u v => rw [ih, Option.getD_some, into]
    | error e v => rw [ih, Option.getD_some, into]

/-- From a sink on, a feed visits states in `I` only, and ends in `Q`. -/
def Keeps (I : ω → Prop) (Q : α → ω → Prop) : Feed α → ω → Prop
  | done a, w => I w ∧ Q a w
  | note _ next, w => next.Keeps I Q w
  | call c next, w =>
    I w ∧ match Sink.call c w with
      | .ok () v => (next (.ok ())).Keeps I Q v
      | .error e v => (next (.error e)).Keeps I Q v

variable {I : ω → Prop} {P : α → ω → Prop} {Q : β → ω → Prop}

lemma Keeps.bind {f : Feed α} {g : α → Feed β} {w : ω} (hf : f.Keeps I P w)
    (hg : ∀ a v, I v → P a v → (g a).Keeps I Q v) : (f >>= g).Keeps I Q w := by
  change (f.bind g).Keeps I Q w
  induction f generalizing w with
  | done a => exact hg a w hf.1 hf.2
  | note n next ih => exact ih hf
  | call c next ih =>
    rw [Keeps] at hf
    obtain ⟨hw, hf⟩ := hf
    rw [Feed.bind, Keeps]
    refine ⟨hw, ?_⟩
    revert hf
    cases Sink.call c w with
    | ok u v => exact ih _
    | error e v => exact ih _

lemma Keeps.mono {Q : α → ω → Prop} {f : Feed α} {w : ω} (hf : f.Keeps I P w)
    (hPQ : ∀ a v, I v → P a v → Q a v) : f.Keeps I Q w := by
  induction f generalizing w with
  | done a => exact ⟨hf.1, hPQ a w hf.1 hf.2⟩
  | note n next ih => exact ih hf
  | call c next ih =>
    rw [Keeps] at hf ⊢
    refine ⟨hf.1, ?_⟩
    replace hf := hf.2
    revert hf
    cases Sink.call c w with
    | ok u v => exact ih _
    | error e v => exact ih _

lemma Keeps.visits {f : Feed α} {w : ω} (hf : f.Keeps I P w) : ∀ v ∈ f.visits w, I v := by
  induction f generalizing w with
  | done a => simpa [Feed.visits] using hf.1
  | note n next ih => exact ih hf
  | call c next ih =>
    rw [Keeps] at hf
    obtain ⟨hw, hf⟩ := hf
    rw [Feed.visits, List.forall_mem_cons]
    refine ⟨hw, ?_⟩
    revert hf
    cases Sink.call c w with
    | ok u v => exact ih _
    | error e v => exact ih _

lemma Keeps.into {f : Feed α} {w : ω} (hf : f.Keeps I P w) : P (f.into w).1 (f.into w).2 := by
  induction f generalizing w with
  | done a => exact hf.2
  | note n next ih => exact ih hf
  | call c next ih =>
    rw [Keeps] at hf
    replace hf := hf.2
    rw [Feed.into, Feed.run]
    revert hf
    cases Sink.call c w with
    | ok u v => exact ih _
    | error e v => exact ih _

end Feed

open Feed

namespace Requestor

variable {images : Text → Bytes} {uri : Text} {session : UInt32} {b : Buffer} {I : Buffer → Prop}

lemma keeps_writeChunk {c : Chunk} {p : Nat} (hp : c.offset.toNat = p)
    (hl : p + c.data.length < 0x100000000) (hb : I b) (hw : I ⟨b.contents ++ c.data⟩) :
    (writeChunk c p).Keeps I (fun r v => r = .ok (p + c.data.length) ∧ v = ⟨b.contents ++ c.data⟩) b := by
  have h1 : ¬0x100000000 ≤ c.data.length := by omega
  have h2 : ¬0x100000000 ≤ p + c.data.length := by omega
  simp only [writeChunk, hp, h1, h2, ↓reduceIte]
  change Feed.Keeps I _ (if c.data.isEmpty = true then _ else _) b
  split
  · rename_i he
    rw [List.isEmpty_iff] at he
    exact ⟨hb, by simp [he], by simp [he]⟩
  · exact ⟨hb, hw, rfl, rfl⟩

structure Stands (uri : Text) (session : UInt32) (p : Progress (Link images)) (b : Buffer) : Prop where
  link : p.transport.Sound uri session p.position
  contents : b.contents = (images uri).take p.position

def Leads (uri : Text) (session : UInt32) (x : Outcome × Progress (Link images)) (b : Buffer) : Prop :=
  match x.1 with
  | none => Stands uri session x.2 b
  | some r => (∃ q, x.2.transport.Sound uri session q) ∧ (r = .ok () → b.contents = images uri)

variable {p : Progress (Link images)}

lemma keeps_report {q : Nat} (h : p.transport.Sound uri session q) (hb : I b) (i id : UInt32)
    (st : ChunkStatus) (last : Bool) :
    (report i id st last p).Keeps I (fun x v => v = b ∧ x.1 = (if last then some (.ok ()) else none) ∧
      x.2.position = p.position ∧ x.2.transport.Sound uri session q) b := by
  obtain ⟨k, hk, hs⟩ := h.status i id st
  rw [report, exchange, hk]
  exact ⟨hb, rfl, rfl, rfl, hs⟩

lemma keeps_current {c : Chunk} (hi : (images uri).length < 0x100000000)
    (hs : b.contents = (images uri).take p.position) (hc : c.session = session)
    (ho : c.offset = UInt32.ofNat p.position) (hp : p.position + c.data.length ≤ (images uri).length)
    (hd : (images uri).take p.position ++ c.data = (images uri).take (p.position + c.data.length))
    {q : Nat} (h : p.transport.Sound uri session q)
    (hl : c.last = false → q = p.position + c.data.length)
    (hw : c.last = true → p.position + c.data.length = (images uri).length) :
    (handle session c p).Keeps (·.contents <+: images uri) (Leads uri session) b := by
  have hn : c.offset.toNat = p.position := by
    rw [ho]
    exact UInt32.toNat_ofNat_of_lt' (by change p.position < 2 ^ 32; omega)
  have hv : b.contents ++ c.data = (images uri).take (p.position + c.data.length) := by rw [hs, hd]
  have hI {k : Nat} : (images uri).take k <+: images uri := List.take_prefix k _
  simp only [handle, hc, ne_eq, not_true_eq_false, ↓reduceIte]
  refine (keeps_writeChunk hn (by omega) (hs ▸ hI) (hv ▸ hI)).bind fun r v _ hr => ?_
  obtain ⟨rfl, rfl⟩ := hr
  refine (keeps_report (p := { p with
    pending := false, lastResponse := _, transport := _, position := p.position + c.data.length })
    h.now (hv ▸ hI) session c.id .processed c.last).mono fun x v _ hx => ?_
  obtain ⟨rfl, hx, hq, hs⟩ := hx
  rw [Leads, hx]
  cases hc : c.last with
  | true => exact ⟨⟨q, hs⟩, fun _ => by rw [hv, hw hc, List.take_length]⟩
  | false =>
    refine ⟨?_, ?_⟩
    · rw [hq, ← hl hc]
      exact hs
    · rw [hq]
      exact hv

lemma keeps_handle (hi : (images uri).length < 0x100000000)
    (hs : b.contents = (images uri).take p.position) {c : Chunk}
    (h : Lands (images uri) session p.position c (p.transport.Sound uri session ·)) :
    (handle session c p).Keeps (·.contents <+: images uri) (Leads uri session) b := by
  cases h with
  | stale hn h =>
    rw [handle, if_pos hn]
    refine (keeps_report h (hs ▸ List.take_prefix _ _) c.session c.id .refused false).mono ?_
    rintro x v - ⟨rfl, hx, hq, hk⟩
    rw [Leads, hx]
    exact ⟨hq ▸ hk, hq ▸ hs⟩
  | last hc ho hp hd hl h =>
    obtain ⟨q, h⟩ := h
    have hz : c.data.length = (images uri).length - p.position := by rw [hd, List.length_drop]
    refine keeps_current hi hs hc ho (by omega) ?_ h (fun he => ?_) fun _ => by omega
    · rw [hd, List.take_append_drop, ← hd, hz, Nat.add_sub_cancel' hp, List.take_length]
    · cases hl.symm.trans he
  | more n hc ho hp hd hl h =>
    have hz : c.data.length = n := by
      rw [hd, List.length_take, List.length_drop]
      omega
    refine keeps_current hi hs hc ho (by omega) ?_ h (fun _ => by rw [hz]) fun he => ?_
    · rw [hz, hd, List.take_add]
    · cases hl.symm.trans he

lemma Stands.written (h : Stands uri session p b) : b.contents <+: images uri := by
  rw [h.contents]
  exact List.take_prefix _ _

lemma keeps_requestIfDue (h : Stands uri session p b) (period now wait : Nat) :
    (requestIfDue uri session period now wait p).Keeps (·.contents <+: images uri)
      (fun x v => Stands uri session x.2 v) b := by
  rw [requestIfDue]
  split
  · exact ⟨h.written, h⟩
  · split
    · have hk := h.link.request
      rw [exchange]
      generalize Transport.request uri session p.transport = r at hk
      cases r with
      | ok u k => exact ⟨h.written, hk, h.contents⟩
      | error e k => exact ⟨h.written, hk, h.contents⟩
    · exact ⟨h.written, h⟩

lemma keeps_step (hi : (images uri).length < 0x100000000) (h : Stands uri session p b)
    (o : StreamOptions) :
    (step uri session o p).Keeps (·.contents <+: images uri) (Leads uri session) b := by
  have hs : Stands uri session { p with transport := (Transport.now p.transport).2 } b :=
    ⟨h.link.now, h.contents⟩
  rw [step]
  dsimp only
  split
  · exact ⟨hs.written, ⟨_, hs.link⟩, nofun⟩
  · refine (keeps_requestIfDue hs _ _ _).bind fun x v hv hs => ?_
    obtain ⟨r, q⟩ := x
    cases r with
    | error e => exact ⟨hv, ⟨_, hs.link⟩, nofun⟩
    | ok wait =>
      have hr := hs.link.receive wait
      dsimp only
      rw [exchange]
      generalize Transport.receive wait q.transport = r at hr
      cases hr with
      | none hk => exact ⟨hv, hk, hs.contents⟩
      | error hk => exact ⟨hv, ⟨_, hk⟩, nofun⟩
      | @some c k hc => exact keeps_handle (p := { q with transport := k }) hi hs.contents hc

lemma keeps_steps (hi : (images uri).length < 0x100000000) (h : Stands uri session p b)
    (o : StreamOptions) (n : Nat) :
    (steps uri session o n p).Keeps (·.contents <+: images uri) (Leads uri session) b := by
  induction n generalizing p b with
  | zero => exact ⟨h.written, h⟩
  | succ n ih =>
    refine (keeps_step hi h o).bind fun x v hv hx => ?_
    obtain ⟨r, q⟩ := x
    cases r with
    | none => exact ih hx
    | some r => exact ⟨hv, hx⟩

lemma nextSession_toNat {last : UInt32} (h : last.toNat + 1 < 0x100000000) :
    (nextSession last).toNat = last.toNat + 1 := by
  have hl : (last + 1).toNat = last.toNat + 1 := by
    rw [UInt32.toNat_add]
    exact Nat.mod_eq_of_lt h
  rw [nextSession, if_neg fun h0 => ?_, hl]
  rw [h0] at hl
  cases hl

structure Idle (q : Requestor (Link images)) : Prop where
  busy : q.busy = false
  link : ∃ uri p, q.transport.Sound uri q.lastSession p

structure Concludes (uri : Text) (q : Requestor (Link images))
    (x : Outcome × Requestor (Link images)) (b : Buffer) : Prop where
  idle : x.1.isSome → x.2.Idle
  session : x.2.lastSession.toNat ≤ q.lastSession.toNat + 1
  whole : x.1 = some (.ok ()) → b.contents = images uri

lemma Idle.keeps {q : Requestor (Link images)} (hi : (images uri).length < 0x100000000) (h : q.Idle)
    (hq : q.lastSession.toNat + 1 < 0x100000000) (o : StreamOptions) (n : Nat) :
    (streamImage n uri o q).Keeps (·.contents <+: images uri) (Concludes uri q) ⟨[]⟩ := by
  have he : ([] : Bytes) <+: images uri := List.nil_prefix
  obtain ⟨u, p, hs⟩ := h.link
  have hn := nextSession_toNat hq
  rw [streamImage, h.busy]
  dsimp only
  split
  · exact ⟨he, fun _ => h, Nat.le_succ _, nofun⟩
  · have hl : (Transport.now q.transport).2.Sound uri (nextSession q.lastSession) 0 :=
      (hs.renew (by omega)).now
    refine (keeps_steps (b := ⟨[]⟩) (p := ⟨_, true, none, _, 0⟩) hi ⟨hl, rfl⟩ o n).bind ?_
    rintro ⟨r, p⟩ v hv hx
    cases r with
    | none => exact ⟨hv, nofun, Nat.le_of_eq hn, nofun⟩
    | some r =>
      obtain ⟨⟨k, hk⟩, hr⟩ := hx
      exact ⟨hv, fun _ => ⟨rfl, uri, k, hk⟩, Nat.le_of_eq hn, fun he => hr (Option.some.inj he)⟩

structure Streamed where
  uri : Text
  outcome : Outcome
  /-- What the sink has held, from the first moment on. -/
  history : List Bytes

/-- Streams into a new buffer each time, with so many receives at most. A stream that has not ended by
then is the last one. -/
def streams : List (Text × StreamOptions × Nat) → Requestor (Link images) → List Streamed
  | [], _ => []
  | (uri, o, n) :: calls, q =>
    let f := streamImage n uri o q
    let (r, q) := (f.into (⟨[]⟩ : Buffer)).1
    ⟨uri, r, (f.visits (⟨[]⟩ : Buffer)).map (·.contents)⟩ :: if r.isSome then streams calls q else []

def Streamed.Faithful (images : Text → Bytes) (x : Streamed) : Prop :=
  (∀ s ∈ x.history, s <+: images x.uri) ∧
    (x.outcome = some (.ok ()) → x.history.getLast? = some (images x.uri))

lemma Idle.streams (hi : ∀ uri, (images uri).length < 0x100000000)
    (calls : List (Text × StreamOptions × Nat)) {q : Requestor (Link images)} (h : q.Idle)
    (hq : q.lastSession.toNat + calls.length < 0x100000000) :
    ∀ x ∈ q.streams calls, x.Faithful images := by
  induction calls generalizing q with
  | nil => exact List.forall_mem_nil _
  | cons call calls ih =>
    obtain ⟨uri, o, n⟩ := call
    rw [List.length_cons] at hq
    have hk := h.keeps (hi uri) (by omega) o n
    have he := hk.into
    rw [Requestor.streams, List.forall_mem_cons]
    refine ⟨⟨?_, fun ho => ?_⟩, ?_⟩
    · rw [List.forall_mem_map]
      exact hk.visits
    · rw [List.getLast?_map, getLast?_visits, Option.map_some, he.whole ho]
    · split
      · exact ih (he.idle ‹_›) (Nat.lt_of_le_of_lt (Nat.add_le_add_right he.session _) (by omega))
      · exact List.forall_mem_nil _

/-- Streams over a channel, one after the other, deliver the images that they ask for, whatever the
provider serves and whenever it does. -/
theorem streams_deliver (images : Text → Bytes) (hi : ∀ uri, (images uri).length < 0x100000000)
    (capacity : Nat) (schedule : Nat → List Link.Act) (clock : Nat → Nat) (patience : Nat)
    (calls : List (Text × StreamOptions × Nat)) (hc : calls.length < 0xffffffff) :
    ∀ x ∈ (ofTransport (Link.start images capacity schedule clock) patience).streams calls,
      (∀ s ∈ x.history, s <+: images x.uri) ∧
        (x.outcome = some (.ok ()) → x.history.getLast? = some (images x.uri)) :=
  Idle.streams hi calls ⟨rfl, default, 0, Link.sound_start capacity schedule clock⟩ (by
    change 0 + calls.length < _
    omega)

def twoNames : Text × Text := (⟨[0x61], rfl⟩, ⟨[0x62], rfl⟩)

def twoImages (uri : Text) : Bytes := if uri = twoNames.1 then [1, 2, 3] else [4, 5]

lemma length_twoImages (uri : Text) : (twoImages uri).length < 0x100000000 := by
  rw [twoImages]
  split <;> decide

/-- Serves one byte at a time, in answer to the first request for a while and to the second one then. -/
def lateSchedule (n : Nat) : List Link.Act := [.take, .serve (if n < 9 then 0 else 1) [1], .send]

/-- A stream times out, and the next one gets its image behind what is left of the first and of a
repeated serving. -/
theorem streams_deliver_afterTimeout :
    let q := ofTransport (Link.start twoImages 2 lateSchedule fun n => if n < 6 then 0 else 5000) 0
    let calls := [(twoNames.1, ⟨5000, 0⟩, 9), (twoNames.2, ⟨5000, 0⟩, 9)]
    (∀ x ∈ q.streams calls, (∀ s ∈ x.history, s <+: twoImages x.uri) ∧
      (x.outcome = some (.ok ()) → x.history.getLast? = some (twoImages x.uri))) ∧
    (q.streams calls).map (fun x => (x.outcome, x.history)) =
      [(some (.error .timeout), [[], [1]]), (some (.ok ()), [[], [4], [4, 5]])] :=
  ⟨streams_deliver twoImages length_twoImages 2 lateSchedule _ 0 _ (by decide), by decide +kernel⟩

end Requestor

end Firmware
