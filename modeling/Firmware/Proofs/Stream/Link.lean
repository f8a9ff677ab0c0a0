import Firmware.Proofs.Computation
import Firmware.Proofs.Stream.Serving

/-!
A channel with a provider that works at the other end. Between any two operations of the requestor the
provider acts as often and in whatever way its schedule says.
-/

namespace Firmware

/-- What a provider does next: it receives a request, begins to serve one that it has received, queues
the next chunk if there is room, or goes away. -/
inductive Link.Act where
  | take
  | serve (i : Nat) (pattern : List Nat)
  | send
  | leave

structure Link (images : Text → Bytes) where
  channel : Channel
  received : List Request
  serving : List Chunk
  schedule : Nat → List Link.Act
  clock : Nat → Nat
  count : Nat

lemma Channel.enqueue_eq_ok {chunk : Chunk} {c c' : Channel} {u : Unit}
    (h : enqueue chunk c = .ok u c') : c' = { c with chunks := c.chunks ++ [chunk] } := by
  simp only [enqueue] at h
  rw [EStateM.bind_run, EStateM.get_run] at h
  dsimp only at h
  split at h
  · split at h
    · cases h
      rfl
    · cases h
  · cases h

lemma Channel.receive_run (c : Channel) :
    receive c =
      match c.chunks with
      | chunk :: rest => .ok (some chunk) { c with chunks := rest }
      | [] => if c.providing then .ok none c else .error .io c := by
  rw [receive, EStateM.bind_run, EStateM.get_run]
  dsimp only
  cases c.chunks with
  | cons chunk rest => rfl
  | nil =>
    dsimp only
    split <;> rfl

namespace Link

variable {images : Text → Bytes} {α : Type}

def start (images : Text → Bytes) (capacity : Nat) (schedule : Nat → List Act) (clock : Nat → Nat) :
    Link images :=
  ⟨Channel.ofCapacity capacity, [], [], schedule, clock, 0⟩

def act (k : Link images) : Act → Link images
  | .take =>
    match k.channel.nextRequest with
    | (some r, c) => { k with channel := c, received := k.received ++ [r] }
    | (none, _) => k
  | .serve i pattern =>
    match k.serving, k.received[i]? with
    | [], some r =>
      match Channel.chunksOf r.session (images r.uri) pattern with
      | .ok cs => { k with serving := cs }
      | .error _ => k
    | _, _ => k
  | .send =>
    match k.serving with
    | [] => k
    | c :: cs =>
      match Channel.enqueue c k.channel with
      | .ok () ch => { k with channel := ch, serving := cs }
      | .error .. => k
  | .leave => { k with channel := k.channel.dropProviding, received := [], serving := [] }

def turn (k : Link images) : Link images :=
  { (k.schedule k.count).foldl act k with count := k.count + 1 }

/-- Runs an operation of the requestor after a turn of the provider. -/
def after (f : EStateM Failure Channel α) : EStateM Failure (Link images) α := do
  modify turn
  onPart channel (fun k c => { k with channel := c }) f

instance : Transport (Link images) where
  now k := (k.clock k.count, k.turn)
  request uri session := after (Channel.sendRequest ⟨uri, session⟩)
  receive _ := after Channel.receive
  status session id st := after (modify (Channel.sendStatus ⟨session, id, st⟩))

/-- All requests are of the present session or earlier ones, and what is in flight lands. A provider
that has gone away owes the rest of what it served. -/
structure Sound (uri : Text) (session : UInt32) (p : Nat) (k : Link images) : Prop where
  requests : ∀ r ∈ k.channel.requests ++ k.received, Asked uri session r
  gone : k.channel.providing = false → k.channel.requests = [] ∧ k.received = [] ∧ k.serving = []
  flight : ∃ owed, (k.channel.providing = true → owed = []) ∧
    Flight images uri session p (k.channel.chunks ++ k.serving ++ owed)

variable {uri : Text} {session : UInt32} {p : Nat} {k : Link images}

lemma sound_start (capacity : Nat) (schedule : Nat → List Act) (clock : Nat → Nat) :
    (start images capacity schedule clock).Sound uri session 0 where
  requests _ h := by cases h
  gone h := by cases h
  flight := ⟨[], fun _ => rfl, .between .nil⟩

lemma Sound.renew {uri' : Text} {session' : UInt32} (h : k.Sound uri session p)
    (hs : session.toNat < session'.toNat) : k.Sound uri' session' 0 where
  requests r hr := by
    have ha := (h.requests r hr).1
    refine ⟨by omega, fun he => ?_⟩
    rw [he] at ha
    omega
  gone := h.gone
  flight := by
    obtain ⟨owed, ho, hf⟩ := h.flight
    exact ⟨owed, ho, hf.renew hs⟩

lemma Sound.take (h : k.Sound uri session p) : (k.act .take).Sound uri session p := by
  simp only [act, Channel.nextRequest]
  cases hc : k.channel.requests with
  | nil => exact h
  | cons r rs =>
    refine ⟨fun q hq => h.requests q ?_, fun hg => ?_, h.flight⟩
    · rw [hc]
      simpa [or_comm, or_left_comm, or_assoc] using hq
    · rw [(h.gone hg).1] at hc
      cases hc

lemma Sound.serve (h : k.Sound uri session p) (i : Nat) (pattern : List Nat) :
    (k.act (.serve i pattern)).Sound uri session p := by
  simp only [act]
  split
  · rename_i r hs hr
    split
    · rename_i cs hc
      have hm := List.mem_of_getElem? hr
      have hp : k.channel.providing = true := by
        by_contra hp
        rw [(h.gone (by simpa using hp)).2.1] at hm
        cases hm
      obtain ⟨owed, ho, hf⟩ := h.flight
      rw [hs, ho hp, List.append_nil, List.append_nil] at hf
      refine ⟨h.requests, fun hg => ?_, [], fun _ => rfl, ?_⟩
      · cases hp.symm.trans hg
      · rw [List.append_nil]
        exact hf.append (h.requests r (List.mem_append_right _ hm)) (Channel.chunksOf_delivers hc)
    · exact h
  · exact h

lemma Sound.send (h : k.Sound uri session p) : (k.act .send).Sound uri session p := by
  simp only [act]
  split
  · exact h
  · rename_i c cs hs
    split
    · rename_i ch he
      have hc := Channel.enqueue_eq_ok he
      obtain ⟨owed, ho, hf⟩ := h.flight
      subst hc
      rw [hs] at hf
      refine ⟨h.requests, fun hg => ?_, owed, ho, ?_⟩
      · rw [(h.gone hg).2.2] at hs
        cases hs
      · simpa using hf
    · exact h

lemma Sound.leave (h : k.Sound uri session p) : (k.act .leave).Sound uri session p where
  requests _ hr := by cases hr
  gone _ := ⟨rfl, rfl, rfl⟩
  flight := by
    obtain ⟨owed, -, hf⟩ := h.flight
    refine ⟨k.serving ++ owed, fun hp => ?_, ?_⟩
    · cases hp
    · simpa [Link.act, Channel.dropProviding] using hf

lemma Sound.act (h : k.Sound uri session p) (a : Act) : (k.act a).Sound uri session p := by
  cases a with
  | take => exact h.take
  | serve i pattern => exact h.serve i pattern
  | send => exact h.send
  | leave => exact h.leave

lemma Sound.turn (h : k.Sound uri session p) : k.turn.Sound uri session p := by
  have ht (as : List Act) : ∀ k : Link images, k.Sound uri session p →
      (as.foldl Link.act k).Sound uri session p := by
    induction as with
    | nil => exact fun _ h => h
    | cons a as ih => exact fun k h => ih _ (h.act a)
  exact { ht (k.schedule k.count) k h with }

lemma Sound.now (h : k.Sound uri session p) : (Transport.now k).2.Sound uri session p := h.turn

lemma after_run (f : EStateM Failure Channel α) (k : Link images) :
    after f k = onPart channel (fun k c => { k with channel := c }) f k.turn := rfl

lemma Sound.request (h : k.Sound uri session p) :
    (stateAfter (Transport.request uri session k)).Sound uri session p := by
  have ht := h.turn
  change (stateAfter (after (Channel.sendRequest ⟨uri, session⟩) k)).Sound uri session p
  rw [after_run, stateAfter_onPart, Channel.sendRequest, EStateM.bind_run, EStateM.get_run]
  dsimp only
  split
  · rename_i hp
    refine ⟨fun r hr => ?_, fun hg => ?_, ht.flight⟩
    · have hm : r ∈ k.turn.channel.requests ++ k.turn.received ∨ r = ⟨uri, session⟩ := by
        simpa [or_comm, or_left_comm, or_assoc] using hr
      rcases hm with hm | rfl
      · exact ht.requests r hm
      · exact ⟨Nat.le_refl _, fun _ => rfl⟩
    · cases hp.symm.trans hg
  · exact { ht with }

lemma Sound.status (h : k.Sound uri session p) (i id : UInt32) (st : ChunkStatus) :
    ∃ k', Transport.status i id st k = .ok () k' ∧ k'.Sound uri session p := by
  have ht := h.turn
  refine ⟨_, rfl, ?_⟩
  change Sound uri session p { k.turn with channel := k.turn.channel.sendStatus ⟨i, id, st⟩ }
  rw [Channel.sendStatus]
  split <;> exact { ht with }

inductive Receives (uri : Text) (session : UInt32) (p : Nat) :
    EStateM.Result Failure (Link images) (Option Chunk) → Prop
  | none {k : Link images} : k.Sound uri session p → Receives uri session p (.ok none k)
  | error {e : Failure} {k : Link images} : k.Sound uri session p → Receives uri session p (.error e k)
  | some {c : Chunk} {k : Link images} : Lands (images uri) session p c (k.Sound uri session ·) →
      Receives uri session p (.ok (some c) k)

lemma Sound.receive (h : k.Sound uri session p) (wait : Nat) :
    Receives uri session p (Transport.receive wait k) := by
  obtain ⟨hr, hg, owed, ho, hf⟩ := h.turn
  change Receives uri session p (after Channel.receive k)
  rw [after_run, onPart, Channel.receive_run]
  cases hc : k.turn.channel.chunks with
  | nil =>
    cases hp : k.turn.channel.providing with
    | true => exact .none h.turn
    | false => exact .error h.turn
  | cons c cs =>
    rw [hc] at hf
    exact .some (hf.lands.mono fun q hq => ⟨hr, hg, owed, ho, hq⟩)

end Link

end Firmware
