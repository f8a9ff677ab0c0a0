import Firmware.Proofs.Stream.Candor

/-!
What one step of a stream can do: the happenings of it, how it ends, and what it leaves the transport and
the stream in. Everything about whole streams is derived from this.
-/

namespace Firmware

open Feed

def Chunk.stop (c : Chunk) : Nat := c.offset.toNat + c.data.length

namespace Requestor

variable {θ ω : Type} {perform : SinkCall → EStateM Failure ω Unit}

def callsFor (position : Nat) (c : Chunk) : List SinkCall :=
  (if c.offset.toNat = position then [] else [.seek c.offset.toNat]) ++
    if c.data.isEmpty then [] else [.write c.data]

def accepted (c : SinkCall) : Happening := .call c (.ok ())

/-- How writing a chunk goes. It fails at the first call that is refused, and for a chunk that does not end
within 32 bits, without a call. -/
inductive Writes (position : Nat) (c : Chunk) : List Happening → Except Failure Nat → Prop
  | written : c.stop < 0x100000000 → Writes position c ((callsFor position c).map accepted) (.ok c.stop)
  | long {e : Failure} : 0x100000000 ≤ c.stop → Writes position c [] (.error e)
  | refused (before : List SinkCall) {k : SinkCall} {e : Failure} : before ++ [k] <+: callsFor position c →
      Writes position c (before.map accepted ++ [.call k (.error e)]) (.error e)

lemma always_write_rest {position : Nat} {c : Chunk} {before : List SinkCall} (hs : c.stop < 0x100000000)
    (hk : callsFor position c = before ++ if c.data.isEmpty then [] else [.write c.data]) :
    (if c.data.isEmpty then return .ok c.offset.toNat
      else do
        match ← ask (.write c.data) with
        | .error e => return .error e
        | .ok () => return .ok (c.offset.toNat + c.data.length) : Feed (Except Failure Nat)).Always perform
      fun es r => Writes position c (before.map accepted ++ es) r := by
  have hw : Writes position c ((callsFor position c).map accepted) (.ok c.stop) := .written hs
  rw [hk, List.map_append] at hw
  split
  · rename_i he
    rw [if_pos he, Chunk.stop, List.isEmpty_iff.mp he] at hw
    exact always_pure hw
  · rename_i he
    rw [if_neg he] at hk hw
    refine always_call fun r => ?_
    cases r with
    | ok u => exact always_pure hw
    | error e => exact always_pure (.refused before (hk ▸ List.prefix_refl _))

lemma always_writes (c : Chunk) (position : Nat) : (writeChunk c position).Always perform (Writes position c) := by
  simp only [writeChunk]
  split
  · exact always_pure (.long (Nat.le_add_left_of_le ‹_›))
  split
  · exact always_pure (.long ‹_›)
  have hs : c.stop < 0x100000000 := Nat.not_le.mp ‹_›
  split
  · rename_i ho
    have hk : callsFor position c = [] ++ if c.data.isEmpty then [] else [.write c.data] := by
      rw [callsFor, if_pos ho]
    exact always_write_rest hs hk
  · rename_i ho
    have hk : callsFor position c =
        [.seek c.offset.toNat] ++ if c.data.isEmpty then [] else [.write c.data] := by
      rw [callsFor, if_neg ho]
    refine always_call fun r => ?_
    cases r with
    | ok u => exact always_write_rest hs hk
    | error e => exact always_pure (.refused [] (hk ▸ List.prefix_append _ _))

variable [Transport θ]

def opened (q : Requestor θ) : Progress θ :=
  ⟨(Transport.now q.transport).2, true, none, (Transport.now q.transport).1, 0⟩

inductive Reports (session id : UInt32) (st : ChunkStatus) (last : Bool) (p : Progress θ) :
    List Happening → Outcome × Progress θ → Prop
  | delivered {t : θ} : Transport.status session id st p.transport = .ok () t →
      Reports session id st last p [.note (.status session id st (.ok ()))]
        (if last then some (.ok ()) else none, { p with transport := t })
  | lost {e : Failure} {t : θ} : Transport.status session id st p.transport = .error e t →
      Reports session id st last p [.note (.status session id st (.error e))]
        (some (.error e), { p with transport := t })

lemma always_reports (session id : UInt32) (st : ChunkStatus) (last : Bool) (p : Progress θ) :
    (report session id st last p).Always perform (Reports session id st last p) := by
  refine always_note ?_
  cases h : Transport.status session id st p.transport with
  | ok u t => exact always_pure (.delivered h)
  | error e t => exact always_pure (.lost h)

lemma Reports.position {session id : UInt32} {st : ChunkStatus} {last : Bool} {p : Progress θ}
    {es : List Happening} {x : Outcome × Progress θ} (h : Reports session id st last p es x) :
    x.2.position = p.position := by
  cases h with
  | delivered _ => rfl
  | lost _ => rfl

lemma Reports.silent {session id : UInt32} {st : ChunkStatus} {last : Bool} {p : Progress θ}
    {es : List Happening} {x : Outcome × Progress θ} (h : Reports session id st last p es x) : Silent es := by
  cases h with
  | delivered _ => simp
  | lost _ => simp

def Progress.served (p : Progress θ) : Progress θ :=
  { p with
    pending := false
    lastResponse := (Transport.now p.transport).1
    transport := (Transport.now p.transport).2 }

inductive Handles (session : UInt32) (c : Chunk) (p : Progress θ) : List Happening → Outcome × Progress θ → Prop
  | foreign {es : List Happening} {x : Outcome × Progress θ} : c.session ≠ session →
      Reports c.session c.id .refused false p es x → Handles session c p es x
  | written {calls es : List Happening} {position : Nat} {x : Outcome × Progress θ} : c.session = session →
      Writes p.position c calls (.ok position) →
      Reports session c.id .processed c.last { p.served with position } es x → Handles session c p (calls ++ es) x
  | failed {calls es : List Happening} {e : Failure} {x : Outcome × Progress θ} : c.session = session →
      Writes p.position c calls (.error e) → Reports session c.id .refused false p.served es x →
      Handles session c p (calls ++ es) (some (.error (sinkFailure e)), x.2)

lemma always_handles (session : UInt32) (c : Chunk) (p : Progress θ) :
    (handle session c p).Always perform (Handles session c p) := by
  simp only [handle]
  split
  · exact (always_reports ..).mono fun _ _ => .foreign ‹_›
  · rename_i hc
    refine (always_writes c p.position).bind fun calls r hw => ?_
    cases r with
    | ok n => exact (always_reports ..).mono fun _ _ => .written (not_not.mp hc) hw
    | error e =>
      refine (always_reports ..).bind fun es x hr => always_pure ?_
      rw [List.append_nil]
      exact .failed (not_not.mp hc) hw hr

/-- How a request goes out, if it is due, and how long there is to wait then. -/
inductive Asks (uri : Text) (session : UInt32) (period now wait : Nat) (p : Progress θ) :
    List Happening → Except Failure Nat × Progress θ → Prop
  | served : p.pending = false → Asks uri session period now wait p [] (.ok wait, p)
  | early {t : Nat} : p.pending = true → p.lastRequest = some t → now - t < period →
      Asks uri session period now wait p [] (.ok (min wait (t + period - now)), p)
  | sent {t : θ} : p.pending = true → (∀ last ∈ p.lastRequest, period ≤ now - last) →
      Transport.request uri session p.transport = .ok () t →
      Asks uri session period now wait p [.note (.request uri session now (.ok ()))]
        (.ok (min wait period), { p with transport := t, lastRequest := some now })
  | failed {e : Failure} {t : θ} : p.pending = true → (∀ last ∈ p.lastRequest, period ≤ now - last) →
      Transport.request uri session p.transport = .error e t →
      Asks uri session period now wait p [.note (.request uri session now (.error e))]
        (.error e, { p with transport := t })

lemma always_asks (uri : Text) (session : UInt32) (period now wait : Nat) (p : Progress θ) :
    (requestIfDue uri session period now wait p).Always perform (Asks uri session period now wait p) := by
  cases hp : p.pending with
  | false =>
    rw [requestIfDue_served hp]
    exact always_pure (.served hp)
  | true =>
    cases hd : p.lastRequest.all (fun t => period ≤ now - t) with
    | false =>
      rw [requestIfDue_early hp hd]
      cases hl : p.lastRequest with
      | none =>
        rw [hl] at hd
        cases hd
      | some t =>
        rw [hl] at hd
        exact always_pure (.early hp hl (by simpa using hd))
    | true =>
      have hd' : ∀ last ∈ p.lastRequest, period ≤ now - last := by
        intro last hl
        rw [Option.mem_def.mp hl] at hd
        simpa using hd
      rw [requestIfDue_due hp hd]
      refine always_note ?_
      cases h : Transport.request uri session p.transport with
      | ok u t => exact always_pure (.sent hp hd' h)
      | error e t => exact always_pure (.failed hp hd' h)

lemma Asks.position {uri : Text} {session : UInt32} {period now wait : Nat} {p : Progress θ}
    {es : List Happening} {x : Except Failure Nat × Progress θ} (h : Asks uri session period now wait p es x) :
    x.2.position = p.position := by
  cases h with
  | served _ => rfl
  | early _ _ _ => rfl
  | sent _ _ _ => rfl
  | failed _ _ _ => rfl

lemma Asks.silent {uri : Text} {session : UInt32} {period now wait : Nat} {p : Progress θ}
    {es : List Happening} {x : Except Failure Nat × Progress θ} (h : Asks uri session period now wait p es x) :
    Silent es := by
  cases h with
  | served _ => simp
  | early _ _ _ => simp
  | sent _ _ _ => simp
  | failed _ _ _ => simp

def Progress.timed (p : Progress θ) : Progress θ := { p with transport := (Transport.now p.transport).2 }

def Progress.moment (p : Progress θ) : Nat := (Transport.now p.transport).1

inductive Turns (uri : Text) (session : UInt32) (o : StreamOptions) (p : Progress θ) :
    List Happening → Outcome × Progress θ → Prop
  | late : o.chunkTimeout.toNat ≤ p.moment - p.lastResponse →
      Turns uri session o p [] (some (.error .timeout), p.timed)
  | unsent {wait : Nat} {es : List Happening} {e : Failure} {q : Progress θ} :
      wait = o.chunkTimeout.toNat - (p.moment - p.lastResponse) → 0 < wait →
      Asks uri session o.requestPeriod.toNat p.moment wait p.timed es (.error e, q) →
      Turns uri session o p es (some (.error e), q)
  | broken {wait wait' : Nat} {es : List Happening} {e : Failure} {q : Progress θ} {t : θ} :
      wait = o.chunkTimeout.toNat - (p.moment - p.lastResponse) → 0 < wait →
      Asks uri session o.requestPeriod.toNat p.moment wait p.timed es (.ok wait', q) →
      Transport.receive wait' q.transport = .error e t →
      Turns uri session o p (es ++ [.note (.receive wait' p.moment (.error e))])
        (some (.error e), { q with transport := t })
  | idle {wait wait' : Nat} {es : List Happening} {q : Progress θ} {t : θ} :
      wait = o.chunkTimeout.toNat - (p.moment - p.lastResponse) → 0 < wait →
      Asks uri session o.requestPeriod.toNat p.moment wait p.timed es (.ok wait', q) →
      Transport.receive wait' q.transport = .ok none t →
      Turns uri session o p (es ++ [.note (.receive wait' p.moment (.ok none))]) (none, { q with transport := t })
  | heard {wait wait' : Nat} {es es' : List Happening} {q : Progress θ} {t : θ} {c : Chunk}
      {x : Outcome × Progress θ} :
      wait = o.chunkTimeout.toNat - (p.moment - p.lastResponse) → 0 < wait →
      Asks uri session o.requestPeriod.toNat p.moment wait p.timed es (.ok wait', q) →
      Transport.receive wait' q.transport = .ok (some c) t → Handles session c { q with transport := t } es' x →
      Turns uri session o p (es ++ .note (.receive wait' p.moment (.ok (some c))) :: es') x

lemma always_turns (uri : Text) (session : UInt32) (o : StreamOptions) (p : Progress θ) :
    (step uri session o p).Always perform (Turns uri session o p) := by
  simp only [step]
  split
  · exact always_pure (.late (Nat.le_of_sub_eq_zero ‹_›))
  · rename_i hw
    have h0 := Nat.pos_of_ne_zero hw
    refine (always_asks ..).bind fun es x ha => ?_
    obtain ⟨r, q⟩ := x
    cases r with
    | error e =>
      refine always_pure ?_
      rw [List.append_nil]
      exact .unsent rfl h0 ha
    | ok wait =>
      refine always_note ?_
      cases hr : Transport.receive wait q.transport with
      | error e t => exact always_pure (.broken rfl h0 ha hr)
      | ok c t =>
        cases c with
        | none => exact always_pure (.idle rfl h0 ha hr)
        | some c => exact (always_handles session c _).mono fun es' x hh => .heard rfl h0 ha hr hh

lemma always_steps_of {uri : Text} {session : UInt32} {o : StreamOptions} {P : Progress θ → Prop}
    (hs : ∀ p es x, P p → Turns uri session o p es x → P x.2) (n : Nat) {p : Progress θ} (hp : P p) :
    (steps uri session o n p).Always perform fun _ x => P x.2 := by
  induction n generalizing p with
  | zero => exact always_pure hp
  | succ n ih =>
    refine (always_turns uri session o p).bind fun es x hx => ?_
    have hq := hs p es x hp hx
    obtain ⟨r, q⟩ := x
    cases r with
    | none => exact ih hq
    | some r => exact always_pure hq

end Requestor

end Firmware
