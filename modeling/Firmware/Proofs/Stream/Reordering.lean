import Firmware.Proofs.Flash.Scattered
import Firmware.Proofs.Stream.Courier
import Firmware.Proofs.Stream.Delivery

namespace Firmware

open Flash

namespace Feed

variable {α ω : Type} {perform : SinkCall → EStateM Failure ω Unit} {w u v : ω} {es es' : List Happening}

variable (perform) in
/-- A sink gets from one state to another by the calls among some happenings, and answers them as it did there. -/
def Replays : List Happening → ω → ω → Prop
  | [], w, v => v = w
  | .note _ :: es, w, v => Replays es w v
  | .call c r :: es, w, v => answer (perform c w) = r ∧ Replays es (stateAfter (perform c w)) v

lemma Plays.replays {f : Feed α} {a : α} (h : f.Plays perform w es a v) : Replays perform es w v := by
  obtain ⟨rfl, ho⟩ := h
  induction f generalizing w with
  | done b => exact (congrArg Prod.snd ho).symm
  | note n next ih => exact ih ho
  | call c next ih =>
    rw [Feed.outcome, Feed.run] at ho
    rw [Feed.transcript]
    cases hc : perform c w with
    | ok x u =>
      rw [hc] at ho
      exact ⟨by rw [hc]; rfl, by rw [hc]; exact ih _ ho⟩
    | error e u =>
      rw [hc] at ho
      exact ⟨by rw [hc]; rfl, by rw [hc]; exact ih _ ho⟩

lemma replays_append : Replays perform (es ++ es') w v ↔ ∃ u, Replays perform es w u ∧ Replays perform es' u v := by
  induction es generalizing w with
  | nil => exact ⟨fun h => ⟨w, rfl, h⟩, fun ⟨u, hu, h⟩ => hu ▸ h⟩
  | cons e es ih =>
    cases e with
    | note n => exact ih
    | call c r =>
      constructor
      · rintro ⟨hr, h⟩
        obtain ⟨u, hu, hv⟩ := ih.mp h
        exact ⟨u, ⟨hr, hu⟩, hv⟩
      · rintro ⟨u, ⟨hr, hu⟩, hv⟩
        exact ⟨hr, ih.mpr ⟨u, hu, hv⟩⟩

lemma Replays.of_silent (h : Replays perform es w v) (hs : Silent es) : v = w := by
  induction es with
  | nil => exact h
  | cons e es ih =>
    cases e with
    | note n => exact ih h (silent_note.mp hs)
    | call c r => exact absurd hs not_silent_call

lemma Replays.unique (h : Replays perform es w v) (h' : Replays perform es w u) : u = v := by
  induction es generalizing w with
  | nil => exact h'.trans h.symm
  | cons e es ih =>
    cases e with
    | note n => exact ih h h'
    | call c r => exact ih h.2 h'.2

lemma Replays.follows {R : ω → ω → Prop} [IsPreorder ω R] (hf : ∀ c r, .call c r ∈ es → Follows R (perform c))
    (h : Replays perform es w v) : R w v := by
  induction es generalizing w with
  | nil => exact h ▸ refl_of R w
  | cons e es ih =>
    cases e with
    | note n => exact ih (fun c r hm => hf c r (List.mem_cons_of_mem _ hm)) h
    | call c r =>
      exact trans_of R (hf c r List.mem_cons_self w) (ih (fun c r hm => hf c r (List.mem_cons_of_mem _ hm)) h.2)

lemma Always.keeps [Sink ω] {f : Feed α} {R : List Happening → α → Prop} {Q : α → ω → Prop}
    (h : f.Always (Sink.call : SinkCall → EStateM Failure ω Unit) R)
    (hq : ∀ es a v, R es a → Replays Sink.call es w v → Q a v) : f.Keeps (fun _ => True) Q w := by
  obtain ⟨es, a, v, hp⟩ := plays_some Sink.call f w
  have hr := h.course w
  rw [hp.transcript, hp.outcome] at hr
  have hv := hq es a v hr hp.replays
  replace hp := hp.outcome
  clear h hq hr
  induction f generalizing w with
  | done b =>
    cases hp
    exact ⟨trivial, hv⟩
  | note n next ih => exact ih hp
  | call c next ih =>
    rw [Feed.outcome, Feed.run] at hp
    rw [Keeps]
    refine ⟨trivial, ?_⟩
    revert hp
    cases Sink.call c w <;> exact ih _

end Feed

open Feed

def laidOut (o : Nat) : List Bytes → List (Nat × Bytes)
  | [] => []
  | b :: bs => (o, b) :: laidOut (o + b.length) bs

section Pieces

variable {o i : Nat} {parts before after : List Bytes} {x : Nat × Bytes}

lemma laidOut_append (o : Nat) (before after : List Bytes) :
    laidOut o (before ++ after) = laidOut o before ++ laidOut (o + before.flatten.length) after := by
  induction before generalizing o with
  | nil => rfl
  | cons b before ih =>
    rw [List.cons_append, laidOut, ih, laidOut, List.cons_append, List.flatten_cons, List.length_append,
      Nat.add_assoc]

lemma mem_laidOut (h : x ∈ laidOut o parts) :
    ∃ before after, parts = before ++ x.2 :: after ∧ x.1 = o + before.flatten.length := by
  induction parts generalizing o with
  | nil => cases h
  | cons b parts ih =>
    rcases List.mem_cons.mp h with rfl | h
    · exact ⟨[], parts, rfl, rfl⟩
    · obtain ⟨before, after, rfl, ho⟩ := ih h
      refine ⟨b :: before, after, rfl, ?_⟩
      rw [ho, List.flatten_cons, List.length_append, Nat.add_assoc]

lemma laidOut_covers (h : o ≤ i) (hi : i < o + parts.flatten.length) :
    ∃ x ∈ laidOut o parts, x.1 ≤ i ∧ i < x.1 + x.2.length := by
  induction parts generalizing o with
  | nil => exact absurd hi (Nat.not_lt.mpr h)
  | cons b parts ih =>
    by_cases hb : i < o + b.length
    · exact ⟨(o, b), List.mem_cons_self, h, hb⟩
    · rw [List.flatten_cons, List.length_append, ← Nat.add_assoc] at hi
      obtain ⟨x, hx, hxi⟩ := ih (Nat.not_lt.mp hb) hi
      exact ⟨x, List.mem_cons_of_mem _ hx, hxi⟩

lemma getElem?_filled {b : Bytes} {n : Nat} (hb : b.length ≤ i) (hi : i < n) : (filled b n)[i]? = some 0xff := by
  rw [filled, List.getElem?_append_right hb, Bytes.erased, List.getElem?_replicate, if_pos (by omega)]

end Pieces

/-- A chunk is a part of a whole. It starts at the start of a unit, and stops at the end of one unless only
erased bytes follow. -/
structure Chunk.PartOf (full : Bytes) (unit : Nat) (c : Chunk) : Prop where
  aligned : unit ∣ c.offset.toNat
  inside : c.stop ≤ full.length
  data : c.data = slice full c.offset.toNat c.data.length
  ends : unit ∣ c.stop ∨ ∀ i < full.length, c.stop ≤ i → full[i]? = some 0xff

lemma Chunk.partOf {parts : List Bytes} {unit n : Nat} {c : Chunk}
    (hc : (c.offset.toNat, c.data) ∈ laidOut 0 parts) (ha : ∀ x ∈ laidOut 0 parts, unit ∣ x.1)
    (hn : parts.flatten.length ≤ n) : c.PartOf (filled parts.flatten n) unit := by
  obtain ⟨before, after, hx, ho⟩ := mem_laidOut hc
  dsimp only at hx ho
  rw [Nat.zero_add] at ho
  have hf : parts.flatten = before.flatten ++ (c.data ++ after.flatten) := by
    rw [hx, List.flatten_append, List.flatten_cons]
  have hs : c.stop + after.flatten.length = parts.flatten.length := by
    rw [hf, Chunk.stop, ho, List.length_append, List.length_append, Nat.add_assoc]
  have hl : (filled parts.flatten n).length = n := by rw [length_filled, Nat.max_eq_right hn]
  refine ⟨ha _ hc, ?_, ?_, ?_⟩
  · omega
  · rw [slice, filled, hf, ho, List.append_assoc, List.drop_left, List.append_assoc, List.take_left]
  · cases after with
    | nil =>
      right
      rw [hl]
      exact fun i hi hc => getElem?_filled (hs ▸ hc) hi
    | cons b after =>
      left
      refine ha (c.stop, b) ?_
      rw [hx, laidOut_append, laidOut, laidOut, Nat.zero_add, ← ho]
      exact List.mem_append_right _ (List.mem_cons_of_mem _ List.mem_cons_self)

def Within (cs : List Chunk) (i : Nat) : Prop := ∃ c ∈ cs, c.offset.toNat ≤ i ∧ i < c.stop

inductive Closing : List Chunk → Prop
  | last {c : Chunk} : c.last = true → Closing [c]
  | before {c : Chunk} {cs : List Chunk} : c.last = false → Closing cs → Closing (c :: cs)

lemma closing_cons {c : Chunk} {cs : List Chunk} :
    Closing (c :: cs) ↔ c.last = true ∧ cs = [] ∨ c.last = false ∧ Closing cs := by
  constructor
  · intro h
    cases h with
    | last hl => exact .inl ⟨hl, rfl⟩
    | before hl h => exact .inr ⟨hl, h⟩
  · rintro (⟨hl, rfl⟩ | ⟨hl, h⟩)
    · exact .last hl
    · exact .before hl h

namespace Flash.Writer

open Requestor

variable {full : Bytes} {done : Nat → Prop} {w : Writer Ram} {c : Chunk}

lemma Draws.rest (h : Draws full done w) (hc : c.PartOf full w.unit) (hs : w.staged = [])
    (ho : w.offset = c.offset.toNat) :
    ∃ w', Replays Sink.call ((if c.data.isEmpty then [] else [.write c.data]).map accepted) w w' ∧
      Draws full (fun i => done i ∨ c.offset.toNat ≤ i ∧ i < c.stop) w' ∧ w'.position = c.stop := by
  have hl := h.length
  split
  · rename_i he
    have hn : c.data.length = 0 := by rw [List.isEmpty_iff.mp he, List.length_nil]
    refine ⟨w, rfl, h.mono fun i hi => hi.resolve_right ?_, ?_⟩
    · rw [Chunk.stop]
      omega
    · rw [Writer.position, hs, ho, Chunk.stop, hn, List.length_nil]
  · obtain ⟨w', hw, hd, hp⟩ := h.write hs (ho ▸ hc.data) (ho ▸ hl ▸ hc.inside) (ho ▸ hl ▸ hc.ends)
    rw [ho] at hd hp
    exact ⟨w', ⟨congrArg answer hw, (congrArg stateAfter hw).symm⟩, hd, hp⟩

lemma Draws.chunk (h : Draws full done w) (hc : c.PartOf full w.unit) :
    ∃ w', Replays Sink.call ((callsFor w.position c).map accepted) w w' ∧
      Draws full (fun i => done i ∨ c.offset.toNat ≤ i ∧ i < c.stop) w' ∧ w'.position = c.stop := by
  rw [callsFor]
  split
  · rename_i ho
    -- A writer that stands at the start of a unit has nothing staged.
    have hs : w.staged = [] := by
      have hd : w.unit ∣ w.staged.length := by
        have := hc.aligned
        rw [ho, Writer.position] at this
        exact (Nat.dvd_add_right h.aligned).mp this
      exact List.eq_nil_of_length_eq_zero (Nat.eq_zero_of_dvd_of_lt hd h.short)
    refine h.rest hc hs ?_
    rw [ho, Writer.position, hs, List.length_nil, Nat.add_zero]
  · have hn : c.offset.toNat ≤ w.region.size := by
      rw [← h.length]
      exact Nat.le_trans (Nat.le_add_right _ _) hc.inside
    obtain ⟨v, hv, hd, hs, ho⟩ := h.seek hc.aligned hn
    have hm : Moves w v := (follows_seek _).of_ok hv
    obtain ⟨w', hw, hx⟩ := hd.rest (hm.unit ▸ hc) hs ho
    have hv' : stateAfter (Sink.call (.seek c.offset.toNat) w) = v := congrArg stateAfter hv
    exact ⟨w', ⟨congrArg answer hv, hv' ▸ hw⟩, hx⟩

end Flash.Writer

namespace Courier

structure Obliging (s : Courier) : Prop where
  requests : ∀ r ∈ s.requests, r = .ok ()
  statuses : ∀ r ∈ s.statuses, r = .ok ()

def own (s : Courier) : List Chunk :=
  s.script.filterMap fun x => x.bind fun (c, _) => if c.session = s.session then some c else none

variable {s t : Courier} {c : Chunk} {d : Nat}

lemma Obliging.answers (h : s.Obliging) (ha : Answers s t) : t.Obliging where
  requests r hr := h.requests r (ha.requests hr)
  statuses r hr := h.statuses r (ha.statuses hr)

lemma Answers.own (h : Answers s t) : t.own = s.own := by
  rw [Courier.own, Courier.own, h.script, h.session]

lemma own_rest (h : s.script.head?.join = none) (wait : Nat) : (s.rest wait).own = s.own := by
  rw [own, own, rest]
  rcases hl : s.script with _ | ⟨_ | x, script⟩
  · rfl
  · rfl
  · rw [hl] at h
    cases h

lemma own_deliver (h : s.script.head? = some (some (c, d))) :
    s.own = if c.session = s.session then c :: (s.deliver c d).own else (s.deliver c d).own := by
  obtain ⟨script, hl⟩ := List.head?_eq_some_iff.mp h
  rw [own, own, deliver, hl]
  dsimp only [List.tail_cons]
  split
  · exact List.filterMap_cons_some (if_pos ‹_›)
  · exact List.filterMap_cons_none (if_neg ‹_›)

end Courier

namespace Requestor

open Courier Ram Writer

section Writes

variable {ω : Type} {perform : SinkCall → EStateM Failure ω Unit} {w u v : ω} {position : Nat} {c : Chunk}
  {es : List Happening} {r : Except Failure Nat}

lemma Writes.taken (h : Writes position c es r) (hc : c.stop < 0x100000000)
    (hu : Replays perform ((callsFor position c).map accepted) w u) (hv : Replays perform es w v) :
    r = .ok c.stop ∧ v = u := by
  cases h with
  | written _ => exact ⟨rfl, hu.unique hv⟩
  | long hl => exact absurd hc (Nat.not_lt.mpr hl)
  | refused before hk =>
    obtain ⟨after, hk⟩ := hk
    rw [← hk, List.append_assoc, List.map_append] at hu
    obtain ⟨x, hx, ha, -⟩ := replays_append.mp hu
    obtain ⟨y, hy, he, -⟩ := replays_append.mp hv
    rw [hx.unique hy, ha] at he
    cases he

lemma brief_callsFor (hc : c.stop < 0x100000000) {k : SinkCall} {x : Except Failure Unit}
    (hk : .call k x ∈ (callsFor position c).map accepted) : Brief k := by
  have hd : c.data.length < 0x100000000 := Nat.lt_of_le_of_lt (Nat.le_add_left _ _) hc
  obtain ⟨_, hm, he⟩ := List.mem_map.mp hk
  cases he
  rcases List.mem_append.mp hm with hm | hm <;> split at hm
  · cases hm
  · exact List.mem_singleton.mp hm ▸ trivial
  · cases hm
  · exact List.mem_singleton.mp hm ▸ hd

end Writes

/-- A stream has written the chunks that have come so far, and the others are still to come. -/
structure Assembles (full : Bytes) (w : Writer Ram) (session : UInt32) (cs : List Chunk) (p : Progress Courier)
    (v : Writer Ram) : Prop where
  moves : Moves w v
  session : p.transport.session = session
  obliging : p.transport.Obliging
  closing : Closing cs
  parts : ∀ c ∈ cs, c.PartOf full w.unit
  draws : Draws full (fun i => ¬ Within cs i) v
  position : v.position = p.position

inductive Proceeds (full : Bytes) (w : Writer Ram) (session : UInt32) (script : List (Option (Chunk × Nat)))
    (v : Writer Ram) : Outcome × Progress Courier → Prop
  | late {q : Progress Courier} : Moves w v → v.position = q.position →
      Proceeds full w session script v (some (.error .timeout), q)
  | onward {q : Progress Courier} : Assembles full w session q.transport.own q v → q.transport.script = script →
      Proceeds full w session script v (none, q)
  | ended {q : Progress Courier} : Moves w v → Draws full (fun _ => True) v → v.position = q.position →
      Proceeds full w session script v (some (.ok ()), q)

variable {full : Bytes} {w v v' : Writer Ram} {uri : Text} {session : UInt32} {o : StreamOptions} {cs : List Chunk}
  {p q : Progress Courier} {es : List Happening} {x : Outcome × Progress Courier} {c : Chunk}

lemma Assembles.along (h : Assembles full w session cs p v) (ha : Answers p.transport q.transport)
    (hq : q.position = p.position) : Assembles full w session cs q v :=
  { h with
    session := ha.session.trans h.session
    obliging := h.obliging.answers ha
    position := h.position.trans hq.symm }

lemma Reports.obliged {id : UInt32} {st : ChunkStatus} {last : Bool} (h : Reports session id st last p es x)
    (hp : p.transport.Obliging) : x.1 = if last then some (.ok ()) else none := by
  cases h with
  | delivered _ => rfl
  | lost hr => cases hp.statuses _ (reply_headD_eq_error hr).2

lemma Asks.obliged {period now wait : Nat} {y : Except Failure Nat × Progress Courier}
    (h : Asks uri session period now wait p es y) (hp : p.transport.Obliging) : ∃ wait', y.1 = .ok wait' := by
  cases h with
  | served _ => exact ⟨_, rfl⟩
  | early _ _ _ => exact ⟨_, rfl⟩
  | sent _ _ _ => exact ⟨_, rfl⟩
  | failed _ _ hr => cases hp.requests _ (reply_headD_eq_error hr).2

lemma Assembles.takes {calls : List Happening} {r : Except Failure Nat} (h : Assembles full w session (c :: cs) p v)
    (hn : full.length < 0x100000000) (hw : Writes p.position c calls r) (hr : Replays Sink.call calls v v') :
    r = .ok c.stop ∧ Moves w v' ∧ Draws full (fun i => ¬ Within cs i) v' ∧ v'.position = c.stop := by
  have hc := h.parts c List.mem_cons_self
  obtain ⟨u, hu, hd, hs⟩ := h.draws.chunk (h.moves.unit ▸ hc)
  rw [h.position] at hu
  have hstop := Nat.lt_of_le_of_lt hc.inside hn
  obtain ⟨rfl, rfl⟩ := hw.taken hstop hu hr
  have hm : Moves v v' := hu.follows fun k x hk => follows_call (brief_callsFor hstop hk)
  refine ⟨rfl, trans_of Moves h.moves hm, hd.mono fun i hi => ?_, hs⟩
  by_cases hx : c.offset.toNat ≤ i ∧ i < c.stop
  · exact .inr hx
  · refine .inl fun ⟨c', hm, hi'⟩ => ?_
    rcases List.mem_cons.mp hm with rfl | hm
    · exact hx hi'
    · exact hi ⟨c', hm, hi'⟩

lemma Handles.proceeds (h : Handles session c p es x) (hn : full.length < 0x100000000)
    (hp : Assembles full w session (if c.session = session then c :: p.transport.own else p.transport.own) p v)
    (hr : Replays Sink.call es v v') : Proceeds full w session p.transport.script v' x := by
  cases h with
  | foreign hc hs =>
    obtain ⟨r, q⟩ := x
    rw [if_neg hc] at hp
    obtain rfl := hr.of_silent hs.silent
    obtain ⟨ha, -, -⟩ := hs.courier
    obtain rfl : r = none := hs.obliged hp.obliging
    exact .onward (ha.own ▸ hp.along ha hs.position) ha.script
  | @written calls es position _ hc hw hs =>
    obtain ⟨r, q⟩ := x
    rw [if_pos hc] at hp
    obtain ⟨u, hu, hv⟩ := replays_append.mp hr
    obtain ⟨he, hm, hd, hpos⟩ := hp.takes hn hw hu
    obtain rfl : position = c.stop := Except.ok.inj he
    obtain rfl := hv.of_silent hs.silent
    obtain ⟨ha, -, -⟩ := hs.courier
    have hq : q.position = c.stop := hs.position
    have hx : r = if c.last then some (.ok ()) else none := hs.obliged hp.obliging
    rcases closing_cons.mp hp.closing with ⟨hl, hnil⟩ | ⟨hl, hclose⟩
    · rw [hnil] at hd
      obtain rfl : r = some (.ok ()) := by rw [hx, if_pos hl]
      exact .ended hm (hd.mono fun i _ ⟨c', hc', _⟩ => List.not_mem_nil hc') (hpos.trans hq.symm)
    · obtain rfl : r = none := by rw [hx, hl, if_neg Bool.false_ne_true]
      have ho : q.transport.own = p.transport.own := ha.own
      have hs : q.transport.session = session := ha.session.trans hp.session
      refine .onward ⟨hm, hs, hp.obliging.answers ha, ?_, ?_, ?_, hpos.trans hq.symm⟩ ha.script
      · exact ho ▸ hclose
      · exact ho ▸ fun c' hc' => hp.parts c' (List.mem_cons_of_mem _ hc')
      · exact ho ▸ hd
  | failed hc hw _ =>
    rw [if_pos hc] at hp
    obtain ⟨u, hu, -⟩ := replays_append.mp hr
    obtain ⟨he, -⟩ := hp.takes hn hw hu
    cases he

lemma Turns.proceeds (h : Turns uri session o p es x) (hn : full.length < 0x100000000)
    (hp : Assembles full w session p.transport.own p v) (hr : Replays Sink.call es v v') :
    Proceeds full w session p.transport.script.tail v' x := by
  cases h with
  | late _ =>
    obtain rfl : v' = v := hr
    exact .late hp.moves hp.position
  | unsent _ _ ha =>
    obtain ⟨wait, hw⟩ := ha.obliged hp.obliging
    cases hw
  | broken _ _ _ hx => exact absurd hx receive_eq_error
  | @idle _ _ _ q t _ _ ha hx =>
    obtain ⟨u, hu, hv⟩ := replays_append.mp hr
    obtain rfl : v' = u := hv
    obtain rfl := hu.of_silent ha.silent
    have has : Answers p.transport q.transport := ha.courier.1
    obtain ⟨hnone, rfl⟩ := receive_eq_none hx
    have hq := hp.along has ha.position
    refine .onward ?_ (congrArg List.tail has.script)
    rw [own_rest hnone, has.own]
    exact { hq with session := hq.session, obliging := ⟨hq.obliging.requests, hq.obliging.statuses⟩ }
  | @heard _ _ _ _ q t c _ _ _ ha hx hh =>
    obtain ⟨u, hu, hv⟩ := replays_append.mp hr
    obtain rfl := hu.of_silent ha.silent
    have has : Answers p.transport q.transport := ha.courier.1
    obtain ⟨d, hsome, rfl⟩ := receive_eq_some hx
    have hq := hp.along has ha.position
    have ho : p.transport.own =
        if c.session = session then c :: (q.transport.deliver c d).own else (q.transport.deliver c d).own := by
      rw [← has.own, own_deliver hsome, hq.session]
    have hs : (q.transport.deliver c d).script = p.transport.script.tail := congrArg List.tail has.script
    rw [ho] at hq
    rw [← hs]
    refine hh.proceeds hn ?_ hv
    exact { hq with session := hq.session, obliging := ⟨hq.obliging.requests, hq.obliging.statuses⟩ }

structure Reaches (w : Writer Ram) (n : Nat) (script : List (Option (Chunk × Nat))) (full : Bytes)
    (x : Outcome × Progress Courier) (v : Writer Ram) : Prop where
  moves : Moves w v
  position : v.position = x.2.position
  ends : x.1 = some (.error .timeout) ∨ x.1 = some (.ok ()) ∧ Draws full (fun _ => True) v ∨
    x.1 = none ∧ n < script.length

lemma Assembles.script_pos (h : Assembles full w session p.transport.own p v) : 0 < p.transport.script.length := by
  have hc := h.closing
  rw [List.length_pos_iff]
  intro hs
  rw [own, hs] at hc
  cases hc

lemma steps_reach (hn : full.length < 0x100000000) (n : Nat) (hp : Assembles full w session p.transport.own p v) :
    (steps uri session o n p).Keeps (fun _ => True) (Reaches w n p.transport.script full) v := by
  induction n generalizing p v with
  | zero => exact ⟨trivial, hp.moves, hp.position, .inr (.inr ⟨rfl, hp.script_pos⟩)⟩
  | succ n ih =>
    have hs := (always_turns uri session o p).keeps (w := v) fun es x v' h hr => h.proceeds hn hp hr
    refine hs.bind fun x v' _ hx => ?_
    cases hx with
    | late hm hpos => exact ⟨trivial, hm, hpos, .inl rfl⟩
    | onward hq hs =>
      -- A step that goes on has used up the head of the script.
      refine (ih hq).mono fun x v' _ hx => ⟨hx.moves, hx.position, hx.ends.imp_right (Or.imp_right fun he => ?_)⟩
      refine ⟨he.1, ?_⟩
      have := he.2
      rw [hs, List.length_tail] at this
      omega
    | ended hm hd hpos => exact ⟨trivial, hm, hpos, .inr (.inl ⟨rfl, hd⟩)⟩

/-- A peer delivers the pieces of an image, each once, in whatever order and with anything in between. The pieces
start at the starts of units, and the one that comes last is marked. -/
structure Delivers (parts : List Bytes) (unit : Nat) (s : Courier) : Prop where
  obliging : s.Obliging
  aligned : ∀ x ∈ laidOut 0 parts, unit ∣ x.1
  pieces : (s.own.map fun c => (c.offset.toNat, c.data)).Perm (laidOut 0 parts)
  closing : Closing s.own

variable {r : Region} {d : Ram} {parts : List Bytes} {s : Requestor Courier}

lemma Delivers.assembles (hp : Delivers parts d.writeUnit s.transport) (h : Blank r d) (hd : d.ready = true)
    (hl : parts.flatten.length ≤ r.size) (hs : s.transport.session = session) :
    Assembles (filled parts.flatten r.size) ⟨d, r, d.writeUnit, 0, []⟩ session s.transport.own s.opened
      ⟨d, r, d.writeUnit, 0, []⟩ where
  moves := refl_of Moves _
  session := hs
  obliging := hp.obliging
  closing := hp.closing
  parts c hc := Chunk.partOf (hp.pieces.mem_iff.mp (List.mem_map_of_mem hc)) hp.aligned hl
  draws := by
    refine draws_start h hd (by rw [length_filled, Nat.max_eq_right hl]) fun i hi hw => ?_
    refine getElem?_filled (Nat.not_lt.mp fun hx => hw ?_) hi
    obtain ⟨x, hx, hxi⟩ := laidOut_covers (Nat.zero_le i) (by rwa [Nat.zero_add])
    obtain ⟨c, hc, rfl⟩ := List.mem_map.mp (hp.pieces.mem_iff.mpr hx)
    exact ⟨c, hc, hxi⟩
  position := rfl

lemma streamImage_reaches (hp : Delivers parts d.writeUnit s.transport) (h : Blank r d) (hd : d.ready = true)
    (hn : r.size < 0x100000000) (hl : parts.flatten.length ≤ r.size)
    (hs : s.transport.session = nextSession s.lastSession) (hu : uri.isEmpty = false) (hb : s.busy = false)
    (n : Nat) : (streamImage n uri o s).Keeps (fun _ => True) (fun x v => ∃ p, Reaches ⟨d, r, d.writeUnit, 0, []⟩ n
      s.transport.script (filled parts.flatten r.size) (x.1, p) v) ⟨d, r, d.writeUnit, 0, []⟩ := by
  have hf : (filled parts.flatten r.size).length < 0x100000000 := by rwa [length_filled, Nat.max_eq_right hl]
  simp only [streamImage, hu, hb, Bool.false_eq_true, ↓reduceIte]
  exact (steps_reach hf n (hp.assembles h hd hl hs)).bind fun x v _ hx => ⟨trivial, x.2, hx⟩

/-- The pieces of an image may come in any order. Unless it runs out of time, a stream from a peer that delivers
them all ends well, and the region holds the image then, as if it had been written in order. All along the
stream stands where the writer does. -/
theorem streamImage_reordered (uri : Text) (o : StreamOptions) {w : Writer Ram}
    (hp : Delivers parts d.writeUnit s.transport) (h : Blank r d)
    (hd : d.ready = true) (hn : r.size < 0x100000000) (hl : parts.flatten.length ≤ r.size)
    (hs : s.transport.session = nextSession s.lastSession) (hu : uri.isEmpty = false) (hb : s.busy = false)
    (hw : Writer.start r d = .ok w) :
    let x n := (streamImage n uri o s).into w
    (∀ n, s.transport.script.length ≤ n → (x n).1.1 ≠ some (.error .timeout) →
      (x n).1.1 = some (.ok ()) ∧ ∃ v, Sink.call .flush (x n).2 = .ok () v ∧
        v.device.contents = d.contents.take r.start ++ filled parts.flatten r.size ++ d.contents.drop r.stop ∧
        ∃ d', writing r (writeAll parts) d = .ok () d' ∧ v.device.contents = d'.contents) ∧
      ∀ n, let y := (steps uri (nextSession s.lastSession) o n s.opened).into w
        Sink.used y.2 = .ok y.1.2.position := by
  intro x
  cases h.writer_start.symm.trans hw
  refine ⟨fun n hle hx => ?_, fun n => ?_⟩
  · obtain ⟨p, hr⟩ := (streamImage_reaches (o := o) hp h hd hn hl hs hu hb n).into
    rcases hr.ends with he | ⟨he, hdraws⟩ | ⟨-, hlt⟩
    · exact absurd he hx
    · obtain ⟨v, hv, hi⟩ := hdraws.flush fun _ _ => trivial
      have hm : Moves _ v := trans_of Moves hr.moves (follows_flush.of_ok hv)
      have hc := contents_of_reach hm.reach h.inside
      rw [hm.region] at hi
      rw [hi] at hc
      refine ⟨he, v, hv, hc, ?_⟩
      obtain ⟨u, hw⟩ : ∃ u, writeAll parts ⟨d, r, d.writeUnit, 0, []⟩ = .ok () u :=
        h.writeAll_succeeds hl (.inl hd)
      have hshort := measured_of_flatten (d := d) (Nat.lt_of_le_of_lt hl hn)
      have hm' : Moves ⟨d, r, d.writeUnit, 0, []⟩ u := by
        have hm' := moves_writeAll (w := ⟨d, r, d.writeUnit, 0, []⟩) hshort
        rwa [hw] at hm'
      refine ⟨u.device, h.writing_eq_ok.mpr ⟨u, hw, rfl⟩, ?_⟩
      rw [hc, contents_of_reach hm'.reach h.inside, (h.written_ready hd hshort hw).2]
    · exact absurd hlt (Nat.not_lt.mpr hle)
  · have hf : (filled parts.flatten r.size).length < 0x100000000 := by rwa [length_filled, Nat.max_eq_right hl]
    exact congrArg Except.ok (steps_reach (o := o) hf n (hp.assembles h hd hl hs)).into.position

/-- Three pieces from the last to the first, with a stale chunk in between. The last one does not fill its unit. -/
def backwards : Courier where
  clock := 100
  script := [some (⟨1, 0, 8, [9, 10], false⟩, 5), none, some (stale, 0), some (⟨1, 1, 4, [5, 6, 7, 8], false⟩, 0),
    some (⟨1, 2, 0, [1, 2, 3, 4], true⟩, 7)]
  pause _ wait := min wait 4
  requests := [.ok ()]
  statuses := []
  session := 1
  heard := 100

lemma own_backwards :
    backwards.own = [⟨1, 0, 8, [9, 10], false⟩, ⟨1, 1, 4, [5, 6, 7, 8], false⟩, ⟨1, 2, 0, [1, 2, 3, 4], true⟩] := rfl

lemma delivers_backwards : Delivers [[1, 2, 3, 4], [5, 6, 7, 8], [9, 10]] 4 backwards where
  obliging := ⟨by simp [backwards], List.forall_mem_nil _⟩
  aligned := by decide
  pieces := by
    rw [own_backwards]
    decide
  closing := own_backwards ▸ .before rfl (.before rfl (.last rfl))

/-- The piece that does not fill its unit comes first, and is filled up when the next one comes. -/
theorem streamImage_reordered_backwards :
    let d := Ram.ofBytes (Bytes.erased 20) 4 4
    let x := (streamImage 5 ⟨[0x7a], rfl⟩ ⟨500, 100⟩ (ofTransport backwards 0)).into
      (⟨d, ⟨4, 12⟩, 4, 0, []⟩ : Writer Ram)
    x.1.1 = some (.ok ()) ∧ ∃ v, Sink.call .flush x.2 = .ok () v ∧
      v.device.contents = Bytes.erased 4 ++ [1, 2, 3, 4, 5, 6, 7, 8, 9, 10, 0xff, 0xff] ++ Bytes.erased 4 := by
  intro d x
  have h : Blank ⟨4, 12⟩ d :=
    { faultless := fun _ => rfl
      unit := by decide
      start := by decide
      size := by decide
      inside := by decide
      erased := rfl }
  obtain ⟨hx, -⟩ := streamImage_reordered ⟨[0x7a], rfl⟩ ⟨500, 100⟩ (s := ofTransport backwards 0)
    delivers_backwards h rfl (by decide) (by decide) rfl rfl rfl rfl
  have hok : x.1.1 = some (.ok ()) := by decide +kernel
  obtain ⟨hr, v, hv, hc, -⟩ := hx 5 (by decide) fun ht => nomatch hok.symm.trans ht
  exact ⟨hr, v, hv, hc⟩

end Requestor

end Firmware
