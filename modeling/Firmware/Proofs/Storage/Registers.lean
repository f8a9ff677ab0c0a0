import Firmware.Proofs.Storage.Healthy
import Mathlib.Logic.Function.Basic

/-!
The storage is a set of independent registers. The registers are what can be read, each change is an
update of one of them, and a device without faults shows in the home of each what it holds.
-/

namespace Firmware.Storage

open Flash Ram

structure Registers where
  envelope : Uuid → Option Bytes
  report : Nat → Option Bytes
  flag : Option Flag
  candidate : Option (List Region)
  value : Nat → UInt8

def Query.register : Query → Register
  | envelope c => .envelope c
  | report i => .report i
  | flag _ => .flags
  | candidate => .candidate
  | value _ => .values

namespace Registers

variable (l : Layout)

def read (r : Registers) : (q : Query) → Except Failure q.Answer
  | .envelope c => do
    discard (l.slot c)
    found (r.envelope c)
  | .report i => do
    discard (l.report i)
    found (r.report i)
  | .flag f => if r.flag = some f then .ok () else .error .notFound
  | .candidate => found r.candidate
  | .value i => if i < l.variableCount.toNat then .ok (r.value i) else .error .outOfBounds

def padded (q : Region) (b : Bytes) : Except Failure Bytes :=
  if b.length ≤ q.size - Record.headLen then .ok (filled b (q.size - Record.headLen)) else .error .size

def change (r : Registers) : Change → Except Failure Registers
  | .installEnvelope c b => do
    let b ← padded (← l.slot c).region b
    return { r with envelope := Function.update r.envelope c (firstItem b) }
  | .clearEnvelope c => do
    discard (l.slot c)
    return { r with envelope := Function.update r.envelope c none }
  | .saveReport i b => do
    let b ← padded (← l.report i) b
    return { r with report := Function.update r.report i (some b) }
  | .clearReport i => do
    discard (l.report i)
    return { r with report := Function.update r.report i none }
  | .setFlag f => return { r with flag := some f }
  | .clearFlag f => return { r with flag := if r.flag = some f then none else r.flag }
  | .setCandidate rs => do
    if rs.isEmpty then throw .invalid
    unless rs.length ≤ maxCandidateRegions do throw .size
    discard (padded l.candidate (candidateParts rs).flatten)
    return { r with candidate := some rs }
  | .clearCandidate => return { r with candidate := none }
  | .setVariable i v => do
    Store.checkIndex l i
    return { r with value := Function.update r.value i v }

def after (r : Registers) (o : Change) : Registers := (r.change l o).toOption.getD r

def Agree (r r' : Registers) : Register → Prop
  | .envelope c => r'.envelope c = r.envelope c
  | .report i => r'.report i = r.report i
  | .flags => r'.flag = r.flag
  | .candidate => r'.candidate = r.candidate
  | .values => r'.value = r.value

variable {l} {r r' : Registers} {o : Change} {x : Register}

lemma Agree.refl (r : Registers) (x : Register) : r.Agree r x := by
  cases x <;> rfl

lemma Agree.read {q : Query} (h : r.Agree r' q.register) : r'.read l q = r.read l q := by
  cases q with
  | envelope c => rw [Registers.read, Registers.read, show r'.envelope c = r.envelope c from h]
  | report i => rw [Registers.read, Registers.read, show r'.report i = r.report i from h]
  | flag f => rw [Registers.read, Registers.read, show r'.flag = r.flag from h]
  | candidate => rw [Registers.read, Registers.read, show r'.candidate = r.candidate from h]
  | value i => rw [Registers.read, Registers.read, show r'.value = r.value from h]

section Updates

lemma agree_envelope {c : Uuid} (hx : x ≠ .envelope c) (v : Option Bytes) :
    r.Agree { r with envelope := Function.update r.envelope c v } x := by
  cases x with
  | envelope k => exact Function.update_of_ne (fun h => hx (congrArg _ h)) v r.envelope
  | _ => rfl

lemma agree_report {i : Nat} (hx : x ≠ .report i) (v : Option Bytes) :
    r.Agree { r with report := Function.update r.report i v } x := by
  cases x with
  | report k => exact Function.update_of_ne (fun h => hx (congrArg _ h)) v r.report
  | _ => rfl

lemma agree_flag (hx : x ≠ .flags) (f : Option Flag) : r.Agree { r with flag := f } x := by
  cases x with
  | flags => exact absurd rfl hx
  | _ => rfl

lemma agree_candidate (hx : x ≠ .candidate) (rs : Option (List Region)) :
    r.Agree { r with candidate := rs } x := by
  cases x with
  | candidate => exact absurd rfl hx
  | _ => rfl

lemma agree_value (hx : x ≠ .values) (v : Nat → UInt8) : r.Agree { r with value := v } x := by
  cases x with
  | values => exact absurd rfl hx
  | _ => rfl

end Updates

lemma agree_change (h : r.change l o = .ok r') (hx : x ≠ o.register) : r.Agree r' x := by
  cases o with
  | installEnvelope c b =>
    obtain ⟨s, -, h⟩ := Except.bind_eq_ok.mp h
    obtain ⟨b, -, h⟩ := Except.bind_eq_ok.mp h
    cases h
    exact agree_envelope hx _
  | clearEnvelope c =>
    obtain ⟨u, -, h⟩ := Except.bind_eq_ok.mp h
    cases h
    exact agree_envelope hx none
  | saveReport i b =>
    obtain ⟨q, -, h⟩ := Except.bind_eq_ok.mp h
    obtain ⟨b, -, h⟩ := Except.bind_eq_ok.mp h
    cases h
    exact agree_report hx _
  | clearReport i =>
    obtain ⟨u, -, h⟩ := Except.bind_eq_ok.mp h
    cases h
    exact agree_report hx none
  | setFlag f | clearFlag f =>
    cases h
    exact agree_flag hx _
  | setCandidate rs =>
    simp only [change] at h
    split at h
    · cases h
    · split at h
      · obtain ⟨u, -, h⟩ := Except.bind_eq_ok.mp h
        cases h
        exact agree_candidate hx _
      · cases h
  | clearCandidate =>
    cases h
    exact agree_candidate hx none
  | setVariable i v =>
    obtain ⟨u, -, h⟩ := Except.bind_eq_ok.mp h
    cases h
    exact agree_value hx _

lemma agree_after (hx : x ≠ o.register) : r.Agree (r.after l o) x := by
  rw [after]
  cases h : r.change l o with
  | ok r' => exact agree_change h hx
  | error e => exact Agree.refl r x

end Registers

section Simulation

open Hash Layout Store

variable (H : Hash.Algorithm → Bytes → Bytes) (l : Layout)

/-- What is in the home of a register is what the registers say. -/
def Registers.Shows (r : Registers) (d : Ram) : Register → Prop
  | .envelope c => ∀ s, l.slot c = .ok s → (bodyIn (image s.region d)).bind firstItem = r.envelope c
  | .report i => ∀ q, l.report i = .ok q → bodyIn (image q d) = r.report i
  | .flags => decodeCell ((image l.flags d).take flagLen) = .ok r.flag
  | .candidate => Lists l d r.candidate
  | .values => ∃ x, l.copy H l.variableArea d = some x ∧
      ∀ i < l.variableCount.toNat, x.getD i 0xff = r.value i

structure Represents (r : Registers) (d : Ram) : Prop extends Healthy l d where
  shown : ∀ x, r.Shows H l d x

/-- A change that is accepted shows in its home, and one that is refused changes nothing. -/
inductive Tells (o : Change) (s : Store Ram (Digester H)) :
    Except Failure Registers → EStateM.Result Failure (Store Ram (Digester H)) Unit → Prop
  | ok {r : Registers} {t : Store Ram (Digester H)} : r.Shows H l t.device o.register →
      Tells o s (.ok r) (.ok () t)
  | error {e : Failure} {t : Store Ram (Digester H)} : t.device = s.device →
      Tells o s (.error e) (.error e t)

variable {H l} {r r' : Registers} {d d' : Ram} {x : Register} {q : Region} {o : Change}
  {s : Store Ram (Digester H)}

lemma Registers.Shows.congr (h : r.Shows H l d x) (hr : r.Agree r' x)
    (hi : ∀ q ∈ l.home x, image q d' = image q d) : r'.Shows H l d' x := by
  cases x with
  | envelope c =>
    intro s hs
    rw [hi _ (mem_home_envelope.mpr ⟨s, hs, rfl⟩), h s hs]
    exact hr.symm
  | report i =>
    intro q hq
    rw [hi q (mem_home_report.mpr hq), h q hq]
    exact hr.symm
  | flags =>
    have hi := hi l.flags (List.mem_singleton_self _)
    have hr : r'.flag = r.flag := hr
    rw [Shows, hi, hr]
    exact h
  | candidate =>
    have hi := hi l.candidate (List.mem_singleton_self _)
    have hr : r'.candidate = r.candidate := hr
    rw [Shows, hr]
    exact Lists.congr h hi
  | values =>
    have hi := hi l.variableArea List.mem_cons_self
    have hr : r'.value = r.value := hr
    rw [Shows, copy, hi, hr]
    exact h

lemma onDevice_of_ok {f : EStateM Failure Ram Unit} (h : f s.device = .ok () d') :
    onDevice f s = .ok () ⟨d', s.engine⟩ := by
  rw [onDevice, onPart, h]

lemma onDevice_of_error {f : EStateM Failure Ram Unit} {e : Failure} (h : f s.device = .error e d') :
    onDevice f s = .error e ⟨d', s.engine⟩ := by
  rw [onDevice, onPart, h]

section Changes

variable (h : Represents H l r s.device)
include h

lemma tells_save {σ : Type} (y : Except Failure σ) (f : σ → Region) (g : Bytes → Registers) (b : Bytes)
    (hm : ∀ a, y = .ok a → f a ∈ l.regions)
    (hg : ∀ a x d', y = .ok a → bodyIn (image (f a) d') = some x → (g x).Shows H l d' o.register) :
    Tells H l o s (y >>= fun a => (Registers.padded (f a) b).map g)
      (onDevice (do Record.save (f (← y)) b) s) := by
  cases y with
  | error e => exact .error rfl
  | ok a =>
    have hq := hm a rfl
    have hz : Record.headLen ≤ (f a).size := Nat.le_trans (by decide) (h.heads _ hq)
    have hf : [b].flatten = b := by simp
    have hw := Record.write_healthy (h.valid.checked _ hq) h.faultless h.units hz .binary [b]
    have hr : (do Record.save (f (← (.ok a : Except Failure σ))) b : EStateM Failure Ram Unit)
      s.device = Record.write (f a) .binary [b] s.device := rfl
    rw [hf] at hw
    rw [Except.ok_bind, Registers.padded]
    rcases hw with ⟨hn, d', hd, hi⟩ | ⟨hn, hd⟩
    · rw [if_pos hn, onDevice_of_ok (hr.trans hd)]
      refine .ok (hg a _ d' rfl ?_)
      rw [hi, bodyIn_filled, hf]
    · rw [if_neg (Nat.not_le.mpr hn), onDevice_of_error (hr.trans hd)]
      exact .error rfl

lemma tells_clear {σ : Type} (y : Except Failure σ) (f : σ → Region)
    (hm : ∀ a, y = .ok a → f a ∈ l.regions)
    (hg : ∀ a d', y = .ok a → bodyIn (image (f a) d') = none → r'.Shows H l d' o.register) :
    Tells H l o s (do discard y; return r') (onDevice (do Record.clear (f (← y))) s) := by
  cases y with
  | error e => exact .error rfl
  | ok a =>
    have hq := hm a rfl
    have hz : Record.headLen ≤ (f a).size := Nat.le_trans (by decide) (h.heads _ hq)
    obtain ⟨d', hd, hi⟩ := Record.clear_healthy (h.valid.checked _ hq) h.faultless
    have hr : (do Record.clear (f (← (.ok a : Except Failure σ))) : EStateM Failure Ram Unit)
      s.device = Record.clear (f a) s.device := rfl
    rw [onDevice_of_ok (hr.trans hd)]
    exact .ok (hg a d' rfl (by rw [hi, bodyIn_erased hz]))

lemma installEnvelope_tells (c : Uuid) (b : Bytes) :
    Tells H l (.installEnvelope c b) s (r.change l (.installEnvelope c b))
      ((Change.installEnvelope c b).run l s) := by
  refine tells_save h (l.slot c) Slot.region
    (fun b => { r with envelope := Function.update r.envelope c (firstItem b) }) b
    (fun t ht => mem_regions_of_home (mem_home_envelope.mpr ⟨t, ht, rfl⟩)) fun t x d' ht hi u hu => ?_
  cases ht.symm.trans hu
  rw [hi]
  exact (Function.update_self c (firstItem x) r.envelope).symm

lemma clearEnvelope_tells (c : Uuid) :
    Tells H l (.clearEnvelope c) s (r.change l (.clearEnvelope c)) ((Change.clearEnvelope c).run l s) := by
  refine tells_clear h (l.slot c) Slot.region
    (fun t ht => mem_regions_of_home (mem_home_envelope.mpr ⟨t, ht, rfl⟩)) fun t d' ht hi u hu => ?_
  cases ht.symm.trans hu
  rw [hi]
  exact (Function.update_self c none r.envelope).symm

lemma saveReport_tells (i : Nat) (b : Bytes) :
    Tells H l (.saveReport i b) s (r.change l (.saveReport i b)) ((Change.saveReport i b).run l s) := by
  refine tells_save h (l.report i) id (fun b => { r with report := Function.update r.report i (some b) }) b
    (fun q hq => mem_regions_of_home (mem_home_report.mpr hq)) fun q x d' hq hi u hu => ?_
  cases hq.symm.trans hu
  exact hi.trans (Function.update_self i (some x) r.report).symm

lemma clearReport_tells (i : Nat) :
    Tells H l (.clearReport i) s (r.change l (.clearReport i)) ((Change.clearReport i).run l s) := by
  refine tells_clear h (l.report i) id
    (fun q hq => mem_regions_of_home (mem_home_report.mpr hq)) fun q d' hq hi u hu => ?_
  cases hq.symm.trans hu
  exact hi.trans (Function.update_self i none r.report).symm

lemma setFlag_tells (f : Flag) :
    Tells H l (.setFlag f) s (r.change l (.setFlag f)) ((Change.setFlag f).run l s) := by
  obtain ⟨d', hd, hi⟩ := setFlag_healthy h.toWorking (h.shown .flags) f
  rw [Change.run, onDevice_of_ok hd]
  exact .ok hi

lemma clearFlag_tells (f : Flag) :
    Tells H l (.clearFlag f) s (r.change l (.clearFlag f)) ((Change.clearFlag f).run l s) := by
  obtain ⟨d', hd, hi⟩ := clearFlag_healthy h.toWorking (h.shown .flags) f
  rw [Change.run, onDevice_of_ok hd]
  exact .ok hi

lemma setCandidate_tells (rs : List Region) :
    Tells H l (.setCandidate rs) s (r.change l (.setCandidate rs)) ((Change.setCandidate rs).run l s) := by
  have hw := Record.write_healthy h.valid.checked_candidate h.faultless h.units
    (Nat.le_trans (by decide) h.candidate_size) .binary (candidateParts rs)
  have hr := setCandidate_run (l := l) rs s.device
  rw [Registers.change, Change.run]
  split
  · rw [if_pos ‹_›] at hr
    rw [onDevice_of_error hr]
    exact .error rfl
  · rename_i h0
    rw [if_neg h0] at hr
    split
    · rename_i hm
      rw [if_pos hm] at hr
      rcases hw with ⟨hn, d', hd, hi⟩ | ⟨hn, hd⟩
      · rw [onDevice_of_ok (hr.trans hd), Registers.padded, if_pos hn]
        exact .ok (.some (by simpa using h0) hm hn hi)
      · rw [onDevice_of_error (hr.trans hd), Registers.padded, if_neg (Nat.not_le.mpr hn)]
        exact .error rfl
    · rw [if_neg ‹_›] at hr
      rw [onDevice_of_error hr]
      exact .error rfl

lemma clearCandidate_tells :
    Tells H l .clearCandidate s (r.change l .clearCandidate) (Change.clearCandidate.run l s) := by
  obtain ⟨d', hd, hi⟩ := Record.clear_healthy h.valid.checked_candidate h.faultless
  rw [Change.run, Storage.clearCandidate, onDevice_of_ok hd]
  exact .ok (.none hi)

lemma setVariable_tells (hH : ∀ x, x.length = l.variableCount.toNat → (H .sha256 x).length = digestLen)
    (i : Nat) (v : UInt8) :
    Tells H l (.setVariable i v) s (r.change l (.setVariable i v)) ((Change.setVariable i v).run l s) := by
  obtain ⟨x, hx, hv⟩ := h.shown .values
  have hl := length_of_copy h.valid.checked_area h.area hx
  obtain ⟨e, he⟩ := setVariable_run h.valid hx i v
  rw [Registers.change, Change.run, he, checkIndex]
  split
  · rename_i hi
    split
    · rename_i hg
      refine .ok ⟨x, hx, fun k hk => ?_⟩
      change x.getD k 0xff = Function.update r.value i v k
      by_cases hki : k = i
      · rw [hki, hg, Function.update_self]
      · rw [hv k hk, Function.update_of_ne hki]
    · obtain ⟨t, ht, hc⟩ := commit_healthy (s := ⟨s.device, e⟩) hH h.toWorking
        (x := x.set i v) (by rw [List.length_set, hl])
      rw [ht]
      refine .ok ⟨x.set i v, hc, fun k hk => ?_⟩
      change (x.set i v).getD k 0xff = Function.update r.value i v k
      by_cases hki : k = i
      · rw [hki, Function.update_self]
        simp [List.getD_eq_getElem?_getD, hl, hi]
      · rw [Function.update_of_ne hki, ← hv k hk, List.getD_eq_getElem?_getD,
          List.getElem?_set_ne (Ne.symm hki), List.getD_eq_getElem?_getD]
  · exact .error rfl

lemma Represents.change
    (hH : ∀ x, x.length = l.variableCount.toNat → (H .sha256 x).length = digestLen) (o : Change) :
    Tells H l o s (r.change l o) (o.run l s) := by
  cases o with
  | installEnvelope c b => exact installEnvelope_tells h c b
  | clearEnvelope c => exact clearEnvelope_tells h c
  | saveReport i b => exact saveReport_tells h i b
  | clearReport i => exact clearReport_tells h i
  | setFlag f => exact setFlag_tells h f
  | clearFlag f => exact clearFlag_tells h f
  | setCandidate rs => exact setCandidate_tells h rs
  | clearCandidate => exact clearCandidate_tells h
  | setVariable i v => exact setVariable_tells h hH i v

end Changes

lemma Layout.Valid.image_of_at (h : l.Valid d) {y : Register} (hd : Reach (l.At y) d d') (hx : x ≠ y)
    (hq : q ∈ l.home x) : image q d' = image q d :=
  slice_of_reach hd fun _ ⟨_, hp, hm⟩ => hm.spares_region (h.home_apart hx.symm hp hq)

section Answers

variable {y : Except Failure Registers} {z : EStateM.Result Failure (Store Ram (Digester H)) Unit}

lemma Tells.answer (h : Tells H l o s y z) : answer z = y.map fun _ => () := by
  cases h <;> rfl

lemma Tells.shown (h : Tells H l o s y z) (hs : r.Shows H l s.device o.register) :
    (y.toOption.getD r).Shows H l (stateAfter z).device o.register := by
  cases h with
  | ok ht => exact ht
  | error hd =>
    rw [stateAfter_error, hd]
    exact hs

end Answers

lemma Represents.step (h : Represents H l r s.device)
    (hH : ∀ x, x.length = l.variableCount.toNat → (H .sha256 x).length = digestLen) (o : Change) :
    answer (o.run l s) = (r.change l o).map (fun _ => ()) ∧
      Represents H l (r.after l o) (stateAfter (o.run l s)).device := by
  have ht := h.change hH o
  have hd : Reach (l.At o.register) s.device (stateAfter (o.run l s)).device := o.follows_run s
  refine ⟨ht.answer, h.of_alike (alike_of_reach hd), fun x => ?_⟩
  by_cases hx : x = o.register
  · subst hx
    exact ht.shown (h.shown _)
  · exact (h.shown x).congr (Registers.agree_after hx) fun q => h.valid.image_of_at hd hx

lemma Represents.read (h : Represents H l r s.device) (q : Query) {a : Arena} (ha : Roomy a) :
    answer (q.run l (s, a)) = r.read l q := by
  cases q with
  | envelope c =>
    rw [Query.run, Query.answer_onArena, Registers.read]
    cases hs : l.slot c with
    | error e =>
      rw [installedEnvelope, hs]
      rfl
    | ok t =>
      have ht := h.valid.checked _ (mem_regions_of_home (mem_home_envelope.mpr ⟨t, hs, rfl⟩))
      rw [installedEnvelope_answer hs ht, envelopeIn_eq, h.shown (.envelope c) t hs]
      rfl
  | report i =>
    rw [Query.run, Query.answer_onArena, Registers.read]
    cases hq : l.report i with
    | error e =>
      rw [readReport, hq]
      rfl
    | ok q =>
      have ht := h.valid.checked _ (mem_regions_of_home (mem_home_report.mpr hq))
      rw [readReport_answer hq ht, h.shown (.report i) q hq]
      rfl
  | flag f =>
    rw [Query.run, Query.answer_onArena, Registers.read, checkFlag_run h.valid (h.shown .flags)]
    split <;> rfl
  | candidate =>
    rw [Query.run, Query.answer_onArena]
    exact Lists.answer (h.shown .candidate) h.toHealthy ha
  | value i =>
    obtain ⟨x, hx, hv⟩ := h.shown .values
    have hc : l.current H s.device = some x := by rw [current, hx, Option.some_or]
    rw [Query.run, answer_onPart, getVariable_run h.valid hc, Registers.read]
    split
    · rw [hv i ‹_›]
    · rfl

def Registers.initial (l : Layout) (d : Ram) (x : Bytes) : Registers where
  envelope c := (l.slot c).toOption.bind fun s => (bodyIn (image s.region d)).bind firstItem
  report i := (l.report i).toOption.bind fun q => bodyIn (image q d)
  flag := none
  candidate := none
  value i := x.getD i 0xff

lemma represents_initial {x : Bytes} (h : Healthy l d)
    (hc : image l.candidate d = Bytes.erased l.candidate.size)
    (hf : image l.flags d = Bytes.erased l.flags.size) (hx : l.copy H l.variableArea d = some x) :
    Represents H l (.initial l d x) d where
  toHealthy := h
  shown y := by
    cases y with
    | envelope c =>
      intro s hs
      change _ = (l.slot c).toOption.bind _
      rw [hs]
      rfl
    | report i =>
      intro q hq
      change _ = (l.report i).toOption.bind _
      rw [hq]
      rfl
    | flags =>
      rw [Registers.Shows, hf]
      exact filled_nil l.flags.size ▸ decodeCell_cell h.valid.flags_size none
    | candidate => exact .none hc
    | values => exact ⟨x, hx, fun i _ => rfl⟩

inductive Step where
  | change (o : Change)
  | query (q : Query) (a : Arena)

namespace Step

def onDevice (l : Layout) (s : Store Ram (Digester H)) : Step → Store Ram (Digester H)
  | change o => stateAfter (o.run l s)
  | query q a => (stateAfter (q.run l (s, a))).1

def onRegisters (l : Layout) (r : Registers) : Step → Registers
  | change o => r.after l o
  | query .. => r

end Step

lemma Represents.run (hH : ∀ x, x.length = l.variableCount.toNat → (H .sha256 x).length = digestLen)
    (h : Represents H l r s.device) (steps : List Step) :
    Represents H l (steps.foldl (Step.onRegisters l) r) (steps.foldl (Step.onDevice l) s).device := by
  induction steps generalizing r s with
  | nil => exact h
  | cons a steps ih =>
    refine ih ?_
    cases a with
    | change o => exact (h.step hH o).2
    | query q a =>
      have hd : (Step.onDevice l s (.query q a)).device = s.device := q.follows_run (s, a)
      rw [hd]
      exact h

/-- From any contents, if only the flags and the candidate start out erased, the storage is a set of
registers: whatever is changed and read in whatever order, changes are accepted and reads answered as
by the registers. What is changed does not show in what is read elsewhere. -/
theorem storage_registers {s₀ : Store Ram (Digester H)} {rep : Repair}
    (hH : ∀ x, x.length = l.variableCount.toNat → (H .sha256 x).length = digestLen)
    (hu : s₀.device.writeUnit ∣ s₀.device.eraseUnit) (hf : ∀ k, s₀.device.faulty k = false)
    (hz : ∀ q ∈ l.regions, 8 ≤ q.size) (hi : init l s₀ = .ok rep s)
    (hc : image l.candidate s₀.device = Bytes.erased l.candidate.size)
    (hg : image l.flags s₀.device = Bytes.erased l.flags.size) :
    ∃ r : Registers, r.flag = none ∧ r.candidate = none ∧ ∀ steps : List Step,
      let t := steps.foldl (Step.onDevice l) s
      let r := steps.foldl (Step.onRegisters l) r
      (∀ q a, Roomy a → answer (q.run l (t, a)) = r.read l q) ∧
      (∀ o : Change, answer (o.run l t) = (r.change l o).map fun _ => ()) ∧
      ∀ (o : Change) (q : Query) a, q.register ≠ o.register → Roomy a →
        answer (q.run l (stateAfter (o.run l t), a)) = answer (q.run l (t, a)) := by
  obtain ⟨hv, hr⟩ := init_eq_ok hi
  have h₀ : Healthy l s₀.device := ⟨⟨⟨hv, hu⟩, hf⟩, hz⟩
  have hd : Reach (l.At .values) s₀.device s.device := (follows_init (l := l)).of_ok hi
  obtain ⟨-, x, -, hx, -⟩ := repair_eq_ok hH hv hr
  have hs : Represents H l (.initial l s.device x) s.device := by
    refine represents_initial (h₀.of_alike (alike_of_reach hd)) ?_ ?_ hx
    · rw [hv.image_of_at (x := .candidate) hd (by simp) (List.mem_singleton_self _), hc]
    · rw [hv.image_of_at (x := .flags) hd (by simp) (List.mem_singleton_self _), hg]
  refine ⟨.initial l s.device x, rfl, rfl, fun steps => ?_⟩
  intro t r
  have ht : Represents H l r t.device := hs.run hH steps
  refine ⟨fun q a ha => ht.read q ha, fun o => (ht.step hH o).1, fun o q a hq ha => ?_⟩
  rw [(ht.step hH o).2.read q ha, ht.read q ha, (Registers.agree_after hq).read]

theorem storage_registers_twoClasses :
    let s₀ : Store Ram (Digester fun _ x => x ++ Bytes.erased 31) :=
      ⟨Ram.ofBytes (List.replicate 60 0 ++ Bytes.erased 110) 2 10, Digester.idle⟩
    let s := stateAfter (init twoClasses s₀)
    let steps : List Step := [.change (.saveReport 0 [1, 2]), .change (.setFlag .recovery),
      .change (.setCandidate [⟨7, 9⟩]), .query .candidate (Arena.ofSize 100),
      .change (.setFlag .foregroundDfu), .change (.setVariable 0 5),
      .change (.installEnvelope Uuid.zero [0x41, 7])]
    let t := steps.foldl (Step.onDevice twoClasses) s
    init twoClasses s₀ = .ok .reinitialized s ∧ ∀ a, Roomy a →
      answer ((Query.report 0).run twoClasses (t, a)) = .ok ([1, 2] ++ Bytes.erased 14) ∧
      answer ((Query.flag .foregroundDfu).run twoClasses (t, a)) = .ok () ∧
      answer ((Query.flag .recovery).run twoClasses (t, a)) = .error .notFound ∧
      answer (Query.candidate.run twoClasses (t, a)) = .ok [⟨7, 9⟩] ∧
      answer ((Query.value 0).run twoClasses (t, a)) = .ok 5 ∧
      answer ((Query.envelope Uuid.zero).run twoClasses (t, a)) = .ok [0x41, 7] := by
  intro s₀ s steps t
  have hi : init twoClasses s₀ = .ok .reinitialized s := answer_eq_ok (by decide +kernel)
  have hH (x : Bytes) (hx : x.length = twoClasses.variableCount.toNat) :
      (x ++ Bytes.erased 31).length = digestLen := by
    rw [List.length_append, hx, Bytes.length_erased]
    rfl
  obtain ⟨r, -, -, h⟩ := storage_registers hH (by decide) (fun _ => rfl) (by decide) hi (by decide +kernel)
    (by decide +kernel)
  have hr := (h steps).1
  refine ⟨hi, fun a ha => ⟨(hr _ a ha).trans ?_, (hr _ a ha).trans ?_, (hr _ a ha).trans ?_,
    (hr _ a ha).trans ?_, (hr _ a ha).trans ?_, (hr _ a ha).trans ?_⟩⟩
  all_goals rfl

end Simulation

end Firmware.Storage
