import Firmware.Proofs.Flash.Seeking

/-!
Devices in memory that only differ in how often they were changed. Without faults nobody can tell such
devices apart, so that writers on them do the same.
-/

namespace Firmware.Flash

namespace Ram

inductive Twin : Ram → Ram → Prop
  | mk {d : Ram} (changes attempts : Nat) : (∀ k, d.faulty k = false) → Twin d { d with changes, attempts }

namespace Twin

variable {d d' : Ram}

lemma contents (h : d.Twin d') : d'.contents = d.contents := by
  cases h
  rfl

lemma symm (h : d.Twin d') : d'.Twin d := by
  cases h with
  | mk _ _ hf => exact .mk d.changes d.attempts hf

end Twin

lemma Alike.twin {d d' : Ram} (h : d.Alike d') (hc : d'.contents = d.contents) (hf : ∀ k, d.faulty k = false) :
    d.Twin d' := by
  have hd : d' = { d with changes := d'.changes, attempts := d'.attempts } := by
    obtain ⟨⟨hw, he, hr, -⟩, hf'⟩ := h
    rw [← hc, ← hw, ← he, ← hr, ← hf']
  exact hd ▸ .mk _ _ hf

lemma respects_change (f : Bytes → Bytes) : Respects Twin (change f) := by
  rintro d _ ⟨changes, attempts, hf⟩
  simp only [change, hf]
  split
  · exact .error (.mk _ _ hf)
  · exact .ok (.mk _ _ hf)

lemma respects_perform (m : Mutation) : Respects Twin (m.perform : EStateM Flash.Error Ram Unit) := by
  rintro d _ ⟨changes, attempts, hf⟩
  have hd : d.Twin { d with changes, attempts } := .mk _ _ hf
  cases m with
  | program a data =>
    simp only [Mutation.perform, program_run]
    repeat' split
    · exact .error hd
    · exact .error hd
    · exact respects_change _ hd
  | erase a n =>
    simp only [Mutation.perform, erase_run]
    repeat' split
    · exact .error hd
    · exact .error hd
    · exact respects_change _ hd
  | flush => exact .ok hd

variable {r : Region} {d d' d'' : Ram} {u : Unit}

lemma erase_eq_ok (h : (Flash.erase r.start r.size : EStateM Flash.Error Ram Unit) d = .ok u d') :
    r.stop ≤ d.contents.length ∧ image r d' = Bytes.erased r.size := by
  rw [erase_run] at h
  split at h
  · cases h
  · rename_i hl
    have hin : r.stop ≤ d.contents.length := Nat.not_lt.mp hl
    split at h
    · cases h
    · simp only [change] at h
      repeat' split at h
      all_goals cases h
      refine ⟨hin, ?_⟩
      rw [image, slice_splice_of_inside (f := fun _ => Bytes.erased r.size) hin (Bytes.length_erased _)
        (Nat.le_refl _) (Nat.le_refl _) hin]
      simp [splice, length_slice_of_le hin]

def blanked (r : Region) (d : Ram) : Ram := overwrite r.start (Bytes.erased r.size) d

lemma blanked_of_erased (hr : r.stop ≤ d.contents.length) (hi : image r d = Bytes.erased r.size) :
    blanked r d = d := by
  have hs : splice d.contents r.start (Bytes.erased r.size).length (fun _ => Bytes.erased r.size) = d.contents := by
    rw [Bytes.length_erased, ← hi]
    apply List.ext_getElem?
    intro i
    rw [getElem?_splice hr (length_image hr), image, getElem?_slice]
    grind
  rw [blanked, overwrite, hs]

lemma twin_of_erase (hf : ∀ k, d.faulty k = false) (hr : Reach (·.Inside r) d d')
    (he : (Flash.erase r.start r.size : EStateM Flash.Error Ram Unit) d' = .ok u d'') :
    (blanked r d).Twin d'' := by
  have hm : (Mutation.erase r.start r.size).Inside r := ⟨Nat.le_refl _, Nat.le_refl _⟩
  have hs : Reach (·.Inside r) d' d'' := by
    have hx := Reach.single (d := d') hm
    rwa [Mutation.perform, he] at hx
  have ha := alike_of_reach (hr.trans hs)
  obtain ⟨hl, hi⟩ := erase_eq_ok he
  have hin : r.stop ≤ d.contents.length := (alike_of_reach hr).length ▸ hl
  have hd : d''.contents = (blanked r d).contents := by
    rw [contents_of_reach (hr.trans hs) hin, hi]
    simp [blanked, overwrite, splice, Region.stop]
  have hb : (blanked r d).Alike d'' :=
    ⟨⟨ha.writeUnit, ha.eraseUnit, ha.ready, congrArg List.length hd⟩, ha.faulty⟩
  exact hb.twin hd hf

end Ram

namespace Writer

open Ram

inductive Twin : Writer Ram → Writer Ram → Prop
  | mk {w : Writer Ram} {d : Ram} : w.device.Twin d → Twin w { w with device := d }

lemma Twin.device {w w' : Writer Ram} (h : w.Twin w') : w.device.Twin w'.device := by
  cases h
  assumption

lemma Twin.symm {w w' : Writer Ram} (h : w.Twin w') : w'.Twin w := by
  cases h with
  | mk h => exact .mk (w := { w with device := _ }) h.symm

lemma respects_onDevice (m : Mutation) : Respects Twin (onDevice m.perform : EStateM Failure (Writer Ram) Unit) := by
  refine (respects_perform m).adaptExcept.onPart (fun _ _ h => h.device) ?_
  rintro w _ d d' ⟨-⟩ hd
  exact .mk (w := { w with device := d }) hd

lemma respects_get_bind {α : Type} {f : Writer Ram → EStateM Failure (Writer Ram) α}
    (hd : ∀ w d, f { w with device := d } = f w) (hf : ∀ w, Respects Twin (f w)) :
    Respects Twin (get >>= f) := by
  refine .get_bind ?_ hf
  rintro w _ ⟨-⟩
  exact hd w _

lemma respects_modify (region : Region → Region) (unit offset : Nat → Nat) (staged : Bytes → Bytes) :
    Respects Twin (modify fun w => ⟨w.device, region w.region, unit w.unit, offset w.offset, staged w.staged⟩ :
      EStateM Failure (Writer Ram) PUnit) := by
  refine .modify ?_
  rintro w _ ⟨h⟩
  exact .mk (w := ⟨w.device, _, _, _, _⟩) h

lemma respects_programUnits (n : Nat) (data : Bytes) : Respects Twin (programUnits n data) :=
  respects_get_bind (fun _ _ => rfl) fun _ => .check (.bind (respects_onDevice (.program _ _)) fun _ =>
    respects_modify id id (· + n) id)

lemma respects_writeUnits (data : Bytes) : Respects Twin (writeUnits data) :=
  respects_get_bind (fun _ _ => rfl) fun _ =>
    .ite (.bind (respects_programUnits _ _) fun _ => respects_modify id id id fun _ => _)
      (respects_modify id id id fun _ => _)

lemma respects_programStaged : Respects Twin (programStaged : EStateM Failure (Writer Ram) Unit) :=
  respects_get_bind (fun _ _ => rfl) fun _ =>
    .bind (respects_programUnits _ _) fun _ => respects_modify id id id fun _ => []

lemma respects_write (data : Bytes) : Respects Twin (write data) := by
  rintro w _ @⟨d, h⟩
  rw [write_run, write_run]
  split
  · exact respects_writeUnits data (.mk h)
  · -- What is staged is set together with the device, so that only the rest is a computation that respects twins.
    have hs : Twin { w with staged := w.staged ++ data.take (w.unit - w.staged.length) }
        { w with device := d, staged := w.staged ++ data.take (w.unit - w.staged.length) } := .mk h
    have hr : Respects Twin (if w.unit - w.staged.length ≤ data.length then do
        programStaged
        writeUnits (data.drop (w.unit - w.staged.length)) else pure () : EStateM Failure (Writer Ram) Unit) :=
      .ite (.bind respects_programStaged fun _ => respects_writeUnits _) (.pure _)
    exact hr hs

lemma respects_pad : Respects Twin (pad : EStateM Failure (Writer Ram) Unit) :=
  respects_get_bind (fun _ _ => rfl) fun _ => .ite (.pure _) respects_programStaged

lemma respects_flush : Respects Twin (flush : EStateM Failure (Writer Ram) Unit) :=
  .bind respects_pad fun _ => respects_onDevice .flush

lemma eq_of_start {r : Region} {d : Ram} {w : Writer Ram} (h : start r d = .ok w) :
    w = ⟨d, r, d.writeUnit, 0, []⟩ := by
  simp only [start] at h
  split at h
  · cases h
  · cases h
    rfl

def blank (w : Writer Ram) : Writer Ram := ⟨blanked w.region w.device, w.region, w.unit, 0, []⟩

lemma twin_of_erase {w v v' : Writer Ram} (hf : ∀ k, w.device.faulty k = false) (hm : Moves w v)
    (he : erase v = .ok () v') : w.blank.Twin v' := by
  have hr := hm.reach
  have hu := hm.unit
  obtain ⟨d, region, unit, offset, staged⟩ := v
  cases hm.region
  cases hu
  rw [erase_run] at he
  dsimp only at he hr
  cases hx : (Flash.erase w.region.start w.region.size : EStateM Flash.Error Ram Unit) d with
  | error x d' =>
    rw [hx] at he
    cases he
  | ok _ d' =>
    rw [hx] at he
    cases he
    exact .mk (w := w.blank) (Ram.twin_of_erase hf hr hx)

end Writer

end Firmware.Flash
