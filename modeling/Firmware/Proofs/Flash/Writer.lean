import Firmware.Flash.Writer
import Firmware.Proofs.Flash.Mutation

namespace Firmware.Flash

namespace Writer

variable {δ : Type} [Flash δ]

lemma start_eq_ok {r : Region} {d : δ} (h : writeUnit d ≠ 0 ∧ writeUnit d ≤ maxWriteUnit) :
    start r d = .ok ⟨d, r, writeUnit d, 0, []⟩ := by
  rw [start, if_neg (not_or.mpr ⟨h.1, Nat.not_lt.mpr h.2⟩)]

structure Moves (w w' : Writer δ) : Prop where
  region : w'.region = w.region
  unit : w'.unit = w.unit
  reach : Reach (·.Inside w.region) w.device w'.device

instance : IsPreorder (Writer δ) Moves where
  refl _ := ⟨rfl, rfl, .refl⟩
  trans _ _ _ h h' := ⟨h'.1.trans h.1, h'.2.trans h.2, h.3.trans (h.1 ▸ h'.3)⟩

/-- A writer has changed its region, and may have called its device with what is too long to be counted. -/
structure Roams (w w' : Writer δ) : Prop where
  region : w'.region = w.region
  unit : w'.unit = w.unit
  reach : Reach (fun m => m.Inside w.region ∨ m.Long) w.device w'.device

instance : IsPreorder (Writer δ) Roams where
  refl _ := ⟨rfl, rfl, .refl⟩
  trans _ _ _ h h' := ⟨h'.1.trans h.1, h'.2.trans h.2, h.3.trans (h.1 ▸ h'.3)⟩

lemma Moves.roams {w w' : Writer δ} (h : Moves w w') : Roams w w' :=
  ⟨h.region, h.unit, h.reach.mono fun _ => .inl⟩

lemma programUnits_run (n : Nat) (data : Bytes) (w : Writer δ) :
    programUnits n data w =
      if w.region.size < w.offset + n then .error .size w
      else match program (w.region.start + w.offset) data w.device with
        | .ok () d => .ok () { w with device := d, offset := w.offset + n }
        | .error e d => .error e.failure { w with device := d } := by
  by_cases h : w.offset + n ≤ w.region.size
  · cases hp : program (w.region.start + w.offset) data w.device <;>
      simp [programUnits, EStateM.bind_run, onDevice, onPart, h, Nat.not_lt.mpr h, hp]
  · simp [programUnits, EStateM.bind_run, h, Nat.lt_of_not_le h]

lemma reach_programUnits {P : Mutation → Prop} {n : Nat} {data : Bytes} {w : Writer δ}
    (h : w.offset + n ≤ w.region.size → P (.program (w.region.start + w.offset) data)) :
    let w' := stateAfter (programUnits n data w)
    w'.region = w.region ∧ w'.unit = w.unit ∧ Reach P w.device w'.device := by
  rw [programUnits_run]
  split
  · exact ⟨rfl, rfl, .refl⟩
  · rename_i hn
    have hr := Reach.single (d := w.device) (h (Nat.not_lt.mp hn))
    simp only [Mutation.perform] at hr
    cases hp : program (w.region.start + w.offset) data w.device with
    | ok a d => exact ⟨rfl, rfl, by simpa [hp] using hr⟩
    | error e d => exact ⟨rfl, rfl, by simpa [hp] using hr⟩

lemma unit_programUnits (n : Nat) (data : Bytes) (w : Writer δ) :
    (stateAfter (programUnits n data w)).unit = w.unit :=
  (reach_programUnits (P := fun _ => True) fun _ => trivial).2.1

lemma follows_programUnits {n : Nat} {data : Bytes} (hn : data.length ≤ n) :
    Follows Moves (programUnits n data : EStateM Failure (Writer δ) Unit) := by
  intro w
  have hm (hw : w.offset + n ≤ w.region.size) :
      (Mutation.program (w.region.start + w.offset) data).Inside w.region := by
    simp only [Mutation.Inside, Region.stop]
    omega
  obtain ⟨hr, hu, h⟩ := reach_programUnits hm
  exact ⟨hr, hu, h⟩

lemma follows_programUnits_cut {data : Bytes} (hd : data.length < 0x100000000) :
    Follows Moves (programUnits (data.length % 0x100000000) data : EStateM Failure (Writer δ) Unit) :=
  follows_programUnits (Nat.le_of_eq (Nat.mod_eq_of_lt hd).symm)

lemma roams_programUnits_cut (data : Bytes) :
    Follows Roams (programUnits (data.length % 0x100000000) data : EStateM Failure (Writer δ) Unit) := by
  intro w
  rcases Nat.lt_or_ge data.length 0x100000000 with hd | hd
  · exact (follows_programUnits_cut hd w).roams
  · have hm (_ : w.offset + data.length % 0x100000000 ≤ w.region.size) :
        (Mutation.program (w.region.start + w.offset) data).Inside w.region ∨
          (Mutation.program (w.region.start + w.offset) data).Long := .inr hd
    obtain ⟨hr, hu, h⟩ := reach_programUnits (P := fun m => m.Inside w.region ∨ m.Long) hm
    exact ⟨hr, hu, h⟩

section Staging

variable {R : Writer δ → Writer δ → Prop} [IsPreorder (Writer δ) R] {data : Bytes}
  (hp : ∀ x, Follows R (programUnits x.length x : EStateM Failure (Writer δ) Unit))
  (hc : ∀ x, x.length ≤ data.length →
    Follows R (programUnits (x.length % 0x100000000) x : EStateM Failure (Writer δ) Unit))
  (hs : ∀ w s, R w { w with staged := s })

include hc hs in
lemma follows_writeUnits_of : Follows R (writeUnits data : EStateM Failure (Writer δ) Unit) := by
  refine .bind .get fun w => ?_
  have hm : Follows R (modify fun v => { v with
      staged := data.drop (data.length - data.length % w.unit) } :
      EStateM Failure (Writer δ) PUnit) := .modify fun v => hs v _
  have hu := hc (data.take (data.length - data.length % w.unit)) (List.length_take_le' _ _)
  rw [List.length_take_of_le (Nat.sub_le _ _)] at hu
  exact .ite (.bind hu fun _ => hm) hm

include hp hs in
lemma follows_programStaged_of :
    Follows R (programStaged : EStateM Failure (Writer δ) Unit) :=
  .bind .get fun _ => .bind (hp _) fun _ => .modify fun v => hs v []

include hp hc hs in
lemma follows_write_of : Follows R (write data : EStateM Failure (Writer δ) Unit) := by
  refine .get_bind fun w => ?_
  by_cases h0 : w.staged.isEmpty = true
  · simpa only [h0, ↓reduceIte] using follows_writeUnits_of hc hs w
  · simp only [h0, Bool.false_eq_true, ↓reduceIte, EStateM.bind_run, EStateM.set_run]
    apply trans_of R (hs w (w.staged ++ data.take (w.unit - w.staged.length)))
    split
    · refine Follows.bind (follows_programStaged_of hp hs) (fun _ => follows_writeUnits_of (fun x hx => ?_) hs) _
      exact hc x (Nat.le_trans hx (by simp))
    · exact refl_of R _

include hp hs in
lemma follows_pad_of : Follows R (pad : EStateM Failure (Writer δ) Unit) :=
  .bind .get fun _ => .ite (.pure _) (follows_programStaged_of hp hs)

end Staging

lemma moves_staged (w : Writer δ) (s : Bytes) : Moves w { w with staged := s } := ⟨rfl, rfl, .refl⟩

lemma follows_programStaged :
    Follows Moves (programStaged : EStateM Failure (Writer δ) Unit) :=
  follows_programStaged_of (fun _ => follows_programUnits (Nat.le_refl _)) moves_staged

lemma follows_write {data : Bytes} (hd : data.length < 0x100000000) :
    Follows Moves (write data : EStateM Failure (Writer δ) Unit) :=
  follows_write_of (fun _ => follows_programUnits (Nat.le_refl _))
    (fun _ hx => follows_programUnits_cut (Nat.lt_of_le_of_lt hx hd)) moves_staged

lemma roams_staged (w : Writer δ) (s : Bytes) : Roams w { w with staged := s } := (moves_staged w s).roams

lemma roams_writeUnits (data : Bytes) :
    Follows Roams (writeUnits data : EStateM Failure (Writer δ) Unit) :=
  follows_writeUnits_of (fun x _ => roams_programUnits_cut x) roams_staged

lemma roams_write (data : Bytes) : Follows Roams (write data : EStateM Failure (Writer δ) Unit) :=
  follows_write_of (fun _ w => (follows_programUnits (Nat.le_refl _) w).roams)
    (fun x _ => roams_programUnits_cut x) roams_staged

lemma follows_pad : Follows Moves (pad : EStateM Failure (Writer δ) Unit) :=
  follows_pad_of (fun _ => follows_programUnits (Nat.le_refl _)) moves_staged

lemma follows_onDevice {f : EStateM Flash.Error δ Unit} (m : Mutation) (hm : ∀ r, m.Inside r)
    (hf : ∀ d, stateAfter (f d) = stateAfter (m.perform d)) :
    Follows Moves (onDevice f : EStateM Failure (Writer δ) Unit) := by
  intro w
  rw [onDevice, stateAfter_onPart]
  exact ⟨rfl, rfl, by simpa only [stateAfter_adaptExcept, hf] using Reach.single (hm _)⟩

lemma follows_flush : Follows Moves (flush : EStateM Failure (Writer δ) Unit) :=
  .bind follows_pad fun _ => follows_onDevice .flush (fun _ => trivial) fun _ => rfl

lemma erase_run (w : Writer δ) :
    erase w =
      match Flash.erase w.region.start w.region.size w.device with
      | .ok () d => .ok () { w with device := d, staged := [], offset := 0 }
      | .error e d => .error e.failure { w with device := d, staged := [], offset := 0 } := by
  cases he : Flash.erase w.region.start w.region.size w.device <;>
    simp [erase, EStateM.bind_run, onDevice, onPart, he]

lemma follows_erase : Follows Moves (erase : EStateM Failure (Writer δ) Unit) := by
  intro w
  have hm : (Mutation.erase w.region.start w.region.size).Inside w.region := by
    simp [Mutation.Inside, Region.stop]
  have hr := Reach.single (d := w.device) hm
  simp only [Mutation.perform] at hr
  rw [erase_run]
  cases he : Flash.erase w.region.start w.region.size w.device with
  | ok a d => exact ⟨rfl, rfl, by simpa [he] using hr⟩
  | error e d => exact ⟨rfl, rfl, by simpa [he] using hr⟩

end Writer

lemma follows_writing_of {δ α : Type} [Flash δ] {r : Region} {f : EStateM Failure (Writer δ) α}
    {P : Mutation → Prop} (hf : ∀ w, w.region = r → Reach P w.device (stateAfter (f w)).device) :
    Follows (Reach P) (writing r f) := by
  intro d
  simp only [writing, Writer.start]
  split
  · exact refl_of (Reach _) d
  · rename_i w hw
    split at hw
    · cases hw
    · cases hw
      have hr := hf ⟨d, r, writeUnit d, 0, []⟩ rfl
      cases h : f ⟨d, r, writeUnit d, 0, []⟩ with
      | ok a w => simpa only [h, stateAfter_ok] using hr
      | error e w => simpa only [h, stateAfter_error] using hr

lemma roams_writing {δ α : Type} [Flash δ] {r : Region} {f : EStateM Failure (Writer δ) α}
    (hf : Follows Writer.Roams f) : Follows (Reach fun m => m.Inside r ∨ m.Long) (writing r f) :=
  follows_writing_of fun w hw => hw ▸ (hf w).reach

lemma follows_writing {δ α : Type} [Flash δ] {r : Region} {f : EStateM Failure (Writer δ) α}
    (hf : Follows Writer.Moves f) : Follows (Reach (·.Inside r)) (writing r f) :=
  follows_writing_of fun w hw => hw ▸ (hf w).reach

end Firmware.Flash
