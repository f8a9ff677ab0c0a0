import Firmware.Proofs.Storage.Record
import Firmware.Stream.Cache

/-!
The length of an entry is programmed last, over bytes that are still erased inside units that have
been programmed.
-/

namespace Firmware.Flash

lemma roundUp_eq_some {n u m : Nat} (hu : 0 < u) (hm : u ∣ m) (hn : n ≤ m) (hb : m < 0x100000000) :
    ∃ k, roundUp n u = some k ∧ n ≤ k ∧ k ≤ m ∧ u ∣ k ∧ k < n + u := by
  have hmod := Nat.mod_lt n hu
  simp only [roundUp]
  rw [if_neg (Nat.ne_of_gt hu)]
  split
  · rename_i h0
    exact ⟨n, rfl, Nat.le_refl n, hn, Nat.dvd_of_mod_eq_zero h0, by omega⟩
  · rename_i h0
    have hk : n + (u - n % u) = (n / u + 1) * u := by
      have := Nat.div_add_mod n u
      rw [Nat.add_mul, Nat.mul_comm]
      omega
    have hle : n + (u - n % u) ≤ m := by
      obtain ⟨j, rfl⟩ := hm
      have hj : n / u < j := by
        apply Nat.div_lt_of_lt_mul
        apply Nat.lt_of_le_of_ne hn
        rintro rfl
        exact h0 (Nat.mul_mod_right u j)
      rw [hk, Nat.mul_comm u j]
      exact Nat.mul_le_mul_right u hj
    rw [if_pos (by omega)]
    exact ⟨_, rfl, by omega, hle, hk ▸ Nat.dvd_mul_left _ _, by omega⟩

lemma zipWith_and_self (b : Bytes) : List.zipWith (· &&& ·) b b = b := by
  induction b with
  | nil => rfl
  | cons x b ih => rw [List.zipWith_cons_cons, ih, UInt8.and_self]

lemma splice_over (a b c d data : Bytes) :
    Ram.splice (a ++ (b ++ Bytes.erased data.length ++ c) ++ d) a.length
        (b ++ data ++ c).length (List.zipWith (· &&& ·) · (b ++ data ++ c)) =
      a ++ (b ++ data ++ c) ++ d := by
  have hl : (b ++ Bytes.erased data.length ++ c).length = (b ++ data ++ c).length := by simp
  have hs : slice (a ++ (b ++ Bytes.erased data.length ++ c) ++ d) a.length (b ++ data ++ c).length =
      b ++ Bytes.erased data.length ++ c := by
    rw [slice, List.append_assoc a, List.drop_left, List.take_left' hl]
  have hz : List.zipWith (· &&& ·) (b ++ Bytes.erased data.length ++ c) (b ++ data ++ c) =
      b ++ data ++ c := by
    rw [List.zipWith_append (by simp), List.zipWith_append rfl, zipWith_and_self, zipWith_and_self,
      zipWith_and_erased]
  have ht : (a ++ (b ++ Bytes.erased data.length ++ c) ++ d).take a.length = a := by
    rw [List.append_assoc a, List.take_left]
  have hd : (a ++ (b ++ Bytes.erased data.length ++ c) ++ d).drop
      (a.length + (b ++ data ++ c).length) = d := by
    rw [List.drop_left']
    rw [List.length_append, hl]
  rw [Ram.splice, hs, hz, ht, hd]

end Firmware.Flash

namespace Firmware.Cache

open Flash Ram Storage

structure Suits (r : Region) (d : Ram) : Prop where
  checked : Record.Checked r d
  units : d.writeUnit ∣ d.eraseUnit
  faultless : ∀ k, d.faulty k = false

variable {r : Region} {d d' : Ram}

lemma Suits.of_alike (h : Suits r d) (ha : d.Alike d') : Suits r d' where
  checked := h.checked.of_shaped ha.toShaped
  units := by
    rw [ha.writeUnit, ha.eraseUnit]
    exact h.units
  faultless k := by
    rw [ha.faulty]
    exact h.faultless k

lemma Suits.stop_lt (h : Suits r d) : r.stop < 0x100000000 := h.checked.stop_lt

lemma Suits.eraseUnit_pos (h : Suits r d) : 0 < d.eraseUnit := ((isMultiple_iff _ _).mp h.checked.start).1

lemma Suits.eraseUnit_dvd (h : Suits r d) : d.eraseUnit ∣ r.start ∧ d.eraseUnit ∣ r.size :=
  ⟨((isMultiple_iff _ _).mp h.checked.start).2, ((isMultiple_iff _ _).mp h.checked.size).2⟩

lemma Suits.erase (h : Suits r d) :
    ∃ d', (Flash.erase r.start r.size : EStateM Flash.Error Ram Unit) d = .ok () d' ∧
      image r d' = Bytes.erased r.size ∧ Reach (·.Inside r) d d' := by
  have hm : (Mutation.erase r.start r.size).Inside r := by
    simp only [Mutation.Inside, Region.stop]
    omega
  have hr := Reach.single (d := d) hm
  rcases h.checked.erase_cases with ⟨e, d', -, hx, -⟩ | ⟨d', hd, hi⟩
  · rw [h.faultless] at hx
    cases hx
  · simp only [Mutation.perform, hd] at hr
    exact ⟨d', hd, hi, hr⟩

namespace OpenEntry

lemma units_fit {a u k : Nat} (hu : 0 < u) (hm : u ≤ maxWriteUnit) (hk : u ∣ k) (hl : k < a + 4 + u) :
    k - (a - a % u) ≤ 2 * maxWriteUnit := by
  have hmod := Nat.mod_lt a hu
  have hle := Nat.mod_le a u
  simp only [maxWriteUnit] at hm ⊢
  by_cases h : u = 16
  · subst h
    omega
  · omega

lemma read_inside (h : Record.Checked r d) {a x c : Bytes} (hi : image r d = a ++ x ++ c) :
    (Flash.read (r.start + a.length) x.length d : Except Flash.Error Bytes) = .ok x := by
  have hl := congrArg List.length hi
  rw [image, length_slice_of_le h.inside, List.length_append, List.length_append] at hl
  have hin := h.inside
  simp only [Region.stop] at hin
  have hx : slice d.contents (r.start + a.length) x.length = x := by
    rw [← slice_slice (Nat.le_add_right r.start a.length) (m := r.size) (by omega),
      Nat.add_sub_cancel_left]
    change slice (image r d) a.length _ = x
    rw [hi, slice, List.append_assoc, List.drop_left, List.take_left]
  have hready : d.ready = true := h.ready
  have hle : r.start + a.length + x.length ≤ d.contents.length := by omega
  simp only [Flash.read, hready, hle, hx, ↓reduceIte, Bool.not_true, Bool.false_eq_true]

lemma program_inside (h : Suits r d) {a b c z data : Bytes}
    (hi : image r d = a ++ (b ++ Bytes.erased data.length ++ c) ++ z)
    (ha : d.writeUnit ∣ r.start + a.length) (hd : d.writeUnit ∣ (b ++ data ++ c).length) :
    ∃ d', (Flash.program (r.start + a.length) (b ++ data ++ c) : EStateM Flash.Error Ram Unit) d =
        .ok () d' ∧ image r d' = a ++ (b ++ data ++ c) ++ z ∧ Reach (·.Inside r) d d' := by
  have hu : 0 < d.writeUnit := Nat.pos_of_ne_zero h.checked.unit.1
  have hin := h.checked.inside
  have hl := congrArg List.length hi
  rw [image, length_slice_of_le hin] at hl
  simp only [List.length_append, Bytes.length_erased] at hl
  have hlen : (b ++ data ++ c).length = b.length + data.length + c.length := by
    simp only [List.length_append]
  have hin' : r.start + a.length + (b ++ data ++ c).length ≤ d.contents.length := by
    simp only [Region.stop] at hin
    omega
  have hm : (isMultiple (r.start + a.length) d.writeUnit &&
      isMultiple (b ++ data ++ c).length d.writeUnit) = true := by
    rw [Bool.and_eq_true, isMultiple_iff, isMultiple_iff]
    exact ⟨⟨hu, ha⟩, hu, hd⟩
  have hz (x : Bytes) (hx : x.length = (b ++ data ++ c).length) :
      (List.zipWith (· &&& ·) x (b ++ data ++ c)).length = (b ++ data ++ c).length := by
    rw [List.length_zipWith, hx, Nat.min_self]
  have hr := Reach.single (d := d) (P := (·.Inside r)) (m := .program (r.start + a.length) (b ++ data ++ c))
    (by simp only [Mutation.Inside, Region.stop]; omega)
  simp only [Mutation.perform] at hr
  rw [program_run, if_neg (Nat.not_lt.mpr hin')] at hr ⊢
  simp only [hm, Bool.not_true, Bool.false_eq_true, ↓reduceIte] at hr ⊢
  rcases change_cases h.checked.ready with ⟨e, d', -, hf, -⟩ | ⟨d', he, hc⟩
  · rw [h.faultless] at hf
    cases hf
  · rw [he] at hr
    refine ⟨d', he, ?_, hr⟩
    rw [image, hc, slice_splice_of_inside hin' (hz _ (length_slice_of_le hin')) (Nat.le_add_right _ _)
      (by omega) hin, Nat.add_sub_cancel_left]
    change splice (image r d) _ _ _ = _
    rw [hi, splice_over]

lemma programOver_eq {address start stop : Nat} {data units : Bytes}
    (hs : address - address % d.writeUnit = start)
    (hr : roundUp (address + data.length) d.writeUnit = some stop)
    (hfit : stop - start ≤ 2 * maxWriteUnit)
    (hread : (Flash.read start (stop - start) d : Except Flash.Error Bytes) = .ok units) :
    (programOver address data : EStateM Failure Ram Unit) d =
      (program start (units.take (address - start) ++ data ++
        units.drop (address - start + data.length))).adaptExcept Flash.Error.failure d := by
  have hunit : Flash.writeUnit d = d.writeUnit := rfl
  simp only [programOver]
  rw [EStateM.bind_run, EStateM.get_run]
  dsimp only
  rw [hunit, hr]
  dsimp only
  rw [hs, if_pos hfit, EStateM.bind_run, EStateM.lift_run, hread]
  rfl

lemma programOver_run (h : Suits r d) {b c data : Bytes} (hl : data.length = 4)
    (hi : image r d = b ++ Bytes.erased 4 ++ c) :
    ∃ d', (programOver (r.start + b.length) data : EStateM Failure Ram Unit) d = .ok () d' ∧
      image r d' = b ++ data ++ c ∧ Reach (·.Inside r) d d' := by
  have hu : 0 < d.writeUnit := Nat.pos_of_ne_zero h.checked.unit.1
  have hus : d.writeUnit ∣ r.start := Nat.dvd_trans h.units h.eraseUnit_dvd.1
  have huz : d.writeUnit ∣ r.size := Nat.dvd_trans h.units h.eraseUnit_dvd.2
  have hlen := congrArg List.length hi
  rw [image, length_slice_of_le h.checked.inside] at hlen
  simp only [List.length_append, Bytes.length_erased] at hlen
  obtain ⟨stop, hr, hlo, hhi, hdvd, hlt⟩ := roundUp_eq_some (n := r.start + b.length + 4) hu
    (Nat.dvd_add hus huz) (by omega) h.stop_lt
  have hfit := units_fit hu h.checked.unit.2 hdvd hlt
  have hle := Nat.mod_le b.length d.writeUnit
  have hmod : (r.start + b.length) % d.writeUnit = b.length % d.writeUnit := by
    obtain ⟨k, hk⟩ := hus
    rw [hk, Nat.mul_add_mod]
  -- The units that are programmed again are `b₂ ++ data ++ c₁`.
  obtain ⟨b₁, b₂, rfl, hb₁⟩ : ∃ b₁ b₂, b = b₁ ++ b₂ ∧ b₁.length = b.length - b.length % d.writeUnit :=
    ⟨b.take _, b.drop _, (List.take_append_drop _ b).symm, List.length_take_of_le (Nat.sub_le _ _)⟩
  obtain ⟨c₁, c₂, rfl, hc₁⟩ : ∃ c₁ c₂, c = c₁ ++ c₂ ∧
      c₁.length = stop - (r.start + (b₁ ++ b₂).length + 4) :=
    ⟨c.take _, c.drop _, (List.take_append_drop _ c).symm, List.length_take_of_le (by omega)⟩
  have hs : r.start + (b₁ ++ b₂).length - (r.start + (b₁ ++ b₂).length) % d.writeUnit =
      r.start + b₁.length := by omega
  rw [hs] at hfit
  simp only [List.length_append] at hlo hc₁
  have hi' : image r d = b₁ ++ (b₂ ++ Bytes.erased data.length ++ c₁) ++ c₂ := by
    rw [hi, hl]
    simp only [List.append_assoc]
  have hlen₂ : (b₂ ++ Bytes.erased data.length ++ c₁).length = stop - (r.start + b₁.length) := by
    simp only [List.length_append, Bytes.length_erased]
    omega
  have hlen₃ : (b₂ ++ data ++ c₁).length = stop - (r.start + b₁.length) := by
    simp only [List.length_append]
    omega
  have hread := read_inside h.checked hi'
  rw [hlen₂] at hread
  have hsk : d.writeUnit ∣ r.start + b₁.length := hs ▸ Nat.dvd_sub_mod _
  obtain ⟨d', hd, hc, hre⟩ := program_inside h hi' hsk (hlen₃ ▸ Nat.dvd_sub hdvd hsk)
  refine ⟨d', ?_, by rw [hc]; simp only [List.append_assoc], hre⟩
  have ha : r.start + (b₁ ++ b₂).length - (r.start + b₁.length) = b₂.length := by
    rw [List.length_append]
    omega
  have hb₂ : (b₂ ++ Bytes.erased data.length).length = b₂.length + data.length := by
    rw [List.length_append, Bytes.length_erased]
  rw [programOver_eq hs (hl ▸ hr) hfit hread, ha, List.append_assoc b₂ (Bytes.erased _), List.take_left,
    ← List.append_assoc b₂ (Bytes.erased _), List.drop_left' hb₂, EStateM.adaptExcept_run, hd]

end OpenEntry

end Firmware.Cache
