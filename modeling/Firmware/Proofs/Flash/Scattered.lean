import Firmware.Proofs.Flash.Seeking

/-!
Writing a whole in pieces that come in any order. On an erased region each byte is erased or as it is in the
whole, and programming it as it is in the whole leaves it so.
-/

namespace Firmware.Flash

lemma append_erased {s full : Bytes} {a u : Nat} (hs : s = slice full a s.length) (hl : s.length ≤ u)
    (hn : a + u ≤ full.length) (he : ∀ i, a + s.length ≤ i → i < full.length → full[i]? = some 0xff) :
    s ++ Bytes.erased (u - s.length) = slice full a u := by
  have hu : s.length + (u - s.length) = u := by omega
  have hr : slice full (a + s.length) (u - s.length) = Bytes.erased (u - s.length) := by
    apply List.ext_getElem?
    intro i
    rw [getElem?_slice, Bytes.erased, List.getElem?_replicate]
    split
    · exact he _ (by omega) (by omega)
    · rfl
  rw [← hr]
  conv_rhs => rw [← hu, slice_add, ← hs]

lemma getElem?_programmed {b full : Bytes} {a n : Nat} (hb : a + n ≤ b.length) (hf : a + n ≤ full.length)
    (hp : ∀ i, a ≤ i → i < a + n → b[i]? = some 0xff ∨ b[i]? = full[i]?) (i : Nat) :
    (Ram.splice b a n (List.zipWith (· &&& ·) · (slice full a n)))[i]? =
      if a ≤ i ∧ i < a + n then full[i]? else b[i]? := by
  have hz : (List.zipWith (· &&& ·) (slice b a n) (slice full a n)).length = n := by
    rw [List.length_zipWith, length_slice_of_le hb, length_slice_of_le hf, Nat.min_self]
  rw [getElem?_splice hb hz]
  split
  · rename_i hi
    have hin : i - a < n := by omega
    obtain ⟨x, hx⟩ : ∃ x, full[i]? = some x := ⟨_, List.getElem?_eq_getElem (by omega)⟩
    rw [List.getElem?_zipWith, getElem?_slice, getElem?_slice, if_pos hin, if_pos hin, Nat.add_sub_cancel' hi.1, hx]
    rcases hp i hi.1 hi.2 with he | he
    · rw [he]
      exact congrArg some UInt8.neg_one_and
    · rw [he, hx]
      exact congrArg some UInt8.and_self
  · rfl

namespace Writer

open Ram

structure Paints (full : Bytes) (w : Writer Ram) : Prop extends Sound w where
  faultless : ∀ k, w.device.faulty k = false
  length : full.length = w.region.size
  partly : ∀ i < w.region.size,
    (image w.region w.device)[i]? = some 0xff ∨ (image w.region w.device)[i]? = full[i]?

/-- A writer that has taken the bytes of the whole that are `done`. What is staged goes on with erased bytes, in
the whole as well. -/
structure Draws (full : Bytes) (done : Nat → Prop) (w : Writer Ram) : Prop extends Paints full w where
  aligned : w.unit ∣ w.offset
  short : w.staged.length < w.unit
  staged : w.staged ≠ [] → w.offset + w.unit ≤ w.region.size ∧
    w.staged ++ Bytes.erased (w.unit - w.staged.length) = slice full w.offset w.unit
  drawn : ∀ i, done i → i < w.region.size → (image w.region w.device)[i]? = full[i]? ∨
    w.offset ≤ i ∧ i < w.offset + w.staged.length

variable {full data : Bytes} {done : Nat → Prop} {w w' : Writer Ram} {k n : Nat}

lemma Paints.programUnits (h : Paints full w) (ho : w.unit ∣ w.offset) (hk : w.unit ∣ k)
    (hn : w.offset + k ≤ w.region.size) :
    ∃ d, Writer.programUnits k (slice full w.offset k) w = .ok () { w with device := d, offset := w.offset + k } ∧
      (∀ n s, Paints full { w with device := d, offset := n, staged := s }) ∧
      ∀ i < w.region.size, (image w.region w.device)[i]? = full[i]? ∨ w.offset ≤ i ∧ i < w.offset + k →
        (image w.region d)[i]? = full[i]? := by
  have hf : w.offset + k ≤ full.length := by rwa [h.length]
  have hb : w.offset + k ≤ (image w.region w.device).length := by rwa [length_image h.inside]
  have hl : (slice full w.offset k).length = k := length_slice_of_le hf
  have hku : w.device.writeUnit ∣ (slice full w.offset k).length := by rwa [hl, h.unit]
  rcases image_program h.ready (h.unit ▸ h.pos) h.inside (h.unit ▸ ho) hku (hl.symm ▸ hn) with
    ⟨e, d, -, hx, -⟩ | ⟨d, hd, -, hi⟩
  · rw [h.unit, h.faultless] at hx
    exact absurd h.start (hx.resolve_right Bool.false_ne_true)
  have hp : Writer.programUnits k (slice full w.offset k) w =
      .ok () { w with device := d, offset := w.offset + k } := by
    rw [programUnits_run, if_neg (Nat.not_lt.mpr hn), hd]
  have hm : Moves w { w with device := d, offset := w.offset + k } :=
    (follows_programUnits (Nat.le_of_eq hl)).of_ok hp
  have hs := hm.sound h.toSound
  have hx (i : Nat) : (image w.region d)[i]? =
      if w.offset ≤ i ∧ i < w.offset + k then full[i]? else (image w.region w.device)[i]? := by
    rw [hi, hl, getElem?_programmed hb hf fun i _ hi => h.partly i (Nat.lt_of_lt_of_le hi hn)]
  refine ⟨d, hp, fun n s => ?_, fun i _ hw => ?_⟩
  · refine ⟨⟨⟨hs.unit, hs.pos, hs.inside, hs.ready⟩, hs.start, hs.size⟩, fun j => ?_, h.length, fun i hw => ?_⟩
    · exact (congrFun hm.alike.faulty j).trans (h.faultless j)
    · change (image w.region d)[i]? = _ ∨ (image w.region d)[i]? = _
      rw [hx]
      split
      · exact .inr rfl
      · exact h.partly i hw
  · rw [hx]
    split
    · rfl
    · exact hw.resolve_right ‹_›

lemma Draws.mono {done' : Nat → Prop} (h : Draws full done w) (hd : ∀ i, done' i → done i) : Draws full done' w :=
  { h with drawn := fun i hi => h.drawn i (hd i hi) }

lemma draws_start {r : Region} {d : Ram} (h : Blank r d) (hd : d.ready = true) (hl : full.length = r.size)
    (he : ∀ i < r.size, done i → full[i]? = some 0xff) : Draws full done ⟨d, r, d.writeUnit, 0, []⟩ := by
  have hi (i : Nat) (hw : i < r.size) : (image r d)[i]? = some 0xff := by
    rw [h.erased, Bytes.erased, List.getElem?_replicate, if_pos hw]
  exact {
    unit := rfl
    pos := Nat.pos_of_ne_zero h.unit.1
    inside := h.inside
    ready := hd
    start := h.start
    size := h.size
    faultless := h.faultless
    length := hl
    partly := fun i hw => .inl (hi i hw)
    aligned := Nat.dvd_zero _
    short := Nat.pos_of_ne_zero h.unit.1
    staged := absurd rfl
    drawn := fun i ho hw => .inl ((hi i hw).trans (he i hw ho).symm) }

lemma Draws.units (h : Draws full done w) (hk : w.unit ∣ k) (hs : w.staged.length ≤ k)
    (hn : w.offset + k ≤ w.region.size) :
    ∃ d, Writer.programUnits k (slice full w.offset k) w = .ok () { w with device := d, offset := w.offset + k } ∧
      Draws full (fun i => done i ∨ w.offset ≤ i ∧ i < w.offset + k)
        { w with device := d, offset := w.offset + k, staged := [] } := by
  obtain ⟨d, hp, hd, hi⟩ := h.toPaints.programUnits h.aligned hk hn
  refine ⟨d, hp, { hd _ _ with
    aligned := Nat.dvd_add h.aligned hk
    short := h.pos
    staged := absurd rfl
    drawn := fun i ho hw => .inl (hi i hw ?_) }⟩
  rcases ho with ho | ho
  · exact (h.drawn i ho hw).imp_right fun hx => ⟨hx.1, by omega⟩
  · exact .inr ho

lemma Draws.stage (h : Draws full done w) (hs : w.staged = []) {s : Bytes} (hl : s.length < w.unit)
    (hw : s ≠ [] → w.offset + w.unit ≤ w.region.size ∧
      s ++ Bytes.erased (w.unit - s.length) = slice full w.offset w.unit) :
    Draws full (fun i => done i ∨ w.offset ≤ i ∧ i < w.offset + s.length) { w with staged := s } :=
  { h with
    short := hl
    staged := hw
    drawn := fun i ho hi => by
      rcases ho with ho | ho
      · rcases h.drawn i ho hi with hx | hx
        · exact .inl hx
        · rw [hs, List.length_nil] at hx
          omega
      · exact .inr ho }

lemma pad_run {δ : Type} [Flash δ] (w : Writer δ) :
    pad w = if w.staged.isEmpty then .ok () w else programStaged w := by
  rw [pad, EStateM.bind_run, EStateM.get_run]
  dsimp only
  cases h : w.staged.isEmpty <;> rfl

lemma Draws.pad (h : Draws full done w) :
    ∃ w', Writer.pad w = .ok () w' ∧ Draws full done w' ∧ w'.staged = [] := by
  rw [pad_run]
  split
  · rename_i hs
    exact ⟨w, rfl, h, List.isEmpty_iff.mp hs⟩
  · rename_i hs
    obtain ⟨hn, hu⟩ := h.staged fun he => hs (List.isEmpty_iff.mpr he)
    obtain ⟨d, hp, hd⟩ := h.units (Nat.dvd_refl _) (Nat.le_of_lt h.short) hn
    refine ⟨_, ?_, hd.mono fun _ => .inl, rfl⟩
    have hl : (slice full w.offset w.unit).length = w.unit := length_slice_of_le (h.length.symm ▸ hn)
    rw [programStaged, EStateM.bind_run, EStateM.get_run]
    dsimp only
    rw [hu, hl, EStateM.bind_run, hp]
    rfl

lemma Draws.seek (h : Draws full done w) (hu : w.unit ∣ n) (hn : n ≤ w.region.size) :
    ∃ w', Writer.seek n w = .ok () w' ∧ Draws full done w' ∧ w'.staged = [] ∧ w'.offset = n := by
  obtain ⟨w', hp, hd, hs⟩ := h.pad
  have hm : Moves w w' := follows_pad.of_ok hp
  refine ⟨{ w' with offset := n }, ?_, { hd with
    aligned := hm.unit ▸ hu
    staged := absurd hs
    drawn := fun i ho hi => ?_ }, hs, rfl⟩
  · rw [seek_run, if_neg (not_not.mpr (Nat.mod_eq_zero_of_dvd hu)), if_neg (Nat.not_lt.mpr hn),
      EStateM.bind_run, hp]
    rfl
  · refine (hd.drawn i ho hi).imp_right fun hx => ?_
    rw [hs, List.length_nil] at hx
    omega

lemma Draws.write (h : Draws full done w) (hs : w.staged = []) (hd : data = slice full w.offset data.length)
    (hn : w.offset + data.length ≤ w.region.size)
    (he : w.unit ∣ w.offset + data.length ∨ ∀ i < w.region.size, w.offset + data.length ≤ i → full[i]? = some 0xff) :
    ∃ w', Writer.write data w = .ok () w' ∧
      Draws full (fun i => done i ∨ w.offset ≤ i ∧ i < w.offset + data.length) w' ∧
      w'.position = w.offset + data.length := by
  have hr := Nat.mod_lt data.length h.pos
  have hle := Nat.mod_le data.length w.unit
  have hu : w.unit ∣ data.length - data.length % w.unit := Nat.dvd_sub_mod _
  generalize hk : data.length - data.length % w.unit = k at hu
  have ht : data.take k = slice full w.offset k := by
    conv_lhs => rw [hd, take_slice (by omega)]
  have hx : data.drop k = slice full (w.offset + k) (data.drop k).length := by
    rw [List.length_drop]
    conv_lhs => rw [hd, drop_slice]
  have hl : (data.drop k).length < w.unit := by
    rw [List.length_drop]
    omega
  have hrest (hne : data.drop k ≠ []) : w.offset + k + w.unit ≤ w.region.size ∧
      data.drop k ++ Bytes.erased (w.unit - (data.drop k).length) = slice full (w.offset + k) w.unit := by
    have hne : k < data.length := by simpa using hne
    have hfit : w.offset + k + w.unit ≤ w.region.size :=
      Nat.le_of_lt_add_of_dvd (by omega) (Nat.dvd_add_self_right.mpr (Nat.dvd_add h.aligned hu)) h.size
    refine ⟨hfit, append_erased hx (Nat.le_of_lt hl) (h.length.symm ▸ hfit) fun i hi hw => ?_⟩
    rw [List.length_drop] at hi
    rcases he with he | he
    · have := Nat.mod_eq_zero_of_dvd ((Nat.dvd_add_right h.aligned).mp he)
      omega
    · exact he i (h.length ▸ hw) (by omega)
  rw [write_run, if_pos (List.isEmpty_iff.mpr hs), writeUnits_run, hk]
  split
  · obtain ⟨d, hp, hw⟩ := h.units hu (by simp [hs]) (by omega)
    have hsize : w.region.size < 0x100000000 := w.region.len.toNat_lt
    refine ⟨_, ?_, (hw.stage rfl hl hrest).mono ?_, ?_⟩
    · rw [ht, Nat.mod_eq_of_lt (by omega), EStateM.bind_run, hp]
      rfl
    · dsimp only
      rw [List.length_drop]
      rintro i (hi | hi)
      · exact .inl (.inl hi)
      · by_cases hik : i < w.offset + k
        · exact .inl (.inr ⟨hi.1, hik⟩)
        · exact .inr (by omega)
    · change w.offset + k + (data.drop k).length = w.offset + data.length
      rw [List.length_drop]
      omega
  · have hk0 : k = 0 := by omega
    subst hk0
    exact ⟨_, rfl, h.stage hs hl hrest, rfl⟩

lemma Draws.flush (h : Draws full done w) (hd : ∀ i < w.region.size, done i) :
    ∃ w', Writer.flush w = .ok () w' ∧ image w'.region w'.device = full := by
  obtain ⟨w', hp, hx, hs⟩ := h.pad
  have hm : Moves w w' := follows_pad.of_ok hp
  refine ⟨w', ?_, ?_⟩
  · rw [Writer.flush, EStateM.bind_run, hp]
    rfl
  · have hlen := length_image hx.inside
    apply List.ext_getElem?
    intro i
    by_cases hi : i < w'.region.size
    · refine (hx.drawn i (hd i (hm.region ▸ hi)) hi).resolve_right fun ho => ?_
      rw [hs, List.length_nil] at ho
      omega
    · have hi := Nat.not_lt.mp hi
      rw [List.getElem?_eq_none (hlen ▸ hi), List.getElem?_eq_none (hx.length ▸ hi)]

end Writer

end Firmware.Flash
