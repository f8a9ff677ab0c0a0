import Firmware.Storage.Record
import Firmware.Proofs.Flash.Programming

/-!
Records change their region only. On a device in memory a write leaves the record, or what was there
before, or a prefix of the record in an erased region.
-/

namespace Firmware.Storage.Record

open Flash

variable {δ : Type} [Flash δ]

structure Checked (r : Region) (d : δ) : Prop where
  nonempty : r.size ≠ 0
  unit : writeUnit d ≠ 0 ∧ writeUnit d ≤ maxWriteUnit
  fits : writeUnit d ≤ r.size
  start : isMultiple r.start (eraseUnit d) = true
  size : isMultiple r.size (eraseUnit d) = true
  stop : ∃ n, r.end? = some r.stop ∧ Flash.size d = .ok n ∧ r.stop ≤ n
  ready : isReady d = true

lemma checkRegion_eq_ok {r : Region} {d : δ} {u : Nat} :
    checkRegion r d = .ok u ↔ u = writeUnit d ∧ Checked r d := by
  constructor
  · intro h
    simp only [checkRegion, bind, Except.bind, pure, Except.pure, throw, throwThe,
      MonadExceptOf.throw] at h
    repeat' split at h
    all_goals try cases h
    rename_i h0 hu hf ha _ n hn _ m hm hs hr
    have he : r.end? = some r.stop := by
      simp only [Region.end?] at hn ⊢
      split at hn <;> simp_all
    cases he.symm.trans hn
    rw [Bool.and_eq_true] at ha
    exact ⟨rfl, h0, hu, hf, ha.1, ha.2, ⟨m, hn, Except.mapError_eq_ok.mp hm, hs⟩, hr⟩
  · rintro ⟨rfl, h⟩
    obtain ⟨n, he, hs, hn⟩ := h.stop
    simp [checkRegion, h.nonempty, h.unit, h.fits, h.start, h.size, he, hs, hn, h.ready,
      Except.mapError]

lemma follows_eraseRegion (r : Region) :
    Follows (Reach (·.Inside r)) (eraseRegion r : EStateM Failure δ Unit) := by
  refine .adaptExcept fun d => ?_
  have hm : (Mutation.erase r.start r.size).Inside r := by simp [Mutation.Inside, Region.stop]
  exact Reach.single hm

lemma follows_clear (r : Region) :
    Follows (Reach (·.Inside r)) (clear r : EStateM Failure δ Unit) :=
  .bind .get fun _ => .bind (.discard (.lift _)) fun _ => follows_eraseRegion r

lemma follows_write (r : Region) (m : Magic) (parts : List Bytes) :
    Follows (Reach (·.Inside r)) (write r m parts : EStateM Failure δ Unit) := by
  refine .bind .get fun d => .bind (.discard (.lift _)) fun _ => ?_
  split
  · rename_i hn
    -- What fits into a region is short enough to be counted.
    have hshort : ∀ b ∈ Bytes.le32 (Coded.code m) :: parts, b.length < 0x100000000 := by
      have hr : r.size < 0x100000000 := r.len.toNat_lt
      refine List.forall_mem_cons.mpr ⟨by rw [Bytes.length_le32]; decide, fun b hb => ?_⟩
      have hl := (List.sublist_flatten_of_mem hb).length_le
      omega
    refine .bind (follows_eraseRegion r) fun _ => follows_writing (.bind (.forM fun b hb => ?_) fun _ =>
      Writer.follows_flush)
    exact Writer.follows_write (hshort b hb)
  · exact .throw _

lemma follows_save (r : Region) (payload : Bytes) :
    Follows (Reach (·.Inside r)) (save r payload : EStateM Failure δ Unit) :=
  follows_write r .binary [payload]

open Ram

def bytes (m : Magic) (parts : List Bytes) : Bytes := Bytes.le32 (Coded.code m) ++ parts.flatten

lemma length_bytes (m : Magic) (parts : List Bytes) :
    (bytes m parts).length = headLen + parts.flatten.length := by
  rw [bytes, List.length_append, Bytes.length_le32, headLen]

inductive Leaves (r : Region) (b : Bytes) (d : Ram) : EStateM.Result Failure Ram Unit → Prop
  | ok {d' : Ram} : Flushed r b d' → Leaves r b d (.ok () d')
  | error {e : Failure} {d' : Ram} : d'.contents = d.contents ∨ TornBetween r b d' →
      (Checked r d → Writer.Hindered r d b.length) → Leaves r b d (.error e d')

/-- How a write of `b` ends. Only what does not fit, and a fault, keep it from succeeding. -/
inductive Wrote (r : Region) (b : Bytes) (d : Ram) : EStateM.Result Failure Ram Unit → Prop
  | ok {d' : Ram} : image r d' = filled b r.size → Wrote r b d (.ok () d')
  | error {e : Failure} {d' : Ram} : image r d' = image r d ∨ Torn r b d' →
      (Checked r d → Writer.Excused r d b.length) → Wrote r b d (.error e d')

variable {r : Region} {d d' : Ram}

lemma Checked.of_shaped (h : Checked r d) (ha : d.Shaped d') : Checked r d' where
  nonempty := h.nonempty
  unit := by
    have hu : Flash.writeUnit d' = Flash.writeUnit d := ha.writeUnit
    rw [hu]
    exact h.unit
  fits := Nat.le_trans (Nat.le_of_eq ha.writeUnit) h.fits
  start := by
    have hu : Flash.eraseUnit d' = Flash.eraseUnit d := ha.eraseUnit
    rw [hu]
    exact h.start
  size := by
    have hu : Flash.eraseUnit d' = Flash.eraseUnit d := ha.eraseUnit
    rw [hu]
    exact h.size
  stop := by
    have hs : Flash.size d' = Flash.size d := by simp only [Flash.size, ha.length]
    rw [hs]
    exact h.stop
  ready := ha.ready.trans h.ready

lemma Checked.inside (h : Checked r d) : r.stop ≤ d.contents.length := by
  obtain ⟨n, -, hs, hn⟩ := h.stop
  simp only [Flash.size] at hs
  split at hs <;> simp_all

lemma Checked.sized (h : Checked r d) : Sized d := h.stop.imp fun _ hn => hn.2.1

lemma Checked.stop_lt (h : Checked r d) : r.stop < 0x100000000 := by
  obtain ⟨_, he, -⟩ := h.stop
  simp only [Region.end?] at he
  split at he
  · assumption
  · cases he

lemma Checked.readDirect_run (h : Checked r d) (a : Arena) :
    (readDirect r.start r.size 1 d : EStateM Flash.Error Arena Bytes) a = .ok (image r d) a := by
  have hi : r.start + r.size ≤ d.contents.length := h.inside
  have hd : d.ready = true := h.ready
  simp [readDirect, directSlice, hd, hi, Nat.mod_one, image]

lemma Checked.read_run (h : Checked r d) {n : Nat} (hn : n ≤ r.size) :
    Flash.read r.start n d = .ok ((image r d).take n) := by
  have hi : slice d.contents r.start n = (image r d).take n := by
    rw [image, slice, slice, List.take_take, Nat.min_eq_left hn]
  have hb : r.start + n ≤ d.contents.length := Nat.le_trans (Nat.add_le_add_left hn _) h.inside
  have hr : d.ready = true := h.ready
  simp only [Flash.read, hr, hb, hi, Bool.not_true, Bool.false_eq_true, ↓reduceIte]

lemma Checked.dvd_start (h : Checked r d) (hu : d.writeUnit ∣ d.eraseUnit) :
    d.writeUnit ∣ r.start :=
  Nat.dvd_trans hu ((isMultiple_iff _ _).mp h.start).2

lemma Checked.dvd_size (h : Checked r d) (hu : d.writeUnit ∣ d.eraseUnit) :
    d.writeUnit ∣ r.size :=
  Nat.dvd_trans hu ((isMultiple_iff _ _).mp h.size).2

lemma Checked.accepts (h : Checked r d) (hi : image r d = Bytes.erased r.size) :
    Writer.Accepts [] ⟨d, r, d.writeUnit, 0, []⟩ :=
  .nil h.unit.1 h.inside h.ready hi

lemma Checked.holds (h : Checked r d) (hu : d.writeUnit ∣ d.eraseUnit)
    (hi : image r d = Bytes.erased r.size) : Writer.Holds [] ⟨d, r, d.writeUnit, 0, []⟩ where
  toAccepts := h.accepts hi
  start := h.dvd_start hu
  size := h.dvd_size hu

lemma Checked.writer_start (h : Checked r d) : Writer.start r d = .ok ⟨d, r, d.writeUnit, 0, []⟩ :=
  Writer.start_eq_ok h.unit

lemma write_run (r : Region) (m : Magic) (parts : List Bytes) (d : Ram) :
    write r m parts d =
      match checkRegion r d with
      | .error e => .error e d
      | .ok _ =>
        if parts.flatten.length ≤ r.size - headLen then
          (do
            eraseRegion r
            writing r (do
              (Bytes.le32 (Coded.code m) :: parts).forM Writer.write
              Writer.flush) : EStateM Failure Ram Unit) d
        else .error .size d := by
  simp only [write]
  rw [EStateM.bind_run, EStateM.get_run]
  dsimp only
  rw [EStateM.bind_run]
  cases checkRegion r d with
  | error e => rfl
  | ok n =>
    simp only [EStateM.discard_run, EStateM.lift_run]
    split <;> rfl

lemma checked_of_write {m : Magic} {parts : List Bytes} {u : Unit} (h : write r m parts d = .ok u d') :
    Checked r d := by
  rw [write_run] at h
  cases hc : checkRegion r d with
  | error e =>
    rw [hc] at h
    cases h
  | ok n => exact (checkRegion_eq_ok.mp hc).2

lemma eq_of_write_error {m : Magic} {parts : List Bytes} {e : Failure}
    (hn : ¬ (Checked r d ∧ parts.flatten.length ≤ r.size - headLen)) (hx : write r m parts d = .error e d') :
    d' = d := by
  rw [write_run] at hx
  cases hc : checkRegion r d with
  | error f =>
    rw [hc] at hx
    cases hx
    rfl
  | ok u =>
    rw [hc] at hx
    dsimp only at hx
    rw [if_neg fun hl => hn ⟨(checkRegion_eq_ok.mp hc).2, hl⟩] at hx
    cases hx
    rfl

lemma Checked.erase_cases (h : Checked r d) :
    (∃ e d', (Flash.erase r.start r.size : EStateM _ Ram Unit) d = .error e d' ∧
        d.faulty d.attempts = true ∧ d'.contents = d.contents) ∨
      ∃ d', (Flash.erase r.start r.size : EStateM _ Ram Unit) d = .ok () d' ∧
        image r d' = Bytes.erased r.size := by
  obtain ⟨hp, hs⟩ := (isMultiple_iff _ _).mp h.start
  exact Ram.erase_cases h.ready hp h.inside hs ((isMultiple_iff _ _).mp h.size).2

lemma Checked.eraseRegion_cases (h : Checked r d) :
    (∃ e d', eraseRegion r d = .error e d' ∧ d.faulty d.attempts = true ∧ d'.contents = d.contents) ∨
      ∃ d', eraseRegion r d = .ok () d' ∧ Checked r d' ∧ d.Alike d' ∧
        image r d' = Bytes.erased r.size := by
  have ha := (follows_eraseRegion r).mono (S := Alike) (fun _ _ => alike_of_reach) d
  simp only [eraseRegion, EStateM.adaptExcept_run] at ha ⊢
  rcases h.erase_cases with ⟨e, d', hd, hf, hc⟩ | ⟨d', hd, hi⟩
  · rw [hd]
    exact .inl ⟨_, d', rfl, hf, hc⟩
  · rw [hd] at ha ⊢
    exact .inr ⟨d', rfl, h.of_shaped ha.toShaped, ha, hi⟩

lemma writing_cases (h : Checked r d) (hi : image r d = Bytes.erased r.size) (parts : List Bytes) :
    (∃ d', writing r (do parts.forM Writer.write; Writer.flush) d = .ok () d' ∧
        (parts.flatten ≠ [] → d.writeUnit ∣ r.start) ∧ Flushed r parts.flatten d') ∨
      ∃ e d', writing r (do parts.forM Writer.write; Writer.flush) d = .error e d' ∧
        TornBetween r parts.flatten d' ∧ Writer.Hindered r d parts.flatten.length := by
  have hs := Writer.stops_write_flush (h.accepts hi) fun x (_ : x ∈ parts) => .inr h.sized
  simp only [writing, h.writer_start]
  revert hs
  cases (do parts.forM Writer.write; Writer.flush : EStateM Failure (Writer Ram) Unit)
    ⟨d, r, d.writeUnit, 0, []⟩ with
  | ok u w =>
    rintro ⟨hw⟩
    exact .inl ⟨w.device, rfl, hw⟩
  | error e w =>
    rintro (_ | ⟨ht, hx⟩)
    exact .inr ⟨e, w.device, rfl, ht, hx⟩

lemma leaves_writing (h : Checked r d') (ha : d.Alike d') (hi : image r d' = Bytes.erased r.size)
    (m : Magic) (parts : List Bytes) :
    Leaves r (bytes m parts) d (writing r (do
      (Bytes.le32 (Coded.code m) :: parts).forM Writer.write
      Writer.flush) d') := by
  rcases writing_cases h hi (Bytes.le32 (Coded.code m) :: parts) with
    ⟨d₁, hx, -, hw⟩ | ⟨e, d₁, hx, ht, hh⟩
  · rw [hx]
    exact .ok hw
  · rw [hx]
    exact .error (.inr ht) fun _ => hh.of_alike ha

lemma leaves_write (r : Region) (m : Magic) (parts : List Bytes) (d : Ram) :
    Leaves r (bytes m parts) d (write r m parts d) := by
  rw [write_run]
  cases hc : checkRegion r d with
  | error e =>
    exact .error (.inl rfl) fun h => by cases hc.symm.trans (checkRegion_eq_ok.mpr ⟨rfl, h⟩)
  | ok n =>
    have h := (checkRegion_eq_ok.mp hc).2
    dsimp only
    split
    · rw [EStateM.bind_run]
      rcases h.eraseRegion_cases with ⟨e, d', hd, hf, hi⟩ | ⟨d', hd, hc', ha, hi⟩
      · rw [hd]
        exact .error (.inl hi) fun _ => .fault hf
      · rw [hd]
        exact leaves_writing hc' ha hi m parts
    · rename_i hl
      refine .error (.inl rfl) fun _ => .of_lt (Nat.pos_of_ne_zero h.unit.1) ?_
      rw [length_bytes]
      omega

/-- From its start on, a region has room for `n` bytes in whole units. -/
structure Takes (r : Region) (n : Nat) (d : Ram) : Prop where
  start : d.writeUnit ∣ r.start
  room : ∃ k, n ≤ k ∧ k ≤ r.size ∧ d.writeUnit ∣ k

lemma takes_congr {n : Nat} (h : d.Shaped d') : Takes r n d' ↔ Takes r n d := by
  constructor <;> rintro ⟨hs, hk⟩
  · exact ⟨h.writeUnit ▸ hs, h.writeUnit ▸ hk⟩
  · exact ⟨h.writeUnit ▸ hs, h.writeUnit ▸ hk⟩

lemma takes_iff_of_units (hs : d.writeUnit ∣ r.start) (hz : d.writeUnit ∣ r.size) (n : Nat) :
    Takes r n d ↔ n ≤ r.size :=
  ⟨fun ⟨_, _, hn, hk, _⟩ => Nat.le_trans hn hk, fun hn => ⟨hs, r.size, hn, Nat.le_refl _, hz⟩⟩

lemma Takes.not_hindered {n : Nat} (h : Takes r n d) (hf : ∀ k, d.faulty k = false) : ¬ Writer.Hindered r d n := by
  obtain ⟨hs, k, hn, hk, hu⟩ := h
  rintro (⟨hu', hlt, hgt⟩ | hs' | hk')
  · rename_i k'
    have hle : d.writeUnit ≤ k' - k := Nat.le_of_dvd (by omega) (Nat.dvd_sub hu' hu)
    omega
  · exact hs' hs
  · rw [hf] at hk'
    cases hk'

section Writing

variable {parts : List Bytes} (h : Checked r d) (hi : image r d = Bytes.erased r.size)
include h hi

lemma writing_eq_ok (hn : parts.flatten ≠ [])
    (hx : writing r (do parts.forM Writer.write; Writer.flush) d = .ok () d') :
    Takes r parts.flatten.length d ∧ image r d' = filled parts.flatten r.size := by
  have hr : Follows Writer.Roams (do parts.forM Writer.write; Writer.flush : EStateM Failure (Writer Ram) Unit) :=
    .bind (.forM fun b _ => Writer.roams_write b) fun _ w => (Writer.follows_flush w).roams
  have ha : d.Alike d' := alike_of_reach ((roams_writing hr).of_ok hx)
  rcases writing_cases h hi parts with ⟨d₁, hw, hs, him, hk⟩ | ⟨e, d₁, hw, -⟩
  · cases hw.symm.trans hx
    exact ⟨⟨hs hn, ha.writeUnit ▸ hk⟩, him⟩
  · cases hw.symm.trans hx

lemma writing_of_takes (hf : ∀ k, d.faulty k = false) (ht : Takes r parts.flatten.length d) :
    ∃ d', writing r (do parts.forM Writer.write; Writer.flush) d = .ok () d' := by
  rcases writing_cases h hi parts with ⟨d', hw, -⟩ | ⟨e, d', -, -, hh⟩
  · exact ⟨d', hw⟩
  · exact absurd hh (ht.not_hindered hf)

end Writing

lemma write_eq_ok {m : Magic} {parts : List Bytes} (hx : write r m parts d = .ok () d') :
    Takes r (bytes m parts).length d ∧ image r d' = filled (bytes m parts) r.size := by
  have h := checked_of_write hx
  rw [write_run, checkRegion_eq_ok.mpr ⟨rfl, h⟩] at hx
  dsimp only at hx
  split at hx
  · obtain ⟨_, e, he, hx⟩ := EStateM.bind_eq_ok hx
    have hn : (Bytes.le32 (Coded.code m) :: parts).flatten ≠ [] := by simp [Bytes.le32]
    rcases h.eraseRegion_cases with ⟨f, d', hd, -⟩ | ⟨d', hd, hc, ha, hi⟩
    · cases hd.symm.trans he
    · cases hd.symm.trans he
      obtain ⟨ht, him⟩ := writing_eq_ok hc hi hn hx
      exact ⟨(takes_congr ha.toShaped).mp ht, him⟩
  · cases hx

lemma write_of_takes {m : Magic} {parts : List Bytes} (h : Checked r d) (hf : ∀ k, d.faulty k = false)
    (ht : Takes r (bytes m parts).length d) : ∃ d', write r m parts d = .ok () d' := by
  have hw := leaves_write r m parts d
  cases hx : write r m parts d with
  | ok u d' => exact ⟨d', rfl⟩
  | error e d' =>
    rw [hx] at hw
    obtain _ | ⟨-, hh⟩ := hw
    exact absurd (hh h) (ht.not_hindered hf)

lemma wrote_write (hu : d.writeUnit ∣ d.eraseUnit) (m : Magic) (parts : List Bytes) :
    Wrote r (bytes m parts) d (write r m parts d) := by
  have hw := leaves_write r m parts d
  revert hw
  cases write r m parts d with
  | ok a d' =>
    rintro ⟨hi⟩
    exact .ok hi.1
  | error e d' =>
    rintro (_ | ⟨ht, hx⟩)
    refine .error (ht.imp ?_ TornBetween.torn) fun h =>
      (hx h).excused (h.dvd_start hu) (h.dvd_size hu)
    intro hc
    rw [image, image, hc]

lemma filled_bytes (m : Magic) (parts : List Bytes) (n : Nat) :
    filled (bytes m parts) n = Bytes.le32 (Coded.code m) ++ filled parts.flatten (n - headLen) := by
  simp only [filled, bytes, List.append_assoc, List.length_append, Bytes.length_le32, headLen,
    Nat.sub_sub]

lemma magic?_le32 (m : Magic) (b : Bytes) : magic? (Bytes.le32 (Coded.code m) ++ b) = some m := by
  rw [magic?, Bytes.word32?_le32]
  cases m <;> rfl

lemma decode_filled (parts : List Bytes) (n : Nat) :
    decode (filled (bytes .binary parts) n) = some (.binary (filled parts.flatten (n - headLen))) := by
  rw [filled_bytes, decode, magic?_le32]
  exact congrArg (some ∘ binary) (List.drop_left' (Bytes.length_le32 _))

lemma decode_erased {n : Nat} (h : headLen ≤ n) : decode (Bytes.erased n) = some .empty := by
  obtain ⟨k, rfl⟩ := Nat.exists_eq_add_of_le h
  have he : Bytes.erased (headLen + k) = Bytes.le32 (Coded.code Magic.empty) ++ Bytes.erased k :=
    (List.replicate_append_replicate).symm
  rw [he, decode, magic?_le32]
  rfl

section Healthy

variable (h : Checked r d) (hf : ∀ k, d.faulty k = false)
include h hf

lemma clear_healthy : ∃ d', clear r d = .ok () d' ∧ image r d' = Bytes.erased r.size := by
  rcases h.eraseRegion_cases with ⟨e, d', -, hk, -⟩ | ⟨d', hd, -, -, hi⟩
  · rw [hf] at hk
    cases hk
  · refine ⟨d', ?_, hi⟩
    have hc : checkRegion r d = .ok (Flash.writeUnit d) := checkRegion_eq_ok.mpr ⟨rfl, h⟩
    rw [clear, EStateM.bind_run, EStateM.get_run]
    dsimp only
    rw [EStateM.bind_run, hc]
    simp only [EStateM.discard_run, EStateM.lift_run, hd]

lemma writing_healthy {b : Bytes} {f : EStateM Failure (Writer Ram) Unit} (hb : b.length ≤ r.size)
    (he : Writer.Ends r d b (fun v => image r v.device = filled b r.size)
      (f ⟨d, r, d.writeUnit, 0, []⟩)) :
    ∃ d', writing r f d = .ok () d' ∧ image r d' = filled b r.size := by
  simp only [writing, h.writer_start]
  revert he
  cases f ⟨d, r, d.writeUnit, 0, []⟩ with
  | ok u w =>
    rintro ⟨hw⟩
    exact ⟨w.device, rfl, hw⟩
  | error e w =>
    rintro (_ | ⟨-, hx⟩)
    rcases hx with hl | ⟨k, hk⟩
    · omega
    · rw [hf] at hk
      cases hk

lemma write_healthy (hu : d.writeUnit ∣ d.eraseUnit) (hr : headLen ≤ r.size) (m : Magic)
    (parts : List Bytes) :
    (parts.flatten.length ≤ r.size - headLen ∧
      ∃ d', write r m parts d = .ok () d' ∧ image r d' = filled (bytes m parts) r.size) ∨
    (r.size - headLen < parts.flatten.length ∧ write r m parts d = .error .size d) := by
  by_cases hn : parts.flatten.length ≤ r.size - headLen
  · have hw := wrote_write (r := r) hu m parts
    refine .inl ⟨hn, ?_⟩
    cases hd : write r m parts d with
    | ok u d' =>
      rw [hd] at hw
      obtain ⟨hi⟩ := hw
      exact ⟨d', rfl, hi⟩
    | error e d' =>
      rw [hd] at hw
      obtain _ | ⟨-, hx⟩ := hw
      rcases hx h with hl | ⟨k, hk⟩
      · rw [length_bytes] at hl
        omega
      · rw [hf] at hk
        cases hk
  · refine .inr ⟨Nat.lt_of_not_le hn, ?_⟩
    rw [write_run, checkRegion_eq_ok.mpr ⟨rfl, h⟩]
    exact if_neg hn

end Healthy

end Firmware.Storage.Record
