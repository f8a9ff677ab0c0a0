import Firmware.Proofs.Stream.Entry
import Firmware.Proofs.Stream.Length

/-!
A partition holds whole entries and, behind them, perhaps some of an unfinished one. Looking up a name
finds the whole entries only, and the next entry starts right behind them.
-/

namespace Firmware.Cache

open Flash Ram Storage

def rest (r : Region) (n : Nat) : Region := ⟨UInt32.ofNat (r.start + n), UInt32.ofNat (r.size - n)⟩

variable {r s : Region} {d d' : Ram} {n : Nat}

lemma rest_start (hn : n ≤ r.size) (h : r.stop < 0x100000000) : (rest r n).start = r.start + n := by
  simp only [Region.stop] at h
  simp only [rest, Region.start, UInt32.toNat_ofNat'] at h hn ⊢
  omega

lemma rest_size (r : Region) (n : Nat) : (rest r n).size = r.size - n := by
  have h := r.len.toNat_lt
  simp only [rest, Region.size, UInt32.toNat_ofNat']
  omega

lemma rest_stop (hn : n ≤ r.size) (h : r.stop < 0x100000000) : (rest r n).stop = r.stop := by
  rw [Region.stop, rest_start hn h, rest_size, Region.stop]
  omega

lemma inside_of_rest (hn : n ≤ r.size) (h : r.stop < 0x100000000) {m : Mutation}
    (hm : m.Inside (rest r n)) : m.Inside r :=
  hm.mono (by rw [rest_start hn h]; exact Nat.le_add_right _ _) (Nat.le_of_eq (rest_stop hn h))

lemma front_of_reach (hn : n ≤ r.size) (h : r.stop < 0x100000000)
    (hr : Reach (·.Inside (rest r n)) d d') :
    slice d'.contents r.start n = slice d.contents r.start n := by
  refine slice_of_reach hr fun m hm => hm.spares (.inr ?_)
  exact Nat.le_of_eq (rest_start hn h).symm

lemma image_split (hn : n ≤ r.size) (h : r.stop < 0x100000000) :
    image r d = slice d.contents r.start n ++ image (rest r n) d := by
  rw [image, image, rest_start hn h, rest_size, ← slice_add, Nat.add_sub_of_le hn]

lemma Suits.rest (h : Suits r d) (hn : n < r.size) (ha : d.eraseUnit ∣ n) : Suits (rest r n) d where
  checked := {
    nonempty := by
      rw [rest_size]
      omega
    unit := h.checked.unit
    fits := by
      rw [rest_size]
      refine Nat.le_of_dvd (by omega) (Nat.dvd_trans h.units (Nat.dvd_sub h.eraseUnit_dvd.2 ha))
    start := by
      rw [rest_start (Nat.le_of_lt hn) h.stop_lt, isMultiple_iff]
      exact ⟨h.eraseUnit_pos, Nat.dvd_add h.eraseUnit_dvd.1 ha⟩
    size := by
      rw [rest_size, isMultiple_iff]
      exact ⟨h.eraseUnit_pos, Nat.dvd_sub h.eraseUnit_dvd.2 ha⟩
    stop := by
      obtain ⟨k, -, hk, hle⟩ := h.checked.stop
      have hs := rest_stop (Nat.le_of_lt hn) h.stop_lt
      refine ⟨k, ?_, hk, hs ▸ hle⟩
      rw [Region.end?, hs, if_pos h.stop_lt]
    ready := h.checked.ready }
  units := h.units
  faultless := h.faultless

def Holds (r : Region) (es : List (Text × Bytes)) (d : Ram) : Prop :=
  ∃ b t, Body es b ∧ Unfinished b.length t ∧ d.eraseUnit ∣ b.length ∧ image r d = filled (b ++ t) r.size

variable {es : List (Text × Bytes)} {b x : Bytes} {name : Text}

lemma unfinished_nil (start : Nat) : Unfinished start [] :=
  ⟨.empty, [], Nat.zero_le _, List.nil_prefix⟩

lemma holds_erased (h : image r d = Bytes.erased r.size) : Holds r [] d :=
  ⟨[], [], .fresh, unfinished_nil 0, Nat.dvd_zero _, by simpa using h⟩

lemma Holds.congr (h : Holds r es d) (ha : d.Alike d') (hi : image r d' = image r d) :
    Holds r es d' := by
  obtain ⟨b, t, hb, ht, hd, hi'⟩ := h
  exact ⟨b, t, hb, ht, ha.eraseUnit ▸ hd, hi.trans hi'⟩

lemma Holds.of_apart (h : Holds r es d) (ha : s.Apart r) (hr : Reach (·.Inside s) d d') :
    Holds r es d' :=
  h.congr (alike_of_reach hr) (image_of_reach hr ha)

lemma filled_append {p : Bytes} (b : Bytes) (n : Nat) : filled (b ++ p) n = b ++ filled p (n - b.length) := by
  simp only [filled, List.append_assoc, List.length_append, Nat.sub_sub]

lemma holds_of_torn (hs : Suits r d) (hb : Body es b) (ha : d.eraseUnit ∣ b.length)
    (hle : b.length ≤ r.size) (hf : slice d.contents r.start b.length = b) (hn : name.length ≤ maxName)
    (ht : Torn (rest r b.length) (entryHead b.length name ++ x) d) : Holds r es d := by
  obtain ⟨p, hp, hi⟩ := ht
  refine ⟨b, p, hb, ⟨name, x, hn, hp⟩, ha, ?_⟩
  rw [image_split hle hs.stop_lt, hf, hi, rest_size, filled_append]

lemma length_le_of_image (hs : Suits r d) (hi : image r d = filled b r.size) : b.length ≤ r.size := by
  have hl := congrArg List.length hi
  rw [image, length_slice_of_le hs.checked.inside, length_filled] at hl
  omega

lemma scan_image (hs : Suits r d) {t : Bytes} (hb : Body es b) (ht : Unfinished b.length t)
    (hi : image r d = filled (b ++ t) r.size) :
    ∃ tail, scan (image r d) = (es, tail) ∧ Trail b t tail := by
  have hle := length_le_of_image hs hi
  have hlt := hs.stop_lt
  rw [hi]
  apply scan_body hb ht
  simp only [List.length_append, Bytes.length_erased, Region.stop] at hle hlt ⊢
  omega

lemma Holds.lookup (h : Holds r es d) (hs : Suits r d) (hn : name.isEmpty = false) :
    lookup name (image r d) = es.lookup name := by
  obtain ⟨b, t, hb, ht, -, hi⟩ := h
  obtain ⟨tail, hsc, -⟩ := scan_image hs hb ht hi
  simp only [Cache.lookup, hn, hsc, Bool.false_eq_true, ↓reduceIte]

variable {c : Cache Ram}

lemma rewind_run (hs : Suits r c.device) (ha : c.device.eraseUnit ∣ b.length) (hl : b.length < r.size)
    (hi : image r c.device = b ++ x) :
    ∃ d, nextStart.rewind r b.length c = .ok b.length { c with device := d } ∧
      image r d = filled b r.size ∧ Reach (·.Inside r) c.device d := by
  have hle := Nat.le_of_lt hl
  have hf : slice c.device.contents r.start b.length = b := by
    have h := congrArg (List.take b.length) hi
    rw [image_split hle hs.stop_lt, List.take_left] at h
    rwa [List.take_left' (length_slice_of_le ?_)] at h
    have hin := hs.checked.inside
    simp only [Region.stop] at hin
    omega
  obtain ⟨d, hd, he, hr⟩ := (hs.rest hl ha).erase
  refine ⟨d, ?_, ?_, hr.mono fun m hm => inside_of_rest hle hs.stop_lt hm⟩
  · rw [rest_start hle hs.stop_lt, rest_size] at hd
    simp only [nextStart.rewind, eraseRange, onDevice, EStateM.bind_run, onPart,
      EStateM.adaptExcept_run, hd, EStateM.pure_run]
  · have hf' := front_of_reach hle hs.stop_lt hr
    rw [hf] at hf'
    rw [image_split hle hs.stop_lt, hf', he, rest_size]
    rfl

def Paddable (d : Ram) : Prop := d.eraseUnit = 1 ∨ 5 ≤ d.eraseUnit

def Ready (r : Region) (es : List (Text × Bytes)) (b : Bytes) (d : Ram) : Prop :=
  Body es b ∧ d.eraseUnit ∣ b.length ∧ image r d = filled b r.size

lemma Ready.holds (h : Ready r es b d) : Holds r es d :=
  ⟨b, [], h.1, unfinished_nil _, h.2.1, by rw [List.append_nil, h.2.2]⟩

lemma body_mapStart (h : Body es []) : Body es [mapStart] := by
  cases h
  have hs : Body [] (mapStart :: [].flatMap entry) := .started fun _ he => absurd he List.not_mem_nil
  exact hs

def Starts (r : Region) (es : List (Text × Bytes)) (c : Cache Ram) (f : EStateM Failure (Cache Ram) Nat) :
    Prop :=
  ∃ b d, f c = .ok b.length { c with device := d } ∧ Ready r es b d ∧ Reach (·.Inside r) c.device d

lemma Starts.congr {f g : EStateM Failure (Cache Ram) Nat} (hg : Starts r es c g) (h : f c = g c) :
    Starts r es c f := by
  simp only [Starts]
  rw [h]
  exact hg

lemma starts_rewind (hs : Suits r c.device) (hb : Body es b) (ha : c.device.eraseUnit ∣ b.length)
    (hl : b.length < r.size) (hi : image r c.device = b ++ x) :
    Starts r es c (nextStart.rewind r b.length) := by
  obtain ⟨d, hd, hi, hr⟩ := rewind_run hs ha hl hi
  exact ⟨b, d, hd, ⟨hb, (alike_of_reach hr).eraseUnit ▸ ha, hi⟩, hr⟩

lemma starts_here (hb : Body es b) (ha : c.device.eraseUnit ∣ b.length)
    (hi : image r c.device = filled b r.size) : Starts r es c (pure b.length) :=
  ⟨b, c.device, rfl, ⟨hb, ha, hi⟩, .refl⟩

lemma starts_nextStart (h : Holds r es c.device) (hs : Suits r c.device) (hp : Paddable c.device) :
    Starts r es c (nextStart r (scan (image r c.device)).2) := by
  obtain ⟨b, t, hb, ht, ha, hi⟩ := h
  obtain ⟨tail, hsc, htr⟩ := scan_image hs hb ht hi
  have h0 : 0 < r.size := Nat.pos_of_ne_zero hs.checked.nonempty
  have hl := length_le_of_image hs hi
  have hi' : image r c.device = b ++ (t ++ Bytes.erased (r.size - (b ++ t).length)) := by
    rw [hi, filled, List.append_assoc]
  have hfree (n : Nat) : nextStart r (.free n) c =
      (if n % c.device.eraseUnit = 0 then pure n
        else nextStart.rewind r (n - n % c.device.eraseUnit) : EStateM _ _ Nat) c := rfl
  have hdirty (n : Nat) : nextStart r (.dirty n) c =
      nextStart.rewind r (n - n % c.device.eraseUnit) c := rfl
  have hone (hp : 5 ≤ c.device.eraseUnit) : 1 % c.device.eraseUnit = 1 := Nat.mod_eq_of_lt (by omega)
  rw [hsc]
  cases htr with
  | free =>
    rw [List.append_nil] at hi
    apply (starts_here hb ha hi).congr
    rw [hfree, if_pos (Nat.mod_eq_zero_of_dvd ha)]
  | dirty _ ht =>
    have ht := List.length_pos_iff.mpr ht
    rw [List.length_append] at hl
    apply (starts_rewind hs hb ha (by omega) hi').congr
    rw [hdirty, Nat.mod_eq_zero_of_dvd ha, Nat.sub_zero]
  | freeStart =>
    rcases hp with hp | hp
    · apply (starts_here (body_mapStart hb) (hp ▸ Nat.one_dvd _) hi).congr
      rw [hfree, hp, if_pos (Nat.mod_one 1)]
      rfl
    · apply (starts_rewind hs hb ha h0 hi').congr
      rw [hfree, hone hp, if_neg Nat.one_ne_zero]
      rfl
  | @dirtyStart u hu =>
    rcases hp with hp | hp
    · have hu := List.length_pos_iff.mpr hu
      rw [List.nil_append, List.length_cons] at hl
      have hl : [mapStart].length < r.size := Nat.lt_of_lt_of_le (Nat.lt_add_of_pos_left hu) hl
      apply (starts_rewind hs (body_mapStart hb) (hp ▸ Nat.one_dvd _) hl hi').congr
      rw [hdirty, hp]
      rfl
    · apply (starts_rewind hs hb ha h0 hi').congr
      rw [hdirty, hone hp]
      rfl

end Firmware.Cache
