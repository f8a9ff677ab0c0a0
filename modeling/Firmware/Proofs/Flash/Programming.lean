import Firmware.Proofs.Flash.Writer

/-!
Writers on a device in memory. A writer that starts on an erased region has programmed whole units of
what it accepted, and the rest of the region is still erased, whether or not it failed. This holds of
any region; that only faults and a lack of room fail it, of a region made of units.
-/

namespace Firmware.Flash

lemma isMultiple_iff (n u : Nat) : isMultiple n u = true ↔ 0 < u ∧ u ∣ n := by
  simp [isMultiple, Nat.dvd_iff_mod_eq_zero, Nat.pos_iff_ne_zero]

lemma of_roundUp {n u k : Nat} (h : roundUp n u = some k) : n ≤ k ∧ k < n + u ∧ u ∣ k := by
  simp only [roundUp] at h
  split at h
  · cases h
  · rename_i hu
    have hlt := Nat.mod_lt n (Nat.pos_of_ne_zero hu)
    split at h
    · rename_i h0
      cases h
      exact ⟨Nat.le_refl n, by omega, Nat.dvd_of_mod_eq_zero h0⟩
    · split at h
      · cases h
        have hn : n + (u - n % u) = u * (n / u + 1) := by
          have := Nat.div_add_mod n u
          rw [Nat.mul_add]
          omega
        exact ⟨Nat.le_add_right _ _, by omega, hn ▸ Nat.dvd_mul_right u _⟩
      · cases h

def filled (b : Bytes) (n : Nat) : Bytes := b ++ Bytes.erased (n - b.length)

@[simp] lemma length_filled (b : Bytes) (n : Nat) : (filled b n).length = max b.length n := by
  simp [filled]
  omega

@[simp] lemma filled_nil (n : Nat) : filled [] n = Bytes.erased n := by simp [filled]

lemma filled_erased {b : Bytes} {k n : Nat} (h : b.length + k ≤ n) :
    filled (b ++ Bytes.erased k) n = filled b n := by
  simp only [filled, Bytes.erased, List.append_assoc, List.replicate_append_replicate,
    List.length_append, List.length_replicate]
  congr 2
  omega

lemma zipWith_and_erased (b : Bytes) : List.zipWith (· &&& ·) (Bytes.erased b.length) b = b := by
  induction b with
  | nil => rfl
  | cons x b ih =>
    have hx : (0xff : UInt8) &&& x = x := UInt8.neg_one_and
    simpa [Bytes.erased, List.replicate_succ, hx] using ih

lemma splice_filled {p data : Bytes} {n : Nat} (h : p.length + data.length ≤ n) :
    Ram.splice (filled p n) p.length data.length (List.zipWith (· &&& ·) · data) =
      filled (p ++ data) n := by
  have hs : slice (filled p n) p.length data.length = Bytes.erased data.length := by
    simp only [slice, filled, List.drop_left, Bytes.erased, List.take_replicate]
    congr 1
    omega
  have hd : (filled p n).drop (p.length + data.length) =
      Bytes.erased (n - (p ++ data).length) := by
    simp only [filled, List.drop_append, List.drop_of_length_le (Nat.le_add_right _ _), Bytes.erased,
      List.drop_replicate, List.nil_append, List.length_append]
    congr 1
    omega
  have ht : (filled p n).take p.length = p := List.take_left
  rw [Ram.splice, hs, hd, ht, zipWith_and_erased]
  rfl

namespace Ram

def image (r : Region) (d : Ram) : Bytes := slice d.contents r.start r.size

lemma length_image {r : Region} {d : Ram} (h : r.stop ≤ d.contents.length) : (image r d).length = r.size :=
  length_slice_of_le h

/-- A prefix of the bytes is at the front of a region, and the rest of it is erased. -/
def Torn (r : Region) (b : Bytes) (d : Ram) : Prop := ∃ p, p <+: b ∧ image r d = filled p r.size

def TornBetween (r : Region) (b : Bytes) (d : Ram) : Prop :=
  ∃ p, p <+: b ∧ d.writeUnit ∣ p.length ∧ image r d = filled p r.size

lemma TornBetween.torn {r : Region} {b : Bytes} {d : Ram} (h : TornBetween r b d) : Torn r b d :=
  h.imp fun _ hp => ⟨hp.1, hp.2.2⟩

lemma TornBetween.mono {r : Region} {b c : Bytes} {d : Ram} (h : TornBetween r b d) (hb : b <+: c) :
    TornBetween r c d :=
  h.imp fun _ hp => ⟨hp.1.trans hb, hp.2⟩

/-- What a writer that was flushed leaves in its region, up to the end of the last unit. -/
def Flushed (r : Region) (b : Bytes) (d : Ram) : Prop :=
  image r d = filled b r.size ∧ ∃ n, b.length ≤ n ∧ n ≤ r.size ∧ d.writeUnit ∣ n

lemma Flushed.tornBetween {r : Region} {b : Bytes} {d : Ram} (h : Flushed r b d) :
    TornBetween r (filled b r.size) d := by
  obtain ⟨hi, n, hb, hn, hu⟩ := h
  obtain ⟨k, rfl⟩ := Nat.exists_eq_add_of_le hb
  obtain ⟨m, hm⟩ := Nat.exists_eq_add_of_le hn
  have hf : filled b r.size = (b ++ Bytes.erased k) ++ Bytes.erased m := by
    rw [hm, filled, List.append_assoc, Bytes.erased, Bytes.erased, Bytes.erased,
      List.replicate_append_replicate, Nat.add_assoc, Nat.add_sub_cancel_left]
  have hk : b.length + k ≤ r.size := hn
  refine ⟨b ++ Bytes.erased k, hf ▸ List.prefix_append _ _, ?_, by rw [hi, filled_erased hk]⟩
  rwa [List.length_append, Bytes.length_erased]

lemma image_of_reach {r s : Region} {d d' : Ram} (h : Reach (·.Inside r) d d') (ha : r.Apart s) :
    image s d' = image s d :=
  slice_of_reach h fun _ hm => hm.spares_region ha

lemma change_cases {f : Bytes → Bytes} {d : Ram} (hr : d.ready = true) :
    (∃ e d', change f d = .error e d' ∧ d.faulty d.attempts = true ∧ d'.contents = d.contents) ∨
      ∃ d', change f d = .ok () d' ∧ d'.contents = f d.contents := by
  simp only [change]
  simp only [hr, Bool.not_true, Bool.false_eq_true, ↓reduceIte]
  split
  · exact .inl ⟨_, _, rfl, ‹_›, rfl⟩
  · exact .inr ⟨_, rfl, rfl⟩

variable {r : Region} {d : Ram}

lemma image_program {a : Nat} {data : Bytes} (hd : d.ready = true) (hu : 0 < d.writeUnit)
    (hr : r.stop ≤ d.contents.length) (ha : d.writeUnit ∣ a) (hl : d.writeUnit ∣ data.length)
    (hn : a + data.length ≤ r.size) :
    (∃ e d', (Flash.program (r.start + a) data : EStateM _ Ram Unit) d = .error e d' ∧
        (¬ d.writeUnit ∣ r.start ∨ d.faulty d.attempts = true) ∧ image r d' = image r d) ∨
      ∃ d', (Flash.program (r.start + a) data : EStateM _ Ram Unit) d = .ok () d' ∧ d.writeUnit ∣ r.start ∧
        image r d' = splice (image r d) a data.length (List.zipWith (· &&& ·) · data) := by
  have hb : r.start + a + data.length ≤ d.contents.length := by
    simp only [Region.stop] at hr
    omega
  have hm : (isMultiple (r.start + a) d.writeUnit && isMultiple data.length d.writeUnit) =
      true ↔ d.writeUnit ∣ r.start := by
    rw [Bool.and_eq_true, isMultiple_iff, isMultiple_iff, Nat.dvd_add_left ha]
    exact ⟨fun h => h.1.2, fun h => ⟨⟨hu, h⟩, hu, hl⟩⟩
  rw [program_run, if_neg (Nat.not_lt.mpr hb)]
  by_cases hs : ¬ d.writeUnit ∣ r.start
  · exact .inl ⟨.misaligned, d, if_pos (by rw [Bool.not_eq_true', ← Bool.not_eq_true, hm]; exact hs),
      .inl hs, rfl⟩
  simp only [hm.mpr (not_not.mp hs), Bool.not_true, Bool.false_eq_true, ↓reduceIte]
  rcases change_cases (f := fun b =>
    splice b (r.start + a) data.length (List.zipWith (· &&& ·) · data)) hd with
    ⟨e, d', he, hf, hc⟩ | ⟨d', he, hc⟩
  · exact .inl ⟨e, d', he, .inr hf, by rw [image, hc, image]⟩
  · refine .inr ⟨d', he, not_not.mp hs, ?_⟩
    have hz : (List.zipWith (· &&& ·) (slice d.contents (r.start + a) data.length)
        data).length = data.length := by
      simp [length_slice_of_le hb]
    have hin : r.start + a + data.length ≤ r.start + r.size := by omega
    rw [image, hc, slice_splice_of_inside hb hz (Nat.le_add_right _ _) hin hr, Nat.add_sub_cancel_left]
    rfl

lemma program_cases {p data : Bytes} (hd : d.ready = true) (hu : 0 < d.writeUnit)
    (hr : r.stop ≤ d.contents.length) (hp : d.writeUnit ∣ p.length) (hl : d.writeUnit ∣ data.length)
    (hi : image r d = filled p r.size) (hn : p.length + data.length ≤ r.size) :
    (∃ e d', (Flash.program (r.start + p.length) data : EStateM _ Ram Unit) d = .error e d' ∧
        (¬ d.writeUnit ∣ r.start ∨ d.faulty d.attempts = true) ∧ image r d' = filled p r.size) ∨
      ∃ d', (Flash.program (r.start + p.length) data : EStateM _ Ram Unit) d = .ok () d' ∧
        d.writeUnit ∣ r.start ∧ image r d' = filled (p ++ data) r.size := by
  rcases image_program hd hu hr hp hl hn with ⟨e, d', he, hf, hc⟩ | ⟨d', he, hs, hc⟩
  · exact .inl ⟨e, d', he, hf, hc.trans hi⟩
  · exact .inr ⟨d', he, hs, by rw [hc, hi, splice_filled hn]⟩

lemma erase_cases (hd : d.ready = true) (hu : 0 < d.eraseUnit) (hr : r.stop ≤ d.contents.length)
    (hs : d.eraseUnit ∣ r.start) (hl : d.eraseUnit ∣ r.size) :
    (∃ e d', (Flash.erase r.start r.size : EStateM _ Ram Unit) d = .error e d' ∧
        d.faulty d.attempts = true ∧ d'.contents = d.contents) ∨
      ∃ d', (Flash.erase r.start r.size : EStateM _ Ram Unit) d = .ok () d' ∧
        image r d' = Bytes.erased r.size := by
  have hm : (isMultiple r.start d.eraseUnit && isMultiple r.size d.eraseUnit) = true := by
    rw [Bool.and_eq_true, isMultiple_iff, isMultiple_iff]
    exact ⟨⟨hu, hs⟩, hu, hl⟩
  have hb : r.start + r.size ≤ d.contents.length := hr
  rw [erase_run, if_neg (Nat.not_lt.mpr hb)]
  simp only [hm, Bool.not_true, Bool.false_eq_true, ↓reduceIte]
  rcases change_cases (f := fun b => splice b r.start r.size fun _ => Bytes.erased r.size) hd with
    ⟨e, d', he, hf, hc⟩ | ⟨d', he, hc⟩
  · exact .inl ⟨e, d', he, hf, hc⟩
  · refine .inr ⟨d', he, ?_⟩
    have hz : (Bytes.erased r.size).length = r.size := Bytes.length_erased _
    rw [image, hc]
    rw [slice_splice_of_inside (f := fun _ => Bytes.erased r.size) hr hz (Nat.le_refl _)
      (Nat.le_refl _) hr]
    simp [splice, length_slice_of_le hr]

end Ram

namespace Writer

open Ram

structure Placed (w : Writer Ram) : Prop where
  unit : w.device.writeUnit = w.unit
  pos : 0 < w.unit
  inside : w.region.stop ≤ w.device.contents.length
  ready : w.device.ready = true

structure Sound (w : Writer Ram) : Prop extends Placed w where
  start : w.unit ∣ w.region.start
  size : w.unit ∣ w.region.size

/-- A writer that has accepted the bytes: the front of them is programmed, the rest is staged. -/
structure Accepts (b : Bytes) (w : Writer Ram) : Prop extends Placed w where
  started : w.offset ≠ 0 → w.unit ∣ w.region.start
  offset : w.offset ≤ b.length
  aligned : w.unit ∣ w.offset
  image : image w.region w.device = filled (b.take w.offset) w.region.size
  staged : w.staged = b.drop w.offset
  short : w.staged.length ≤ w.unit

structure Holds (b : Bytes) (w : Writer Ram) : Prop extends Sound w, Accepts b w

/-- What may keep a writer from accepting `n` bytes. The last unit of them may not fit where they do. -/
inductive Hindered (r : Region) (d : Ram) (n : Nat) : Prop
  | size {k : Nat} : d.writeUnit ∣ k → k < n + d.writeUnit → r.size < k → Hindered r d n
  | start : ¬ d.writeUnit ∣ r.start → Hindered r d n
  | fault {k : Nat} : d.faulty k = true → Hindered r d n

def Excused (r : Region) (d : Ram) (n : Nat) : Prop := r.size < n ∨ ∃ k, d.faulty k = true

inductive Stops (r : Region) (d : Ram) (b : Bytes) (P : Writer Ram → Prop) :
    EStateM.Result Failure (Writer Ram) Unit → Prop
  | ok {w : Writer Ram} : P w → Stops r d b P (.ok () w)
  | error {e : Failure} {w : Writer Ram} : TornBetween r b w.device → Hindered r d b.length →
      Stops r d b P (.error e w)

inductive Ends (r : Region) (d : Ram) (b : Bytes) (P : Writer Ram → Prop) :
    EStateM.Result Failure (Writer Ram) Unit → Prop
  | ok {w : Writer Ram} : P w → Ends r d b P (.ok () w)
  | error {e : Failure} {w : Writer Ram} : Torn r b w.device → Excused r d b.length →
      Ends r d b P (.error e w)

variable {r : Region} {d : Ram} {w w' : Writer Ram} {b c data : Bytes} {P Q : Writer Ram → Prop}

/-- Either the bytes can be counted in 32 bits, or the device takes no slice that is longer. -/
def Measured (d : Ram) (data : Bytes) : Prop := data.length < 0x100000000 ∨ Sized d

/-- The bytes are as many as they are taken to be, or too many to be programmed. -/
def Counted (d : Ram) (n : Nat) (data : Bytes) : Prop := n = data.length ∨ 0x100000000 ≤ data.length ∧ Sized d

lemma Measured.mono (h : Measured d data) (hc : c.length ≤ data.length) : Measured d c :=
  h.imp_left (Nat.lt_of_le_of_lt hc)

lemma measured_of_flatten {parts : List Bytes} (h : parts.flatten.length < 0x100000000) :
    ∀ x ∈ parts, Measured d x :=
  fun _ hx => .inl (Nat.lt_of_le_of_lt (List.sublist_flatten_of_mem hx).length_le h)

lemma Measured.of_shaped {d' : Ram} (h : Measured d data) (hd : d.Shaped d') : Measured d' data :=
  h.imp_right hd.sized

lemma Measured.counted (h : Measured d data) : Counted d (data.length % 0x100000000) data := by
  rcases Nat.lt_or_ge data.length 0x100000000 with hd | hd
  · exact .inl (Nat.mod_eq_of_lt hd)
  · exact .inr ⟨hd, h.resolve_left (Nat.not_lt.mpr hd)⟩

lemma Moves.alike (h : Moves w w') : w.device.Alike w'.device := alike_of_reach h.reach

lemma Roams.moves (h : Roams w w') (hs : Sized w.device) : Moves w w' :=
  ⟨h.region, h.unit, reach_of_sized hs h.reach⟩

lemma moves_writeUnits (hd : Measured w.device data) : Moves w (stateAfter (writeUnits data w)) :=
  hd.elim (fun h => follows_writeUnits_of (fun _ hx => follows_programUnits_cut (Nat.lt_of_le_of_lt hx h))
    moves_staged w) (roams_writeUnits data w).moves

lemma moves_write (hd : Measured w.device data) : Moves w (stateAfter (write data w)) :=
  hd.elim (fun h => follows_write h w) (roams_write data w).moves

lemma moves_forM_write {parts : List Bytes} (hd : ∀ x ∈ parts, Measured w.device x) :
    Moves w (stateAfter (parts.forM write w)) := by
  by_cases hs : Sized w.device
  · exact Roams.moves (Follows.forM (fun x _ => roams_write x) w) hs
  · exact Follows.forM (fun x hx => follows_write ((hd x hx).resolve_right hs)) w

lemma Moves.placed (h : Moves w w') (hw : w.Placed) : w'.Placed where
  unit := by rw [h.alike.writeUnit, h.unit, hw.unit]
  pos := by rw [h.unit]; exact hw.pos
  inside := by rw [h.region, h.alike.length]; exact hw.inside
  ready := by rw [h.alike.ready, hw.ready]

lemma Moves.sound (h : Moves w w') (hw : w.Sound) : w'.Sound where
  toPlaced := h.placed hw.toPlaced
  start := by rw [h.unit, h.region]; exact hw.start
  size := by rw [h.unit, h.region]; exact hw.size

lemma Hindered.mono {m n : Nat} (h : Hindered r d m) (hn : m ≤ n) : Hindered r d n := by
  cases h with
  | size hk hm hr => exact .size hk (by omega) hr
  | start hs => exact .start hs
  | fault hk => exact .fault hk

lemma Hindered.of_lt {n : Nat} (hu : 0 < d.writeUnit) (h : r.size < n) : Hindered r d n := by
  have hm := Nat.mod_lt (n + (d.writeUnit - 1)) hu
  refine .size (k := n + (d.writeUnit - 1) - (n + (d.writeUnit - 1)) % d.writeUnit)
    (Nat.dvd_sub_mod _) ?_ ?_ <;> omega

lemma Hindered.of_alike {d' : Ram} {n : Nat} (h : Hindered r d' n) (ha : d.Alike d') :
    Hindered r d n := by
  cases h with
  | size hk hm hr => exact .size (ha.writeUnit ▸ hk) (ha.writeUnit ▸ hm) hr
  | start hs => exact .start (ha.writeUnit ▸ hs)
  | fault hk => exact .fault (ha.faulty ▸ hk)

lemma Hindered.excused {n : Nat} (h : Hindered r d n) (hs : d.writeUnit ∣ r.start)
    (hz : d.writeUnit ∣ r.size) : Excused r d n := by
  cases h with
  | size hk hn hr =>
    left
    obtain ⟨i, rfl⟩ := hk
    obtain ⟨j, hj⟩ := hz
    rw [hj] at hr ⊢
    have hij : j + 1 ≤ i := Nat.lt_of_mul_lt_mul_left hr
    have := Nat.mul_le_mul_left d.writeUnit hij
    rw [Nat.mul_add] at this
    omega
  | start hn => exact absurd hs hn
  | fault hk => exact .inr ⟨_, hk⟩

lemma Stops.bind {f g : EStateM Failure (Writer Ram) Unit} (hm : Moves w (stateAfter (f w)))
    (h : Stops w.region w.device b P (f w)) (hb : b <+: c)
    (hg : ∀ w', Moves w w' → P w' → Stops w'.region w'.device c Q (g w')) :
    Stops w.region w.device c Q ((do f; g) w) := by
  rw [EStateM.bind_run]
  cases hr : f w with
  | ok a w' =>
    rw [hr] at h hm
    cases h with
    | ok hp =>
      have he := hg w' hm hp
      dsimp only
      revert he
      cases g w' with
      | ok a v =>
        rintro ⟨hq⟩
        exact .ok hq
      | error e v =>
        rintro (_ | ⟨ht, hx⟩)
        exact .error (hm.region ▸ ht) (hm.region ▸ hx.of_alike hm.alike)
  | error e w' =>
    rw [hr] at h
    cases h with
    | error ht hx => exact .error (ht.mono hb) (hx.mono hb.length_le)

lemma Stops.mono {x : EStateM.Result Failure (Writer Ram) Unit} (h : Stops r d b P x)
    (hp : ∀ w', P w' → Q w') : Stops r d b Q x := by
  cases h with
  | ok h => exact .ok (hp _ h)
  | error ht hx => exact .error ht hx

lemma Ends.mono {x : EStateM.Result Failure (Writer Ram) Unit} (h : Ends r d b P x)
    (hp : ∀ w', P w' → Q w') : Ends r d b Q x := by
  cases h with
  | ok h => exact .ok (hp _ h)
  | error ht hx => exact .error ht hx

lemma Stops.ends {f : EStateM Failure (Writer Ram) Unit} (h : Stops w.region w.device b P (f w))
    (hw : w.Sound) (hm : Moves w (stateAfter (f w))) :
    Ends w.region w.device b (fun v => v.Sound ∧ P v) (f w) := by
  revert h hm
  cases f w with
  | ok a v =>
    rintro ⟨hp⟩ hm
    exact .ok ⟨hm.sound hw, hp⟩
  | error e v =>
    rintro (_ | ⟨ht, hx⟩) -
    exact .error ht.torn (hx.excused (hw.unit ▸ hw.start) (hw.unit ▸ hw.size))

lemma programUnits_long {n : Nat} (hl : 0x100000000 ≤ data.length) (hs : Sized w.device) :
    ∃ e, programUnits n data w = .error e w := by
  rw [programUnits_run, program_long hs hl]
  split <;> exact ⟨_, rfl⟩

lemma programUnits_cases {p : Bytes} {n : Nat} (hw : w.Placed) (hn : Counted w.device n data)
    (ho : w.offset = p.length) (hp : w.unit ∣ p.length) (hl : w.unit ∣ data.length)
    (hi : image w.region w.device = filled p w.region.size) :
    (∃ e w', programUnits n data w = .error e w' ∧ (w.region.size < p.length + data.length ∨
          ¬ w.unit ∣ w.region.start ∨ ∃ k, w.device.faulty k = true) ∧
        image w.region w'.device = filled p w.region.size) ∨
      ∃ w', programUnits n data w = .ok () w' ∧ w'.offset = p.length + data.length ∧
        w'.staged = w.staged ∧ p.length + data.length ≤ w.region.size ∧ w.unit ∣ w.region.start ∧
        image w.region w'.device = filled (p ++ data) w.region.size := by
  obtain rfl | ⟨hlong, hs⟩ := hn
  case inr =>
    obtain ⟨e, he⟩ := programUnits_long hlong hs
    have hr : w.region.size < 0x100000000 := w.region.len.toNat_lt
    exact .inl ⟨e, w, he, .inl (by omega), hi⟩
  rw [programUnits_run, ho]
  split
  · exact .inl ⟨_, w, rfl, .inl ‹_›, hi⟩
  · rename_i hs
    have hu := hw.unit
    rcases program_cases hw.ready (hu ▸ hw.pos) hw.inside (hu ▸ hp) (hu ▸ hl) hi
      (Nat.not_lt.mp hs) with ⟨e, d, hr, hf, hd⟩ | ⟨d, hr, hs', hd⟩
    · refine .inl ⟨e.failure, { w with device := d, offset := p.length }, ?_, .inr ?_, hd⟩
      · rw [hr, ← ho]
      · exact (hu ▸ hf).imp_right fun hf => ⟨_, hf⟩
    · refine .inr ⟨{ w with device := d, offset := p.length + data.length }, ?_, rfl, rfl,
        Nat.not_lt.mp hs, hu ▸ hs', hd⟩
      rw [hr]

lemma hindered_of_programUnits {n k : Nat} (hw : w.Placed) (hk : w.unit ∣ k) (hn : k < n + w.unit)
    (h : w.region.size < k ∨ ¬ w.unit ∣ w.region.start ∨ ∃ k, w.device.faulty k = true) :
    Hindered w.region w.device n := by
  rcases h with hr | hs | ⟨i, hi⟩
  · exact .size (hw.unit ▸ hk) (hw.unit ▸ hn) hr
  · exact .start (hw.unit ▸ hs)
  · exact .fault hi

lemma Accepts.of_append {p : Bytes} (hw : w.Placed) (h0 : w.offset ≠ 0 → w.unit ∣ w.region.start)
    (ho : w.offset = p.length) (ha : w.unit ∣ p.length) (hi : Ram.image w.region w.device = filled p w.region.size)
    (hs : w.staged.length ≤ w.unit) : Accepts (p ++ w.staged) w where
  toPlaced := hw
  started := h0
  offset := by simp [ho]
  aligned := ho ▸ ha
  image := by rw [ho, List.take_left, hi]
  staged := by rw [ho, List.drop_left]
  short := hs

lemma Accepts.nil (hu : d.writeUnit ≠ 0) (hr : r.stop ≤ d.contents.length) (hd : d.ready = true)
    (hi : Ram.image r d = Bytes.erased r.size) : Accepts [] ⟨d, r, d.writeUnit, 0, []⟩ :=
  of_append (p := []) (w := ⟨d, r, d.writeUnit, 0, []⟩) ⟨rfl, Nat.pos_of_ne_zero hu, hr, hd⟩
    (absurd rfl) rfl (Nat.dvd_zero _) (by rwa [filled_nil]) (Nat.zero_le _)

lemma Accepts.programmed (h : Accepts b w) : (b.take w.offset).length = w.offset := by
  rw [List.length_take, Nat.min_eq_left h.offset]

lemma Accepts.length (h : Accepts b w) : b.length = w.offset + w.staged.length := by
  have := h.offset
  rw [h.staged, List.length_drop]
  omega

lemma Accepts.fits (h : Accepts b w) : w.offset ≤ w.region.size := by
  have hl := congrArg List.length h.image
  rw [length_filled, h.programmed, Ram.length_image h.inside] at hl
  omega

lemma Accepts.stage (h : Accepts b w) (data : Bytes) (hn : w.staged.length + data.length ≤ w.unit) :
    Accepts (b ++ data) { w with staged := w.staged ++ data } := by
  have hb : b ++ data = b.take w.offset ++ (w.staged ++ data) := by
    rw [h.staged, ← List.append_assoc, List.take_append_drop]
  rw [hb]
  exact of_append (w := { w with staged := w.staged ++ data }) { h.toPlaced with } h.started
    h.programmed.symm (h.programmed.symm ▸ h.aligned) h.image (by rwa [List.length_append])

lemma Accepts.length_padded (h : Accepts b w) :
    (w.staged ++ Bytes.erased (w.unit - w.staged.length)).length = w.unit := by
  have := h.short
  rw [List.length_append, Bytes.length_erased]
  omega

lemma stops_programStaged (h : Accepts b w) (hs : w.staged ≠ []) :
    Stops w.region w.device b (fun v => v.Placed ∧ v.staged = [] ∧ v.offset = w.offset + w.unit ∧
      w.unit ∣ w.region.start ∧ Flushed w.region b v.device) (programStaged w) := by
  have hm := follows_programStaged w
  have hl := h.length_padded
  have hd : w.unit ∣ (w.staged ++ Bytes.erased (w.unit - w.staged.length)).length :=
    Nat.dvd_of_mod_eq_zero (by rw [hl, Nat.mod_self])
  have hb : b.take w.offset ++ w.staged = b := by rw [h.staged, List.take_append_drop]
  have hr : (programStaged w) =
      (programUnits (w.staged ++ Bytes.erased (w.unit - w.staged.length)).length
          (w.staged ++ Bytes.erased (w.unit - w.staged.length)) >>= fun _ =>
        modify fun w => { w with staged := [] }) w := rfl
  have ha : w.unit ∣ (b.take w.offset).length := by
    rw [h.programmed]
    exact h.aligned
  rw [EStateM.bind_run] at hr
  rcases programUnits_cases h.toPlaced (.inl rfl) h.programmed.symm ha hd h.image with
    ⟨e, v, he, hx, hi⟩ | ⟨v, he, ho, -, hf, h0, hi⟩
  · rw [hr, he] at hm ⊢
    have hu : v.device.writeUnit = w.unit := hm.alike.writeUnit.trans h.unit
    refine .error ⟨_, List.take_prefix _ _, hu ▸ ha, hi⟩
      (hindered_of_programUnits h.toPlaced (Nat.dvd_add ha hd) ?_ hx)
    have hn : 0 < w.staged.length := List.length_pos_iff.mpr hs
    rw [hl, h.programmed, h.length]
    omega
  · rw [hr, he] at hm ⊢
    rw [h.programmed, hl] at ho hf
    have hu : v.device.writeUnit = w.unit := hm.alike.writeUnit.trans h.unit
    have hv : v.device.writeUnit ∣ w.offset + w.unit := by
      rw [hu]
      exact Nat.dvd_add h.aligned (Nat.dvd_refl _)
    have hn : b.length ≤ w.offset + w.unit := h.length ▸ Nat.add_le_add_left h.short _
    refine .ok ⟨hm.placed h.toPlaced, rfl, ho, h0, ?_, w.offset + w.unit, hn, hf, hv⟩
    rwa [← List.append_assoc, hb, filled_erased] at hi
    have := h.length
    omega

lemma writeUnits_run {δ : Type} [Flash δ] (data : Bytes) (w : Writer δ) :
    writeUnits data w =
      if 0 < data.length - data.length % w.unit then
        (do
          programUnits ((data.length - data.length % w.unit) % 0x100000000)
            (data.take (data.length - data.length % w.unit))
          modify fun v => { v with
            staged := data.drop (data.length - data.length % w.unit) } :
          EStateM Failure (Writer δ) Unit) w
      else .ok () { w with staged := data.drop (data.length - data.length % w.unit) } := by
  simp only [writeUnits]
  simp only [EStateM.bind_run, EStateM.get_run]
  split <;> rfl

lemma stops_writeUnits (h : Accepts b w) (hs : w.staged = []) (hdata : Measured w.device data) :
    Stops w.region w.device (b ++ data) (Accepts (b ++ data)) (writeUnits data w) := by
  have hm := moves_writeUnits hdata
  have hb : w.offset = b.length := by simpa [hs] using h.length.symm
  have ht : b.take w.offset = b := by rw [hb, List.take_length]
  have hi := h.image
  have ha := h.aligned
  rw [ht] at hi
  rw [hb] at ha
  have hd : data.length - data.length % w.unit ≤ data.length := Nat.sub_le _ _
  have hu : w.unit ∣ data.length - data.length % w.unit := Nat.dvd_sub_mod _
  have hr : data.length % w.unit < w.unit := Nat.mod_lt _ h.pos
  generalize hn : data.length - data.length % w.unit = n at hd hu
  have hl : (data.take n).length = n := by rw [List.length_take, Nat.min_eq_left hd]
  have hc : Counted w.device (n % 0x100000000) (data.take n) := by
    have hc := (hdata.mono (List.length_take_le' n data)).counted
    rwa [hl] at hc
  have hk : (data.drop n).length ≤ w.unit := by
    rw [List.length_drop]
    omega
  rw [writeUnits_run, hn] at hm ⊢
  split
  · rename_i h0
    rw [if_pos h0, EStateM.bind_run] at hm
    rw [EStateM.bind_run]
    rcases programUnits_cases h.toPlaced hc hb ha (by rw [hl]; exact hu) hi with
      ⟨e, v, he, hx, hv⟩ | ⟨v, he, ho, -, hf, h0, hv⟩
    · rw [he] at hm ⊢
      have hw : v.device.writeUnit = w.unit := hm.alike.writeUnit.trans h.unit
      rw [hl] at hx
      refine .error ⟨b, List.prefix_append _ _, hw ▸ ha, hv⟩
        (hindered_of_programUnits h.toPlaced (Nat.dvd_add ha hu) ?_ hx)
      rw [List.length_append]
      have := h.pos
      omega
    · rw [he] at hm ⊢
      have hg : v.region = w.region := hm.region
      have hw : v.unit = w.unit := hm.unit
      have hc : b ++ data = (b ++ data.take n) ++ data.drop n := by
        rw [List.append_assoc, List.take_append_drop]
      rw [hc]
      refine .ok (.of_append (hm.placed h.toPlaced) (fun _ => ?_) ?_ ?_ ?_ (hw ▸ hk))
      · change v.unit ∣ v.region.start
        rw [hw, hg]
        exact h0
      · rw [List.length_append]
        exact ho
      · change v.unit ∣ _
        rw [List.length_append, hw, hl]
        exact Nat.dvd_add ha hu
      · exact (hg ▸ hv :)
  · rename_i h0
    have hz : n = 0 := by omega
    subst hz
    rw [if_neg h0] at hm
    exact .ok (.of_append (hm.placed h.toPlaced) h.started hb ha hi hk)

lemma write_run {δ : Type} [Flash δ] (data : Bytes) (w : Writer δ) :
    write data w =
      if w.staged.isEmpty then writeUnits data w
      else (do
        set { w with staged := w.staged ++ data.take (w.unit - w.staged.length) }
        if w.unit - w.staged.length ≤ data.length then
          programStaged
          writeUnits (data.drop (w.unit - w.staged.length)) : EStateM Failure (Writer δ) Unit) w := by
  simp only [write]
  simp only [EStateM.bind_run, EStateM.get_run]
  split <;> rfl

lemma stops_write (h : Accepts b w) (hdata : Measured w.device data) :
    Stops w.region w.device (b ++ data) (Accepts (b ++ data)) (write data w) := by
  rw [write_run]
  split
  · exact stops_writeUnits h (List.isEmpty_iff.mp ‹_›) hdata
  · rename_i hs
    have hn : w.staged.length ≤ w.unit := h.short
    generalize hk : w.unit - w.staged.length = n
    have hv := h.stage (data.take n) (by rw [List.length_take]; omega)
    rw [EStateM.bind_run, EStateM.set_run]
    dsimp only
    split
    · have hc : b ++ data = (b ++ data.take n) ++ data.drop n := by
        rw [List.append_assoc, List.take_append_drop]
      have hl : (w.staged ++ data.take n).length = w.unit := by
        rw [List.length_append, List.length_take]
        omega
      have hp := hv.length
      have ha := hv.aligned
      rw [hc]
      refine (stops_programStaged hv ?_).bind (follows_programStaged _) (List.prefix_append _ _)
        fun v hm ⟨ht, hz, ho, h0, hi, _⟩ => stops_writeUnits ?_ hz ?_
      · exact List.ne_nil_of_length_pos (hl ▸ h.pos)
      · have ho : v.offset = (b ++ data.take n).length := by rw [ho, hp, hl]
        have hu : v.unit ∣ (b ++ data.take n).length := by
          rw [hm.unit, hp, hl]
          exact Nat.dvd_add ha (Nat.dvd_refl _)
        rw [← hm.region] at hi
        have hs : v.offset ≠ 0 → v.unit ∣ v.region.start := fun _ => by rwa [hm.unit, hm.region]
        simpa [hz] using Accepts.of_append ht hs ho hu hi (by simp [hz])
      · exact (hdata.mono (by simp)).of_shaped hm.alike.toShaped
    · rename_i hd
      have ht : data.take n = data := List.take_of_length_le (Nat.le_of_not_le hd)
      rw [ht] at hv ⊢
      exact .ok hv

lemma write_first (h : Holds [] w) (hf : ∀ k, w.device.faulty k = false) (hd : Measured w.device data) :
    (∃ w', write data w = .ok () w') ↔ data.length - data.length % w.unit ≤ w.region.size := by
  have ho : w.offset = 0 := Nat.le_zero.mp h.offset
  have hs : w.staged = [] := by rw [h.staged, List.drop_nil]
  have hi := h.image
  have hw : write data w = writeUnits data w := by rw [write_run, hs, if_pos List.isEmpty_nil]
  have hu : w.unit ∣ data.length - data.length % w.unit := Nat.dvd_sub_mod _
  have hl : (data.take (data.length - data.length % w.unit)).length =
      data.length - data.length % w.unit := List.length_take_of_le (Nat.sub_le _ _)
  have hc := (hd.mono (List.length_take_le' (data.length - data.length % w.unit) data)).counted
  rw [hl] at hc
  rw [List.take_nil] at hi
  rw [hw, writeUnits_run]
  split
  · rw [EStateM.bind_run]
    rcases programUnits_cases (p := []) h.toPlaced hc ho (Nat.dvd_zero _) (hl.symm ▸ hu) hi with
      ⟨e, v, he, hx, -⟩ | ⟨v, he, -, -, hn, -, -⟩
    · rw [he]
      refine ⟨fun ⟨_, hv⟩ => (by cases hv), fun hn => ?_⟩
      rcases hx with hx | hs | ⟨k, hk⟩
      · rw [hl, List.length_nil] at hx
        omega
      · exact absurd h.start hs
      · rw [hf] at hk
        cases hk
    · rw [he]
      refine ⟨fun _ => ?_, fun _ => ⟨_, rfl⟩⟩
      rwa [hl, List.length_nil, Nat.zero_add] at hn
  · rename_i h0
    exact ⟨fun _ => by omega, fun _ => ⟨_, rfl⟩⟩

lemma erase_holds (h : Sound w) (hu : isMultiple w.region.start w.device.eraseUnit = true)
    (hz : isMultiple w.region.size w.device.eraseUnit = true) (hf : ∀ k, w.device.faulty k = false) :
    ∃ w', erase w = .ok () w' ∧ Holds [] w' := by
  have hm := follows_erase w
  obtain ⟨hp, hu⟩ := (isMultiple_iff _ _).mp hu
  rw [erase_run] at hm ⊢
  rcases erase_cases h.ready hp h.inside hu ((isMultiple_iff _ _).mp hz).2 with
    ⟨e, d, -, hx, -⟩ | ⟨d, hd, hi⟩
  · rw [hf] at hx
    cases hx
  · rw [hd] at hm ⊢
    have hw := hm.sound h
    refine ⟨_, rfl, { hw, Accepts.of_append (p := []) hw.toPlaced (fun h => absurd rfl h) rfl
      (Nat.dvd_zero _) ?_ (Nat.zero_le _) with }⟩
    rw [filled_nil]
    exact hi

lemma stops_forM_write (h : Accepts b w) {parts : List Bytes} (hd : ∀ x ∈ parts, Measured w.device x) :
    Stops w.region w.device (b ++ parts.flatten) (Accepts (b ++ parts.flatten))
      (parts.forM write w) := by
  induction parts generalizing b w with
  | nil => simpa using Stops.ok (b := b) h
  | cons data parts ih =>
    have hf : b ++ data <+: b ++ (data :: parts).flatten := by
      simp
    obtain ⟨hx, hd⟩ := List.forall_mem_cons.mp hd
    refine (stops_write h hx).bind (moves_write hx) hf fun v hm hv => ?_
    simpa using ih hv fun x hx => (hd x hx).of_shaped hm.alike.toShaped

lemma stops_flush (h : Accepts b w) :
    Stops w.region w.device b
      (fun v => (b ≠ [] → w.unit ∣ w.region.start) ∧ Flushed w.region b v.device) (flush w) := by
  have hp : Stops w.region w.device b
      (fun v => (b ≠ [] → w.unit ∣ w.region.start) ∧ Flushed w.region b v.device) (pad w) := by
    have hr : pad w = if w.staged.isEmpty then .ok () w else programStaged w := by
      simp only [pad]
      simp only [EStateM.bind_run, EStateM.get_run]
      split <;> simp_all
    rw [hr]
    split
    · have hs := List.isEmpty_iff.mp ‹_›
      have hb : w.offset = b.length := by simpa [hs] using h.length.symm
      have hi := h.image
      rw [hb, List.take_length] at hi
      refine .ok ⟨fun hn => h.started fun h0 => hn ?_, hi, w.offset, Nat.le_of_eq hb.symm, h.fits, h.unit ▸ h.aligned⟩
      exact List.eq_nil_of_length_eq_zero (hb ▸ h0)
    · exact (stops_programStaged h (by simp_all)).mono fun _ hv => ⟨fun _ => hv.2.2.2.1, hv.2.2.2.2⟩
  exact hp.bind (follows_pad w) (List.prefix_refl b) fun v _ hv => .ok hv

lemma stops_write_flush (h : Accepts b w) {parts : List Bytes} (hd : ∀ x ∈ parts, Measured w.device x) :
    Stops w.region w.device (b ++ parts.flatten)
      (fun v => (b ++ parts.flatten ≠ [] → w.unit ∣ w.region.start) ∧
        Flushed w.region (b ++ parts.flatten) v.device)
      ((do parts.forM write; flush : EStateM Failure (Writer Ram) Unit) w) := by
  refine (stops_forM_write h hd).bind (moves_forM_write hd) (List.prefix_refl _) fun v hm hv => (stops_flush hv).mono fun u hu => ?_
  rwa [hm.region, hm.unit] at hu

lemma ends_write (h : Holds b w) (hd : Measured w.device data) :
    Ends w.region w.device (b ++ data) (Holds (b ++ data)) (write data w) :=
  ((stops_write h.toAccepts hd).ends h.toSound (moves_write hd)).mono fun _ hv =>
    { hv.1, hv.2 with }

lemma ends_forM_write (h : Holds b w) {parts : List Bytes} (hd : ∀ x ∈ parts, Measured w.device x) :
    Ends w.region w.device (b ++ parts.flatten) (Holds (b ++ parts.flatten))
      (parts.forM write w) :=
  ((stops_forM_write h.toAccepts hd).ends h.toSound (moves_forM_write hd)).mono
    fun _ hv => { hv.1, hv.2 with }

lemma ends_flush (h : Holds b w) :
    Ends w.region w.device b (fun v => image w.region v.device = filled b w.region.size) (flush w) :=
  ((stops_flush h.toAccepts).ends h.toSound (follows_flush w)).mono fun _ hv => hv.2.2.1

end Writer

end Firmware.Flash
