import Firmware.Proofs.Stream.OpenEntry

namespace Firmware.Cache

open Flash Ram OpenEntry

def Room (r : Region) (es : List (Text × Bytes)) (name : Text) (unit : Nat) : Prop :=
  (es = [] ∨ 1 + (es.flatMap entry).length < r.size) ∧
    1 + (es.flatMap entry).length + (opening name).length -
      (1 + (es.flatMap entry).length + (opening name).length) % unit ≤ r.size

variable {r : Region} {es : List (Text × Bytes)} {b : Bytes} {name : Text} {d : Ram} {c : Cache Ram}
  {i : Nat}

lemma room_iff_of_start {b h u n : Nat} (hb : u ∣ b) (hl : b < n) :
    b + h - (b + h) % u ≤ n ↔ h - h % u ≤ n - b := by
  obtain ⟨k, rfl⟩ := hb
  rw [Nat.mul_add_mod]
  have := Nat.mod_le h u
  omega

lemma length_opening (name : Text) : 5 ≤ (opening name).length := by
  simp only [opening, List.length_append, List.length_cons, Bytes.length_erased]
  omega

lemma Ready.room_iff (h : Ready r es b d) (hs : Suits r d) :
    Room r es name d.writeUnit ↔ b.length < r.size ∧
      (entryHead b.length name).length - (entryHead b.length name).length % d.writeUnit ≤ r.size - b.length := by
  obtain ⟨hb, ha, -⟩ := h
  have hu : d.writeUnit ∣ b.length := Nat.dvd_trans hs.units ha
  have h0 : 0 < r.size := Nat.pos_of_ne_zero hs.checked.nonempty
  simp only [Room]
  rw [entryHead_eq]
  cases hb with
  | fresh => simp [h0, Nat.add_comm]
  | started hes =>
    have hl : (mapStart :: es.flatMap entry).length = 1 + (es.flatMap entry).length := by
      rw [List.length_cons, Nat.add_comm]
    rw [hl] at hu ⊢
    rw [if_neg (by omega), List.nil_append]
    by_cases hlt : 1 + (es.flatMap entry).length < r.size
    · rw [room_iff_of_start hu hlt]
      simp only [hlt, or_true, true_and]
    · simp only [hlt, or_false, false_and, iff_false, not_and]
      rintro rfl
      -- The map has been started, so that a write unit is one byte.
      have h1 : d.writeUnit = 1 := Nat.dvd_one.mp hu
      have := length_opening name
      rw [h1, Nat.mod_one]
      omega

lemma contents_run (h : Storage.Record.Checked r d) (a : Arena) : contents d r a = .ok (image r d) a := by
  rw [contents, EStateM.adaptExcept_run, h.readDirect_run]

inductive Opened (r : Region) (es : List (Text × Bytes)) (name : Text) (c : Cache Ram) :
    EStateM.Result Failure (Cache Ram) (OpenEntry Ram) → Prop
  | ok {b : Bytes} {e : OpenEntry Ram} : Room r es name c.device.writeUnit → Writing r es b name [] e →
      Reach (·.Inside r) c.device e.writer.device →
      Opened r es name c (.ok e { c with device := e.writer.device })
  | error {f : Failure} {d : Ram} : ¬ Room r es name c.device.writeUnit → Holds r es d →
      Reach (·.Inside r) c.device d → Opened r es name c (.error f { c with device := d })

lemma Ready.split (h : Ready r es b d) (hs : Suits r d) :
    slice d.contents r.start b.length = b ∧ image (rest r b.length) d = Bytes.erased (rest r b.length).size := by
  have hle := length_le_of_image hs h.2.2
  have hi := h.2.2
  rw [image_split hle hs.stop_lt, filled, ← rest_size] at hi
  refine List.append_inj hi (length_slice_of_le ?_)
  have hin := hs.checked.inside
  simp only [Region.stop] at hin
  omega

def blankEntry (r : Region) (start : Nat) (name : Text) (d : Ram) : OpenEntry Ram :=
  ⟨⟨d, rest r start, d.writeUnit, 0, []⟩, entryHead start name, d.eraseUnit,
    r.start + start + (entryHead start name).length - 4, 0⟩

lemma Ready.placed (h : Ready r es b d) (hs : Suits r d) (hl : b.length < r.size)
    (hn : name.length ≤ maxName) : Placed r es b name (blankEntry r b.length name d) where
  suits := hs
  body := h.1
  aligned := h.2.1
  inside := hl
  short := hn
  front := (h.split hs).1
  region := rfl
  head := rfl
  block := rfl
  lengthAt := rfl

lemma openEntry_run (h0 : name.isEmpty = false) (hn : name.length ≤ maxName)
    (hp : (c.payload name).isOk = false) (hr : c.partition i = .ok r) (hs : Suits r c.device)
    {c' : Cache Ram} {start : Nat} (hst : nextStart r (scan (image r c.device)).2 c = .ok start c')
    (hu : c'.device.writeUnit ≠ 0 ∧ c'.device.writeUnit ≤ maxWriteUnit) :
    openEntry i name c =
      if start < r.size then
        match onWriter (Writer.write (entryHead start name)) (blankEntry r start name c'.device) with
        | .ok () e => .ok e { c' with device := e.writer.device }
        | .error f e => .error f { c' with device := e.writer.device }
      else .error .noResources c' := by
  have hc : answer (contents c.device r .empty) = .ok (image r c.device) := by
    rw [contents_run hs.checked]
    rfl
  have hw : Writer.start ⟨UInt32.ofNat (r.start + start), UInt32.ofNat (r.size - start)⟩ c'.device =
      .ok ⟨c'.device, rest r start, c'.device.writeUnit, 0, []⟩ :=
    Writer.start_eq_ok hu
  simp only [openEntry]
  simp only [h0, hn, Bool.false_eq_true, ↓reduceIte, EStateM.bind_run, EStateM.get_run, hp, hr,
    EStateM.lift_run, hc, hst]
  split
  · rw [EStateM.bind_run, EStateM.get_run]
    dsimp only
    rw [EStateM.bind_run, EStateM.lift_run, hw]
    simp only [Cache.onDevice, OpenEntry.onWriter, onPart, blankEntry]
    cases Writer.write (entryHead start name)
      ⟨c'.device, rest r start, c'.device.writeUnit, 0, []⟩ <;> rfl
  · rfl

lemma opened_openEntry (h : Holds r es c.device) (hs : Suits r c.device) (hpd : Paddable c.device)
    (h0 : name.isEmpty = false) (hn : name.length ≤ maxName) (hp : (c.payload name).isOk = false)
    (hr : c.partition i = .ok r) : Opened r es name c (openEntry i name c) := by
  obtain ⟨b, d, hst, hb, hre⟩ := starts_nextStart h hs hpd
  have ha := alike_of_reach hre
  have hs' := hs.of_alike ha
  have hroom : Room r es name d.writeUnit ↔ _ := hb.room_iff hs'
  rw [ha.writeUnit] at hroom
  rw [openEntry_run h0 hn hp hr hs hst hs'.checked.unit]
  split
  · rename_i hl
    have hpl := hb.placed hs' hl hn
    have hh : Writer.Holds [] (blankEntry r b.length name d).writer :=
      (hs'.rest hl hb.2.1).checked.holds hs'.units (hb.split hs').2
    have hm := hpl.measured (entryHead b.length name)
    have hw := Writer.ends_write hh hm
    have hfirst := Writer.write_first hh hs'.faultless hm
    have hl' := hpl.leaves_onWriter (x := []) (Writer.moves_write hm) (List.prefix_append _ _) hw
    have hu : (blankEntry r b.length name d).writer.unit = c.device.writeUnit := ha.writeUnit
    have hz : (blankEntry r b.length name d).writer.region.size = r.size - b.length := rest_size _ _
    rw [hu, hz] at hfirst
    have hiff : (∃ w', Writer.write (entryHead b.length name) (blankEntry r b.length name d).writer =
        .ok () w') ↔ Room r es name c.device.writeUnit :=
      hfirst.trans ((and_iff_right hl).symm.trans hroom.symm)
    dsimp only
    revert hl' hiff
    simp only [onWriter, onPart]
    cases Writer.write (entryHead b.length name) (blankEntry r b.length name d).writer with
    | ok u w =>
      rintro (⟨hr', hp', hn', hh'⟩ | _) hiff
      refine .ok (hiff.mp ⟨w, rfl⟩) { hp' with written := hn', holds := ?_ } (hre.trans hr')
      rwa [List.append_nil]
    | error f w =>
      rintro (_ | ⟨hr', hh'⟩) hiff
      exact .error (fun hx => by obtain ⟨_, hw'⟩ := hiff.mpr hx; cases hw') hh' (hre.trans hr')
  · rename_i hl
    exact .error (fun hx => hl (hroom.mp hx).1) hb.holds hre

end Firmware.Cache
