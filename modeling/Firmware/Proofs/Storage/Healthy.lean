import Firmware.Proofs.Arena
import Firmware.Proofs.Storage.Installed
import Firmware.Proofs.Storage.Operations
import Firmware.Proofs.Storage.PowerLoss

namespace Firmware.Storage

open Flash Ram

variable {α : Type} {l : Layout} {d d' : Ram} {b : Bytes}

def found : Option α → Except Failure α
  | some a => .ok a
  | none => .error .notFound

/-- A device that the layout fits, without faults. -/
structure Working (l : Layout) (d : Ram) : Prop extends Store.Fit l d where
  faultless : ∀ k, d.faulty k = false

/-- A working device with room for a head in each region. -/
structure Healthy (l : Layout) (d : Ram) : Prop extends Working l d where
  heads : ∀ r ∈ l.regions, 8 ≤ r.size

lemma Working.of_alike (h : Working l d) (ha : d.Alike d') : Working l d' where
  toFit := h.of_shaped ha.toShaped
  faultless k := ha.faulty ▸ h.faultless k

lemma Healthy.of_alike (h : Healthy l d) (ha : d.Alike d') : Healthy l d' where
  toWorking := h.toWorking.of_alike ha
  heads := h.heads

section Records

def bodyIn (b : Bytes) : Option Bytes :=
  match Record.decode b with
  | some (.binary body) => some body
  | _ => none

def firstItem (b : Bytes) : Option Bytes := (Cbor.itemLength b).toOption.map b.take

lemma bodyIn_filled (parts : List Bytes) (n : Nat) :
    bodyIn (filled (Record.bytes .binary parts) n) = some (filled parts.flatten (n - Record.headLen)) := by
  rw [bodyIn, Record.decode_filled]

lemma bodyIn_erased {n : Nat} (h : Record.headLen ≤ n) : bodyIn (Bytes.erased n) = none := by
  rw [bodyIn, Record.decode_erased h]

lemma envelopeIn_eq (b : Bytes) : envelopeIn b = found ((bodyIn b).bind firstItem) := by
  rw [envelopeIn, bodyIn]
  cases Record.decode b with
  | none => rfl
  | some r =>
    cases r with
    | binary body =>
      dsimp only [Option.bind, firstItem]
      cases Cbor.itemLength body <;> rfl
    | _ => rfl

lemma readReport_answer {i : Nat} {r : Region} (hr : l.report i = .ok r) (h : Record.Checked r d)
    (a : Arena) : answer (readReport l i d a) = found (bodyIn (image r d)) := by
  have hi := h.readDirect_run a
  have hc := Record.checkRegion_eq_ok.mpr ⟨rfl, h⟩
  simp only [readReport, bodyIn]
  rw [hr]
  simp only [Record.readBinary, Record.read, EStateM.bind_run, EStateM.lift_run, hc, hi,
    EStateM.discard_run, EStateM.adaptExcept_run]
  cases Record.decode (image r d) with
  | none => rfl
  | some r => cases r <;> rfl

end Records

section Flags

lemma Layout.Valid.checked_flags (h : l.Valid d) : Record.Checked l.flags d :=
  h.checked _ (by simp [Layout.regions])

lemma Layout.Valid.flags_size (h : l.Valid d) : flagLen ≤ l.flags.size := by
  obtain ⟨n, hn, hs⟩ := (Option.any_eq_true _ _).mp h.flags
  exact Nat.le_trans (of_roundUp hn).1 (of_decide_eq_true hs)

def cell : Option Flag → Bytes
  | none => []
  | some f => Bytes.le32 (Coded.code Magic.flag) ++ Bytes.le32 (Coded.code f)

lemma decodeCell_cell {n : Nat} (hn : flagLen ≤ n) (f : Option Flag) :
    decodeCell ((filled (cell f) n).take flagLen) = .ok f := by
  cases f with
  | none =>
    rw [cell, filled_nil, Bytes.erased, List.take_replicate, Nat.min_eq_left hn]
    rfl
  | some f =>
    have hl : flagLen = (cell (some f)).length := rfl
    rw [filled, hl, List.take_left]
    cases f <;> rfl

lemma decodeCell_known {b : Bytes} (h : b = Bytes.erased flagLen ∨
    ∃ f : Flag, b = Bytes.le32 (Coded.code Magic.flag) ++ Bytes.le32 (Coded.code f)) :
    ∃ f, decodeCell b = .ok f := by
  rcases h with rfl | ⟨f, rfl⟩
  · exact ⟨none, rfl⟩
  · exact ⟨some f, by cases f <;> rfl⟩

lemma currentFlag_run (h : l.Valid d) :
    currentFlag l d = decodeCell ((image l.flags d).take flagLen) := by
  have hc := Record.checkRegion_eq_ok.mpr ⟨rfl, h.checked_flags⟩
  simp only [currentFlag, hc, h.checked_flags.read_run h.flags_size, Except.discard_ok,
    Except.ok_bind, Except.mapError]

lemma checkFlag_run (h : l.Valid d) {c : Option Flag}
    (hc : decodeCell ((image l.flags d).take flagLen) = .ok c) (f : Flag) :
    checkFlag l f d = if c = some f then .ok () else .error .notFound := by
  rw [checkFlag, (currentFlag_run h).trans hc, Except.ok_bind]
  split <;> rfl

lemma ends_cell {w : Writer Ram} (h : w.Holds []) (f : Option Flag) :
    Writer.Ends w.region w.device (cell f)
      (fun v => image w.region v.device = filled (cell f) w.region.size)
      ((do
        if let some f := f then
          Writer.write (Bytes.le32 (Coded.code Magic.flag) ++ Bytes.le32 (Coded.code f))
        Writer.flush : EStateM Failure (Writer Ram) Unit) w) := by
  cases f with
  | none => exact Writer.ends_flush h
  | some f =>
    have hc : (cell (some f)).length < 0x100000000 := by simp [cell]
    have hw := Writer.stops_write h.toAccepts (.inl hc)
    rw [List.nil_append] at hw
    have hs := hw.bind (Q := fun u => Flushed w.region (cell (some f)) u.device)
      (Writer.follows_write hc w) (List.prefix_refl _) fun v hm hv =>
        (Writer.stops_flush hv).mono fun u hu => hm.region ▸ hu.2
    have hf : Follows Writer.Moves (do Writer.write (cell (some f)); Writer.flush :
        EStateM Failure (Writer Ram) Unit) := .bind (Writer.follows_write hc) fun _ => Writer.follows_flush
    exact (hs.ends h.toSound (hf w)).mono fun u hu => hu.2.1

lemma writeFlag_healthy (h : Working l d) (f : Option Flag) :
    ∃ d', writeFlag l f d = .ok () d' ∧ image l.flags d' = filled (cell f) l.flags.size := by
  obtain ⟨e, he, hi⟩ := Record.clear_healthy h.valid.checked_flags h.faultless
  have ha : d.Alike e := alike_of_reach ((Record.follows_clear l.flags).of_ok he)
  have h' := h.of_alike ha
  have hw := h'.valid.checked_flags.holds h'.units hi
  have hl : (cell f).length ≤ l.flags.size := by
    refine Nat.le_trans ?_ h.valid.flags_size
    cases f with
    | none => exact Nat.zero_le _
    | some f => exact Nat.le_refl _
  rw [writeFlag, EStateM.bind_of_ok _ _ _ he]
  refine Record.writing_healthy h'.valid.checked_flags h'.faultless hl ?_
  exact ends_cell hw f

lemma setFlag_healthy (h : Working l d) {c : Option Flag}
    (hc : decodeCell ((image l.flags d).take flagLen) = .ok c) (f : Flag) :
    ∃ d', setFlag l f d = .ok () d' ∧
      decodeCell ((image l.flags d').take flagLen) = .ok (some f) := by
  rw [setFlag, EStateM.bind_run, EStateM.get_run]
  dsimp only
  rw [EStateM.bind_run, currentFlag_run h.valid, hc]
  by_cases he : c = some f
  · exact ⟨d, by simp [he], by rw [hc, he]⟩
  · obtain ⟨d', hd, hi⟩ := writeFlag_healthy h (some f)
    exact ⟨d', by simp [he, hd], by rw [hi, decodeCell_cell h.valid.flags_size]⟩

lemma clearFlag_healthy (h : Working l d) {c : Option Flag}
    (hc : decodeCell ((image l.flags d).take flagLen) = .ok c) (f : Flag) :
    ∃ d', clearFlag l f d = .ok () d' ∧
      decodeCell ((image l.flags d').take flagLen) = .ok (if c = some f then none else c) := by
  rw [clearFlag, EStateM.bind_run, EStateM.get_run]
  dsimp only
  rw [EStateM.bind_run, currentFlag_run h.valid, hc]
  by_cases he : c = some f
  · obtain ⟨d', hd, hi⟩ := writeFlag_healthy h none
    exact ⟨d', by simp [he, hd], by rw [hi, decodeCell_cell h.valid.flags_size, if_pos he]⟩
  · exact ⟨d, by simp [he], by rw [hc, if_neg he]⟩

end Flags

section Candidate

lemma Layout.Valid.checked_candidate (h : l.Valid d) : Record.Checked l.candidate d :=
  h.checked _ (by simp [Layout.regions])

lemma Healthy.candidate_size (h : Healthy l d) : 8 ≤ l.candidate.size :=
  h.heads _ (by simp [Layout.regions])

structure Roomy (a : Arena) : Prop where
  room : a.cursor + 67 ≤ a.room
  addresses : a.base + a.room ≤ Arena.addresses

lemma Roomy.allocate {a : Arena} (h : Roomy a) {n : Nat} (hn : n ≤ 64) :
    ∃ b a', Arena.allocate n 4 a = .ok b a' := by
  obtain ⟨hr, ha⟩ := h
  by_cases h0 : n = 0
  · subst h0
    exact ⟨_, a, Arena.allocate_zero 4 a⟩
  · obtain ⟨p, hp⟩ := Arena.exists_isNext 2 (a.base + a.cursor)
    have hlt : p < a.base + a.cursor + 4 := hp.lt_add
    exact ⟨_, _, Arena.allocate_of_le (k := 2) h0 ha hp (by omega)⟩

lemma Roomy.readItems {a : Arena} (h : Roomy a) (hd : d.ready = true) {i n : Nat} (hn : 8 * n ≤ 64)
    (hi : i + 8 * n ≤ d.contents.length) :
    ∃ a', (Flash.readItems 8 4 i n d : EStateM Flash.Error Arena (List Bytes)) a =
      .ok ((List.range n).map fun k => slice (slice d.contents i (8 * n)) (8 * k) 8) a' := by
  obtain ⟨a', ha⟩ : ∃ a', directSlice d.contents i (8 * n) 4 a = .ok (slice d.contents i (8 * n)) a' := by
    obtain ⟨p, a', hp⟩ := h.allocate hn
    simp only [directSlice, hi, ↓reduceIte]
    split
    · exact ⟨a, rfl⟩
    · rw [EStateM.bind_run, EStateM.discard_run, EStateM.adaptExcept_run, hp]
      exact ⟨a', rfl⟩
  refine ⟨a', ?_⟩
  have hl : 8 * n < 0x100000000 := by omega
  simp only [Flash.readItems, readDirect, hl, hd, Bool.not_true, Bool.false_eq_true, ↓reduceIte]
  rw [EStateM.bind_run, ha]
  rfl

def candidateParts (rs : List Region) : List Bytes :=
  [Bytes.le32 (UInt32.ofNat rs.length), rs.flatMap Region.encode]

lemma length_encode (rs : List Region) : (rs.flatMap Region.encode).length = 8 * rs.length := by
  induction rs with
  | nil => rfl
  | cons r rs ih =>
    have hr : r.encode.length = 8 := rfl
    rw [List.flatMap_cons, List.length_append, ih, List.length_cons, hr]
    omega

def candidateHead (n : Nat) : Bytes :=
  Bytes.le32 (Coded.code Magic.binary) ++ Bytes.le32 (UInt32.ofNat n)

lemma length_candidateHead (n : Nat) : (candidateHead n).length = 8 := rfl

lemma magic?_candidateHead (n : Nat) : Record.magic? (candidateHead n) = some .binary :=
  Record.magic?_le32 _ _

lemma word32?_candidateHead (n : Nat) :
    Bytes.word32? ((candidateHead n).drop 4) = some (UInt32.ofNat n) := by
  have hl : (Bytes.le32 (Coded.code Magic.binary)).length = 4 := rfl
  rw [candidateHead, ← hl, List.drop_left, ← List.append_nil (Bytes.le32 (UInt32.ofNat _)),
    Bytes.word32?_le32]

lemma flatten_candidateParts (rs : List Region) :
    (candidateParts rs).flatten = Bytes.le32 (UInt32.ofNat rs.length) ++ rs.flatMap Region.encode := by
  simp [candidateParts]

lemma length_candidateParts (rs : List Region) :
    (candidateParts rs).flatten.length = 4 + 8 * rs.length := by
  rw [flatten_candidateParts, List.length_append, Bytes.length_le32, length_encode]

lemma filled_candidate (rs : List Region) (n : Nat) :
    filled (Record.bytes .binary (candidateParts rs)) n = candidateHead rs.length ++
      (rs.flatMap Region.encode ++
        Bytes.erased (n - Record.headLen - (candidateParts rs).flatten.length)) := by
  rw [Record.filled_bytes, filled, flatten_candidateParts]
  simp only [candidateHead, List.append_assoc]

lemma slices_encode (rs : List Region) :
    ((List.range rs.length).map fun i => slice (rs.flatMap Region.encode) (8 * i) 8) =
      rs.map Region.encode := by
  induction rs with
  | nil => rfl
  | cons r rs ih =>
    have hr : r.encode.length = 8 := rfl
    rw [List.length_cons, List.range_succ_eq_map, List.map_cons, List.map_map, List.map_cons, ← ih,
      List.flatMap_cons]
    rfl

lemma setCandidate_run (rs : List Region) (d : Ram) :
    setCandidate l rs d =
      if rs.isEmpty then .error .invalid d
      else if rs.length ≤ maxCandidateRegions then Record.write l.candidate .binary (candidateParts rs) d
      else .error .size d := by
  rw [setCandidate]
  split
  · rfl
  · split <;> rfl

lemma candidate_run (h : Record.Checked l.candidate d) (hz : 8 ≤ l.candidate.size) (a : Arena) :
    candidate l d a =
      (let head := (image l.candidate d).take 8
      if Record.magic? head = some .binary then
        match (Bytes.word32? (head.drop 4)).map UInt32.toNat with
        | some n =>
          if 0 < n ∧ n ≤ maxCandidateRegions then
            (do
              let items ← (readItems 8 4 (l.candidate.start + 8) n d).adaptExcept Flash.Error.failure
              return items.filterMap Region.ofBytes? : EStateM Failure Arena (List Region)) a
          else .error .notFound a
        | none => .error .notFound a
      else .error .notFound a) := by
  have hc := Record.checkRegion_eq_ok.mpr ⟨rfl, h⟩
  rw [candidate, EStateM.bind_run, EStateM.discard_run, EStateM.lift_run, hc]
  dsimp only
  rw [EStateM.bind_run, h.read_run hz]
  simp only [Except.mapError, EStateM.lift_run]
  split
  · cases Bytes.word32? (((image l.candidate d).take 8).drop 4) with
    | none => rfl
    | some w =>
      dsimp only [Option.map]
      split <;> rfl
  · rfl

lemma candidate_erased (h : Healthy l d) (hi : image l.candidate d = Bytes.erased l.candidate.size)
    (a : Arena) : answer (candidate l d a) = .error .notFound := by
  have he : (image l.candidate d).take 8 = Bytes.erased 8 := by
    rw [hi, Bytes.erased, List.take_replicate, Nat.min_eq_left h.candidate_size]
    rfl
  rw [candidate_run h.valid.checked_candidate h.candidate_size, he]
  rfl

lemma candidate_filled (h : Record.Checked l.candidate d) {rs : List Region} (h0 : rs ≠ [])
    (hm : rs.length ≤ maxCandidateRegions)
    (hs : (candidateParts rs).flatten.length ≤ l.candidate.size - Record.headLen)
    (hi : image l.candidate d = filled (Record.bytes .binary (candidateParts rs)) l.candidate.size)
    {a : Arena} (ha : Roomy a) : answer (candidate l d a) = .ok rs := by
  rw [filled_candidate] at hi
  rw [length_candidateParts] at hs
  have hl := List.length_pos_iff.mpr h0
  have hx : maxCandidateRegions = 8 := rfl
  have hk : Record.headLen = 4 := rfl
  have hb := h.inside
  rw [Region.stop] at hb
  have hn : (UInt32.ofNat rs.length).toNat = rs.length := UInt32.toNat_ofNat_of_lt' (by
    change rs.length < 2 ^ 32
    omega)
  have ht : (image l.candidate d).take 8 = candidateHead rs.length := by
    rw [hi]
    exact List.take_left' rfl
  have hd : slice d.contents (l.candidate.start + 8) (8 * rs.length) = rs.flatMap Region.encode := by
    rw [← length_encode, ← slice_slice (b := l.candidate.start) (m := l.candidate.size) (by omega)
      (by rw [length_encode]; omega), Nat.add_sub_cancel_left]
    change slice (image l.candidate d) 8 _ = _
    rw [hi, slice, ← length_candidateHead rs.length, List.drop_left, List.take_left]
  obtain ⟨a', hq⟩ := ha.readItems h.ready (i := l.candidate.start + 8)
    (n := rs.length) (by omega) (by omega)
  have hp : 0 < rs.length ∧ rs.length ≤ maxCandidateRegions := ⟨hl, hm⟩
  rw [candidate_run h (by omega), ht]
  simp only [magic?_candidateHead, word32?_candidateHead, Option.map_some, hn, hp, ↓reduceIte, and_self]
  rw [EStateM.bind_run, EStateM.adaptExcept_run, hq, hd, slices_encode]
  refine congrArg Except.ok ?_
  have hf : Region.ofBytes? ∘ Region.encode = some := funext Region.ofBytes?_encode
  rw [List.filterMap_map, hf, List.filterMap_some]

inductive Lists (l : Layout) (d : Ram) : Option (List Region) → Prop
  | none : image l.candidate d = Bytes.erased l.candidate.size → Lists l d none
  | some {rs : List Region} : rs ≠ [] → rs.length ≤ maxCandidateRegions →
      (candidateParts rs).flatten.length ≤ l.candidate.size - Record.headLen →
      image l.candidate d = filled (Record.bytes .binary (candidateParts rs)) l.candidate.size →
      Lists l d (some rs)

lemma Lists.congr {c : Option (List Region)} (hc : Lists l d c)
    (hi : image l.candidate d' = image l.candidate d) : Lists l d' c := by
  cases hc with
  | none he => exact .none (hi.trans he)
  | some h0 hm hs he => exact .some h0 hm hs (hi.trans he)

lemma Lists.answer {c : Option (List Region)} (hc : Lists l d c) (h : Healthy l d) {a : Arena}
    (ha : Roomy a) : answer (candidate l d a) = found c := by
  cases hc with
  | none hi => exact candidate_erased h hi a
  | some h0 hm hs hi => exact candidate_filled h.valid.checked_candidate h0 hm hs hi ha

end Candidate

section Variables

open Hash Layout Store

variable {H : Hash.Algorithm → Bytes → Bytes} {s t : Store Ram (Digester H)} {x : Bytes}
  (hH : ∀ x, x.length = l.variableCount.toNat → (H .sha256 x).length = digestLen)
include hH

lemma writeCopy_healthy (h : Working l s.device) {r : Region} (hr : Record.Checked r s.device)
    (hz : l.variableRecordLen ≤ r.size) (hx : x.length = l.variableCount.toNat) :
    ∃ d', writeCopy r ⟨x, H .sha256 x⟩ s = .ok () ⟨d', s.engine⟩ ∧ s.device.Alike d' ∧
      l.copy H r d' = some x ∧ ∀ q, r.Apart q → l.copy H q d' = l.copy H q s.device := by
  have hl : Record.headLen + l.variableCount.toNat + digestLen ≤ r.size := hz
  have hp : [x, H .sha256 x].flatten.length = l.variableCount.toNat + digestLen := by
    simp [hx, hH x hx]
  rcases Record.write_healthy hr h.faultless h.units (by omega) .binary [x, H .sha256 x] with
    ⟨-, d', hd, hi⟩ | ⟨hn, -⟩
  · have hm := (Record.follows_write r .binary [x, H .sha256 x]).of_ok hd
    refine ⟨d', ?_, alike_of_reach hm, ?_, fun q hq => congrArg (l.copyIn H) (image_of_reach hm hq)⟩
    · rw [writeCopy, onDevice, onPart, hd]
    · rw [copy, hi]
      exact copyIn_recordOf (hH x hx) hx _
  · omega

lemma commit_healthy (h : Working l s.device) (hx : x.length = l.variableCount.toNat) :
    ∃ t, commit l x s = .ok () t ∧ l.copy H l.variableArea t.device = some x := by
  obtain ⟨d, hd, ha, hc, -⟩ := writeCopy_healthy (s := ⟨s.device, Digester.idle⟩) hH h
    h.valid.checked_area h.area hx
  have h' : Working l d := h.of_alike ha
  obtain ⟨e, he, -, -, ho⟩ := writeCopy_healthy (s := ⟨d, Digester.idle⟩) hH h'
    h'.valid.checked_backup h'.backup hx
  refine ⟨⟨e, Digester.idle⟩, ?_, (ho _ h.valid.area_apart_backup.symm).trans hc⟩
  rw [commit_run, EStateM.bind_of_ok _ _ _ hd, he]

end Variables

end Firmware.Storage
