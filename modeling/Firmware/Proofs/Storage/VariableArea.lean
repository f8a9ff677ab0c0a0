import Firmware.Storage.VariableArea
import Firmware.Proofs.Storage.Layout

/-!
The copies of the variables on a device in memory. A region holds a copy if its bytes say so, and
writing a copy leaves the old one, the new one or none.
-/

namespace Firmware.Storage

open Flash Ram

namespace Layout

variable (H : Hash.Algorithm → Bytes → Bytes) (l : Layout)

def recordOf (x : Bytes) : Bytes := Record.bytes .binary [x, H .sha256 x]

def copyIn (b : Bytes) : Option Bytes :=
  let body := (b.take l.variableRecordLen).drop Record.headLen
  let x := body.take l.variableCount.toNat
  if Record.magic? b = some .binary ∧ H .sha256 x = body.drop l.variableCount.toNat then some x
  else none

def copy (r : Region) (d : Ram) : Option Bytes := l.copyIn H (image r d)

/-- The variables that count: the main copy, or else the backup. -/
def current (d : Ram) : Option Bytes := (l.copy H l.variableArea d).or (l.copy H l.variableBackup d)

structure Mirrored (x : Bytes) (d : Ram) : Prop where
  main : l.copy H l.variableArea d = some x
  backup : l.copy H l.variableBackup d = some x

/-- What the digests of arrays of `n` bytes have to tell apart. -/
structure Separates (H : Hash.Algorithm → Bytes → Bytes) (n : Nat) : Prop where
  length : ∀ x, x.length = n → (H .sha256 x).length = digestLen
  injective : ∀ x y, x.length = n → y.length = n → H .sha256 x = H .sha256 y → x = y
  ne_erased : ∀ x, x.length = n → H .sha256 x ≠ Bytes.erased digestLen

variable {H l} {r : Region} {d : Ram} {x y b : Bytes}

lemma magic?_take {n : Nat} (h : 4 ≤ n) : Record.magic? (b.take n) = Record.magic? b := by
  have hl : 4 ≤ (b.take n).length ↔ 4 ≤ b.length := by
    rw [List.length_take]
    omega
  simp only [Record.magic?, Bytes.word32?, hl, List.take_take, Nat.min_eq_left h]

lemma length_of_copyIn (hb : l.variableRecordLen ≤ b.length) (h : l.copyIn H b = some x) :
    x.length = l.variableCount.toNat := by
  simp only [copyIn] at h
  split at h
  · cases h
    simp only [variableRecordLen] at hb ⊢
    simp only [List.length_take, List.length_drop]
    omega
  · cases h

lemma digest_of_copyIn (h : l.copyIn H b = some x) :
    H .sha256 x = ((b.take l.variableRecordLen).drop Record.headLen).drop l.variableCount.toNat ∧
      x = ((b.take l.variableRecordLen).drop Record.headLen).take l.variableCount.toNat := by
  simp only [copyIn] at h
  split at h
  · rename_i hm
    cases h
    exact ⟨hm.2, rfl⟩
  · cases h

lemma magic?_recordOf (x s : Bytes) : Record.magic? (recordOf H x ++ s) = some .binary := by
  rw [recordOf, Record.bytes, List.append_assoc, Record.magic?, Bytes.word32?_le32]
  rfl

lemma length_recordOf (hd : (H .sha256 x).length = digestLen)
    (hx : x.length = l.variableCount.toNat) : (recordOf H x).length = l.variableRecordLen := by
  simp [recordOf, Record.bytes, hd, hx, variableRecordLen, Record.headLen]
  omega

lemma copyIn_recordOf (hd : (H .sha256 x).length = digestLen)
    (hx : x.length = l.variableCount.toNat) (n : Nat) :
    l.copyIn H (filled (recordOf H x) n) = some x := by
  have hl := length_recordOf hd hx
  have ht : (filled (recordOf H x) n).take l.variableRecordLen = recordOf H x := by
    rw [filled, ← hl, List.take_left]
  have hd : (recordOf H x).drop Record.headLen = x ++ H .sha256 x := by
    simp [recordOf, Record.bytes, Record.headLen, List.drop_append]
  have hm : Record.magic? (filled (recordOf H x) n) = some .binary := magic?_recordOf x _
  simp only [copyIn, ht, hd, hm, ← hx, List.take_left, List.drop_left, and_self, ↓reduceIte]

lemma copyIn_torn (hs : Separates H l.variableCount.toNat) (hx : x.length = l.variableCount.toNat)
    {p : Bytes} (hp : p <+: recordOf H x) {n : Nat} (hn : l.variableRecordLen ≤ n) :
    l.copyIn H (filled p n) = none ∨ l.copyIn H (filled p n) = some x := by
  cases hc : l.copyIn H (filled p n) with
  | none => exact .inl rfl
  | some y =>
    right
    have hy := length_of_copyIn (by rw [length_filled]; omega) hc
    obtain ⟨hd, hv⟩ := digest_of_copyIn hc
    have hh : Record.headLen = 4 := rfl
    have hlen : l.variableRecordLen = 4 + l.variableCount.toNat + digestLen := rfl
    rcases Nat.lt_or_ge (4 + l.variableCount.toNat) p.length with hk | hk
    · obtain ⟨t, ht⟩ := hp
      have hq : (p ++ t).take (4 + l.variableCount.toNat) =
          Bytes.le32 (Coded.code Magic.binary) ++ x := by
        have hf : (Bytes.le32 (Coded.code Magic.binary) ++ x).length =
            4 + l.variableCount.toNat := by simp [hx]
        rw [ht, recordOf, Record.bytes, List.flatten_cons, ← List.append_assoc, ← hf,
          List.take_left]
      rw [List.take_append_of_le_length (Nat.le_of_lt hk)] at hq
      rw [hv, hh, List.take_drop, List.take_take, Nat.min_eq_left (by omega), filled,
        List.take_append_of_le_length (Nat.le_of_lt hk), hq]
      rfl
    · refine absurd ?_ (hs.ne_erased y hy)
      rw [hd, List.drop_drop, hh, filled, List.drop_take, List.drop_append,
        List.drop_of_length_le hk, List.nil_append, Bytes.erased, List.drop_replicate,
        List.take_replicate, Bytes.erased]
      congr 1
      omega

end Layout

namespace Store

open Hash Layout

variable {H : Hash.Algorithm → Bytes → Bytes} {l : Layout}

lemma verify_run {x digest : Bytes} (hd : digest.length = digestLen) (s : Store Ram (Digester H)) :
    verify x digest s = .ok (decide (H .sha256 x = digest)) ⟨s.device, Digester.idle⟩ := by
  have hc : (do Engine.feed .sha256 [x]; Engine.compare digest : EStateM Hash.Error (Digester H) Unit)
      s.engine =
        if H .sha256 x = digest then .ok () Digester.idle else .error .mismatch Digester.idle := by
    have ha : Algorithm.sha256.size = digest.length := hd.symm
    change (do Digester.take digest.length >>= _ : EStateM Hash.Error (Digester H) Unit)
      ⟨some (.sha256, [] ++ x)⟩ = _
    rw [EStateM.bind_run, Digester.take]
    simp only [ha, ↓reduceIte, List.nil_append]
    split <;> rfl
  rw [verify, onEngine, onPart, hc]
  by_cases h : H .sha256 x = digest <;> simp [h]

lemma readCopy_run {r : Region} {s : Store Ram (Digester H)} (hr : Record.Checked r s.device)
    (hf : l.variableRecordLen ≤ r.size) :
    ∃ e, readCopy l r s =
      .ok ((l.copy H r s.device).map fun x => ⟨x, H .sha256 x⟩) ⟨s.device, e⟩ := by
  have hl : ((image r s.device).take l.variableRecordLen).length = l.variableRecordLen := by
    have := hr.inside
    rw [List.length_take, image, length_slice_of_le hr.inside, Nat.min_eq_left hf]
  have hm : Record.magic? ((image r s.device).take l.variableRecordLen) =
      Record.magic? (image r s.device) :=
    magic?_take (by simp only [Layout.variableRecordLen, Record.headLen]; omega)
  rw [readCopy, EStateM.bind_run, EStateM.get_run]
  dsimp only
  rw [EStateM.bind_run, hr.read_run hf]
  simp only [Except.mapError, EStateM.lift_run, hm]
  by_cases hb : Record.magic? (image r s.device) = some .binary
  · rw [if_pos hb, EStateM.bind_run, List.splitAt_eq, verify_run]
    · refine ⟨Digester.idle, ?_⟩
      simp only [copy, copyIn, hb, true_and, decide_eq_true_eq]
      split
      · rename_i hv
        simp [hv]
      · simp
    · rw [List.length_drop, List.length_drop, hl]
      simp only [Layout.variableRecordLen]
      omega
  · rw [if_neg hb]
    exact ⟨s.engine, by simp [copy, copyIn, hb]⟩

lemma writeCopy_cases (hs : Separates H l.variableCount.toNat) {x : Bytes}
    (hx : x.length = l.variableCount.toNat) {r : Region} (hf : l.variableRecordLen ≤ r.size)
    {s : Store Ram (Digester H)} (hr : Record.Checked r s.device)
    (hu : s.device.writeUnit ∣ s.device.eraseUnit) :
    ∃ d, s.device.Alike d ∧ (∀ r', r.Apart r' → l.copy H r' d = l.copy H r' s.device) ∧
      ((writeCopy r ⟨x, H .sha256 x⟩ s = .ok () ⟨d, s.engine⟩ ∧ l.copy H r d = some x) ∨
        ∃ e, writeCopy r ⟨x, H .sha256 x⟩ s = .error e ⟨d, s.engine⟩ ∧
          (∃ k, s.device.faulty k = true) ∧
          (l.copy H r d = l.copy H r s.device ∨ l.copy H r d = none ∨ l.copy H r d = some x)) := by
  have hw := Record.wrote_write (r := r) hu .binary [x, H .sha256 x]
  have hm := Record.follows_write r .binary [x, H .sha256 x] s.device
  change Record.Wrote r (recordOf H x) _ _ at hw
  have ha {r' : Region} {d : Ram} (hm : Reach (·.Inside r) s.device d) (h : r.Apart r') :
      l.copy H r' d = l.copy H r' s.device := congrArg (l.copyIn H) (image_of_reach hm h)
  rw [writeCopy, onDevice, onPart]
  cases hd : Record.write r .binary [x, H .sha256 x] s.device with
  | ok a d =>
    rw [hd] at hw hm
    refine ⟨d, alike_of_reach hm, fun _ => ha hm, .inl ⟨rfl, ?_⟩⟩
    cases hw with
    | ok hi => rw [copy, hi, copyIn_recordOf (hs.length x hx) hx]
  | error e d =>
    rw [hd] at hw hm
    refine ⟨d, alike_of_reach hm, fun _ => ha hm, .inr ⟨e, rfl, ?_⟩⟩
    cases hw with
    | error hi he =>
      constructor
      · rcases he hr with hl | hk
        · rw [length_recordOf (hs.length x hx) hx] at hl
          omega
        · exact hk
      · rcases hi with hi | ⟨p, hp, hi⟩
        · exact .inl (by rw [copy, hi, copy])
        · exact .inr (by rw [copy, hi]; exact copyIn_torn hs hx hp hf)

lemma writeCopy_eq_ok {x : Bytes} (hd : (H .sha256 x).length = digestLen)
    (hx : x.length = l.variableCount.toNat) {r : Region} {s t : Store Ram (Digester H)}
    (h : writeCopy r ⟨x, H .sha256 x⟩ s = .ok () t) :
    s.device.Alike t.device ∧ l.copy H r t.device = some x ∧
      ∀ q, r.Apart q → l.copy H q t.device = l.copy H q s.device := by
  rw [writeCopy, onDevice] at h
  obtain ⟨d, hw, rfl⟩ := onPart_eq_ok h
  have hl := Record.leaves_write r .binary [x, H .sha256 x] s.device
  have hm := (Record.follows_write r .binary [x, H .sha256 x]).of_ok hw
  rw [hw] at hl
  obtain ⟨hi⟩ := hl
  refine ⟨alike_of_reach hm, ?_, fun q hq => congrArg (l.copyIn H) (image_of_reach hm hq)⟩
  rw [copy, hi.1]
  exact copyIn_recordOf hd hx r.size

end Store

end Firmware.Storage
