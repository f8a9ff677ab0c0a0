import Firmware.Proofs.Cbor.Canonical
import Firmware.Proofs.Cbor.Order

/-!
The order of scalars against the order of their encodings, byte by byte. A head compares by major type,
then by argument, so that the two orders agree kind by kind. Between kinds they agree up to the places of
texts and byte strings, which have major types in the other order.
-/

namespace Firmware.Cbor

section Lexicographic

variable {k q r q' r' : Nat}

lemma compare_mul_add (hr : r < k) (hr' : r' < k) :
    compare (k * q + r) (k * q' + r') = (compare q q').then (compare r r') := by
  rcases lt_trichotomy q q' with h | rfl | h
  · have hk : k * q + k ≤ k * q' := Nat.mul_le_mul_left k h
    rw [Nat.compare_eq_lt.mpr h, Nat.compare_eq_lt.mpr (by omega)]
    rfl
  · rw [Nat.compare_eq_eq.mpr rfl, Ordering.eq_then]
    simp only [Nat.compare_eq_ite_lt, Nat.add_lt_add_iff_left]
  · have hk : k * q' + k ≤ k * q := Nat.mul_le_mul_left k h
    rw [Nat.compare_eq_gt.mpr h, Nat.compare_eq_gt.mpr (by omega)]
    rfl

lemma compare_byte (x y : UInt8) : compare x y = compare x.toNat y.toNat := by
  simp only [compare, compareOfLessAndEq, UInt8.lt_iff_toNat_lt, UInt8.toNat_inj]

lemma compare_word (x y : UInt32) : compare x y = compare x.toNat y.toNat := by
  simp only [compare, compareOfLessAndEq, UInt32.lt_iff_toNat_lt, UInt32.toNat_inj]

lemma compare_append {a b : Bytes} (h : a.length = b.length) (x y : Bytes) :
    compare (a ++ x) (b ++ y) = (compare a b).then (compare x y) := by
  induction a generalizing b with
  | nil =>
    cases List.length_eq_zero_iff.mp h.symm
    rfl
  | cons c a ih =>
    cases b with
    | nil => cases h
    | cons d b =>
      rw [List.cons_append, List.cons_append, List.compare_cons_cons, List.compare_cons_cons,
        ih (Nat.succ.inj h), Ordering.then_assoc]

lemma toNatLe_append (a b : Bytes) : (a ++ b).toNatLe = a.toNatLe + 0x100 ^ a.length * b.toNatLe := by
  induction a with
  | nil => simp [Bytes.toNatLe]
  | cons x a ih =>
    rw [List.cons_append, Bytes.toNatLe, Bytes.toNatLe, ih, List.length_cons, Nat.pow_succ', Nat.mul_add,
      Nat.mul_assoc, Nat.add_assoc]

lemma toNatBe_cons (x : UInt8) (b : Bytes) :
    Bytes.toNatBe (x :: b) = 0x100 ^ b.length * x.toNat + b.toNatBe := by
  rw [Bytes.toNatBe, List.reverse_cons, toNatLe_append, List.length_reverse, Nat.add_comm]
  simp [Bytes.toNatBe, Bytes.toNatLe]

lemma compare_toNatBe {a b : Bytes} (h : a.length = b.length) :
    compare a.toNatBe b.toNatBe = compare a b := by
  induction a generalizing b with
  | nil =>
    cases List.length_eq_zero_iff.mp h.symm
    rfl
  | cons x a ih =>
    cases b with
    | nil => cases h
    | cons y b =>
      have hl : a.length = b.length := Nat.succ.inj h
      have hb := toNatBe_lt b
      rw [← hl] at hb
      rw [toNatBe_cons, toNatBe_cons, ← hl, compare_mul_add (toNatBe_lt a) hb, ih hl,
        List.compare_cons_cons, compare_byte]

end Lexicographic

section Heads

variable {i j m n : Nat} {b c : Bytes}

lemma Argument.lt_of_lt (h : Argument i m b) (h' : Argument j n c) (hij : i < j) : m < n := by
  have hb := toNatBe_lt b
  cases h with
  | inline h => cases h' <;> omega
  | one hl | two hl | four hl =>
    rw [hl] at hb
    cases h' <;> omega

lemma Argument.compare_same (h : Argument i m b) (h' : Argument i n c) :
    b.length = c.length ∧ compare b c = compare m n := by
  cases h with
  | inline h =>
    cases h'
    all_goals first | exact ⟨rfl, (Nat.compare_eq_eq.mpr rfl).symm⟩ | omega
  | one hl | two hl | four hl =>
    cases h' with
    | inline h' => omega
    | _ hl' => exact ⟨hl.trans hl'.symm, (compare_toNatBe (hl.trans hl'.symm)).symm⟩

lemma Argument.compare (h : Argument i m b) (h' : Argument j n c) (x y : Bytes) :
    (compare i j).then (compare (b ++ x) (c ++ y)) = (compare m n).then (compare x y) := by
  rcases lt_trichotomy i j with hij | rfl | hij
  · rw [Nat.compare_eq_lt.mpr hij, Nat.compare_eq_lt.mpr (h.lt_of_lt h' hij)]
    rfl
  · obtain ⟨hl, hc⟩ := h.compare_same h'
    rw [Nat.compare_eq_eq.mpr rfl, Ordering.eq_then, compare_append hl, hc]
  · rw [Nat.compare_eq_gt.mpr hij, Nat.compare_eq_gt.mpr (h'.lt_of_lt h hij)]
    rfl

lemma Head.compare {major major' : Nat} (hm : major < 8) (hm' : major' < 8) (h : Head major m b)
    (h' : Head major' n c) (x y : Bytes) :
    compare (b ++ x) (c ++ y) =
      (compare major major').then ((compare m n).then (compare x y)) := by
  obtain ⟨ha⟩ := h
  obtain ⟨ha'⟩ := h'
  have hb {k i : Nat} (hk : k < 8) (hi : i < 32) : (UInt8.ofNat (32 * k + i)).toNat = 32 * k + i :=
    UInt8.toNat_ofNat_of_lt' (show 32 * k + i < 0x100 by omega)
  rw [List.cons_append, List.cons_append, List.compare_cons_cons, compare_byte, hb hm ha.lt.1,
    hb hm' ha'.lt.1, compare_mul_add ha.lt.1 ha'.lt.1, Ordering.then_assoc, ha.compare ha']

end Heads

namespace Scalar

def Crosses : Scalar → Scalar → Bool
  | text _, bytes _ | bytes _, text _ => true
  | _, _ => false

structure Spelling where
  major : Nat
  argument : Nat
  content : Bytes

def spelling : Scalar → Spelling
  | int i => ⟨if i.negative then 1 else 0, i.argument.toNat, []⟩
  | bytes b => ⟨2, b.length, b⟩
  | text t => ⟨3, t.length, t.bytes⟩
  | bool b => ⟨7, if b then 21 else 20, []⟩
  | null => ⟨7, 22, []⟩

variable {a b : Scalar}

lemma major_lt (a : Scalar) : a.spelling.major < 8 := by
  cases a with
  | int i =>
    simp only [spelling]
    split <;> decide
  | bytes | text | bool | null => exact Nat.le_of_ble_eq_true rfl

lemma head_encode (h : a.Fits) :
    ∃ x, Head a.spelling.major a.spelling.argument x ∧ a.encode = x ++ a.spelling.content := by
  have hs (info : Nat) (hi : info < 24) : Head 7 info [UInt8.ofNat (32 * 7 + info)] := .mk (.inline hi)
  cases a with
  | int i =>
    obtain ⟨negative, n⟩ := i
    cases negative with
    | false => exact ⟨_, head_encodeHead (show 0 < 8 by decide) n, (List.append_nil _).symm⟩
    | true => exact ⟨_, head_encodeHead (show 1 < 8 by decide) n, (List.append_nil _).symm⟩
  | bytes b => exact ⟨_, (head_length_iff (show 2 < 8 by decide)).mpr ⟨h, rfl⟩, rfl⟩
  | text t => exact ⟨_, (head_length_iff (show 3 < 8 by decide)).mpr ⟨h, rfl⟩, rfl⟩
  | bool b =>
    cases b with
    | false => exact ⟨_, hs 20 (by decide), rfl⟩
    | true => exact ⟨_, hs 21 (by decide), rfl⟩
  | null => exact ⟨_, hs 22 (by decide), rfl⟩

def Spelling.compare (s t : Spelling) : Ordering :=
  (Ord.compare s.major t.major).then
    ((Ord.compare s.argument t.argument).then (Ord.compare s.content t.content))

lemma compare_encode_eq (ha : a.Fits) (hb : b.Fits) :
    compare a.encode b.encode = a.spelling.compare b.spelling := by
  obtain ⟨x, hx, hax⟩ := head_encode ha
  obtain ⟨y, hy, hby⟩ := head_encode hb
  rw [hax, hby, hx.compare a.major_lt b.major_lt hy, Spelling.compare]

lemma compare_spelling_int (i j : Integer) : (int i).spelling.compare (int j).spelling = i.compare j := by
  obtain ⟨m, x⟩ := i
  obtain ⟨n, y⟩ := j
  cases m <;> cases n <;> simp [spelling, Spelling.compare, Integer.compare, compare_word] <;> rfl

lemma compare_spelling (a b : Scalar) :
    a.spelling.compare b.spelling = if a.Crosses b then (compare a b).swap else compare a b := by
  cases a with
  | int i =>
    cases b with
    | int j => exact compare_spelling_int i j
    | text | bytes | bool | null =>
      obtain ⟨m, x⟩ := i
      cases m <;> rfl
  | text t | bytes t =>
    cases b with
    | int j =>
      obtain ⟨n, y⟩ := j
      cases n <;> rfl
    | text | bytes | bool | null => rfl
  | bool p =>
    cases b with
    | int j =>
      obtain ⟨n, y⟩ := j
      cases n <;> rfl
    | bool q => cases p <;> cases q <;> rfl
    | text | bytes => rfl
    | null => cases p <;> rfl
  | null =>
    cases b with
    | int j =>
      obtain ⟨n, y⟩ := j
      cases n <;> rfl
    | bool q => cases q <;> rfl
    | text | bytes | null => rfl

lemma crosses_of_isKey (ha : a.isKey) (hb : b.isKey) : a.Crosses b = false := by
  cases a with
  | int | text =>
    cases b with
    | int | text => rfl
    | bytes | bool | null => cases hb
  | bytes | bool | null => cases ha

/-- Encodings compare byte by byte as their scalars do, and the other way round for a text and a byte
string: texts have the larger major type, but come first in the order. Of keys both orders are one. -/
theorem compare_encode (a b : Scalar) (ha : a.Fits) (hb : b.Fits) :
    (compare a.encode b.encode = if a.Crosses b then (compare a b).swap else compare a b) ∧
      (a.isKey → b.isKey → compare a.encode b.encode = compare a b) := by
  have h : compare a.encode b.encode = if a.Crosses b then (compare a b).swap else compare a b := by
    rw [compare_encode_eq ha hb, compare_spelling]
  refine ⟨h, fun hka hkb => ?_⟩
  rw [h, crosses_of_isKey hka hkb]
  rfl

theorem compare_encode_short :
    let z : Scalar := .text ⟨[0x7a], rfl⟩
    let aa : Scalar := .text ⟨[0x61, 0x61], rfl⟩
    z.Fits ∧ aa.Fits ∧ compare z aa = .lt ∧ compare z.encode aa.encode = .lt := by
  intro z aa
  have hz : z.Fits := show 1 < 0x100000000 by decide
  have haa : aa.Fits := show 2 < 0x100000000 by decide
  exact ⟨hz, haa, rfl, (compare_encode z aa hz haa).1⟩

/-- The text "a" comes before the byte string "b", but it is encoded as 61 61, and "b" as 41 62. -/
theorem compare_encode_crossing :
    let a : Scalar := .text ⟨[0x61], rfl⟩
    let b : Scalar := .bytes [0x62]
    a.Fits ∧ b.Fits ∧ compare a b = .lt ∧ compare a.encode b.encode = .gt := by
  intro a b
  have hf : 1 < 0x100000000 := by decide
  exact ⟨hf, hf, rfl, rfl⟩

end Scalar

end Firmware.Cbor
