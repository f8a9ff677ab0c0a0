import Firmware.Proofs.Cbor.Extent
import Mathlib.Algebra.Group.Nat.Defs

/-!
The grammar of items: up to some number of tags, a head in its shortest form, and what the head
announces. Tags and heads are read by it; whole items are in `Firmware.Proofs.Cbor.Reading`.
-/

namespace Firmware.Cbor

/-- The low five bits of an initial byte, the argument, and the bytes behind that hold it. A form is for
arguments that are too large for the forms before it. -/
inductive Argument : Nat → Nat → Bytes → Prop
  | inline {n : Nat} : n < 24 → Argument n n []
  | one {b : Bytes} : b.length = 1 → 24 ≤ b.toNatBe → Argument 24 b.toNatBe b
  | two {b : Bytes} : b.length = 2 → 0x100 ≤ b.toNatBe → Argument 25 b.toNatBe b
  | four {b : Bytes} : b.length = 4 → 0x10000 ≤ b.toNatBe → Argument 26 b.toNatBe b

/-- A major type and an argument, in the shortest form that holds the argument. -/
inductive Head (major n : Nat) : Bytes → Prop
  | mk {info : Nat} {b : Bytes} :
      Argument info n b → Head major n (UInt8.ofNat (32 * major + info) :: b)

inductive Tags : Nat → Bytes → Prop
  | nil {limit : Nat} : Tags limit []
  | cons {limit n : Nat} {t b : Bytes} : Head 6 n t → Tags limit b → Tags (limit + 1) (t ++ b)

/-- What stands before the parts of an item: all of a scalar, the head of an array or a map. -/
inductive Opening : Item → Bytes → Prop
  | unsigned {n : UInt32} {h : Bytes} : Head 0 n.toNat h → Opening (.scalar (.int ⟨false, n⟩)) h
  | negative {n : UInt32} {h : Bytes} : Head 1 n.toNat h → Opening (.scalar (.int ⟨true, n⟩)) h
  | bytes {x h : Bytes} : Head 2 x.length h → Opening (.scalar (.bytes x)) (h ++ x)
  | text {t : Text} {h : Bytes} : Head 3 t.length h → Opening (.scalar (.text t)) (h ++ t.bytes)
  | array {n : UInt32} {h : Bytes} : Head 4 n.toNat h → Opening (.array n) h
  | map {n : UInt32} {h : Bytes} : Head 5 n.toNat h → Opening (.map n) h
  | no : Opening (.scalar (.bool false)) [0xf4]
  | yes : Opening (.scalar (.bool true)) [0xf5]
  | null : Opening (.scalar .null) [0xf6]

open Decoder

lemma Decoder.bind_of_ok {ε α β : Type} {f : Decoder ε α} {g : α → Decoder ε β} {b t : Bytes} {a : α}
    (h : f b = .ok (a, t)) : (f >>= g) b = g a t := by
  change (f b >>= fun p => g p.1 p.2) = _
  rw [h]
  rfl

lemma Decoder.map_of_ok {ε α β : Type} {f : Decoder ε α} {g : α → β} {b t : Bytes} {a : α}
    (h : f b = .ok (a, t)) : (g <$> f) b = .ok (g a, t) :=
  bind_of_ok (g := fun a => pure (g a)) h

lemma Decoder.map_eq_ok {ε α β : Type} {f : Decoder ε α} {g : α → β} {b s : Bytes} {c : β} :
    (g <$> f) b = .ok (c, s) ↔ ∃ a, f b = .ok (a, s) ∧ g a = c := by
  change (f >>= fun a => pure (g a)) b = _ ↔ _
  rw [bind_eq_ok]
  constructor
  · rintro ⟨a, t, ha, h⟩
    cases h
    exact ⟨a, ha, rfl⟩
  · rintro ⟨a, ha, rfl⟩
    exact ⟨a, s, ha, rfl⟩

section Numbers

lemma toNatLe_lt (b : Bytes) : b.toNatLe < 0x100 ^ b.length := by
  induction b with
  | nil => simp [Bytes.toNatLe]
  | cons x b ih =>
    have hx := x.toNat_lt
    simp only [Bytes.toNatLe, List.length_cons, Nat.pow_succ]
    omega

lemma toNatBe_lt (b : Bytes) : b.toNatBe < 0x100 ^ b.length := by
  simpa [Bytes.toNatBe] using toNatLe_lt b.reverse

lemma toNatBe_singleton (x : UInt8) : Bytes.toNatBe [x] = x.toNat := by
  simp [Bytes.toNatBe, Bytes.toNatLe]

lemma toNatLe_inj {a b : Bytes} (hl : a.length = b.length) (h : a.toNatLe = b.toNatLe) : a = b := by
  induction a generalizing b with
  | nil => exact (List.length_eq_zero_iff.mp hl.symm).symm
  | cons x a ih =>
    cases b with
    | nil => cases hl
    | cons y b =>
      have hx := x.toNat_lt
      have hy := y.toNat_lt
      simp only [Bytes.toNatLe] at h
      rw [ih (Nat.succ.inj hl) (by omega), UInt8.toNat_inj.mp (show x.toNat = y.toNat by omega)]

lemma toNatBe_inj {a b : Bytes} (hl : a.length = b.length) (h : a.toNatBe = b.toNatBe) : a = b :=
  List.reverse_inj.mp (toNatLe_inj (by simpa using hl) h)

variable {info n : Nat} {b : Bytes}

lemma Argument.lt (h : Argument info n b) : info < 32 ∧ n < 0x100000000 := by
  have hb := toNatBe_lt b
  cases h with
  | inline h => omega
  | one hl | two hl | four hl =>
    rw [hl] at hb
    omega

lemma Head.lt {major : Nat} (h : Head major n b) : n < 0x100000000 := by
  cases h with
  | mk h => exact h.lt.2

lemma Argument.unique {info' : Nat} {c : Bytes} (h : Argument info n b) (h' : Argument info' n c) :
    info = info' ∧ b = c := by
  have hb := toNatBe_lt b
  cases h with
  | inline h =>
    cases h' with
    | inline => exact ⟨rfl, rfl⟩
    | one | two | four => omega
  | one hl h | two hl h | four hl h =>
    rw [hl] at hb
    have hc := toNatBe_lt c
    generalize hn : b.toNatBe = n at *
    cases h' with
    | inline h' => omega
    | one hl' h' | two hl' h' | four hl' h' =>
      rw [hl'] at hc
      first
      | exact ⟨rfl, toNatBe_inj (hl.trans hl'.symm) hn⟩
      | omega

lemma Head.unique {major : Nat} {c : Bytes} (h : Head major n b) (h' : Head major n c) : b = c := by
  cases h with
  | mk h =>
    cases h' with
    | mk h' =>
      obtain ⟨rfl, rfl⟩ := h.unique h'
      rfl

lemma head_encodeHead {major : Nat} (hm : major < 8) (n : UInt32) :
    Head major n.toNat (encodeHead (UInt8.ofNat major) n) := by
  have hi : ∀ m < 8, ∀ k < 32, UInt8.ofNat m <<< 5 ||| UInt8.ofNat k = UInt8.ofNat (32 * m + k) := by
    decide
  have hn := n.toNat_lt
  have hb : Bytes.toNatBe ((Bytes.be32 n).drop 2) = n.toNat % 0x10000 := by
    simp [Bytes.toNatBe, Bytes.be32, Bytes.le32, Bytes.toNatLe]
    omega
  simp only [encodeHead]
  by_cases h1 : n.toNat < 24
  · rw [if_pos h1, hi major hm n.toNat (by omega)]
    exact .mk (.inline h1)
  · rw [if_neg h1]
    by_cases h2 : n.toNat < 0x100
    · have hx : Bytes.toNatBe [UInt8.ofNat n.toNat] = n.toNat := by
        rw [toNatBe_singleton, UInt8.toNat_ofNat']
        omega
      have ha : Argument 24 n.toNat [UInt8.ofNat n.toNat] := by
        simpa only [hx] using Argument.one (b := [UInt8.ofNat n.toNat]) rfl (by omega)
      rw [if_pos h2]
      exact hi major hm 24 (by decide) ▸ .mk ha
    · rw [if_neg h2]
      by_cases h3 : n.toNat < 0x10000
      · rw [Nat.mod_eq_of_lt h3] at hb
        have ha : Argument 25 n.toNat ((Bytes.be32 n).drop 2) := by
          simpa only [hb] using Argument.two (b := (Bytes.be32 n).drop 2) rfl (by omega)
        rw [if_pos h3]
        exact hi major hm 25 (by decide) ▸ .mk ha
      · have h4 := Bytes.toNatBe_be32 n
        have ha : Argument 26 n.toNat (Bytes.be32 n) := by
          simpa only [h4] using Argument.four (b := Bytes.be32 n) rfl (by omega)
        rw [if_neg h3]
        exact hi major hm 26 (by decide) ▸ .mk ha

lemma head_iff {major : Nat} (hm : major < 8) {n : UInt32} :
    Head major n.toNat b ↔ b = encodeHead (UInt8.ofNat major) n := by
  constructor
  · exact fun h => h.unique (head_encodeHead hm n)
  · rintro rfl
    exact head_encodeHead hm n

lemma toNat_major (x : UInt8) : (x >>> 5).toNat = x.toNat / 32 := by
  simp [Nat.shiftRight_eq_div_pow]

lemma toNat_info (x : UInt8) : (x &&& 0x1f).toNat = x.toNat % 32 := by
  simpa using Nat.and_two_pow_sub_one_eq_mod x.toNat 5

lemma ofNat_initial (x : UInt8) :
    UInt8.ofNat (32 * (x >>> 5).toNat + (x &&& 0x1f).toNat) = x := by
  rw [toNat_major, toNat_info, Nat.div_add_mod, UInt8.ofNat_toNat]

end Numbers

lemma Reader.byte_eq_ok {b s : Bytes} {x : UInt8} : Reader.byte b = .ok (x, s) ↔ b = x :: s := by
  cases b with
  | nil => simp [Reader.byte]
  | cons y b => simp [Reader.byte]

lemma atLeast_eq_ok {low k : Nat} {n : UInt32} {b s : Bytes} :
    atLeast low k b = .ok (n, s) ↔ low ≤ k ∧ UInt32.ofNat k = n ∧ b = s := by
  simp only [atLeast]
  split
  · constructor
    · intro h
      cases h
    · rintro ⟨h, -⟩
      omega
  · constructor
    · intro h
      cases h
      exact ⟨by omega, rfl, rfl⟩
    · rintro ⟨-, rfl, rfl⟩
      rfl

lemma toNat_ofNat_of_argument {info n : Nat} {b : Bytes} (h : Argument info n b) :
    (UInt32.ofNat n).toNat = n := by
  rw [UInt32.toNat_ofNat']
  have := h.lt.2
  omega

lemma readArgument_eq_ok {info : UInt8} {n : UInt32} {b s : Bytes} :
    readArgument info b = .ok (n, s) ↔ ∃ r, b = r ++ s ∧ Argument info.toNat n.toNat r := by
  simp only [readArgument]
  generalize info.toNat = i
  constructor
  · intro h
    split at h
    · obtain ⟨x, t, hx, h⟩ := bind_eq_ok.mp h
      obtain ⟨hl, rfl, rfl⟩ := atLeast_eq_ok.mp h
      rw [← toNatBe_singleton] at hl ⊢
      have ha := Argument.one rfl hl
      rw [toNat_ofNat_of_argument ha]
      exact ⟨[x], Reader.byte_eq_ok.mp hx, ha⟩
    · obtain ⟨r, t, ht, h⟩ := bind_eq_ok.mp h
      obtain ⟨hl, rfl, rfl⟩ := atLeast_eq_ok.mp h
      obtain ⟨hr, rfl⟩ := Reader.take_eq_ok.mp ht
      have ha := Argument.two hr hl
      rw [toNat_ofNat_of_argument ha]
      exact ⟨r, rfl, ha⟩
    · obtain ⟨r, t, ht, h⟩ := bind_eq_ok.mp h
      obtain ⟨hl, rfl, rfl⟩ := atLeast_eq_ok.mp h
      obtain ⟨hr, rfl⟩ := Reader.take_eq_ok.mp ht
      have ha := Argument.four hr hl
      rw [toNat_ofNat_of_argument ha]
      exact ⟨r, rfl, ha⟩
    · split at h
      · rename_i hi
        cases h
        have ha := Argument.inline hi
        rw [toNat_ofNat_of_argument ha]
        exact ⟨[], rfl, ha⟩
      · cases h
  · rintro ⟨r, rfl, ha⟩
    generalize hn : n.toNat = k at ha
    have hk : UInt32.ofNat k = n := hn ▸ UInt32.ofNat_toNat
    cases ha with
    | inline hi =>
      split
      · omega
      · omega
      · omega
      · rw [if_pos hi, hk]
        rfl
    | one hr hl =>
      obtain ⟨x, rfl⟩ := List.length_eq_one_iff.mp hr
      rw [toNatBe_singleton] at hl hk
      exact bind_eq_ok.mpr ⟨x, s, rfl, atLeast_eq_ok.mpr ⟨hl, hk, rfl⟩⟩
    | two hr hl | four hr hl =>
      exact bind_eq_ok.mpr ⟨r, s, Reader.take_eq_ok.mpr ⟨hr, rfl⟩, atLeast_eq_ok.mpr ⟨hl, hk, rfl⟩⟩

lemma readText_eq_ok {n : Nat} {b s : Bytes} {t : Text} :
    readText n b = .ok (t, s) ↔ t.length = n ∧ b = t.bytes ++ s := by
  constructor
  · intro h
    obtain ⟨x, r, hx, hr⟩ := bind_eq_ok.mp h
    obtain ⟨hn, hb⟩ := Reader.take_eq_ok.mp hx
    cases ht : Text.ofBytes? x with
    | none =>
      rw [ht] at hr
      cases hr
    | some u =>
      rw [ht] at hr
      cases hr
      cases Text.bytes_of_ofBytes? ht
      exact ⟨hn, hb⟩
  · rintro ⟨rfl, rfl⟩
    refine bind_eq_ok.mpr ⟨t.bytes, s, Reader.take_eq_ok.mpr ⟨rfl, rfl⟩, ?_⟩
    rw [Text.ofBytes?_bytes]
    rfl

namespace Item

variable {b s : Bytes} {i : Item}

lemma simple_eq_ok {x : UInt8} {t : Scalar} (hx : x.toNat / 32 = 7)
    (h : simple (x &&& 0x1f) = .ok t) : Opening (.scalar t) [x] := by
  have hk (k : Nat) (h : x.toNat % 32 = k) : x = UInt8.ofNat (224 + k) := by
    rw [← UInt8.ofNat_toNat (x := x)]
    congr 1
    omega
  simp only [simple, toNat_info] at h
  split at h
  · rename_i h20
    cases h
    rw [hk 20 h20]
    exact .no
  · rename_i h21
    cases h
    rw [hk 21 h21]
    exact .yes
  · rename_i h22
    cases h
    rw [hk 22 h22]
    exact .null
  · cases h

lemma opening_of_ofHead {major : UInt8} {n : UInt32} {h : Bytes} (hm : major.toNat < 6)
    (hh : Head major.toNat n.toNat h) (ho : ofHead major n b = .ok (i, s)) :
    ∃ x, b = x ++ s ∧ Opening i (h ++ x) := by
  have hn : h = h ++ [] := (List.append_nil h).symm
  simp only [ofHead] at ho
  generalize major.toNat = m at hm hh ho
  obtain rfl | rfl | rfl | rfl | rfl | rfl :
    m = 0 ∨ m = 1 ∨ m = 2 ∨ m = 3 ∨ m = 4 ∨ m = 5 := by omega
  · cases ho
    exact ⟨[], rfl, hn ▸ .unsigned hh⟩
  · cases ho
    exact ⟨[], rfl, hn ▸ .negative hh⟩
  · obtain ⟨x, t, hx, ht⟩ := bind_eq_ok.mp ho
    obtain ⟨hl, hb⟩ := Reader.take_eq_ok.mp hx
    cases ht
    exact ⟨x, hb, .bytes (hl ▸ hh)⟩
  · obtain ⟨t, u, hr, hu⟩ := bind_eq_ok.mp ho
    obtain ⟨hl, hb⟩ := readText_eq_ok.mp hr
    cases hu
    exact ⟨t.bytes, hb, .text (hl ▸ hh)⟩
  · cases ho
    exact ⟨[], rfl, hn ▸ .array hh⟩
  · cases ho
    exact ⟨[], rfl, hn ▸ .map hh⟩

lemma untagged?_head {m : Nat} {n : UInt32} {h : Bytes} (hm : m < 7) (hh : Head m n.toNat h)
    (b : Bytes) : untagged? (h ++ b) =
      (if m = 6 then pure none else some <$> ofHead (UInt8.ofNat m) n : Reader (Option Item)) b := by
  cases hh with
  | @mk info r ha =>
    obtain ⟨hi, -⟩ := ha.lt
    generalize hx : UInt8.ofNat (32 * m + info) = x
    have hn : x.toNat = 32 * m + info := by
      rw [← hx, UInt8.toNat_ofNat']
      omega
    have hs : x >>> 5 = UInt8.ofNat m := by
      rw [← UInt8.toNat_inj, toNat_major, UInt8.toNat_ofNat', hn]
      omega
    have h7 : UInt8.ofNat m ≠ 7 := by
      simp only [ne_eq, ← UInt8.toNat_inj, UInt8.toNat_ofNat', UInt8.reduceToNat]
      omega
    have h6 : UInt8.ofNat m = 6 ↔ m = 6 := by
      simp only [← UInt8.toNat_inj, UInt8.toNat_ofNat', UInt8.reduceToNat]
      omega
    have hr : readArgument (x &&& 0x1f) (r ++ b) = .ok (n, b) := by
      refine readArgument_eq_ok.mpr ⟨r, rfl, ?_⟩
      rw [toNat_info, hn, Nat.mul_add_mod, Nat.mod_eq_of_lt hi]
      exact ha
    change (if x >>> 5 = 7 then _ else readArgument (x &&& 0x1f) >>= fun n =>
      if x >>> 5 = 6 then pure none else some <$> ofHead (x >>> 5) n : Reader (Option Item)) (r ++ b) = _
    rw [hs, if_neg h7, bind_of_ok hr]
    simp only [h6]

def Piece : Option Item → Bytes → Prop
  | some i, b => Opening i b
  | none, b => ∃ n, Head 6 n b

lemma piece_of_untagged? {o : Option Item} (h : untagged? b = .ok (o, s)) :
    ∃ x, b = x ++ s ∧ Piece o x := by
  obtain ⟨x, t, hx, h⟩ := bind_eq_ok.mp h
  have hb := Reader.byte_eq_ok.mp hx
  have hm := toNat_major x
  by_cases h7 : x >>> 5 = 7
  · rw [h7] at hm
    simp only [h7, ↓reduceIte] at h
    obtain ⟨i, u, hu, hs⟩ := bind_eq_ok.mp h
    obtain ⟨hi, ht⟩ := lift_eq_ok.mp hu
    cases hs
    exact ⟨[x], by simp [hb, ht], simple_eq_ok hm.symm hi⟩
  · simp only [h7, ↓reduceIte] at h
    obtain ⟨n, u, hn, h⟩ := bind_eq_ok.mp h
    obtain ⟨r, hr, ha⟩ := readArgument_eq_ok.mp hn
    have hh : Head (x >>> 5).toNat n.toNat _ := .mk ha
    rw [ofNat_initial] at hh
    by_cases h6 : x >>> 5 = 6
    · simp only [h6, ↓reduceIte] at h
      cases h
      rw [h6] at hh
      exact ⟨x :: r, by simp [hb, hr], n.toNat, hh⟩
    · simp only [h6, ↓reduceIte] at h
      obtain ⟨i, v, hi, h⟩ := bind_eq_ok.mp h
      cases h
      have hl : (x >>> 5).toNat < 6 := by
        simp only [← UInt8.toNat_inj, UInt8.reduceToNat] at h6 h7
        have hx := x.toNat_lt
        omega
      obtain ⟨y, hy, ho⟩ := opening_of_ofHead hl hh hi
      exact ⟨x :: r ++ y, by simp [hb, hr, hy], ho⟩

lemma untagged?_of_piece {o : Option Item} {x : Bytes} (h : Piece o x) (s : Bytes) :
    untagged? (x ++ s) = .ok (o, s) := by
  have hn {m n : Nat} {b : Bytes} (h : Head m n b) : ∃ k : UInt32, k.toNat = n :=
    ⟨UInt32.ofNat n, UInt32.toNat_ofNat_of_lt' h.lt⟩
  cases o with
  | none =>
    obtain ⟨n, h⟩ := h
    obtain ⟨k, rfl⟩ := hn h
    exact untagged?_head (by decide) h s
  | some i =>
    cases h with
    | unsigned h | negative h | array h | map h => exact untagged?_head (by decide) h s
    | @bytes x _ h =>
      obtain ⟨k, hk⟩ := hn h
      rw [List.append_assoc, untagged?_head (by decide) (hk ▸ h)]
      have ht : Reader.take k.toNat (x ++ s) = .ok (x, s) := Reader.take_eq_ok.mpr ⟨hk.symm, rfl⟩
      exact map_of_ok (bind_of_ok ht : ofHead 2 k (x ++ s) = .ok (.scalar (.bytes x), s))
    | @text t _ h =>
      obtain ⟨k, hk⟩ := hn h
      rw [List.append_assoc, untagged?_head (by decide) (hk ▸ h)]
      have ht : readText k.toNat (t.bytes ++ s) = .ok (t, s) := readText_eq_ok.mpr ⟨hk.symm, rfl⟩
      exact map_of_ok (bind_of_ok ht : ofHead 3 k (t.bytes ++ s) = .ok (.scalar (.text t), s))
    | no | yes | null => rfl

lemma untagged?_eq_ok {o : Option Item} :
    untagged? b = .ok (o, s) ↔ ∃ x, b = x ++ s ∧ Piece o x := by
  constructor
  · exact piece_of_untagged?
  · rintro ⟨x, rfl, h⟩
    exact untagged?_of_piece h s

lemma parseTagged_eq_ok {limit : Nat} :
    parseTagged limit b = .ok (i, s) ↔ ∃ t x, b = t ++ (x ++ s) ∧ Tags limit t ∧ Opening i x := by
  constructor
  · intro h
    induction limit generalizing b with
    | zero =>
      obtain ⟨o, u, ho, h⟩ := bind_eq_ok.mp h
      obtain ⟨x, hb, hx⟩ := untagged?_eq_ok.mp ho
      cases o with
      | none => cases h
      | some j =>
        cases h
        exact ⟨[], x, hb, .nil, hx⟩
    | succ limit ih =>
      obtain ⟨o, u, ho, h⟩ := bind_eq_ok.mp h
      obtain ⟨x, hb, hx⟩ := untagged?_eq_ok.mp ho
      cases o with
      | none =>
        obtain ⟨t, y, hu, ht, hy⟩ := ih h
        obtain ⟨n, hn⟩ := hx
        exact ⟨x ++ t, y, by rw [hb, hu, List.append_assoc], .cons hn ht, hy⟩
      | some j =>
        cases h
        exact ⟨[], x, hb, .nil, hx⟩
  · rintro ⟨t, x, rfl, ht, hx⟩
    have hu : untagged? (x ++ s) = .ok (some i, s) := untagged?_of_piece (o := some i) hx s
    induction ht with
    | @nil limit =>
      cases limit <;> exact bind_of_ok hu
    | @cons limit n h b hn ht ih =>
      rw [List.append_assoc]
      have ht : untagged? (h ++ (b ++ (x ++ s))) = .ok (none, b ++ (x ++ s)) :=
        untagged?_of_piece (o := none) ⟨n, hn⟩ _
      exact (bind_of_ok ht).trans ih

lemma parse_eq_ok :
    parse b = .ok (i, s) ↔ ∃ t x, b = t ++ (x ++ s) ∧ Tags maxTags t ∧ Opening i x :=
  parseTagged_eq_ok

end Item

end Firmware.Cbor
