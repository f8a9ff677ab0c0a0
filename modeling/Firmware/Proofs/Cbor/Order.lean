import Firmware.Cbor.Scalar
import Mathlib.Order.Defs.LinearOrder
import Mathlib.Order.Defs.Unbundled
import Mathlib.Tactic.Lemma

namespace Firmware.Cbor

instance : Std.TransCmp Integer.compare :=
  inferInstanceAs (Std.TransCmp (compareLex (compareOn Integer.negative) (compareOn Integer.argument)))

lemma Integer.eq_of_compare {a b : Integer} (h : a.compare b = .eq) : a = b := by
  obtain ⟨m, x⟩ := a
  obtain ⟨n, y⟩ := b
  obtain ⟨hm, hx⟩ := Ordering.then_eq_eq.mp h
  cases Std.LawfulEqOrd.eq_of_compare hm
  cases Std.LawfulEqOrd.eq_of_compare hx
  rfl

namespace Scalar

instance : Std.TransCmp compareBytes :=
  inferInstanceAs (Std.TransCmp (compareLex (compareOn List.length) compare))

lemma eq_of_compareBytes {a b : Bytes} (h : compareBytes a b = .eq) : a = b :=
  Std.LawfulEqOrd.eq_of_compare (Ordering.then_eq_eq.mp h).2

lemma compare_def (a b : Scalar) : compare a b = a.compare b := rfl

instance : Std.TransOrd Scalar where
  eq_swap {a b} := by
    cases a <;> cases b <;> simp only [compare_def, Scalar.compare, Ordering.swap_lt, Ordering.swap_gt,
      Ordering.swap_eq]
    all_goals exact Std.OrientedCmp.eq_swap
  isLE_trans {a b c} hab hbc := by
    cases a <;> cases b <;> cases c <;> simp only [compare_def, Scalar.compare] at hab hbc ⊢
    all_goals first | exact Std.TransCmp.isLE_trans hab hbc | contradiction | rfl

instance : Std.LawfulEqOrd Scalar where
  compare_self {a} := by
    cases a <;> simp only [compare_def, Scalar.compare]
    all_goals exact Std.ReflCmp.compare_self
  eq_of_compare {a b} h := by
    cases a <;> cases b <;> simp only [compare_def, Scalar.compare] at h
    all_goals try contradiction
    · exact congrArg int (Integer.eq_of_compare h)
    · rename_i t u
      obtain ⟨x, hx⟩ := t
      obtain ⟨y, hy⟩ := u
      cases eq_of_compareBytes h
      rfl
    · exact congrArg bytes (eq_of_compareBytes h)
    · exact congrArg bool (Std.LawfulEqOrd.eq_of_compare h)
    · rfl

variable {a b : Scalar}

lemma compare_eq_gt_iff : compare a b = .gt ↔ b < a := Std.OrientedCmp.gt_iff_lt

instance : IsStrictOrder Scalar (· < ·) where
  irrefl a h := by
    have hs : compare a a = .eq := Std.ReflCmp.compare_self
    cases hs.symm.trans h
  trans _ _ _ h h' := Std.TransCmp.lt_trans h h'

end Scalar

end Firmware.Cbor
