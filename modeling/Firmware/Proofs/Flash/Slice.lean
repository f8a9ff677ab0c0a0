import Firmware.Flash.Device
import Firmware.Proofs.Computation

namespace Firmware.Flash

open Ram

variable {x : Bytes} {a n : Nat} {f : Bytes → Bytes}

lemma length_slice (x : Bytes) (a n : Nat) : (slice x a n).length = min n (x.length - a) := by
  simp [slice]

lemma length_slice_of_le (h : a + n ≤ x.length) : (slice x a n).length = n := by
  rw [length_slice]
  omega

lemma getElem?_slice (x : Bytes) (a n i : Nat) :
    (slice x a n)[i]? = if i < n then x[a + i]? else none := by
  simp [slice, List.getElem?_take, List.getElem?_drop]

lemma slice_slice {b m : Nat} (hb : b ≤ a) (hm : a + n ≤ b + m) :
    slice (slice x b m) (a - b) n = slice x a n := by
  apply List.ext_getElem?
  intro i
  simp only [getElem?_slice]
  grind

lemma slice_add (x : Bytes) (a m n : Nat) : slice x a (m + n) = slice x a m ++ slice x (a + m) n := by
  rw [slice, List.take_add, List.drop_drop, slice, slice]

lemma take_slice {k : Nat} (h : k ≤ n) : (slice x a n).take k = slice x a k := by
  rw [slice, List.take_take, Nat.min_eq_left h, slice]

lemma drop_slice (x : Bytes) (a n k : Nat) : (slice x a n).drop k = slice x (a + k) (n - k) := by
  rw [slice, List.drop_take, List.drop_drop, slice]

lemma length_splice (ha : a + n ≤ x.length) (hf : (f (slice x a n)).length = n) :
    (splice x a n f).length = x.length := by
  simp only [splice, List.length_append, List.length_take, List.length_drop, hf]
  omega

lemma getElem?_splice (ha : a + n ≤ x.length) (hf : (f (slice x a n)).length = n) (i : Nat) :
    (splice x a n f)[i]? = if a ≤ i ∧ i < a + n then (f (slice x a n))[i - a]? else x[i]? := by
  simp only [splice, List.getElem?_append, List.getElem?_take, List.getElem?_drop,
    List.length_append, List.length_take, hf]
  grind

lemma slice_splice_of_disjoint (ha : a + n ≤ x.length) (hf : (f (slice x a n)).length = n)
    {b m : Nat} (h : a + n ≤ b ∨ b + m ≤ a) : slice (splice x a n f) b m = slice x b m := by
  apply List.ext_getElem?
  intro i
  simp only [getElem?_slice, getElem?_splice ha hf]
  grind

lemma slice_splice_of_inside (ha : a + n ≤ x.length) (hf : (f (slice x a n)).length = n)
    {b m : Nat} (hb : b ≤ a) (hm : a + n ≤ b + m) (hc : b + m ≤ x.length) :
    slice (splice x a n f) b m = splice (slice x b m) (a - b) n f := by
  have hs : slice (slice x b m) (a - b) n = slice x a n := slice_slice hb hm
  have hn : a - b + n ≤ (slice x b m).length := by
    rw [length_slice]
    omega
  apply List.ext_getElem?
  intro i
  rw [getElem?_slice, getElem?_splice ha hf, getElem?_splice hn (by rwa [hs]), hs, getElem?_slice]
  grind

end Firmware.Flash
