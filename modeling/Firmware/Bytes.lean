namespace Firmware

abbrev Bytes := List UInt8

namespace Bytes

def erased (n : Nat) : Bytes := List.replicate n 0xff

def ofString (s : String) : Bytes := s.toUTF8.data.toList

/-- The longest runs of bytes of `b` that differ from those of `a`, with their places from `i` on. -/
def differences : Nat → Bytes → Bytes → List (Nat × Bytes)
  | i, x :: a, y :: b =>
    let later := differences (i + 1) a b
    if x = y then later
    else
      match later with
      | (k, run) :: rest => if k = i + 1 then (i, y :: run) :: rest else (i, [y]) :: later
      | [] => [(i, [y])]
  | _, _, _ => []

def le16 (n : UInt16) : Bytes := [UInt8.ofNat n.toNat, UInt8.ofNat (n.toNat / 0x100)]

def le32 (n : UInt32) : Bytes :=
  [UInt8.ofNat n.toNat, UInt8.ofNat (n.toNat / 0x100), UInt8.ofNat (n.toNat / 0x10000),
    UInt8.ofNat (n.toNat / 0x1000000)]

def be32 (n : UInt32) : Bytes := (le32 n).reverse

def toNatLe : Bytes → Nat
  | [] => 0
  | b :: r => b.toNat + 0x100 * toNatLe r

def toNatBe (b : Bytes) : Nat := toNatLe b.reverse

def word16? (b : Bytes) : Option UInt16 :=
  if 2 ≤ b.length then some (UInt16.ofNat (toNatLe (b.take 2))) else none

def word32? (b : Bytes) : Option UInt32 :=
  if 4 ≤ b.length then some (UInt32.ofNat (toNatLe (b.take 4))) else none

@[simp] theorem length_erased (n : Nat) : (erased n).length = n := List.length_replicate

@[simp] theorem length_le16 (n : UInt16) : (le16 n).length = 2 := rfl

@[simp] theorem length_le32 (n : UInt32) : (le32 n).length = 4 := rfl

@[simp] theorem length_be32 (n : UInt32) : (be32 n).length = 4 := rfl

theorem toNatLe_le16 (n : UInt16) : toNatLe (le16 n) = n.toNat := by
  have := n.toNat_lt
  simp [toNatLe, le16]
  omega

theorem toNatLe_le32 (n : UInt32) : toNatLe (le32 n) = n.toNat := by
  have := n.toNat_lt
  simp [toNatLe, le32]
  omega

theorem toNatBe_be32 (n : UInt32) : toNatBe (be32 n) = n.toNat := by
  simp [toNatBe, be32, toNatLe_le32]

theorem word16?_le16 (n : UInt16) (s : Bytes) : word16? (le16 n ++ s) = some n := by
  have h : (le16 n ++ s).take 2 = le16 n := by simp [le16]
  simp [word16?, h, toNatLe_le16]

theorem word32?_le32 (n : UInt32) (s : Bytes) : word32? (le32 n ++ s) = some n := by
  have h : (le32 n ++ s).take 4 = le32 n := by simp [le32]
  simp [word32?, h, toNatLe_le32]

end Bytes

end Firmware
