import Firmware.Bytes

namespace Firmware.Flash

structure Region where
  address : UInt32
  len : UInt32
deriving DecidableEq

namespace Region

def start (r : Region) : Nat := r.address.toNat

def size (r : Region) : Nat := r.len.toNat

def stop (r : Region) : Nat := r.start + r.size

def end? (r : Region) : Option Nat := if r.stop < 0x100000000 then some r.stop else none

/-- Whether two regions share a byte. A region that wraps around is held to. -/
def overlaps (r s : Region) : Bool :=
  match r.end?, s.end? with
  | some a, some b => r.size ≠ 0 && s.size ≠ 0 && r.start < b && s.start < a
  | _, _ => true

def part? (r : Region) (offset len : Nat) : Option Region :=
  if offset + len ≤ r.size ∧ r.start + offset < 0x100000000 then
    some ⟨UInt32.ofNat (r.start + offset), UInt32.ofNat len⟩
  else none

def encode (r : Region) : Bytes := Bytes.le32 r.address ++ Bytes.le32 r.len

def ofBytes? (b : Bytes) : Option Region := do
  return ⟨← Bytes.word32? b, ← Bytes.word32? (b.drop 4)⟩

theorem ofBytes?_encode (r : Region) : ofBytes? r.encode = some r := by
  have h : (Bytes.le32 r.address ++ Bytes.le32 r.len).drop 4 = Bytes.le32 r.len := by
    simp [Bytes.le32]
  have := Bytes.word32?_le32 r.len []
  simp_all [ofBytes?, encode, Bytes.word32?_le32]

theorem overlaps_comm (r s : Region) : r.overlaps s = s.overlaps r := by
  simp only [overlaps]
  cases r.end? <;> cases s.end? <;> simp [Bool.and_comm, Bool.and_left_comm, Bool.and_assoc]

end Region

end Firmware.Flash
