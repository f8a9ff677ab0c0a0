import Firmware.Hex

namespace Firmware

structure Uuid where
  bytes : Bytes
  size : bytes.length = 16
deriving DecidableEq

namespace Uuid

def ofBytes? (b : Bytes) : Option Uuid := if h : b.length = 16 then some ⟨b, h⟩ else none

def zero : Uuid := ⟨List.replicate 16 0, rfl⟩

instance : Inhabited Uuid := ⟨zero⟩

def display (u : Uuid) : String :=
  String.ofList <| (u.bytes.zipIdx.map fun (b, i) =>
    if i = 4 ∨ i = 6 ∨ i = 8 ∨ i = 10 then '-' :: Bytes.hexByte b else Bytes.hexByte b).flatten

def debug (u : Uuid) : String := "Uuid(" ++ u.display ++ ")"

@[simp] theorem ofBytes?_bytes (u : Uuid) : ofBytes? u.bytes = some u := by
  simp [ofBytes?, u.size]

theorem bytes_of_ofBytes? {b : Bytes} {u : Uuid} (h : ofBytes? b = some u) : u.bytes = b := by
  simp only [ofBytes?] at h
  split at h <;> simp_all
  exact h ▸ rfl

end Uuid

end Firmware
