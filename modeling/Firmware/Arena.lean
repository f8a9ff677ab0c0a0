import Firmware.Coded

/-!
Scratch memory that is handed out from the front of a buffer and taken back all at once. Numbers have no
upper bound here: what is not a length or an address any more is too large for every buffer.
-/

namespace Firmware

structure Arena where
  base : Nat
  room : Nat
  cursor : Nat
deriving DecidableEq

inductive OutOfMemory where
  | outOfMemory
deriving DecidableEq, Repr

instance : Named OutOfMemory := ⟨[.outOfMemory], fun _ => "OutOfMemory"⟩

namespace Arena

structure Block where
  address : Nat
  len : Nat
deriving DecidableEq

def ofBuffer (base room : Nat) : Arena := ⟨base, room, 0⟩

def ofSize (n : Nat) : Arena := ofBuffer 0x1000 n

def empty : Arena := ofSize 0

def addresses : Nat := 0x10000000000000000

/-- The next multiple of `align`, a power of two, or else the last address. -/
def alignUp (address align : Nat) : Nat :=
  let sum := address + (align - 1)
  if sum < addresses then sum - (sum &&& (align - 1)) else addresses - 1

def take (n : Nat) : EStateM OutOfMemory Arena Block := fun a =>
  if n = 0 ∨ a.cursor + n ≤ a.room then .ok ⟨a.base + a.cursor, n⟩ { a with cursor := a.cursor + n }
  else .error .outOfMemory a

/-- Hands out `n` bytes at a multiple of `align`, a power of two. Nothing is anywhere. -/
def allocate (n align : Nat) : EStateM OutOfMemory Arena Block := do
  if n = 0 then return ⟨align, 0⟩
  let a ← get
  discard (take (alignUp (a.base + a.cursor) align - (a.base + a.cursor)))
  take n

def stride (size align : Nat) : Nat := (size + align - 1) / align * align

def allocateItems (size align n : Nat) : EStateM OutOfMemory Arena Block := do
  unless stride size align * n < addresses do throw .outOfMemory
  let b ← allocate (stride size align * n) align
  unless b.len % size = 0 ∧ b.address % align = 0 do throw .outOfMemory
  return b

def reset (a : Arena) : Arena := { a with cursor := 0 }

end Arena

end Firmware
