import Firmware.Arena
import Firmware.Failure
import Firmware.Flash.Region
import Firmware.Part

/-!
Flash devices. Erasing sets whole erase units to ones, programming clears bits in whole write units.
-/

namespace Firmware

open Flash

class Flash (δ : Type) where
  isReady : δ → Bool
  size : δ → Except Flash.Error Nat
  writeUnit : δ → Nat
  eraseUnit : δ → Nat
  read (address len : Nat) : δ → Except Flash.Error Bytes
  /-- Reads in place if the address is aligned, and through the arena otherwise. -/
  readDirect (address len align : Nat) : δ → EStateM Flash.Error Arena Bytes
  program (address : Nat) (data : Bytes) : EStateM Flash.Error δ Unit
  erase (address len : Nat) : EStateM Flash.Error δ Unit
  flush : EStateM Flash.Error δ Unit

namespace Flash

def isMultiple (n unit : Nat) : Bool := unit ≠ 0 && n % unit = 0

def roundUp (n unit : Nat) : Option Nat :=
  if unit = 0 then none
  else if n % unit = 0 then some n
  else if n + (unit - n % unit) < 0x100000000 then some (n + (unit - n % unit)) else none

def slice (contents : Bytes) (address len : Nat) : Bytes := (contents.drop address).take len

def directSlice (contents : Bytes) (address len align : Nat) : EStateM Flash.Error Arena Bytes := do
  unless address + len ≤ contents.length do throw .outOfRange
  unless address % align = 0 do
    discard ((Arena.allocate len align).adaptExcept fun _ => .internal)
  return slice contents address len

def readItems {δ : Type} [Flash δ] (size align address n : Nat) (d : δ) :
    EStateM Flash.Error Arena (List Bytes) := do
  unless size * n < 0x100000000 do throw .outOfRange
  let b ← readDirect address (size * n) align d
  return (List.range n).map fun i => slice b (size * i) size

structure Ram where
  contents : Bytes
  writeUnit : Nat
  eraseUnit : Nat
  ready : Bool
  changes : Nat
  /-- How many changes have been begun, also those that failed. -/
  attempts : Nat
  faulty : Nat → Bool

namespace Ram

def ofBytes (contents : Bytes) (writeUnit eraseUnit : Nat) : Ram where
  contents
  writeUnit
  eraseUnit
  ready := true
  changes := 0
  attempts := 0
  faulty _ := false

def failAfter (n : Nat) (d : Ram) : Ram := { d with faulty := fun k => d.attempts + n ≤ k }

def healthy (d : Ram) : Ram := { d with faulty := fun _ => false }

def splice (contents : Bytes) (address len : Nat) (f : Bytes → Bytes) : Bytes :=
  contents.take address ++ f (slice contents address len) ++ contents.drop (address + len)

def overwrite (address : Nat) (data : Bytes) (d : Ram) : Ram :=
  { d with contents := splice d.contents address data.length fun _ => data }

def change (f : Bytes → Bytes) : EStateM Flash.Error Ram Unit := fun d =>
  if !d.ready then .error .notReady d
  else if d.faulty d.attempts then .error .unspecified { d with attempts := d.attempts + 1 }
  else .ok () { d with
    contents := f d.contents, attempts := d.attempts + 1, changes := d.changes + 1 }

instance : Flash Ram where
  isReady := ready
  size d := if d.contents.length < 0x100000000 then .ok d.contents.length else .error .unspecified
  writeUnit := writeUnit
  eraseUnit := eraseUnit
  read address len d :=
    if !d.ready then .error .notReady
    else if address + len ≤ d.contents.length then .ok (slice d.contents address len)
    else .error .outOfRange
  readDirect address len align d :=
    if !d.ready then throw .notReady else directSlice d.contents address len align
  program address data := do
    let d ← get
    unless address + data.length ≤ d.contents.length do throw .outOfRange
    unless isMultiple address d.writeUnit && isMultiple data.length d.writeUnit do throw .misaligned
    change fun b => splice b address data.length (List.zipWith (· &&& ·) · data)
  erase address len := do
    let d ← get
    unless address + len ≤ d.contents.length do throw .outOfRange
    unless isMultiple address d.eraseUnit && isMultiple len d.eraseUnit do throw .misaligned
    change fun b => splice b address len fun _ => Bytes.erased len
  flush := pure ()

end Ram

structure Rom where
  contents : Bytes

instance : Flash Rom where
  isReady _ := true
  size d := if d.contents.length < 0x100000000 then .ok d.contents.length else .error .unspecified
  writeUnit _ := 1
  eraseUnit _ := 1
  read address len d :=
    if address + len ≤ d.contents.length then .ok (slice d.contents address len)
    else .error .outOfRange
  readDirect address len align d := directSlice d.contents address len align
  program _ _ := throw .locked
  erase _ _ := throw .locked
  flush := pure ()

/-- A device that others may use too, so that nobody may change it. -/
structure Shared (δ : Type) where
  device : δ

instance {δ : Type} [Flash δ] : Flash (Shared δ) where
  isReady d := isReady d.device
  size d := size d.device
  writeUnit d := writeUnit d.device
  eraseUnit d := eraseUnit d.device
  read address len d := read address len d.device
  readDirect address len align d := readDirect address len align d.device
  program _ _ := throw .locked
  erase _ _ := throw .locked
  flush := throw .locked

end Flash

end Firmware
