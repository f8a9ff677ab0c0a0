import Firmware.Coded
import Firmware.Flash.Writer

/-!
Records: a region starts with a word that says what the rest of it holds. A region is erased before
it is written, so that an interrupted write leaves no old data behind a new word.
-/

namespace Firmware.Storage

open Flash

inductive Magic where
  | empty
  | flag
  | binary
deriving DecidableEq, Repr

instance : Coded Magic UInt32 where
  all := [.empty, .flag, .binary]
  code
    | .empty => 0xffffffff
    | .flag => 0x4c465553
    | .binary => 0x4e425553
  name
    | .empty => "Empty"
    | .flag => "Flag"
    | .binary => "Binary"

inductive Record where
  | empty
  | flag
  | binary (body : Bytes)
deriving DecidableEq

namespace Record

def headLen : Nat := 4

def magic? (b : Bytes) : Option Magic := (Bytes.word32? b).bind Coded.ofCode?

def decode (b : Bytes) : Option Record :=
  (magic? b).map fun
    | .empty => empty
    | .flag => flag
    | .binary => binary (b.drop headLen)

variable {δ : Type} [Flash δ]

/--
Checks a region against the units and the end of a device, and answers the write unit. What is
wrong with the region counts before the state of the device.
-/
def checkRegion (r : Region) (d : δ) : Except Failure Nat := do
  let unit := writeUnit d
  unless r.size ≠ 0 do throw .invalid
  unless unit ≠ 0 ∧ unit ≤ maxWriteUnit do throw .invalid
  unless unit ≤ r.size do throw .size
  unless isMultiple r.start (eraseUnit d) && isMultiple r.size (eraseUnit d) do throw .invalid
  let some stop := r.end? | throw .outOfBounds
  unless stop ≤ (← (size d).mapError Flash.Error.failure) do throw .outOfBounds
  unless isReady d do throw .notReady
  return unit

def eraseRegion (r : Region) : EStateM Failure δ Unit :=
  (erase r.start r.size).adaptExcept Flash.Error.failure

def clear (r : Region) : EStateM Failure δ Unit := do
  discard (checkRegion r (← get))
  eraseRegion r

def write (r : Region) (magic : Magic) (parts : List Bytes) : EStateM Failure δ Unit := do
  discard (checkRegion r (← get))
  unless parts.flatten.length ≤ r.size - headLen do throw .size
  eraseRegion r
  writing r do
    (Bytes.le32 (Coded.code magic) :: parts).forM Writer.write
    Writer.flush

def save (r : Region) (payload : Bytes) : EStateM Failure δ Unit := write r .binary [payload]

def saveFlag (r : Region) (value : UInt32) : EStateM Failure δ Unit :=
  write r .flag [Bytes.le32 value]

/-- The record of a region. An erased and a corrupt region hold none. -/
def read (r : Region) (d : δ) : EStateM Failure Arena Record := do
  discard (checkRegion r d)
  let b ← (readDirect r.start r.size 1 d).adaptExcept Flash.Error.failure
  match decode b with
  | some empty | none => throw .notFound
  | some record => return record

def readBinary (r : Region) (d : δ) : EStateM Failure Arena Bytes := do
  match ← read r d with
  | binary body => return body
  | _ => throw .notFound

end Record

end Firmware.Storage
