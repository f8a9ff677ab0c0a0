import Firmware.Flash.Device

/-!
Writing into a region from its start. Bytes are staged until they fill a write unit; the last unit is
filled up with ones when the writer is flushed.
-/

namespace Firmware.Flash

def maxWriteUnit : Nat := 16

structure Writer (δ : Type) where
  device : δ
  region : Region
  unit : Nat
  offset : Nat
  /-- Fewer bytes than a unit, or a whole unit that could not be programmed. -/
  staged : Bytes

namespace Writer

variable {δ : Type} [Flash δ]

def start (r : Region) (d : δ) : Except Failure (Writer δ) :=
  if writeUnit d = 0 ∨ maxWriteUnit < writeUnit d then .error .invalid
  else .ok ⟨d, r, writeUnit d, 0, []⟩

def position (w : Writer δ) : Nat := w.offset + w.staged.length

def onDevice (f : EStateM Flash.Error δ Unit) : EStateM Failure (Writer δ) Unit :=
  onPart device (fun w d => { w with device := d }) (f.adaptExcept Flash.Error.failure)

/-- Programs bytes that are taken to be `n`. -/
def programUnits (n : Nat) (data : Bytes) : EStateM Failure (Writer δ) Unit := do
  let w ← get
  unless w.offset + n ≤ w.region.size do throw .size
  onDevice (program (w.region.start + w.offset) data)
  modify fun w => { w with offset := w.offset + n }

/-- Programs the units that `data` fills and stages the rest. Nothing must be staged before. -/
def writeUnits (data : Bytes) : EStateM Failure (Writer δ) Unit := do
  let n := data.length - data.length % (← get).unit
  -- Bytes are counted in 32 bits, so a longer slice is taken to be shorter than it is.
  if 0 < n then programUnits (n % 0x100000000) (data.take n)
  modify fun w => { w with staged := data.drop n }

def programStaged : EStateM Failure (Writer δ) Unit := do
  let w ← get
  let data := w.staged ++ Bytes.erased (w.unit - w.staged.length)
  programUnits data.length data
  modify fun w => { w with staged := [] }

def write (data : Bytes) : EStateM Failure (Writer δ) Unit := do
  let w ← get
  if w.staged.isEmpty then writeUnits data
  else
    let n := w.unit - w.staged.length
    set { w with staged := w.staged ++ data.take n }
    if n ≤ data.length then
      programStaged
      writeUnits (data.drop n)

def pad : EStateM Failure (Writer δ) Unit := do
  unless (← get).staged.isEmpty do programStaged

def seek (offset : Nat) : EStateM Failure (Writer δ) Unit := do
  let w ← get
  unless offset % w.unit = 0 do throw .invalid
  unless offset ≤ w.region.size do throw .outOfBounds
  pad
  modify fun w => { w with offset }

def flush : EStateM Failure (Writer δ) Unit := do
  pad
  onDevice Flash.flush

def erase : EStateM Failure (Writer δ) Unit := do
  modify fun w => { w with staged := [], offset := 0 }
  let r := (← get).region
  onDevice (Flash.erase r.start r.size)

end Writer

def writing {δ α : Type} [Flash δ] (r : Region) (f : EStateM Failure (Writer δ) α) :
    EStateM Failure δ α := fun d =>
  match Writer.start r d with
  | .error e => .error e d
  | .ok w =>
    match f w with
    | .ok a w => .ok a w.device
    | .error e w => .error e w.device

end Firmware.Flash
