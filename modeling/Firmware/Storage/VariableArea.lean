import Firmware.Storage.Layout
import Firmware.Variables

/-!
Non-volatile variables of one byte. They are stored with their digest, and once more in a backup; a
copy counts only if its digest is right.
-/

namespace Firmware.Storage

open Flash

structure Store (δ η : Type) where
  device : δ
  engine : η

structure Image where
  values : Bytes
  digest : Bytes
deriving DecidableEq

inductive Repair where
  | intact
  | backupRefreshed
  | mainRestored
  | reinitialized
deriving DecidableEq, Repr

namespace Store

variable {δ η α : Type} [Flash δ] [Hash.Engine η]

def onDevice (f : EStateM Failure δ α) : EStateM Failure (Store δ η) α :=
  onPart device (fun s d => { s with device := d }) f

def onEngine (f : EStateM Hash.Error η α) : EStateM Hash.Error (Store δ η) α :=
  onPart engine (fun s e => { s with engine := e }) f

def verify (values digest : Bytes) : EStateM Failure (Store δ η) Bool := fun s =>
  match onEngine (do Hash.Engine.feed .sha256 [values]; Hash.Engine.compare digest) s with
  | .ok () s => .ok true s
  | .error .mismatch s => .ok false s
  | .error e s => .error e.failure s

def readCopy (l : Layout) (r : Region) : EStateM Failure (Store δ η) (Option Image) := do
  let b ← (read r.start l.variableRecordLen (← get).device).mapError Flash.Error.failure
  unless Record.magic? b = some .binary do return none
  let (values, digest) := (b.drop Record.headLen).splitAt l.variableCount.toNat
  return if ← verify values digest then some ⟨values, digest⟩ else none

def writeCopy (r : Region) (c : Image) : EStateM Failure (Store δ η) Unit :=
  onDevice (Record.write r .binary [c.values, c.digest])

def commit (l : Layout) (values : Bytes) : EStateM Failure (Store δ η) Unit := do
  let digest ← (onEngine (Hash.Engine.contiguous .sha256 values digestLen)).adaptExcept
    Hash.Error.failure
  writeCopy l.variableArea ⟨values, digest⟩
  writeCopy l.variableBackup ⟨values, digest⟩

/-- Makes both copies valid and equal. The main copy has precedence; without any, all is erased. -/
def repair (l : Layout) : EStateM Failure (Store δ η) Repair := do
  match ← readCopy l l.variableArea, ← readCopy l l.variableBackup with
  | some main, backup =>
    if backup.any (·.digest = main.digest) then return .intact
    writeCopy l.variableBackup main
    return .backupRefreshed
  | none, some backup =>
    writeCopy l.variableArea backup
    return .mainRestored
  | none, none =>
    commit l (Bytes.erased l.variableCount.toNat)
    return .reinitialized

def init (l : Layout) : EStateM Failure (Store δ η) Repair := do
  unless isReady (← get).device do throw .notReady
  l.validate (← get).device
  repair l

def checkIndex (l : Layout) (i : Nat) : Except Failure Unit :=
  if i < l.variableCount.toNat then .ok () else .error .outOfBounds

def getVariable (l : Layout) (i : Nat) : EStateM Failure (Store δ η) UInt8 := do
  checkIndex l i
  match ← readCopy l l.variableArea with
  | some c => return c.values.getD i 0xff
  | none =>
    match ← readCopy l l.variableBackup with
    | some c => return c.values.getD i 0xff
    | none => throw .authentication

/-- Sets a variable. The main copy has to be valid; a variable that has the value is left alone. -/
def setVariable (l : Layout) (i : Nat) (value : UInt8) : EStateM Failure (Store δ η) Unit := do
  checkIndex l i
  match ← readCopy l l.variableArea with
  | some c =>
    unless c.values.getD i 0xff = value do commit l (c.values.set i value)
  | none =>
    match ← readCopy l l.variableBackup with
    | some _ => throw .io
    | none => throw .authentication

def bytes (l : Layout) : ByteStore (Store δ η) where
  get := getVariable l
  set := setVariable l

end Store

end Firmware.Storage
