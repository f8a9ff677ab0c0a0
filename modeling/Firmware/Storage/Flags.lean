import Firmware.Storage.Layout

/-!
Boot flags. The flags share one cell at the start of their region, so at most one of them is set;
setting one replaces the other.
-/

namespace Firmware.Storage

open Flash

inductive Flag where
  | recovery
  | foregroundDfu
deriving DecidableEq, Repr, Inhabited

instance : Coded Flag UInt32 where
  all := [.recovery, .foregroundDfu]
  code
    | .recovery => 0x52564352
    | .foregroundDfu => 0x55464446
  name
    | .recovery => "Recovery"
    | .foregroundDfu => "ForegroundDfu"

/-- The flag in a cell. Only a cell that is erased as a whole is empty. -/
def decodeCell (b : Bytes) : Except Failure (Option Flag) :=
  match Record.magic? b, Bytes.word32? (b.drop 4) with
  | some .empty, some value => if value = 0xffffffff then .ok none else .error .internal
  | some .flag, some value =>
    match Coded.ofCode? value with
    | some f => .ok (some f)
    | none => .error .internal
  | _, _ => .error .internal

variable {δ : Type} [Flash δ] (l : Layout)

def currentFlag (d : δ) : Except Failure (Option Flag) := do
  discard (Record.checkRegion l.flags d)
  decodeCell (← (read l.flags.start flagLen d).mapError Flash.Error.failure)

def writeFlag (f : Option Flag) : EStateM Failure δ Unit := do
  Record.clear l.flags
  writing l.flags do
    if let some f := f then
      Writer.write (Bytes.le32 (Coded.code Magic.flag) ++ Bytes.le32 (Coded.code f))
    Writer.flush

def setFlag (f : Flag) : EStateM Failure δ Unit := do
  unless (← currentFlag l (← get)) = some f do writeFlag l (some f)

def clearFlag (f : Flag) : EStateM Failure δ Unit := do
  if (← currentFlag l (← get)) = some f then writeFlag l none

def checkFlag (f : Flag) (d : δ) : Except Failure Unit := do
  unless (← currentFlag l d) = some f do throw .notFound

end Firmware.Storage
