import Firmware.Flash.Device

namespace Firmware.Flash

variable {δ : Type} [Flash δ]

/-- The frames of a window on `device`, the innermost first. -/
structure Window (δ : Type) where
  device : δ
  frames : List Region

namespace Window

def addressOf : List Region → Nat → Nat → Except Flash.Error Nat
  | [], offset, _ => .ok offset
  | r :: outer, offset, len =>
    if offset + len ≤ r.size ∧ r.start + offset < 0x100000000 then addressOf outer (r.start + offset) len
    else .error .outOfRange

def through {α : Type} (offset len : Nat) (f : Nat → EStateM Flash.Error δ α) :
    EStateM Flash.Error (Window δ) α := do
  let address ← addressOf (← get).frames offset len
  onPart device (fun w d => { w with device := d }) (f address)

instance : Flash (Window δ) where
  isReady w := isReady w.device
  size w :=
    match w.frames with
    | [] => size w.device
    | r :: _ => .ok r.size
  writeUnit w := writeUnit w.device
  eraseUnit w := eraseUnit w.device
  read offset len w := do read (← addressOf w.frames offset len) len w.device
  readDirect offset len align w := do
    readDirect (← addressOf w.frames offset len) len align w.device
  program offset data := through offset data.length fun address => program address data
  erase offset len := through offset len fun address => erase address len
  flush := onPart device (fun w d => { w with device := d }) flush

end Window

inductive Mutation where
  | program (address : Nat) (data : Bytes)
  | erase (address len : Nat)
  | flush
deriving DecidableEq

structure Entry where
  mutation : Mutation
  failure : Option Flash.Error
deriving DecidableEq

/-- A device with the calls that were to change it, oldest first. -/
structure Journaled (δ : Type) where
  device : δ
  entries : List Entry

namespace Journaled

def record (m : Mutation) (f : EStateM Flash.Error δ Unit) :
    EStateM Flash.Error (Journaled δ) Unit := fun j =>
  match f j.device with
  | .ok () d => .ok () ⟨d, j.entries ++ [⟨m, none⟩]⟩
  | .error e d => .error e ⟨d, j.entries ++ [⟨m, some e⟩]⟩

instance : Flash (Journaled δ) where
  isReady j := isReady j.device
  size j := size j.device
  writeUnit j := writeUnit j.device
  eraseUnit j := eraseUnit j.device
  read address len j := read address len j.device
  readDirect address len align j := readDirect address len align j.device
  program address data := record (.program address data) (program address data)
  erase address len := record (.erase address len) (erase address len)
  flush := record .flush flush

end Journaled

end Firmware.Flash
