import Firmware.Hash.Sha2

/-!
Hash engines. An engine holds at most one digest in the making; finishing it, comparing it and
giving it up all leave the engine idle.
-/

namespace Firmware.Hash

inductive Error where
  | wrongSize
  | idle
  | mismatch
  | unspecified
deriving DecidableEq, Repr, Inhabited

instance : Named Error where
  all := [.wrongSize, .idle, .mismatch, .unspecified]
  name
    | .wrongSize => "WrongSize"
    | .idle => "Idle"
    | .mismatch => "Mismatch"
    | .unspecified => "Unspecified"

class Engine (η : Type) where
  supports : Algorithm → η → Bool
  start : Algorithm → EStateM Error η Unit
  write : Bytes → EStateM Error η Unit
  finish : Nat → EStateM Error η Bytes
  compare : Bytes → EStateM Error η Unit
  abort : η → η

namespace Engine

variable {η : Type} [Engine η]

def feed (a : Algorithm) (parts : List Bytes) : EStateM Error η Unit := do
  start a
  parts.forM write

def contiguous (a : Algorithm) (data : Bytes) (n : Nat) : EStateM Error η Bytes := do
  feed a [data]
  finish n

end Engine

/-- An engine that never fails by itself, for a hash function `H`. It keeps what was written. -/
structure Digester (H : Algorithm → Bytes → Bytes) where
  running : Option (Algorithm × Bytes)

namespace Digester

variable {H : Algorithm → Bytes → Bytes}

def idle : Digester H := ⟨none⟩

instance : Inhabited (Digester H) := ⟨idle⟩

def take (n : Nat) : EStateM Error (Digester H) Bytes := fun e =>
  match e.running with
  | none => .error .idle e
  | some (a, data) => if a.size = n then .ok (H a data) idle else .error .wrongSize idle

instance : Engine (Digester H) where
  supports _ _ := true
  start a := set (⟨some (a, [])⟩ : Digester H)
  write data := fun e =>
    match e.running with
    | none => .error .idle e
    | some (a, written) => .ok () ⟨some (a, written ++ data)⟩
  finish := take
  compare expected := do
    unless (← take expected.length) = expected do throw .mismatch
  abort _ := idle

end Digester

abbrev Software := Digester digest

end Firmware.Hash
