import Firmware.Cbor.Walk

namespace Firmware.Cbor

variable {γ α : Type}

abbrev GatherT (γ : Type) := StateT Bytes (ExceptT Error (StateM (List γ)))

namespace GatherT

instance : MonadLift Reader (GatherT γ) where
  monadLift r s := ExceptT.mk (pure (r s))

def add (c : γ) : GatherT γ Unit := modifyThe (List γ) (· ++ [c])

def count : GatherT γ Nat := do return (← getThe (List γ)).length

def all (r : GatherT γ α) (s : Bytes) : Except Error α × List γ :=
  match (r s).run [] with
  | (.ok (a, []), cs) => (.ok a, cs)
  | (.ok (_, _ :: _), cs) => (.error .badEncoding, cs)
  | (.error e, cs) => (.error e, cs)

def rawItemsTo : Nat → GatherT Bytes Unit
  | 0 => pure ()
  | fuel + 1 => do
    unless (← getThe Bytes).isEmpty do
      add (← readRaw)
      rawItemsTo fuel

/-- Gathers the encodings of all items of `s`, each of which takes a byte at least. -/
def rawItems (s : Bytes) : Except Error Unit × List Bytes := (rawItemsTo s.length).all s

end GatherT

end Firmware.Cbor
