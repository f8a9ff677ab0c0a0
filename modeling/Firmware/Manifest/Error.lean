import Firmware.Cbor.Walk

namespace Firmware.Manifest

inductive Error where
  | malformed (e : Cbor.Error)
  | unsupportedVersion
  | capacityExceeded
  | unknownAlgorithm
  | unknownComponentType
  | unknownCommand
deriving DecidableEq, Repr

instance : Named Error where
  all := Named.all.map .malformed ++ [.unsupportedVersion, .capacityExceeded, .unknownAlgorithm,
    .unknownComponentType, .unknownCommand]
  name
    | .malformed e => "Malformed(" ++ Named.name e ++ ")"
    | .unsupportedVersion => "UnsupportedVersion"
    | .capacityExceeded => "CapacityExceeded"
    | .unknownAlgorithm => "UnknownAlgorithm"
    | .unknownComponentType => "UnknownComponentType"
    | .unknownCommand => "UnknownCommand"

def Error.wrongShape : Error := malformed .unexpectedType

def Error.badEncoding : Error := malformed .badEncoding

abbrev Decoder (α : Type) := Cbor.Decoder Error α

instance : MonadLift (Except Cbor.Error) (Except Error) := ⟨fun x => x.mapError .malformed⟩

instance : MonadLift Cbor.Reader Decoder := ⟨fun r s => (r s).mapError .malformed⟩

def append {α : Type} (capacity : Nat) (xs : List α) (x : α) : Decoder (List α) :=
  if xs.length < capacity then pure (xs ++ [x]) else throw .capacityExceeded

def Decoder.whole {α : Type} (d : Decoder α) (s : Bytes) : Except Error α := d.all .badEncoding s

end Firmware.Manifest
