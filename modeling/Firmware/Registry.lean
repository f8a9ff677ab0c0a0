import Firmware.Processor.Report
import Firmware.Storage.Flags

namespace Firmware.Registry

def table (α : Type) {ω : Type} [Coded α ω] (toNat : ω → Nat) : List (String × Nat) :=
  (Named.all : List α).map fun a => (Named.name a, toNat (Coded.code a))

def tableOf : String → List (String × Nat)
  | "Condition" => table Manifest.Condition UInt32.toNat
  | "SequenceKind" => table Manifest.SequenceKind UInt32.toNat
  | "State" => table Processor.State UInt8.toNat
  | "Outcome" => table Processor.Outcome UInt16.toNat
  | "Role" => table Storage.Role UInt8.toNat
  | "Flag" => table Storage.Flag UInt32.toNat
  | "Magic" => table Storage.Magic UInt32.toNat
  | _ => []

end Firmware.Registry
