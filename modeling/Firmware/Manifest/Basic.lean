import Firmware.Manifest.Command

namespace Firmware

open Cbor Manifest

namespace Manifest

inductive SequenceKind where
  | validate
  | load
  | invoke
  | dependencyResolution
  | payloadFetch
  | install
deriving DecidableEq, Repr, Inhabited

namespace SequenceKind

def all : List SequenceKind :=
  [validate, load, invoke, dependencyResolution, payloadFetch, install]

instance : Coded SequenceKind UInt32 where
  all := all
  code
    | validate => 7
    | load => 8
    | invoke => 9
    | dependencyResolution => 15
    | payloadFetch => 16
    | install => 17
  name
    | validate => "Validate"
    | load => "Load"
    | invoke => "Invoke"
    | dependencyResolution => "DependencyResolution"
    | payloadFetch => "PayloadFetch"
    | install => "Install"

end SequenceKind

def supportedVersion : UInt32 := 1

end Manifest

structure Manifest where
  sequenceNumber : UInt32
  components : List ComponentId
  /-- The sequence that runs before every other. -/
  shared : Option Bytes
  componentId : Option ComponentId
  sequences : List (SequenceKind × Bytes)
deriving DecidableEq

namespace Manifest

def sequence? (m : Manifest) (k : SequenceKind) : Option Bytes := m.sequences.lookup k

def classId? (m : Manifest) : Option Uuid := do (← m.componentId).uuid? 0

open Parameters in
def parseCommon : Decoder (List ComponentId × Option Bytes) := do
  walk (m := Decoder) (← (← Item.parse).mapCount) do
    let ids ← match ← Walk.find? (key 2) with
      | some i => liftM (m := Decoder) do
        let next := fun ids i => do append maxComponents ids (← ComponentId.parse i)
        foldElements (m := Decoder) next (← i.arrayCount).toNat []
      | none => pure []
    return (ids, ← field 4 Item.toBytes)

open Parameters in
def parseMap : Decoder Manifest := do
  walk (m := Decoder) (← (← Item.parse).mapCount) do
    let version ← (← Walk.find (key 1)).toUInt32
    unless version = supportedVersion do throw .unsupportedVersion
    let sequenceNumber ← (← Walk.find (key 2)).toUInt32
    let (components, shared) ← match ← Walk.find? (key 3) with
      | some i => liftM (parseCommon.whole (← i.toBytes))
      | none => pure ([], none)
    let componentId ← match ← Walk.find? (key 5) with
      | some i => liftM (m := Decoder) do return some (← ComponentId.parse i)
      | none => pure none
    let sequences ← SequenceKind.all.filterMapM fun k => do
      return (← field (Coded.code k) Item.toBytes).map (k, ·)
    return { sequenceNumber, components, shared, componentId, sequences }

def parse : Decoder Manifest := do
  let m ← parseMap
  (m.shared.toList ++ m.sequences.map (·.2)).forM fun s =>
    (liftM (Sequence.check s) : Decoder Unit)
  return m

end Manifest

end Firmware
