import Firmware.Coded
import Firmware.Manifest.Component
import Firmware.Manifest.Digest

/-!
Commands and their arguments. A sequence is a flat array in which ids and arguments alternate.
-/

namespace Firmware.Manifest

open Cbor

inductive Condition where
  | vendorIdentifier
  | classIdentifier
  | imageMatch
  | componentSlot
  | checkContent
  | abort
  | deviceIdentifier
deriving DecidableEq, Repr

instance : Coded Condition UInt32 where
  all := [.vendorIdentifier, .classIdentifier, .imageMatch, .componentSlot, .checkContent, .abort,
    .deviceIdentifier]
  code
    | .vendorIdentifier => 1
    | .classIdentifier => 2
    | .imageMatch => 3
    | .componentSlot => 5
    | .checkContent => 6
    | .abort => 14
    | .deviceIdentifier => 24
  name
    | .vendorIdentifier => "VendorIdentifier"
    | .classIdentifier => "ClassIdentifier"
    | .imageMatch => "ImageMatch"
    | .componentSlot => "ComponentSlot"
    | .checkContent => "CheckContent"
    | .abort => "Abort"
    | .deviceIdentifier => "DeviceIdentifier"

inductive Directive where
  | setComponentIndex
  | tryEach
  | write
  | overrideParameters
  | fetch
  | copy
  | invoke
  | swap
  | runSequence
deriving DecidableEq, Repr

instance : Coded Directive UInt32 where
  all := [.setComponentIndex, .tryEach, .write, .overrideParameters, .fetch, .copy, .invoke, .swap,
    .runSequence]
  code
    | .setComponentIndex => 12
    | .tryEach => 15
    | .write => 18
    | .overrideParameters => 20
    | .fetch => 21
    | .copy => 22
    | .invoke => 23
    | .swap => 31
    | .runSequence => 32
  name
    | .setComponentIndex => "SetComponentIndex"
    | .tryEach => "TryEach"
    | .write => "Write"
    | .overrideParameters => "OverrideParameters"
    | .fetch => "Fetch"
    | .copy => "Copy"
    | .invoke => "Invoke"
    | .swap => "Swap"
    | .runSequence => "RunSequence"

def maxComponents : Nat := 8

def maxAlternatives : Nat := 8

inductive Index where
  | all
  | list (is : List UInt32)
deriving DecidableEq

/-- Refuses a list of more than `capacity` items, once it has been read. -/
def atMost {α : Type} (capacity : Nat) (xs : List α) : Decoder (List α) :=
  if xs.length ≤ capacity then pure xs else throw .capacityExceeded

def Index.parse : Item → Decoder Index
  | .scalar (.bool true) => return .all
  | .scalar (.int i) => do return .list [← i.toUInt32]
  | .array n => do
    let is ← foldElements (m := Decoder) (fun is i => do return is ++ [← i.toUInt32]) n.toNat []
    return .list (← atMost maxComponents is)
  | i => do
    i.ignore
    throw .wrongShape

structure Parameters where
  vendorId : Option Uuid := none
  classId : Option Uuid := none
  imageDigest : Option Digest := none
  componentSlot : Option UInt32 := none
  imageSize : Option UInt32 := none
  content : Option Bytes := none
  uri : Option Text := none
  sourceComponent : Option UInt32 := none
  deviceId : Option Uuid := none
deriving DecidableEq

instance : Inhabited Parameters := ⟨{}⟩

namespace Parameters

def key (n : UInt32) : Scalar := .int (.ofUInt32 n)

def field {α : Type} (n : UInt32) (f : Item → Except Cbor.Error α) : Walk Decoder (Option α) := do
  match ← Walk.find? (key n) with
  | some i => return some (← f i)
  | none => return none

def uuid (b : Bytes) : Decoder Uuid :=
  match Uuid.ofBytes? b with
  | some u => pure u
  | none => throw .wrongShape

/-- Reads the whole map first. Identifiers and the digest are looked into after that. -/
def parse (i : Item) : Decoder Parameters := do
  let (vendor, cls, digest, device, p) ← walk (m := Decoder) (← i.mapCount) do
    let vendor ← field 1 Item.toBytes
    let cls ← field 2 Item.toBytes
    let digest ← field 3 Item.toBytes
    let slot ← field 5 Item.toUInt32
    let size ← field 14 Item.toUInt32
    let content ← field 18 Item.toBytes
    let uri ← field 21 Item.toText
    let source ← field 22 Item.toUInt32
    let device ← field 24 Item.toBytes
    let p : Parameters :=
      { componentSlot := slot, imageSize := size, content, uri, sourceComponent := source }
    return (vendor, cls, digest, device, p)
  let vendorId ← vendor.mapM uuid
  let classId ← cls.mapM uuid
  let deviceId ← device.mapM uuid
  let imageDigest ← digest.mapM fun b => (liftM (Digest.ofBytes b) : Decoder Digest)
  return { p with vendorId, classId, deviceId, imageDigest }

def apply (p q : Parameters) : Parameters where
  vendorId := q.vendorId <|> p.vendorId
  classId := q.classId <|> p.classId
  imageDigest := q.imageDigest <|> p.imageDigest
  componentSlot := q.componentSlot <|> p.componentSlot
  imageSize := q.imageSize <|> p.imageSize
  content := q.content <|> p.content
  uri := q.uri <|> p.uri
  sourceComponent := q.sourceComponent <|> p.sourceComponent
  deviceId := q.deviceId <|> p.deviceId

end Parameters

inductive Command where
  | condition (c : Condition)
  | setComponentIndex (i : Index)
  /-- Runs the first alternative that gets through; `none` always does. -/
  | tryEach (alternatives : List (Option Bytes))
  | overrideParameters (p : Parameters)
  | write
  | fetch
  | copy
  | invoke
  | swap
  | runSequence (s : Bytes)
deriving DecidableEq

namespace Command

def alternative (as : List (Option Bytes)) : Item → Decoder (List (Option Bytes))
  | .scalar .null => return as ++ [none]
  | i => do return as ++ [some (← i.toBytes)]

def policy (i : Item) (c : Command) : Decoder Command := do
  discard (i.toUInt32 : Except Cbor.Error UInt32)
  return c

def ofDirective (argument : Item) : Directive → Decoder Command
  | .setComponentIndex => do return .setComponentIndex (← Index.parse argument)
  | .tryEach => do
    let as ← foldElements alternative (← argument.arrayCount).toNat []
    return .tryEach (← atMost maxAlternatives as)
  | .overrideParameters => do return .overrideParameters (← Parameters.parse argument)
  | .runSequence => do return .runSequence (← argument.toBytes)
  | .write => policy argument write
  | .fetch => policy argument fetch
  | .copy => policy argument copy
  | .invoke => policy argument invoke
  | .swap => policy argument swap

def parse : Decoder Command := do
  let id := (← (← Item.parse).toInteger).toUInt32.toOption
  let argument ← Item.parse
  match id.bind (Coded.ofCode? (α := Condition)), id.bind (Coded.ofCode? (α := Directive)) with
  | some c, _ => policy argument (condition c)
  | none, some d => ofDirective argument d
  | none, none => do
    argument.ignore
    throw .unknownCommand

end Command

/-- What decoding a sequence yields: commands, and the error that ended it early, if one did. -/
structure Sequence where
  commands : List Command
  failure : Option Error

namespace Sequence

def read : Nat → Bytes → Sequence
  | 0, [] => ⟨[], none⟩
  | 0, _ :: _ => ⟨[], some .badEncoding⟩
  | count + 1, s =>
    match Command.parse s with
    | .ok (c, s) =>
      let rest := read count s
      ⟨c :: rest.commands, rest.failure⟩
    | .error e => ⟨[], some e⟩

def decode (s : Bytes) : Except Error Sequence := do
  let (n, rest) ← (do return (← (← Item.parse).arrayCount) : Decoder UInt32) s
  if n.toNat % 2 = 0 then return read (n.toNat / 2) rest else throw .wrongShape

def parameters (s : Bytes) (p : Parameters) : Except Error Parameters := do
  let q ← decode s
  match q.failure with
  | some e => throw e
  | none => return q.commands.foldl (fun p c => match c with
    | .overrideParameters more => p.apply more
    | _ => p) p

/-- Sequences run inside sequences at most so many levels deep, counting the outermost. -/
def maxNesting : Nat := 4

def nested : Command → List Bytes
  | .tryEach as => as.filterMap id
  | .runSequence s => [s]
  | _ => []

def checkTo : Nat → Bytes → Except Error Unit
  | 0, _ => .error .capacityExceeded
  | levels + 1, s => do
    let q ← decode s
    q.commands.forM fun c => (nested c).forM (checkTo levels)
    match q.failure with
    | some e => .error e
    | none => .ok ()

def check (s : Bytes) : Except Error Unit := checkTo maxNesting s

end Sequence

end Firmware.Manifest
