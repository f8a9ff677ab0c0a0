import Firmware.Manifest.Error
import Firmware.Uuid

/-!
Component ids: an array of byte strings, of which the first wraps the name of the component's type.
-/

namespace Firmware.Manifest

open Cbor

inductive ComponentType where
  | memory
  | candidateImage
  | candidateManifest
  | installedManifest
  | socSpecific
  | cachePool
  | manifestVariable
deriving DecidableEq, Repr, Inhabited

namespace ComponentType

def all : List ComponentType :=
  [memory, candidateImage, candidateManifest, installedManifest, socSpecific, cachePool,
    manifestVariable]

def name : ComponentType → String
  | memory => "MEM"
  | candidateImage => "CAND_IMG"
  | candidateManifest => "CAND_MFST"
  | installedManifest => "INSTLD_MFST"
  | socSpecific => "SOC_SPEC"
  | cachePool => "CACHE_POOL"
  | manifestVariable => "MFST_VAR"

def tag : ComponentType → String
  | memory => "Mem"
  | candidateImage => "CandImg"
  | candidateManifest => "CandMfst"
  | installedManifest => "InstldMfst"
  | socSpecific => "SocSpec"
  | cachePool => "CachePool"
  | manifestVariable => "MfstVar"

instance : Named ComponentType := ⟨all, name⟩

def ofTag? (s : String) : Option ComponentType := all.find? (·.tag == s)

def ofText? (t : Text) : Option ComponentType := all.find? fun c => Bytes.ofString c.name == t.bytes

end ComponentType

def maxComponentParts : Nat := 4

structure ComponentId where
  type : ComponentType
  parts : List Bytes
deriving DecidableEq

namespace ComponentId

def display (c : ComponentId) : String :=
  String.intercalate "/" (c.type.name :: c.parts.map Bytes.toHex)

def part : Option ComponentId → Item → Decoder (Option ComponentId)
  | none, i => do
    let name ← (do (← Item.parse).toText : Reader Text).all .badEncoding (← i.toBytes)
    match ComponentType.ofText? name with
    | some type => return some ⟨type, []⟩
    | none => throw .unknownComponentType
  | some c, i => do
    return some { c with parts := ← append maxComponentParts c.parts (← i.toBytes) }

def parse (i : Item) : Decoder ComponentId := do
  match ← foldElements part (← i.arrayCount).toNat none with
  | some c => return c
  | none => throw .wrongShape

def word? (c : ComponentId) (i : Nat) : Option UInt32 := do
  let b ← c.parts[i]?
  ((do (← Item.parse).toUInt32 : Reader UInt32).all .badEncoding b).toOption

def uuid? (c : ComponentId) (i : Nat) : Option Uuid := c.parts[i]?.bind Uuid.ofBytes?

end ComponentId

end Firmware.Manifest
