import Firmware.Json
import Firmware.Processor.Basic

/-!
Configuration in JSON: how policies, regions, variable ranges and options are written, and what is
accepted in their place. Structures may also be given as arrays of their fields, and names of
enumerations as objects of one null. Members that mean nothing are skipped.
-/

namespace Firmware

open Flash Hash Manifest Storage

class Configured (α : Type) where
  render : α → String
  ofJson? : Json → Option α

namespace Configured

variable {α : Type}

def ofText? [Configured α] (text : String) : Option α := (Json.ofText? text).bind ofJson?

def quoted (s : String) : String := "\"" ++ s ++ "\""

def bracketed (left right : String) (parts : List String) : String :=
  left ++ String.intercalate "," parts ++ right

def renderMembers (ps : List (String × String)) : String :=
  bracketed "\x7b" "\x7d" (ps.map fun (k, v) => quoted k ++ ":" ++ v)

def member (name : String) (ps : List (Option String × Json)) : Option Json :=
  match ps.filter (·.1 == some name) with
  | [(_, v)] => some v
  | _ => none

def fields (names : List String) : Json → Option (List Json)
  | .object ps =>
    if ps.all (·.1.isSome) then names.mapM fun n => member n ps else none
  | .array xs => if xs.length = names.length then some xs else none
  | _ => none

def natBelow (bound : Nat) : Json → Option Nat
  | .number n => do
    let k ← n.toNat?
    if k < bound then some k else none
  | _ => none

def choice (lookup : String → Option α) : Json → Option α
  | .string s => s.bind lookup
  | .object [(k, .null)] => k.bind lookup
  | _ => none

instance : Configured Bool where
  render b := if b then "true" else "false"
  ofJson?
    | .bool b => some b
    | _ => none

instance : Configured UInt32 where
  render n := toString n.toNat
  ofJson? j := (natBelow 0x100000000 j).map UInt32.ofNat

instance : Configured Nat where
  render n := toString n
  ofJson? := natBelow 0x10000000000000000

instance : Configured Algorithm where
  render a := quoted a.name
  ofJson? := choice Named.ofName?

instance : Configured ComponentType where
  render c := quoted c.tag
  ofJson? := choice ComponentType.ofTag?

instance : Configured SignatureCheck where
  render c := quoted c.name
  ofJson? := choice Named.ofName?

instance : Configured Uuid where
  render u := bracketed "[" "]" (u.bytes.map fun b => toString b.toNat)
  ofJson?
    | .array xs => do Uuid.ofBytes? ((← xs.mapM (natBelow 0x100)).map UInt8.ofNat)
    | _ => none

/-- Access is written as a number, one bit for each kind. -/
instance : Configured Access where
  render a := toString a.bits
  ofJson? j := (natBelow 0x100 j).bind Access.ofBits?

instance : Configured Policy where
  render p := renderMembers
    [("downgrade_prevention", render p.downgradePrevention),
      ("independent_update", render p.independentUpdate),
      ("signature_check", render p.signatureCheck)]
  ofJson? j := do
    let [d, i, s] ← fields ["downgrade_prevention", "independent_update", "signature_check"] j | none
    return ⟨← ofJson? d, ← ofJson? i, ← ofJson? s⟩

instance : Configured VariableRange where
  render r := renderMembers
    [("base", render r.base), ("count", render r.count), ("access", render r.access)]
  ofJson? j := do
    let [b, c, a] ← fields ["base", "count", "access"] j | none
    return ⟨← ofJson? b, ← ofJson? c, ← ofJson? a⟩

instance : Configured VariableConfig where
  render c := renderMembers
    [("plat_volatile", render c.platform), ("mfst_volatile", render c.session),
      ("nvm", render c.nonVolatile)]
  ofJson? j := do
    let [p, s, n] ← fields ["plat_volatile", "mfst_volatile", "nvm"] j | none
    return ⟨← ofJson? p, ← ofJson? s, ← ofJson? n⟩

instance : Configured StreamOptions where
  render o := renderMembers
    [("inter_chunk_timeout_ms", render o.chunkTimeout),
      ("requesting_period_ms", render o.requestPeriod)]
  ofJson? j := do
    let [t, p] ← fields ["inter_chunk_timeout_ms", "requesting_period_ms"] j | none
    return ⟨← ofJson? t, ← ofJson? p⟩

instance : Configured Processor.Options where
  render o := renderMembers
    [("report_slot", render o.reportSlot), ("copy_chunk_len", render o.copyChunk),
      ("stream", render o.stream)]
  ofJson? j := do
    let [r, c, s] ← fields ["report_slot", "copy_chunk_len", "stream"] j | none
    return ⟨← ofJson? r, ← ofJson? c, ← ofJson? s⟩

/-- Containers inside the members of a region that mean nothing nest at most so many levels. -/
def maxDepth : Nat := 126

/-- Regions are objects only, and what they hold beside their fields is looked into. -/
instance : Configured Region where
  render r := renderMembers [("address", render r.address), ("len", render r.len)]
  ofJson?
    | .object ps =>
      if Json.pairsModest maxDepth ps then do
        return ⟨← ofJson? (← member "address" ps), ← ofJson? (← member "len" ps)⟩
      else none
    | _ => none

def normalize (α : Type) [Configured α] (text : String) : Option String :=
  (ofText? text : Option α).map render

def normalizeAs (kind : String) : String → Option String :=
  match kind with
  | "Options" => normalize Processor.Options
  | "StreamOptions" => normalize StreamOptions
  | "Config" => normalize VariableConfig
  | "Range" => normalize VariableRange
  | "Region" => normalize Region
  | "ManifestPolicy" => normalize Policy
  | "SignatureCheck" => normalize SignatureCheck
  | "ComponentType" => normalize ComponentType
  | "Algo" => normalize Algorithm
  | _ => normalize Uuid

end Configured

end Firmware
