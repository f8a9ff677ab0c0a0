import Firmware.Storage.Record
import Firmware.Uuid

namespace Firmware.Storage

open Flash

inductive Role where
  | secTop
  | secSdfw
  | secSysctrl
  | radRecovery
  | radLocal1
  | radLocal2
  | appRoot
  | appRecovery
  | appLocal1
  | appLocal2
  | appLocal3
deriving DecidableEq, Repr, Inhabited

instance : Coded Role UInt8 where
  all := [.secTop, .secSdfw, .secSysctrl, .radRecovery, .radLocal1, .radLocal2, .appRoot,
    .appRecovery, .appLocal1, .appLocal2, .appLocal3]
  code
    | .secTop => 0x10
    | .secSdfw => 0x11
    | .secSysctrl => 0x12
    | .radRecovery => 0x20
    | .radLocal1 => 0x21
    | .radLocal2 => 0x22
    | .appRoot => 0x30
    | .appRecovery => 0x31
    | .appLocal1 => 0x32
    | .appLocal2 => 0x33
    | .appLocal3 => 0x34
  name
    | .secTop => "SecTop"
    | .secSdfw => "SecSdfw"
    | .secSysctrl => "SecSysctrl"
    | .radRecovery => "RadRecovery"
    | .radLocal1 => "RadLocal1"
    | .radLocal2 => "RadLocal2"
    | .appRoot => "AppRoot"
    | .appRecovery => "AppRecovery"
    | .appLocal1 => "AppLocal1"
    | .appLocal2 => "AppLocal2"
    | .appLocal3 => "AppLocal3"

inductive SignatureCheck where
  | disabled
  | onUpdate
  | onUpdateAndBoot
deriving DecidableEq, Repr

namespace SignatureCheck

def all : List SignatureCheck := [disabled, onUpdate, onUpdateAndBoot]

def name : SignatureCheck → String
  | disabled => "Disabled"
  | onUpdate => "OnUpdate"
  | onUpdateAndBoot => "OnUpdateAndBoot"

instance : Named SignatureCheck := ⟨all, name⟩

end SignatureCheck

structure Policy where
  downgradePrevention : Bool
  independentUpdate : Bool
  signatureCheck : SignatureCheck
deriving DecidableEq

structure Slot where
  classId : Uuid
  role : Role
  region : Region
  policy : Policy
deriving DecidableEq

def maxVariables : Nat := 64

def digestLen : Nat := Hash.Algorithm.sha256.size

def flagLen : Nat := 8

structure Layout where
  manifests : List Slot
  flags : Region
  reports : List Region
  variableArea : Region
  variableBackup : Region
  variableCount : UInt32
  candidate : Region
deriving DecidableEq

namespace Layout

def regions (l : Layout) : List Region :=
  l.manifests.map Slot.region ++ l.reports ++
    [l.flags, l.variableArea, l.variableBackup, l.candidate]

def variableRecordLen (l : Layout) : Nat := Record.headLen + l.variableCount.toNat + digestLen

def checkRegions {δ : Type} [Flash δ] (d : δ) : List Region → Except Failure Unit
  | [] => .ok ()
  | r :: rs => do
    discard (Record.checkRegion r d)
    if rs.any r.overlaps then throw .invalid
    checkRegions d rs

def distinct {α : Type} [DecidableEq α] : List α → Bool
  | [] => true
  | a :: as => a ∉ as && distinct as

def validate {δ : Type} [Flash δ] (l : Layout) (d : δ) : Except Failure Unit := do
  checkRegions d l.regions
  unless distinct (l.manifests.map Slot.classId) do throw .invalid
  unless (roundUp flagLen (writeUnit d)).any (· ≤ l.flags.size) do throw .size
  unless l.variableCount.toNat ≤ maxVariables do throw .invalid
  unless l.variableRecordLen ≤ min l.variableArea.size l.variableBackup.size do throw .size

def slot (l : Layout) (c : Uuid) : Except Failure Slot :=
  match l.manifests.find? (·.classId = c) with
  | some s => .ok s
  | none => .error .notFound

def report (l : Layout) (i : Nat) : Except Failure Region :=
  match l.reports[i]? with
  | some r => .ok r
  | none => .error .outOfBounds

end Layout

end Firmware.Storage
