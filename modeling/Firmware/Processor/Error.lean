import Firmware.Failure
import Firmware.Manifest.Command

namespace Firmware.Processor

inductive Outcome where
  | success
  | malformed
  | platformFailure
  | unauthenticated
  | denied
  | conditionFailed
  | digestMismatch
  | badComponent
  | missingParameter
deriving DecidableEq, Repr, Inhabited

instance : Coded Outcome UInt16 where
  all := [.success, .malformed, .platformFailure, .unauthenticated, .denied, .conditionFailed,
    .digestMismatch, .badComponent, .missingParameter]
  code
    | .success => 0
    | .malformed => 1
    | .platformFailure => 2
    | .unauthenticated => 3
    | .denied => 4
    | .conditionFailed => 5
    | .digestMismatch => 6
    | .badComponent => 7
    | .missingParameter => 8
  name
    | .success => "Success"
    | .malformed => "Malformed"
    | .platformFailure => "PlatformFailure"
    | .unauthenticated => "Unauthenticated"
    | .denied => "Denied"
    | .conditionFailed => "ConditionFailed"
    | .digestMismatch => "DigestMismatch"
    | .badComponent => "BadComponent"
    | .missingParameter => "MissingParameter"

inductive Error where
  | manifest (e : Manifest.Error)
  | platform (e : Failure)
  | unauthenticated
  | denied
  | conditionFailed (c : Manifest.Condition)
  | digestMismatch
  | badComponent
  | missingParameter
deriving DecidableEq, Repr

namespace Error

instance : Named Error where
  all := Named.all.map manifest ++ Named.all.map platform ++ Named.all.map conditionFailed ++
    [unauthenticated, denied, digestMismatch, badComponent, missingParameter]
  name
    | manifest e => "Manifest(" ++ Named.name e ++ ")"
    | platform e => "Platform(" ++ e.name ++ ")"
    | unauthenticated => "Unauthenticated"
    | denied => "Denied"
    | conditionFailed c => "ConditionFailed(" ++ Named.name c ++ ")"
    | digestMismatch => "DigestMismatch"
    | badComponent => "BadComponent"
    | missingParameter => "MissingParameter"

def outcome : Error → Outcome
  | manifest _ => .malformed
  | platform _ => .platformFailure
  | unauthenticated => .unauthenticated
  | denied => .denied
  | conditionFailed _ => .conditionFailed
  | digestMismatch => .digestMismatch
  | badComponent => .badComponent
  | missingParameter => .missingParameter

end Error

def Outcome.ofResult {α : Type} : Except Error α → Outcome
  | .ok _ => .success
  | .error e => e.outcome

end Firmware.Processor
