import Firmware.Manifest.Basic
import Firmware.Processor.Error

namespace Firmware.Processor

open Manifest

inductive State where
  | start
  | authenticate
  | authorize
  | validate
  | fetch
  | install
  | load
  | invoke
  | commit
  | done
deriving DecidableEq, Repr, Inhabited

namespace State

instance : Coded State UInt8 where
  all := [.start, .authenticate, .authorize, .validate, .fetch, .install, .load, .invoke, .commit,
    .done]
  code
    | .start => 0
    | .authenticate => 1
    | .authorize => 2
    | .validate => 3
    | .fetch => 4
    | .install => 5
    | .load => 6
    | .invoke => 7
    | .commit => 8
    | .done => 9
  name
    | .start => "Start"
    | .authenticate => "Authenticate"
    | .authorize => "Authorize"
    | .validate => "Validate"
    | .fetch => "Fetch"
    | .install => "Install"
    | .load => "Load"
    | .invoke => "Invoke"
    | .commit => "Commit"
    | .done => "Done"

def running : SequenceKind → State
  | .dependencyResolution | .payloadFetch => fetch
  | .install => install
  | .validate => validate
  | .load => load
  | .invoke => invoke

end State

inductive Mode where
  | validate
  | execute
deriving DecidableEq, Repr, Inhabited

instance : Coded Mode UInt8 where
  all := [.validate, .execute]
  code
    | .validate => 0
    | .execute => 1
  name
    | .validate => "Validate"
    | .execute => "Execute"

structure Report where
  outcome : Outcome
  state : State
  mode : Mode
  sequence : Option SequenceKind
  classId : Uuid
  sequenceNumber : UInt32
deriving DecidableEq

namespace Report

def initial : Report := ⟨.success, .start, .validate, none, .zero, 0⟩

def len : Nat := 32

def version : UInt8 := 1

def sequenceCode : Option SequenceKind → UInt32
  | none => 0
  | some k => Coded.code k

def sequenceOfCode? (c : UInt32) : Option (Option SequenceKind) :=
  if c = 0 then some none else (Coded.ofCode? c).map some

def encode (r : Report) : Bytes :=
  [version, Coded.code r.state, Coded.code r.mode, 0] ++ Bytes.le16 (Coded.code r.outcome) ++ [0, 0] ++
    Bytes.le32 (sequenceCode r.sequence) ++ Bytes.le32 r.sequenceNumber ++ r.classId.bytes

/-- Reads a report off the front of `b`. The zeros inside a report are not looked at. -/
def decode (b : Bytes) : Option Report := do
  let b := b.take len
  guard (b.head? = some version)
  return {
    outcome := ← Coded.ofCode? (← Bytes.word16? (b.drop 4))
    state := ← Coded.ofCode? (← b[1]?)
    mode := ← Coded.ofCode? (← b[2]?)
    sequence := ← sequenceOfCode? (← Bytes.word32? (b.drop 8))
    classId := ← Uuid.ofBytes? (b.drop 16)
    sequenceNumber := ← Bytes.word32? (b.drop 12) }

end Report

end Firmware.Processor
