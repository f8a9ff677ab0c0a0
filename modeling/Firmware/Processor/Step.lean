import Firmware.Processor.Basic

namespace Firmware.Processor

open Manifest Storage

inductive Target (H : Type) where
  | component (h : H)
  | variable (id : UInt32)

structure Member (H : Type) where
  id : ComponentId
  target : Target H
  parameters : Parameters

structure Run (π H δ η τ : Type) where
  processor : Processor π H δ η τ
  report : Report
  members : List (Member H)
  selected : List Nat
  digest : Option (DigestSink η)

namespace Run

variable {π H δ η τ α : Type}

abbrev Act (π H δ η τ α : Type) : Type := EStateM Error (Run π H δ η τ) α

def start (p : Processor π H δ η τ) : Run π H δ η τ := ⟨p, .initial, [], [], none⟩

def putProcessor (r : Run π H δ η τ) (p : Processor π H δ η τ) : Run π H δ η τ :=
  { r with processor := p }

def within (cause : Failure → Error) (f : EStateM Failure (Processor π H δ η τ) α) :
    Act π H δ η τ α :=
  onPart processor putProcessor (f.adaptExcept cause)

def log (e : Event H) : Act π H δ η τ Unit :=
  modify fun r => r.putProcessor (r.processor.log e)

def need : Option α → Act π H δ η τ α
  | some a => pure a
  | none => throw .missingParameter

def member (i : Nat) : Act π H δ η τ (Member H) := do
  match (← get).members[i]? with
  | some m => return m
  | none => throw .badComponent

def handle (m : Member H) : Act π H δ η τ H :=
  match m.target with
  | .component h => pure h
  | .variable _ => throw .badComponent

def pair (i : Nat) (m : Member H) : Act π H δ η τ (H × H) := do
  let j ← need m.parameters.sourceComponent
  if j.toNat = i then throw .badComponent
  let source ← member j.toNat
  return (← handle m, ← handle source)

section Digests

variable [Hash.Engine η]

def openDigest (d : Digest) : EStateM Failure (Run π H δ η τ) Unit := do
  let s ← onPart (fun r => r.processor.digests)
    (fun r p => r.putProcessor { r.processor with digests := p }) (DigestPool.get d.algorithm d.value)
  modify fun r => { r with digest := some s }

def closeDigest (r : Run π H δ η τ) : Run π H δ η τ :=
  match r.digest with
  | some s =>
    { r with
      processor := { r.processor with digests := r.processor.digests.release s }
      digest := none }
  | none => r

def withDigest (d : Option Digest) (f : Act π H δ η τ α) : Act π H δ η τ α := do
  if let some d := d then (openDigest d).adaptExcept .platform
  fun r =>
    match f r with
    | .ok a r => .ok a (closeDigest r)
    | .error e r => .error e (closeDigest r)

def hash (c : SinkCall) : EStateM Failure (Run π H δ η τ) Unit := fun r =>
  match r.digest with
  | some s => onPart (fun _ => s) (fun r s => { r with digest := some s }) (Sink.call c) r
  | none => .ok () r

def digestMatches : Act π H δ η τ Bool := fun r =>
  match r.digest with
  | some s =>
    onPart (fun _ => s) (fun r s => { r with digest := some s })
      (DigestSink.digestMatch.adaptExcept .platform) r
  | none => .ok true r

def checkDigest : Act π H δ η τ Unit := do
  unless ← digestMatches do throw .digestMismatch

end Digests

variable [Platform π H]

def ask (c : Call H) : Act π H δ η τ c.Reply := within .platform (Processor.ask c)

def authorize (h : H) (op : Operation) : Act π H δ η τ Unit :=
  within (fun _ => .denied) (Processor.ask (.checkOperation h op))

def sink (h : H) (c : SinkCall) : Act π H δ η τ Unit := do
  ask (.openSink h)
  ask (.sink h c)

def maxCopyChunk : Nat := 256

/-- Where a component without a known size must have ended. The last chunk before may be asked for whole. -/
def maxLength : Nat := 0xffffffff + maxCopyChunk

/-- Reads a component from `offset` up to `limit` or its end, and answers where that was. -/
def pump (chunk : Nat) (h : H) (write : Bytes → Act π H δ η τ Unit) (limit offset : Nat) :
    Act π H δ η τ Nat :=
  if min chunk (limit - offset) = 0 then pure offset
  else do
    let b ← ask (.read h offset (min chunk (limit - offset)))
    if _h : b.length ≤ min chunk (limit - offset) then
      if _h : 0 < b.length then
        write b
        pump chunk h write limit (offset + b.length)
      else return offset
    else throw (.platform .internal)
termination_by limit - offset

def readThrough (h : H) (size : Option UInt32) (write : Bytes → Act π H δ η τ Unit) :
    Act π H δ η τ Nat := do
  let chunk := min (max 1 (← get).processor.options.copyChunk) maxCopyChunk
  pump chunk h write ((size.map UInt32.toNat).getD maxLength) 0

variable [Flash δ] [Hash.Engine η] (mode : Mode)

def imageMatches (h : H) (d : Digest) (size : Option UInt32) : Act π H δ η τ Bool :=
  withDigest (some d) do
    let n ← readThrough h size fun b => (hash (.write b)).adaptExcept .platform
    if size.any fun s => s.toNat ≠ n then return false
    digestMatches

def access (id : UInt32) : Act π H δ η τ Access :=
  within .platform do (← get).vars.access id

def variableHolds (c : Condition) (id : UInt32) (p : Parameters) : Act π H δ η τ Bool := do
  unless c = .checkContent do throw .badComponent
  let content ← need p.content
  unless (← access id).read do throw .denied
  match mode with
  | .validate => return true
  | .execute => return content = Bytes.le32 (← within .platform (readVariable id))

/-- A condition on a component. Contents are not looked at before the run executes. -/
def componentHolds (c : Condition) (h : H) (p : Parameters) : Act π H δ η τ Bool := do
  match c with
  | .vendorIdentifier => ask (.checkVendor h (← need p.vendorId))
  | .classIdentifier => ask (.checkClass h (← need p.classId))
  | .deviceIdentifier => ask (.checkDevice (← need p.deviceId))
  | .componentSlot => ask (.checkSlot h (← need p.componentSlot))
  | .checkContent => do
    let content ← need p.content
    authorize h .read
    match mode with
    | .validate => return true
    | .execute => hasContent ask h content
  | .imageMatch => do
    let d ← need p.imageDigest
    authorize h .read
    match mode with
    | .validate => return true
    | .execute => imageMatches h d p.imageSize
  | .abort => return false

def holds (c : Condition) (m : Member H) : Act π H δ η τ Bool :=
  match m.target with
  | .variable id => variableHolds mode c id m.parameters
  | .component h => componentHolds mode c h m.parameters

def conclude (c : Condition) (b : Bool) : Act π H δ η τ Unit := do
  log (.condition c b)
  unless b do throw (.conditionFailed c)

def writeVariable (id : UInt32) (content : Bytes) : Act π H δ η τ Unit := do
  unless content.length = 4 do throw (.platform .size)
  unless (← access id).write do throw .denied
  match mode with
  | .validate => return
  | .execute =>
    within .platform (Processor.setVariable id (UInt32.ofNat (Bytes.toNatLe content)))

def writeComponent (h : H) (content : Bytes) : Act π H δ η τ Unit := do
  authorize h .write
  match mode with
  | .validate => return
  | .execute =>
    ask (.openSink h)
    ask (.sink h .erase)
    ask (.sink h (.write content))
    ask (.sink h .flush)

def write (m : Member H) : Act π H δ η τ Unit := do
  let content ← need m.parameters.content
  match m.target with
  | .component h => writeComponent mode h content
  | .variable id => writeVariable mode id content

def payloadFeed [Source τ] (ps : Payloads) (type : ComponentType) (uri : Text) (o : StreamOptions)
    (sources : List τ) : Feed (Except Failure Unit × List τ) := do
  match ← Source.stream ps uri o with
  | (.error .notFound, _) => Source.fetch uri type o 0 sources
  | (r, _) => return (r, sources)

def tee (h : H) (c : SinkCall) : EStateM Failure (Run π H δ η τ) Unit := do
  onPart processor putProcessor (Processor.ask (.sink h c))
  hash c

def streamInto [Source τ] (ps : Payloads) (type : ComponentType) (uri : Text) (h : H) :
    Act π H δ η τ Unit := fun r =>
  let p := r.processor
  let feed := payloadFeed ps type uri p.options.stream p.sources
  let observe := fun n (r : Run π H δ η τ) => r.putProcessor (r.processor.log (.note n))
  let ((result, sources), r) := feed.run (tee h) observe r
  let r := r.putProcessor { r.processor with sources }
  match result with
  | .ok () => .ok () r
  | .error e => .error (.platform e) r

def fetch [Source τ] (ps : Payloads) (m : Member H) : Act π H δ η τ Unit := do
  let uri ← need m.parameters.uri
  let h ← handle m
  authorize h .fetch
  match mode with
  | .validate => return
  | .execute =>
    withDigest m.parameters.imageDigest do
      sink h .erase
      streamInto ps m.id.type uri h
      ask (.sink h .flush)
      checkDigest

def copy (i : Nat) (m : Member H) : Act π H δ η τ Unit := do
  let (target, source) ← pair i m
  authorize source .read
  authorize target .copy
  match mode with
  | .validate => return
  | .execute =>
    withDigest m.parameters.imageDigest do
      sink target .erase
      let n ← readThrough source m.parameters.imageSize fun b => do
        sink target (.write b)
        (hash (.write b)).adaptExcept .platform
      if m.parameters.imageSize.any fun s => s.toNat ≠ n then throw (.platform .size)
      sink target .flush
      checkDigest

def swap (i : Nat) (m : Member H) : Act π H δ η τ Unit := do
  let (target, source) ← pair i m
  authorize target .swap
  authorize source .swap
  match mode with
  | .validate => return
  | .execute => ask (.swap target source)

def invoke (m : Member H) : Act π H δ η τ Unit := do
  let h ← handle m
  authorize h .invoke
  match mode with
  | .validate => return
  | .execute => ask (.invoke h)

end Run

end Firmware.Processor
