import Firmware.Processor.Sequence

/-!
Updates and boots. An envelope is authenticated and authorized before its sequences run, and an
update stores it only after all of them got through. Every update and every boot leaves a report.
-/

namespace Firmware.Processor

open Manifest Storage

namespace Run

variable {π H δ η τ α : Type} [Platform π H] [Flash δ] [Hash.Engine η]

def enter (s : State) : Act π H δ η τ Unit :=
  modify fun r => { r with report := { r.report with state := s } }

def slot (c : Uuid) : Act π H δ η τ Slot := within .platform do (← get).layout.slot c

def manifestMatches (e : Envelope) : Act π H δ η τ Bool :=
  withDigest (some e.digest) do
    (hash (.write e.manifestHead)).adaptExcept .platform
    (hash (.write e.manifestBytes)).adaptExcept .platform
    digestMatches

def authenticate (e : Envelope) (c : Uuid) (p : Policy) (t : Trigger) : Act π H δ η τ Unit := do
  unless ← manifestMatches e do throw .unauthenticated
  if e.signatures.isEmpty then
    within (fun _ => .unauthenticated) (Processor.ask (.authorizeUnsigned c p t))
  e.signatures.forM fun s =>
    within (fun _ => .unauthenticated) (Processor.ask (.authenticate c s e.digestBytes))

def installedSequence (c : Uuid) (a : Arena) : Act π H δ η τ (Option UInt32) := do
  let p := (← get).processor
  match answer (installedEnvelope p.layout c p.store.device a) with
  | .ok b => return (Envelope.parse b).toOption.map (·.manifest.sequenceNumber)
  | .error .notFound => return none
  | .error e => throw (.platform e)

def decode (b : Bytes) : Act π H δ η τ Envelope := do
  let e ← (Envelope.parse b).mapError Error.manifest
  modify fun r => { r with
    report := { r.report with sequenceNumber := e.manifest.sequenceNumber } }
  return e

def accept (b : Bytes) (a : Arena) : Act π H δ η τ (Envelope × Uuid) := do
  let e ← decode b
  let some c := e.manifest.classId? | throw (.manifest .wrongShape)
  modify fun r => { r with report := { r.report with classId := c } }
  enter .authenticate
  let s ← slot c
  authenticate e c s.policy .update
  enter .authorize
  let installed ← installedSequence c a
  within (fun _ => .denied)
    (Processor.ask (.authorizeSequence c s.policy e.manifest.sequenceNumber installed))
  return (e, c)

def updateKinds : List SequenceKind := [.dependencyResolution, .payloadFetch, .install, .validate]

def bootKinds : List SequenceKind := [.validate, .load, .invoke]

def passOf (e : Envelope) (c : Uuid) (m : Mode) : Pass := ⟨m, c, e.manifest, e.payloads⟩

def withoutSources (f : Act π H δ η τ α) : Act π H δ η τ α := fun r =>
  let put := fun (sources : List τ) (r : Run π H δ η τ) =>
    r.putProcessor { r.processor with sources }
  match f (put [] r) with
  | .ok a r' => .ok a (put r.processor.sources r')
  | .error e r' => .error e (put r.processor.sources r')

variable [Source τ]

def update (b : Bytes) (a : Arena) : Act π H δ η τ Unit := do
  let (e, c) ← accept b a
  pass (passOf e c .validate) updateKinds
  pass (passOf e c .execute) updateKinds
  enter .commit
  within .platform do onDevice (installEnvelope (← get).layout c b)
  enter .done

def checkUpdate (b : Bytes) (a : Arena) : Act π H δ η τ Unit := do
  let (e, c) ← accept b a
  pass (passOf e c .validate) updateKinds

def installed (c : Uuid) (a : Arena) : Act π H δ η τ Bytes := do
  let p := (← get).processor
  let copied : EStateM Failure Arena Bytes := do
    let b ← installedEnvelope p.layout c p.store.device
    discard ((Arena.allocate b.length 1).adaptExcept fun _ => Failure.noResources)
    return b
  (answer (copied a)).mapError Error.platform

def boot (c : Uuid) (a : Arena) : Act π H δ η τ Unit := do
  modify fun r => { r with report := { r.report with classId := c } }
  let s ← slot c
  let e ← decode (← installed c a)
  unless e.manifest.classId? = some c do throw .denied
  enter .authenticate
  authenticate e c s.policy .boot
  pass (passOf e c .validate) bootKinds
  pass (passOf e c .execute) bootKinds
  enter .done

/-- Asks for recovery on the next boot. That this may fail changes nothing. -/
def requestRecovery (r : Run π H δ η τ) : Run π H δ η τ :=
  let p := r.processor
  r.putProcessor (stateAfter (onDevice (setFlag p.layout .recovery) p))

def finish (result : Except Error Unit) (r : Run π H δ η τ) : Run π H δ η τ :=
  let p := r.processor
  { r with
    processor := { p with vars := p.vars.endSession }
    report := { r.report with outcome := .ofResult result } }

def saveReport : Act π H δ η τ Unit := do
  let r := (← get).report
  log (.reported r)
  within .platform do
    let p ← get
    onDevice (Storage.saveReport p.layout p.options.reportSlot r.encode)

end Run

variable {π H δ η τ : Type} [Platform π H] [Flash δ] [Hash.Engine η] [Source τ]

/-- Ends a run with its report. The failure of the run counts before that of saving the report. -/
def reporting (f : Run.Act π H δ η τ Unit) : EStateM Error (Processor π H δ η τ) Unit := fun p =>
  let r := f (.start p)
  let saved := Run.saveReport ((stateAfter r).finish (answer r))
  match answer r with
  | .ok () =>
    match saved with
    | .ok () r => .ok () r.processor
    | .error e r => .error e r.processor
  | .error e => .error e (stateAfter saved).processor

def update (b : Bytes) (a : Arena) : EStateM Error (Processor π H δ η τ) Unit :=
  reporting (Run.update b a)

def checkUpdate (b : Bytes) (a : Arena) : EStateM Error (Processor π H δ η τ) Unit := fun p =>
  match (Run.withoutSources (Run.checkUpdate b a)) (.start p) with
  | .ok () r => .ok () r.processor
  | .error e r => .error e r.processor

def boot (c : Uuid) (a : Arena) : EStateM Error (Processor π H δ η τ) Unit :=
  reporting fun r =>
    match (Run.withoutSources (Run.boot c a)) r with
    | .ok () r => .ok () r
    | .error e r => .error e r.requestRecovery

end Firmware.Processor
