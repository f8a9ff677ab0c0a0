import Firmware.Processor.Step

/-!
Running sequences. A pass goes through the sequences of a manifest in one mode, with components that
it acquires first and releases last; both modes run the same commands.
-/

namespace Firmware.Processor.Run

open Manifest

variable {π H δ η τ α : Type} [Platform π H] [Flash δ] [Hash.Engine η] [Source τ]

structure Pass where
  mode : Mode
  classId : Uuid
  manifest : Manifest
  payloads : List (Text × Bytes)

def select : Index → Act π H δ η τ Unit
  | .all => modify fun r => { r with selected := List.range r.members.length }
  | .list is => do
    let n := (← get).members.length
    unless is.all fun i => i.toNat < n do throw .badComponent
    modify fun r => { r with selected := (List.range n).filter fun i => UInt32.ofNat i ∈ is }

def override (p : Parameters) (i : Nat) : Act π H δ η τ Unit :=
  modify fun r => { r with
    members := r.members.modify i fun m => { m with parameters := m.parameters.apply p } }

def forSelected (f : Nat → Act π H δ η τ Unit) : Act π H δ η τ Unit := do
  (← get).selected.forM f

/--
Runs alternatives until one gets through. A failed condition takes back what the alternative did to
parameters and selection, and goes on to the next one; `failure` is what the last one failed with.
-/
def tryEach (nested : Bytes → Act π H δ η τ Unit) (failure : Error) :
    List (Option Bytes) → Act π H δ η τ Unit
  | [] => throw failure
  | none :: _ => pure ()
  | some s :: rest => fun r =>
    match nested s r with
    | .error (.conditionFailed c) r' =>
      tryEach nested (.conditionFailed c) rest
        { r' with members := r.members, selected := r.selected }
    | result => result

def keepSelection (f : Act π H δ η τ Unit) : Act π H δ η τ Unit := do
  let selected := (← get).selected
  f
  modify fun r => { r with selected }

def runCommand (k : Pass) (nested : Bytes → Act π H δ η τ Unit) (c : Command) :
    Act π H δ η τ Unit := do
  log (.command c)
  match c with
  | .setComponentIndex i => select i
  | .overrideParameters p => forSelected (override p)
  | .condition .abort => throw (.conditionFailed .abort)
  | .condition c => forSelected fun i => do
    conclude c (← holds k.mode c (← member i))
  | .tryEach as => tryEach nested (.conditionFailed .abort) as
  | .runSequence s => keepSelection (nested s)
  | .write => forSelected fun i => do write k.mode (← member i)
  | .fetch => forSelected fun i => do fetch k.mode ⟨k.payloads⟩ (← member i)
  | .copy => forSelected fun i => do copy k.mode i (← member i)
  | .swap => forSelected fun i => do swap k.mode i (← member i)
  | .invoke => forSelected fun i => do invoke k.mode (← member i)

def runSequence (k : Pass) : Nat → Bytes → Act π H δ η τ Unit
  | 0, _ => throw (.manifest .capacityExceeded)
  | levels + 1, s => do
    let q ← (Sequence.decode s).mapError Error.manifest
    q.commands.forM (runCommand k (runSequence k levels))
    if let some e := q.failure then throw (.manifest e)

def runKind (k : Pass) (kind : SequenceKind) : Act π H δ η τ Unit := do
  if let some s := k.manifest.sequence? kind then
    log (.sequence kind)
    modify fun r => { r with
      report := { r.report with state := .running kind, sequence := some kind }
      selected := (List.range r.members.length).take 1 }
    if let some shared := k.manifest.shared then runSequence k Sequence.maxNesting shared
    runSequence k Sequence.maxNesting s

def runKinds (k : Pass) (kinds : List SequenceKind) : Act π H δ η τ Unit := do
  kinds.forM (runKind k)
  modify fun r => { r with report := { r.report with sequence := none } }

def acquire (classId : Uuid) (id : ComponentId) : Act π H δ η τ Unit := do
  within (fun _ => .denied) (Processor.ask (.authorizeComponent classId id))
  let target ← match id.type with
    | .manifestVariable =>
      match id.word? 0 with
      | some n => pure (.variable n)
      | none => throw .badComponent
    | _ => do pure (.component (← ask (.acquire id)))
  modify fun r => { r with members := r.members ++ [⟨id, target, {}⟩] }

def releaseMember (m : Member H) (r : Run π H δ η τ) : Run π H δ η τ :=
  match m.target with
  | .component h => r.putProcessor (stateAfter (Processor.ask (.release h) r.processor))
  | .variable _ => r

def releaseAll (r : Run π H δ η τ) : Run π H δ η τ :=
  r.members.foldl (fun r m => releaseMember m r) r

/-- Runs sequences in one mode. All that was acquired is released, however the pass ends. -/
def pass (k : Pass) (kinds : List SequenceKind) : Act π H δ η τ Unit := do
  log (.passBegins k.mode)
  modify fun r => { r with
    report := { r.report with mode := k.mode }, members := [], selected := [] }
  fun r =>
    match (do k.manifest.components.forM (acquire k.classId); runKinds k kinds) r with
    | .ok () r => .ok () (releaseAll r)
    | .error e r => .error e (releaseAll r)
  log (.passEnds k.mode)

end Firmware.Processor.Run
