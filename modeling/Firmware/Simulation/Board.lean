import Firmware.Processor.Platform
import Firmware.Simulation.Memory

namespace Firmware.Simulation

open Processor Manifest

structure Component where
  name : String
  memory : Memory

structure Board where
  vendor : Option Uuid
  classId : Option Uuid
  device : Option Uuid
  slot : Option UInt32
  forbidden : List ComponentType
  /-- Operations that are refused: by their names on all components, or on one behind a colon. -/
  denied : List String
  readLimit : Option Nat
  overReads : Bool
  indifferent : Bool
  schedule : Schedule Failure
  blueprints : List (String × Memory)
  components : List Component

namespace Board

instance : Scheduled Board Failure where
  schedule := schedule
  reschedule s b := { b with schedule := s }

def goodSignature : Bytes := Bytes.ofString "good"

def handle? (b : Board) (name : String) : Option Nat := b.components.findIdx? (·.name == name)

def name (b : Board) (h : Nat) : String := (b.components[h]?.map Component.name).getD ""

def contents (b : Board) (h : Nat) : Bytes := (b.components[h]?.map (·.memory.contents)).getD []

def ensure (name : String) (b : Board) : Board :=
  if (b.handle? name).isSome then b
  else { b with components := b.components ++ [⟨name, (b.blueprints.lookup name).getD default⟩] }

def setContents (h : Nat) (content : Bytes) (b : Board) : Board :=
  { b with components := b.components.modify h fun c =>
    { c with memory := { c.memory with buffer := ⟨content⟩ } } }

def load (contents : List (String × Bytes)) (b : Board) : Board :=
  contents.foldl (fun b (name, content) =>
    let b := b.ensure name
    b.setContents ((b.handle? name).getD 0) content) b

def listing (b : Board) : List (String × Bytes) := b.components.map fun c => (c.name, c.memory.contents)

def exchange (target source : Nat) (b : Board) : Board :=
  let taken := b.contents target
  let b := b.setContents target []
  let other := b.contents source
  (b.setContents source taken).setContents target other

def denies (b : Board) (h : Nat) (op : Operation) : Bool :=
  b.denied.any fun d => d == op.name || d == op.name ++ ":" ++ b.name h

def readAt (b : Board) (h offset want : Nat) : Bytes :=
  if b.overReads then List.replicate (want + 1) 0
  else Flash.slice (b.contents h) offset (min want (b.readLimit.getD want))

def onMemory (h : Nat) (f : EStateM Failure Memory Unit) : EStateM Failure Board Unit := fun b =>
  match b.components[h]? with
  | some c =>
    onPart (fun _ => c.memory)
      (fun b m => { b with components := b.components.set h { c with memory := m } }) f b
  | none => .error .internal b

def isDefault (b : Board) : Call Nat → Bool
  | .authorizeUnsigned .. | .authorizeSequence .. | .checkContent .. => true
  | .checkDevice .. | .checkSlot .. | .swap .. => b.indifferent
  | _ => false

def callName : Call Nat → String
  | .authenticate .. => "authenticate"
  | .authorizeUnsigned .. => "authorize_unsigned_manifest"
  | .authorizeSequence .. => "authorize_sequence_number"
  | .authorizeComponent .. => "authorize_component"
  | .checkVendor .. => "check_vendor_id"
  | .checkClass .. => "check_class_id"
  | .checkDevice .. => "check_device_id"
  | .checkSlot .. => "check_slot"
  | .checkContent .. => "check_content"
  | .checkOperation .. => "check_operation"
  | .acquire .. => "acquire"
  | .release .. => "release"
  | .openSink .. | .sink .. => "sink"
  | .read .. => "read"
  | .swap .. => "swap"
  | .invoke .. => "invoke"

def act : (c : Call Nat) → EStateM Failure Board c.Reply
  | .authenticate _ s _ => unless s.signature = goodSignature do throw .authentication
  | .authorizeComponent _ id => do
    if (← get).forbidden.contains id.type then throw .authentication
  | .checkVendor _ id => do return (← get).vendor = some id
  | .checkClass _ id => do return (← get).classId = some id
  | .checkDevice id => do return (← get).device = some id
  | .checkSlot _ n => do return (← get).slot = some n
  | .checkOperation h op => do
    if (← get).denies h op then throw .authentication
  | .acquire id => do
    modify (ensure id.display)
    return ((← get).handle? id.display).getD 0
  | .sink h c => onMemory h (Sink.call c)
  | .read h offset want => do return (← get).readAt h offset want
  | .swap target source => modify (exchange target source)
  | .release _ | .openSink _ | .invoke _ => pure ()
  | c => liftM c.byDefault

def perform (c : Call Nat) : EStateM Failure Board c.Reply := do
  if (← get).isDefault c then c.byDefault
  else
    unless c matches .sink .. do guard (callName c)
    act c

instance : Platform Board Nat := ⟨perform⟩

end Board

end Firmware.Simulation
