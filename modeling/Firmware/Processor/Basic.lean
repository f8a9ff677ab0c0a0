import Firmware.Flash.Window
import Firmware.Processor.Platform
import Firmware.Storage.Envelopes
import Firmware.Storage.Flags
import Firmware.Storage.VariableArea
import Firmware.Stream.DigestPool
import Firmware.Stream.Source

/-!
Processors: a platform, storage, variables, digest engines and sources of payloads, with the trace of
all that was done with them.
-/

namespace Firmware

open Flash Manifest Storage

namespace Processor

structure Options where
  reportSlot : Nat
  copyChunk : Nat
  stream : StreamOptions
deriving DecidableEq

def Options.usual : Options := ⟨0, 64, .usual⟩

inductive Event (H : Type) where
  | passBegins (m : Mode)
  | passEnds (m : Mode)
  | sequence (k : SequenceKind)
  | command (c : Command)
  | condition (c : Condition) (holds : Bool)
  | call (c : Call H) (reply : Except Failure c.Reply)
  | note (n : Note)
  | device (e : Entry)
  | variableRead (id : UInt32) (reply : Except Failure UInt32)
  | variableSet (id value : UInt32) (reply : Except Failure Unit)
  | reported (r : Report)

end Processor

structure Processor (π H δ η τ : Type) where
  layout : Layout
  options : Processor.Options
  platform : π
  store : Store δ η
  vars : Variables
  digests : DigestPool η
  sources : List τ
  trace : List (Processor.Event H)

namespace Processor

variable {π H δ η τ ε α : Type} [Platform π H] [Flash δ] [Hash.Engine η]

def log (e : Event H) (p : Processor π H δ η τ) : Processor π H δ η τ :=
  { p with trace := p.trace ++ [e] }

def observed (e : Except ε α → Event H) (f : EStateM ε (Processor π H δ η τ) α) :
    EStateM ε (Processor π H δ η τ) α := fun p =>
  match f p with
  | .ok a p => .ok a (p.log (e (.ok a)))
  | .error x p => .error x (p.log (e (.error x)))

def ask (c : Call H) : EStateM Failure (Processor π H δ η τ) c.Reply :=
  observed (.call c)
    (onPart platform (fun p s => { p with platform := s }) (Platform.perform c))

def onStore (f : EStateM Failure (Store (Journaled δ) η) α) :
    EStateM Failure (Processor π H δ η τ) α :=
  onPart (fun p => ⟨⟨p.store.device, []⟩, p.store.engine⟩)
    (fun p s => { p with
      store := ⟨s.device.device, s.engine⟩, trace := p.trace ++ s.device.entries.map .device })
    f

def onDevice (f : EStateM Failure (Journaled δ) α) : EStateM Failure (Processor π H δ η τ) α :=
  onStore (Store.onDevice f)

def readVariable (id : UInt32) : EStateM Failure (Processor π H δ η τ) UInt32 :=
  observed (.variableRead id) do
    let p ← get
    onStore (p.vars.get (Store.bytes p.layout) id)

def setVariable (id value : UInt32) : EStateM Failure (Processor π H δ η τ) Unit :=
  observed (.variableSet id value) do
    let p ← get
    let v ← onStore (p.vars.set (Store.bytes p.layout) id value)
    modify fun p => { p with vars := v }

def lastReport (p : Processor π H δ η τ) : EStateM Error Arena Report := do
  let b ← (readReport p.layout p.options.reportSlot p.store.device).adaptExcept .platform
  match Report.decode b with
  | some r => return r
  | none => throw (.platform .notFound)

end Processor

end Firmware
