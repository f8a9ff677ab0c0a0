import Firmware.Stream.Sink

/-!
Digest sinks hash what is written to them, by an engine that they take out of a pool and give back.
A digest is compared once, after the last write.
-/

namespace Firmware

open Hash

structure DigestSink (η : Type) where
  slot : Nat
  engine : η
  expected : Bytes
  finished : Bool

namespace DigestSink

variable {η : Type} [Engine η]

def onEngine {α : Type} (f : EStateM Hash.Error η α) : EStateM Hash.Error (DigestSink η) α :=
  onPart engine (fun s e => { s with engine := e }) f

def write (data : Bytes) : EStateM Failure (DigestSink η) Unit := do
  if (← get).finished then throw .incorrectState
  (onEngine (Engine.write data)).adaptExcept Hash.Error.failure

def digestMatch : EStateM Failure (DigestSink η) Bool := fun s =>
  if s.finished then .error .incorrectState s
  else
    let aborted := fun s : DigestSink η => { s with engine := Engine.abort s.engine }
    match onEngine (Engine.compare s.expected) { s with finished := true } with
    | .ok () s => .ok true s
    | .error .mismatch s => .ok false (aborted s)
    | .error _ s => .error .internal (aborted s)

instance : Sink (DigestSink η) where
  call := Sink.writeOnly write
  used _ := .ok 0

end DigestSink

/-- Engines that are in the pool, and empty slots for those that are out. -/
structure DigestPool (η : Type) where
  slots : List (Option η)

namespace DigestPool

variable {η : Type}

def ofEngines (es : List η) : DigestPool η := ⟨es.map some⟩

def map (f : η → η) (p : DigestPool η) : DigestPool η := ⟨p.slots.map (·.map f)⟩

def available (p : DigestPool η) : Nat := p.slots.countP Option.isSome

def put (p : DigestPool η) (slot : Nat) (e : Option η) : DigestPool η := ⟨p.slots.set slot e⟩

def firstFree : List (Option η) → Option (Nat × η)
  | [] => none
  | some e :: _ => some (0, e)
  | none :: rest => (firstFree rest).map fun (i, e) => (i + 1, e)

variable [Engine η]

def get (a : Algorithm) (expected : Bytes) : EStateM Failure (DigestPool η) (DigestSink η) :=
  fun p =>
    if expected.length ≠ a.size then .error .invalid p
    else
      match firstFree p.slots with
      | none => .error .noResources p
      | some (slot, e) =>
        if Engine.supports a e then
          match Engine.start a e with
          | .ok () e => .ok ⟨slot, e, expected, false⟩ (p.put slot none)
          | .error _ e => .error .internal (p.put slot (some e))
        else .error .invalid p

def release (s : DigestSink η) (p : DigestPool η) : DigestPool η :=
  p.put s.slot (some (Engine.abort s.engine))

end DigestPool

end Firmware
