import Firmware.Envelope
import Firmware.Processor.Report
import Firmware.Storage.Layout
import Firmware.Stream.Feed

/-!
What a platform decides and does. The processor reaches components only through calls on the
platform, and asks it about every step. A refused authorization is a failure of the call; a condition
that does not hold is a reply.
-/

namespace Firmware

open Manifest Storage

namespace Processor

inductive Trigger where
  | update
  | boot
deriving DecidableEq, Repr

inductive Operation where
  | read
  | write
  | fetch
  | copy
  | swap
  | invoke
deriving DecidableEq, Repr

def Operation.name : Operation → String
  | read => "Read"
  | write => "Write"
  | fetch => "Fetch"
  | copy => "Copy"
  | swap => "Swap"
  | invoke => "Invoke"

inductive Call (H : Type) where
  | authenticate (classId : Uuid) (s : Sign1) (payload : Bytes)
  | authorizeUnsigned (classId : Uuid) (p : Policy) (t : Trigger)
  | authorizeSequence (classId : Uuid) (p : Policy) (candidate : UInt32) (installed : Option UInt32)
  | authorizeComponent (classId : Uuid) (id : ComponentId)
  | checkVendor (h : H) (id : Uuid)
  | checkClass (h : H) (id : Uuid)
  | checkDevice (id : Uuid)
  | checkSlot (h : H) (n : UInt32)
  /-- Asks whether a component starts with `content`; no reply leaves the answer to reading it. -/
  | checkContent (h : H) (content : Bytes)
  | checkOperation (h : H) (op : Operation)
  | acquire (id : ComponentId)
  | release (h : H)
  | openSink (h : H)
  | sink (h : H) (c : SinkCall)
  /-- Reads at most `want` bytes at an offset. No bytes mean the end. -/
  | read (h : H) (offset want : Nat)
  | swap (target source : H)
  | invoke (h : H)

namespace Call

variable {H : Type}

@[reducible] def Reply : Call H → Type
  | checkVendor .. | checkClass .. | checkDevice .. | checkSlot .. => Bool
  | checkContent .. => Option Bool
  | acquire .. => H
  | read .. => Bytes
  | _ => Unit

def unsignedByDefault (p : Policy) (t : Trigger) : Except Failure Unit :=
  match p.signatureCheck, t with
  | .disabled, _ | .onUpdate, .boot => .ok ()
  | _, _ => .error .authentication

def sequenceByDefault (p : Policy) (candidate : UInt32) : Option UInt32 → Except Failure Unit
  | some installed =>
    if p.downgradePrevention && candidate ≤ installed then .error .authentication else .ok ()
  | none => .ok ()

def byDefault : (c : Call H) → Except Failure c.Reply
  | authorizeUnsigned _ p t => unsignedByDefault p t
  | authorizeSequence _ p candidate installed => sequenceByDefault p candidate installed
  | checkContent .. => .ok none
  | _ => .error .unsupported

end Call

def comparedAtOnce : Nat := 32

def startsWith {m : Type → Type} [Monad m] (read : Nat → Nat → m Bytes) (offset : Nat)
    (content : Bytes) : m Bool :=
  if content.isEmpty then pure true
  else do
    let b ← read offset (min content.length comparedAtOnce)
    if _h : 0 < b.length ∧ b.length ≤ min content.length comparedAtOnce then
      if b = content.take b.length then
        startsWith read (offset + b.length) (content.drop b.length)
      else pure false
    else pure false
termination_by content.length
decreasing_by simp; omega

def hasContent {H : Type} {m : Type → Type} [Monad m] (ask : (c : Call H) → m c.Reply) (h : H)
    (content : Bytes) : m Bool := do
  match ← ask (.checkContent h content) with
  | some b => return b
  | none => startsWith (fun offset want => ask (.read h offset want)) 0 content

end Processor

open Processor in
class Platform (π : Type) (H : outParam Type) where
  perform : (c : Call H) → EStateM Failure π c.Reply

namespace Sign1

def context : Bytes := Bytes.ofString "Signature1"

/-- The pieces of what a signature covers: an array of context, headers, nothing, and payload. -/
def signed (s : Sign1) (payload : Bytes) : List Bytes :=
  let head := fun (major : UInt8) (n : Nat) => Cbor.encodeHead major (UInt32.ofNat n)
  [head 4 4, head 3 context.length, context, head 2 s.headers.length, s.headers, head 2 0,
    head 2 payload.length, payload]

def writeSigned (s : Sign1) (payload : Bytes) : Feed (Except Failure Unit) :=
  Feed.writeAll (s.signed payload)

end Sign1

end Firmware
