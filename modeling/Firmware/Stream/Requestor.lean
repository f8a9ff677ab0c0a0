import Firmware.Stream.Source

/-!
Streaming from a peer. An image is requested again and again until its first chunk comes; each chunk
restarts the clock that ends a stream which has gone quiet; the chunk marked last ends the stream.
-/

namespace Firmware

class Transport (θ : Type) where
  now : θ → Nat × θ
  request : Text → UInt32 → EStateM Failure θ Unit
  receive : Nat → EStateM Failure θ (Option Chunk)
  status : UInt32 → UInt32 → ChunkStatus → EStateM Failure θ Unit

structure Requestor (θ : Type) where
  transport : θ
  lastSession : UInt32
  busy : Bool
  /-- A stream that has not ended after so many receives is given up. -/
  patience : Nat

namespace Requestor

variable {θ : Type} [Transport θ]

def ofTransport (t : θ) (patience : Nat) : Requestor θ := ⟨t, 0, false, patience⟩

/-- Sessions count up from one and leave out zero. -/
def nextSession (last : UInt32) : UInt32 := if last + 1 = 0 then 1 else last + 1

structure Progress (θ : Type) where
  transport : θ
  pending : Bool
  lastRequest : Option Nat
  lastResponse : Nat
  position : Nat

def writeChunk (c : Chunk) (position : Nat) : Feed (Except Failure Nat) := do
  let offset := c.offset.toNat
  if 0x100000000 ≤ c.data.length then return .error .size
  if 0x100000000 ≤ offset + c.data.length then return .error .outOfBounds
  let sought ← if offset = position then pure (.ok ()) else Feed.ask (.seek offset)
  match sought with
  | .error e => return .error e
  | .ok () =>
    if c.data.isEmpty then return .ok offset
    match ← Feed.ask (.write c.data) with
    | .error e => return .error e
    | .ok () => return .ok (offset + c.data.length)

def sinkFailure : Failure → Failure
  | .size => .size
  | .outOfBounds => .outOfBounds
  | _ => .internal

def exchange {α : Type} (f : EStateM Failure θ α) (n : Except Failure α → Note) (t : θ) :
    Feed (Except Failure α × θ) := do
  let r := f t
  Feed.remark (n (answer r))
  return (answer r, stateAfter r)

abbrev Outcome := Option (Except Failure Unit)

def requestIfDue (uri : Text) (session : UInt32) (period now wait : Nat) (p : Progress θ) :
    Feed (Except Failure Nat × Progress θ) := do
  if !p.pending then return (.ok wait, p)
  if p.lastRequest.all fun t => period ≤ now - t then
    let (r, t) ← exchange (Transport.request uri session) (.request uri session now) p.transport
    let p := { p with transport := t }
    match r with
    | .error e => return (.error e, p)
    | .ok () => return (.ok (min wait period), { p with lastRequest := some now })
  else
    let next := p.lastRequest.getD now + period
    return (.ok (min wait (next - now)), p)

def report (session id : UInt32) (s : ChunkStatus) (last : Bool) (p : Progress θ) :
    Feed (Outcome × Progress θ) := do
  let (r, t) ← exchange (Transport.status session id s) (.status session id s) p.transport
  let p := { p with transport := t }
  match r with
  | .error e => return (some (.error e), p)
  | .ok () => return (if last then some (.ok ()) else none, p)

def handle (session : UInt32) (c : Chunk) (p : Progress θ) : Feed (Outcome × Progress θ) := do
  if c.session ≠ session then
    report c.session c.id .refused false p
  else
    let (now, t) := Transport.now p.transport
    let p := { p with pending := false, lastResponse := now, transport := t }
    match ← writeChunk c p.position with
    | .ok position => report session c.id .processed c.last { p with position }
    | .error e =>
      let (_, p) ← report session c.id .refused false p
      return (some (.error (sinkFailure e)), p)

def step (uri : Text) (session : UInt32) (o : StreamOptions) (p : Progress θ) :
    Feed (Outcome × Progress θ) := do
  let (now, t) := Transport.now p.transport
  let p := { p with transport := t }
  let wait := o.chunkTimeout.toNat - (now - p.lastResponse)
  if wait = 0 then return (some (.error .timeout), p)
  match ← requestIfDue uri session o.requestPeriod.toNat now wait p with
  | (.error e, p) => return (some (.error e), p)
  | (.ok wait, p) =>
    let (r, t) ← exchange (Transport.receive wait) (.receive wait now) p.transport
    let p := { p with transport := t }
    match r with
    | .error e => return (some (.error e), p)
    | .ok none => return (none, p)
    | .ok (some c) => handle session c p

def steps (uri : Text) (session : UInt32) (o : StreamOptions) :
    Nat → Progress θ → Feed (Outcome × Progress θ)
  | 0, p => return (none, p)
  | n + 1, p => do
    match ← step uri session o p with
    | (some r, p) => return (some r, p)
    | (none, p) => steps uri session o n p

def streamImage (n : Nat) (uri : Text) (o : StreamOptions) (q : Requestor θ) :
    Feed (Outcome × Requestor θ) := do
  if uri.isEmpty then return (some (.error .invalid), q)
  if q.busy then return (some (.error .noResources), q)
  let session := nextSession q.lastSession
  let (now, t) := Transport.now q.transport
  let (r, p) ← steps uri session o n ⟨t, true, none, now, 0⟩
  return (r, { q with transport := p.transport, lastSession := session })

instance : Source (Requestor θ) where
  supports _ _ := true
  stream q uri o := do
    let (r, q) ← q.streamImage q.patience uri o
    return (r.getD (.error .timeout), q)

end Requestor

end Firmware
