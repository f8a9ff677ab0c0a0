import Firmware.Stream.Requestor

/-!
A link within one process: queues of requests, of chunks and of statuses. The queue of chunks has a
bound. Either end may be gone, and what it would have received is lost.
-/

namespace Firmware

structure Request where
  uri : Text
  session : UInt32
deriving DecidableEq

structure StatusReport where
  session : UInt32
  id : UInt32
  status : ChunkStatus
deriving DecidableEq

structure Channel where
  capacity : Nat
  requests : List Request
  chunks : List Chunk
  statuses : List StatusReport
  requesting : Bool
  providing : Bool
deriving DecidableEq

namespace Channel

def ofCapacity (n : Nat) : Channel := ⟨n, [], [], [], true, true⟩

def dropRequesting (c : Channel) : Channel := { c with requesting := false, chunks := [] }

def dropProviding (c : Channel) : Channel :=
  { c with providing := false, requests := [], statuses := [] }

section Requesting

def sendRequest (r : Request) : EStateM Failure Channel Unit := do
  unless (← get).providing do throw .io
  modify fun c => { c with requests := c.requests ++ [r] }

def receive : EStateM Failure Channel (Option Chunk) := do
  let c ← get
  match c.chunks with
  | chunk :: rest =>
    set { c with chunks := rest }
    return some chunk
  | [] => if c.providing then return none else throw .io

def sendStatus (s : StatusReport) (c : Channel) : Channel :=
  if c.providing then { c with statuses := c.statuses ++ [s] } else c

end Requesting

section Providing

def nextRequest (c : Channel) : Option Request × Channel :=
  match c.requests with
  | r :: rest => (some r, { c with requests := rest })
  | [] => (none, c)

def enqueue (chunk : Chunk) : EStateM Failure Channel Unit := do
  let c ← get
  unless c.requesting do throw .incorrectState
  unless c.chunks.length < c.capacity do throw .busy
  set { c with chunks := c.chunks ++ [chunk] }

def takeStatuses (c : Channel) : List StatusReport × Channel :=
  (c.statuses, { c with statuses := [] })

def progresses (image : Bytes) (pattern : List Nat) : Bool :=
  !pattern.isEmpty && (image.isEmpty || pattern.any (· ≠ 0))

/--
The chunks of what is left of an image, of sizes that go round in `pattern`. There are at most `fuel`
of them; `sizes` is what is left of the present round.
-/
def cut (session : UInt32) (pattern : List Nat) :
    Nat → List Nat → Nat → Nat → Bytes → List Chunk
  | 0, _, _, _, _ => []
  | fuel + 1, sizes, id, offset, rest =>
    match sizes with
    | [] => cut session pattern fuel pattern id offset rest
    | size :: sizes =>
      let last := rest.length ≤ size
      ⟨session, UInt32.ofNat id, UInt32.ofNat offset, rest.take size, last⟩ ::
        if last then []
        else cut session pattern fuel sizes (id + 1) (offset + size) (rest.drop size)

/-- The chunks that answer a request for an image. Each round takes at least a byte. -/
def chunksOf (session : UInt32) (image : Bytes) (pattern : List Nat) : Except Failure (List Chunk) :=
  if progresses image pattern then
    .ok (cut session pattern ((image.length + 1) * (pattern.length + 1)) pattern 0 0 image)
  else .error .invalid

def provide (session : UInt32) (image : Bytes) (pattern : List Nat) :
    EStateM Failure Channel Unit := do
  let cs ← chunksOf session image pattern
  cs.forM enqueue

end Providing

end Channel

structure Service where
  channel : Channel
  image : Bytes
  patterns : List (List Nat)
  waiting : List Chunk
deriving DecidableEq

namespace Service

def answerRequest (s : Service) : Service :=
  match s.waiting, s.channel.nextRequest, s.patterns with
  | [], (some r, c), pattern :: patterns =>
    match Channel.chunksOf r.session s.image pattern with
    | .ok cs => { s with channel := c, patterns, waiting := cs }
    | .error _ => { s with channel := c.dropProviding, patterns := [] }
  | _, _, _ => s

/-- Queues a chunk that waits. The peer is waiting for one, so that there is room. -/
def deliver (s : Service) : Service :=
  match s.waiting, s.channel.chunks with
  | c :: cs, [] => { s with channel := { s.channel with chunks := [c] }, waiting := cs }
  | _, _ => s

def work (s : Service) : Service := s.answerRequest.deliver

def onChannel {α : Type} (f : EStateM Failure Channel α) : EStateM Failure Service α :=
  onPart channel (fun s c => { s with channel := c }) f

instance : Transport Service where
  now s := (0, s)
  request uri session := onChannel (Channel.sendRequest ⟨uri, session⟩)
  receive _ := do
    modify work
    onChannel Channel.receive
  status session id st := modify fun s =>
    { s with channel := s.channel.sendStatus ⟨session, id, st⟩ }

def length (s : Service) : Nat := (s.image.length + 2) * (s.patterns.flatten.length + 2)

def streamTimes (uri : Text) (o : StreamOptions) :
    Nat → Requestor Service → List (Except Failure Unit × Bytes) × Requestor Service
  | 0, q => ([], q)
  | n + 1, q =>
    let ((r, q), b) := (Source.stream q uri o).into (⟨[]⟩ : Buffer)
    let (rs, q) := if r.isOk then streamTimes uri o n q else ([], q)
    ((r, b.contents) :: rs, q)

end Service

end Firmware
