import Firmware.Simulation.Schedule
import Firmware.Stream.Requestor

namespace Firmware.Simulation

structure Delivery where
  chunk : Chunk
  current : Bool
  delay : Nat

structure Peer where
  quantum : Nat
  script : List (Option Delivery)
  schedule : Schedule Failure
  clock : Nat
  session : UInt32

namespace Peer

instance : Scheduled Peer Failure where
  schedule := schedule
  reschedule s p := { p with schedule := s }

def take (wait : Nat) : StateM Peer (Option Chunk) := fun p =>
  match p.script with
  | some d :: rest =>
    let c := if d.current then { d.chunk with session := p.session } else d.chunk
    (some c, { p with script := rest, clock := p.clock + d.delay })
  | rest => (none, { p with script := rest.tail, clock := p.clock + max 1 (min wait p.quantum) })

instance : Transport Peer where
  now p := (p.clock, p)
  request _ session := do
    guard "request_image"
    modify fun p => { p with session }
  receive wait := do
    guard "recv_chunk"
    modifyGet (take wait)
  status _ _ _ := guard "chunk_status"

def requestor (p : Peer) (timeout : Nat) : Requestor Peer :=
  .ofTransport p (p.script.length + timeout + 2)

end Peer

structure Supplier where
  types : Option (List Manifest.ComponentType)
  chunks : List Bytes
  failure : Option Failure

instance : Source Supplier where
  supports s t := s.types.all (·.contains t)
  stream s _ _ := do
    match ← Feed.writeAll s.chunks, s.failure with
    | .ok (), some e => return (.error e, s)
    | r, _ => return (r, s)

end Firmware.Simulation
