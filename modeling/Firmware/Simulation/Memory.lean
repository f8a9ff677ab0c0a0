import Firmware.Simulation.Schedule
import Firmware.Stream.Sink

namespace Firmware.Simulation

structure Memory where
  buffer : Buffer
  capacity : Option Nat
  seekable : Bool
  schedule : Schedule Failure

namespace Memory

instance : Inhabited Memory := ⟨⟨[]⟩, none, true, default⟩

instance : Scheduled Memory Failure where
  schedule := schedule
  reschedule s m := { m with schedule := s }

def callName : SinkCall → String
  | .write _ => "write"
  | .erase => "erase"
  | .seek _ => "seek"
  | .flush => "flush"

def maxSeek : Nat := 65536

def contents (m : Memory) : Bytes := m.buffer.contents

def check : SinkCall → Memory → Except Failure Unit
  | .write b, m =>
    if m.capacity.all (m.contents.length + b.length ≤ ·) then .ok () else .error .size
  | .seek n, m =>
    if !m.seekable then .error .unsupported
    else if n ≤ maxSeek then .ok ()
    else .error .outOfBounds
  | _, _ => .ok ()

instance : Sink Memory where
  call c := do
    guard (callName c)
    check c (← get)
    onPart buffer (fun m b => { m with buffer := b }) (Sink.call c)
  used m := .ok m.contents.length

end Memory

end Firmware.Simulation
