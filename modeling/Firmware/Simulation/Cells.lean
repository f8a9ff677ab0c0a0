import Firmware.Simulation.Schedule
import Firmware.Variables

namespace Firmware.Simulation

structure Cells where
  bytes : Bytes
  schedule : Schedule Failure

namespace Cells

instance : Scheduled Cells Failure where
  schedule := schedule
  reschedule s c := { c with schedule := s }

def store : ByteStore Cells where
  get i := do
    guard "get"
    match (← get).bytes[i]? with
    | some b => return b
    | none => throw .outOfBounds
  set i b := do
    guard "set"
    unless i < (← get).bytes.length do throw .outOfBounds
    modify fun c => { c with bytes := c.bytes.set i b }

end Cells

end Firmware.Simulation
