import Firmware.Hash.Engine
import Firmware.Simulation.Schedule

namespace Firmware.Simulation

open Hash

structure Engine where
  inner : Software
  unsupported : List Algorithm
  schedule : Schedule Hash.Error
deriving Inhabited

namespace Engine

instance : Scheduled Engine Hash.Error where
  schedule := schedule
  reschedule s e := { e with schedule := s }

def guarded {α : Type} (call : String) (f : EStateM Hash.Error Software α) :
    EStateM Hash.Error Engine α := do
  guard call
  onPart inner (fun e i => { e with inner := i }) f

instance : Hash.Engine Engine where
  supports a e := !e.unsupported.contains a && Hash.Engine.supports a e.inner
  start a := guarded "start" (Hash.Engine.start a)
  write b := guarded "write" (Hash.Engine.write b)
  finish n := guarded "finish" (Hash.Engine.finish n)
  compare b := guarded "compare" (Hash.Engine.compare b)
  abort e := { e with inner := Hash.Engine.abort e.inner }

end Engine

end Firmware.Simulation
