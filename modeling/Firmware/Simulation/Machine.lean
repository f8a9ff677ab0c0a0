import Firmware.Processor.Update
import Firmware.Simulation.Board
import Firmware.Simulation.Engine
import Firmware.Simulation.Peer
import Firmware.Stream.Tier

namespace Firmware.Simulation

open Flash

abbrev Origin := Supplier ⊕ Tier (Journaled Ram) Peer

abbrev Machine := Processor Board Nat Ram Engine Origin

namespace Machine

def mapDigests (f : Engine → Engine) (m : Machine) : Machine := { m with digests := m.digests.map f }

def mapStorage (f : Engine → Engine) (m : Machine) : Machine :=
  { m with store := { m.store with engine := f m.store.engine } }

def renew (m : Machine) : Machine :=
  let m := mapDigests restart (mapStorage restart m)
  { m with platform := restart m.platform, trace := [] }

end Machine

end Firmware.Simulation
