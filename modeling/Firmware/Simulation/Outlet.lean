import Firmware.Flash.Window
import Firmware.Simulation.Engine
import Firmware.Simulation.Memory
import Firmware.Simulation.Peer
import Firmware.Stream.DigestPool

namespace Firmware.Simulation

open Flash

variable {σ α : Type}

inductive Outlet where
  | memory (name : String) (m : Memory)
  | buffer (b : Buffer)
  | plain (b : Bytes)
  | flash (w : Writer (Journaled Ram))
  | digest (s : DigestSink Engine)
  | tee (first second : Outlet)
  /-- A sink that starts a stream in each write, at a requestor that is streaming into it. -/
  | reentrant

inductive Sight where
  | call (name : String) (c : SinkCall)
  | device (e : Entry)
  | nested (r : Except Failure Unit)
  | note (n : Note)

namespace Outlet

def streamInStream : Except Failure Unit :=
  let q := { Peer.requestor ⟨0, [], default, 0, 0⟩ 0 with busy := true }
  ((Source.stream q (Text.ofString "#inner") .usual).into (⟨[]⟩ : Buffer)).1.1

abbrev Reply := Except Failure Unit × List Sight × Outlet

def Reply.of (wrap : σ → Outlet) (seen : List Sight) (r : EStateM.Result Failure σ Unit) : Reply :=
  (answer r, seen, wrap (stateAfter r))

def perform (c : SinkCall) : Outlet → Reply
  | memory name m => .of (memory name) [.call name c] (Sink.call c m)
  | buffer b => .of buffer [] (Sink.call c b)
  | plain b => .of plain [] (Sink.writeOnly (fun data => modify (· ++ data)) c b)
  | flash w =>
    let r := Sink.call c w
    let w := stateAfter r
    (answer r, w.device.entries.map .device, flash { w with device := ⟨w.device.device, []⟩ })
  | digest s => .of digest [] (Sink.call c s)
  | tee a b =>
    match perform c a with
    | (.ok (), seen, a) =>
      let (r, more, b) := perform c b
      (r, seen ++ more, tee a b)
    | (.error e, seen, a) => (.error e, seen, tee a b)
  | reentrant =>
    .of (fun _ => reentrant) (if c matches .write _ then [.nested streamInStream] else [])
      (Sink.writeOnly (fun _ => pure ()) c ())

def used : Outlet → Except Failure Nat
  | memory _ m => Sink.used m
  | buffer b => Sink.used b
  | flash w => Sink.used w
  | digest s => Sink.used s
  | tee a _ => a.used
  | plain _ | reentrant => Sink.usedByDefault

end Outlet

structure Watched where
  outlet : Outlet
  seen : Array Sight

namespace Watched

instance : Sink Watched where
  call c w :=
    match w.outlet.perform c with
    | (.ok (), seen, o) => .ok () ⟨o, w.seen ++ seen⟩
    | (.error e, seen, o) => .error e ⟨o, w.seen ++ seen⟩
  used w := w.outlet.used

def feed (f : Feed α) (o : Outlet) : α × Watched :=
  f.run Sink.call (fun n w => { w with seen := w.seen.push (.note n) }) ⟨o, #[]⟩

end Watched

end Firmware.Simulation
