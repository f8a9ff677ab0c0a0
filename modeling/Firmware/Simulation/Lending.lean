import Firmware.Simulation.Engine
import Firmware.Stream.DigestPool

namespace Firmware.Simulation

variable {α : Type}

structure Lending where
  pool : DigestPool Engine
  lent : List (Nat × DigestSink Engine)

namespace Lending

def ofEngine (n : Nat) (e : Engine) : Lending := ⟨.ofEngines (List.replicate n e), []⟩

def mapEngines (f : Engine → Engine) (l : Lending) : Lending where
  pool := l.pool.map f
  lent := l.lent.map fun (i, s) => (i, { s with engine := f s.engine })

def share (l : Lending) : Lending :=
  match (l.pool.slots.filterMap id ++ l.lent.map (·.2.engine)).map Engine.schedule with
  | [] => l
  | s :: rest => l.mapEngines fun e => { e with schedule := rest.foldl Schedule.merge s }

def sharing (f : EStateM Failure Lending α) : EStateM Failure Lending α := fun l =>
  match f l with
  | .ok a l => .ok a l.share
  | .error e l => .error e l.share

def giveBack (i : Nat) (l : Lending) : Lending :=
  match l.lent.lookup i with
  | some s => ⟨l.pool.release s, l.lent.filter (·.1 ≠ i)⟩
  | none => l

def take (i : Nat) (a : Hash.Algorithm) (expected : Bytes) : EStateM Failure Lending Unit :=
  sharing do
    let s ← onPart pool (fun l p => { l with pool := p }) (DigestPool.get a expected)
    modify fun l =>
      let l := l.giveBack i
      { l with lent := (i, s) :: l.lent }

def onSink (i : Nat) (f : EStateM Failure (DigestSink Engine) α) : EStateM Failure Lending α :=
  sharing do
    match (← get).lent.lookup i with
    | some s =>
      onPart (fun _ => s)
        (fun l s => { l with lent := l.lent.map fun (k, t) => (k, if k = i then s else t) }) f
    | none => throw .notFound

end Lending

end Firmware.Simulation
