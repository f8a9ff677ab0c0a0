import Firmware.Part

/-!
Schedules of failures, for simulated parts of a device: which calls fail, by the name of the call and
by how often it has been made.
-/

namespace Firmware.Simulation

variable {σ ε : Type}

structure Fault (ε : Type) where
  call : String
  /-- Only this call of that name fails, counted from zero; or else all of them fail. -/
  occasion : Option Nat
  error : ε

structure Schedule (ε : Type) where
  faults : List (Fault ε)
  made : List (String × Nat)

namespace Schedule

def ofFaults (fs : List (Fault ε)) : Schedule ε := ⟨fs, []⟩

instance : Inhabited (Schedule ε) := ⟨ofFaults []⟩

def count (s : Schedule ε) (call : String) : Nat := (s.made.lookup call).getD 0

def next? (s : Schedule ε) (call : String) : Option ε := do
  let f ← s.faults.find? (·.call == call)
  if f.occasion.all (· = s.count call) then some f.error else none

def step (s : Schedule ε) (call : String) : Schedule ε :=
  { s with made := (call, s.count call + 1) :: s.made.filter (·.1 != call) }

def restart (s : Schedule ε) : Schedule ε := ofFaults s.faults

def merge (s t : Schedule ε) : Schedule ε :=
  let calls := (s.made ++ t.made).map (·.1)
  { s with made := calls.eraseDups.map fun c => (c, max (s.count c) (t.count c)) }

end Schedule

class Scheduled (σ : Type) (ε : outParam Type) where
  schedule : σ → Schedule ε
  reschedule : Schedule ε → σ → σ

def restart [Scheduled σ ε] (s : σ) : σ := Scheduled.reschedule (Scheduled.schedule s).restart s

def guard [Scheduled σ ε] (call : String) : EStateM ε σ Unit := do
  let s := Scheduled.schedule (← get)
  modify (Scheduled.reschedule (s.step call))
  if let some e := s.next? call then throw e

end Firmware.Simulation
