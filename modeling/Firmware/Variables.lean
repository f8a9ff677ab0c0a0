import Firmware.Failure
import Firmware.Part

/-!
Manifest variables. Three ranges of ids have different homes: memory that lasts until reset, memory
that lasts until the manifest session ends, and non-volatile bytes.
-/

namespace Firmware

structure Access where
  read : Bool
  write : Bool
deriving DecidableEq

namespace Access

def bits (a : Access) : Nat := (if a.read then 1 else 0) + (if a.write then 2 else 0)

def ofBits? (n : Nat) : Option Access :=
  if n < 4 then some ⟨n % 2 = 1, n / 2 = 1⟩ else none

theorem ofBits?_bits (a : Access) : ofBits? a.bits = some a := by
  rcases a with ⟨_ | _, _ | _⟩ <;> rfl

end Access

structure VariableRange where
  base : UInt32
  count : UInt32
  access : Access
deriving DecidableEq

namespace VariableRange

def stop (r : VariableRange) : Nat := r.base.toNat + r.count.toNat

def offset? (r : VariableRange) (id : UInt32) : Option Nat :=
  if r.base.toNat ≤ id.toNat ∧ id.toNat < r.stop then some (id.toNat - r.base.toNat) else none

def overlaps (r s : VariableRange) : Bool :=
  r.count ≠ 0 && s.count ≠ 0 && r.base.toNat < s.stop && s.base.toNat < r.stop

end VariableRange

structure VariableConfig where
  platform : VariableRange
  session : VariableRange
  nonVolatile : VariableRange
deriving DecidableEq

structure ByteStore (ν : Type) where
  get : Nat → EStateM Failure ν UInt8
  set : Nat → UInt8 → EStateM Failure ν Unit

structure Variables where
  config : VariableConfig
  platform : List UInt32
  session : List UInt32
deriving DecidableEq

namespace Variables

def create (platformRoom sessionRoom : Nat) (c : VariableConfig) : Except Failure Variables := do
  unless c.platform.count.toNat ≤ platformRoom ∧ c.session.count.toNat ≤ sessionRoom do
    throw .invalid
  unless [c.platform, c.session, c.nonVolatile].all (·.stop < 0x100000000) do throw .invalid
  if c.platform.overlaps c.session || c.platform.overlaps c.nonVolatile ||
      c.session.overlaps c.nonVolatile then throw .invalid
  return ⟨c, List.replicate platformRoom 0, List.replicate sessionRoom 0⟩

inductive Home where
  | platform (i : Nat)
  | session (i : Nat)
  | nonVolatile (i : Nat)
deriving DecidableEq

def home (v : Variables) (id : UInt32) : Except Failure Home :=
  match v.config.platform.offset? id, v.config.session.offset? id,
    v.config.nonVolatile.offset? id with
  | some i, _, _ => .ok (.platform i)
  | none, some i, _ => .ok (.session i)
  | none, none, some i => .ok (.nonVolatile i)
  | none, none, none => .error .notFound

def access (v : Variables) (id : UInt32) : Except Failure Access := do
  match ← v.home id with
  | .platform _ => return v.config.platform.access
  | .session _ => return v.config.session.access
  | .nonVolatile _ => return v.config.nonVolatile.access

variable {ν : Type}

def get (s : ByteStore ν) (v : Variables) (id : UInt32) : EStateM Failure ν UInt32 := do
  match ← v.home id with
  | .platform i => return v.platform.getD i 0
  | .session i => return v.session.getD i 0
  | .nonVolatile i => return UInt32.ofNat (← s.get i).toNat

def set (s : ByteStore ν) (v : Variables) (id value : UInt32) : EStateM Failure ν Variables := do
  match ← v.home id with
  | .platform i => return { v with platform := v.platform.set i value }
  | .session i => return { v with session := v.session.set i value }
  | .nonVolatile i =>
    unless value.toNat ≤ 0xff do throw .size
    s.set i (UInt8.ofNat value.toNat)
    return v

def endSession (v : Variables) : Variables :=
  { v with session := List.replicate v.session.length 0 }

end Variables

end Firmware
