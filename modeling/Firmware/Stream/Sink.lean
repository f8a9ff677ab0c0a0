import Firmware.Flash.Writer

/-!
Sinks: destinations of payload bytes. A sink only has to take writes; what else it can do has a
default.
-/

namespace Firmware

inductive SinkCall where
  | write (data : Bytes)
  | erase
  | seek (offset : Nat)
  | flush
deriving DecidableEq

class Sink (σ : Type) where
  call : SinkCall → EStateM Failure σ Unit
  used : σ → Except Failure Nat

namespace Sink

variable {σ τ : Type}

def writeOnly (write : Bytes → EStateM Failure σ Unit) : SinkCall → EStateM Failure σ Unit
  | .write data => write data
  | .erase => pure ()
  | .seek _ => throw .unsupported
  | .flush => pure ()

def usedByDefault : Except Failure Nat := .error .unsupported

end Sink

/-- A buffer that grows. Seeking cuts it, or lengthens it with ones, so that writes append. -/
structure Buffer where
  contents : Bytes
deriving DecidableEq

instance : Sink Buffer where
  call
    | .write data => modify fun b => ⟨b.contents ++ data⟩
    | .erase => set (⟨[]⟩ : Buffer)
    | .seek n => modify fun b => ⟨b.contents.take n ++ Bytes.erased (n - b.contents.length)⟩
    | .flush => pure ()
  used b := .ok b.contents.length

structure Tee (σ τ : Type) where
  first : σ
  second : τ

namespace Tee

variable {σ τ : Type}

def pass (f : EStateM Failure σ Unit) (g : EStateM Failure τ Unit) :
    EStateM Failure (Tee σ τ) Unit := do
  onPart first (fun t s => { t with first := s }) f
  onPart second (fun t s => { t with second := s }) g

instance [Sink σ] [Sink τ] : Sink (Tee σ τ) where
  call c := pass (Sink.call c) (Sink.call c)
  used t := Sink.used t.first

end Tee

instance {δ : Type} [Flash δ] : Sink (Flash.Writer δ) where
  call
    | .write data => Flash.Writer.write data
    | .erase => Flash.Writer.erase
    | .seek n => Flash.Writer.seek n
    | .flush => Flash.Writer.flush
  used w := .ok w.position

end Firmware
