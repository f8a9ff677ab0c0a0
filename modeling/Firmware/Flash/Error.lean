import Firmware.Coded

namespace Firmware.Flash

inductive Error where
  | outOfRange
  | locked
  | notReady
  | misaligned
  | internal
  | unspecified
deriving DecidableEq, Repr, Inhabited

namespace Error

def all : List Error := [outOfRange, locked, notReady, misaligned, internal, unspecified]

def name : Error → String
  | outOfRange => "OutOfRange"
  | locked => "Locked"
  | notReady => "NotReady"
  | misaligned => "Misaligned"
  | internal => "Internal"
  | unspecified => "Unspecified"

instance : Named Error := ⟨all, name⟩

end Error

end Firmware.Flash
