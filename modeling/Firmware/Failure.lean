import Firmware.Flash.Error
import Firmware.Hash.Engine

namespace Firmware

inductive Failure where
  | invalid
  | size
  | outOfBounds
  | notFound
  | notReady
  | io
  | noResources
  | incorrectState
  | internal
  | timeout
  | authentication
  | unsupported
  | busy
deriving DecidableEq, Repr, Inhabited

namespace Failure

def all : List Failure :=
  [invalid, size, outOfBounds, notFound, notReady, io, noResources, incorrectState, internal, timeout,
    authentication, unsupported, busy]

def name : Failure → String
  | invalid => "Inval"
  | size => "Size"
  | outOfBounds => "OutOfBounds"
  | notFound => "NotFound"
  | notReady => "HwNotReady"
  | io => "Io"
  | noResources => "NoResources"
  | incorrectState => "IncorrectState"
  | internal => "Crash"
  | timeout => "Timeout"
  | authentication => "Authentication"
  | unsupported => "Unsupported"
  | busy => "Busy"

instance : Named Failure := ⟨all, name⟩

def message : Failure → String
  | invalid => "invalid argument"
  | size => "size out of range"
  | outOfBounds => "out of bounds"
  | notFound => "not found"
  | notReady => "hardware not ready"
  | io => "i/o failure"
  | noResources => "no resources"
  | incorrectState => "incorrect state"
  | internal => "internal failure"
  | timeout => "timed out"
  | authentication => "authentication failure"
  | unsupported => "unsupported"
  | busy => "busy"

def wrapped (e : Failure) : String := "suit_core::Error \x7b inner: " ++ e.message ++ " \x7d"

end Failure

def Flash.Error.failure : Flash.Error → Failure
  | outOfRange => .outOfBounds
  | locked => .io
  | notReady => .notReady
  | misaligned => .invalid
  | internal => .internal
  | unspecified => .io

def Hash.Error.failure : Hash.Error → Failure
  | wrongSize => .invalid
  | idle => .incorrectState
  | mismatch => .internal
  | unspecified => .internal

end Firmware
