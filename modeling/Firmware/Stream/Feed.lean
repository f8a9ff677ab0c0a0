import Firmware.Manifest.Component
import Firmware.Stream.Sink

/-!
Feeds: what a source does to a sink, one call after the other, each depending on how the ones before
went. A feed knows nothing of the sink but its replies.
-/

namespace Firmware

open Manifest

structure StreamOptions where
  chunkTimeout : UInt32
  requestPeriod : UInt32
deriving DecidableEq

def StreamOptions.usual : StreamOptions := ⟨5000, 1000⟩

structure Chunk where
  session : UInt32
  id : UInt32
  offset : UInt32
  data : Bytes
  last : Bool
deriving DecidableEq

inductive ChunkStatus where
  | processed
  | refused
deriving DecidableEq, Repr, Inhabited

instance : Named ChunkStatus where
  all := [.processed, .refused]
  name
    | .processed => "Processed"
    | .refused => "Refused"

inductive Note where
  | supports (tier : Nat) (type : ComponentType)
  | tier (i : Nat) (uri : Text) (options : StreamOptions)
  | request (uri : Text) (session : UInt32) (now : Nat) (reply : Except Failure Unit)
  | receive (wait now : Nat) (reply : Except Failure (Option Chunk))
  | status (session id : UInt32) (status : ChunkStatus) (reply : Except Failure Unit)

inductive Feed (α : Type) where
  | done (a : α)
  | note (n : Note) (next : Feed α)
  | call (c : SinkCall) (next : Except Failure Unit → Feed α)

namespace Feed

variable {α β ω : Type}

protected def bind : Feed α → (α → Feed β) → Feed β
  | done a, f => f a
  | note n next, f => note n (next.bind f)
  | call c next, f => call c fun r => (next r).bind f

instance : Monad Feed where
  pure := done
  bind := Feed.bind

def ask (c : SinkCall) : Feed (Except Failure Unit) := call c done

def writeAll : List Bytes → Feed (Except Failure Unit)
  | [] => done (.ok ())
  | b :: bs => call (.write b) fun
    | .ok () => writeAll bs
    | .error e => done (.error e)

def remark (n : Note) : Feed Unit := note n (done ())

def run (perform : SinkCall → EStateM Failure ω Unit) (observe : Note → ω → ω) :
    Feed α → ω → α × ω
  | done a, w => (a, w)
  | note n next, w => next.run perform observe (observe n w)
  | call c next, w =>
    match perform c w with
    | .ok () w => (next (.ok ())).run perform observe w
    | .error e w => (next (.error e)).run perform observe w

def into [Sink ω] (f : Feed α) (s : ω) : α × ω := f.run Sink.call (fun _ s => s) s

theorem run_bind (perform : SinkCall → EStateM Failure ω Unit) (observe : Note → ω → ω)
    (f : Feed α) (g : α → Feed β) (w : ω) :
    (f >>= g).run perform observe w =
      (g (f.run perform observe w).1).run perform observe (f.run perform observe w).2 := by
  change (f.bind g).run perform observe w = _
  induction f generalizing w with
  | done a => rfl
  | note n next ih => exact ih _
  | call c next ih =>
    simp only [Feed.bind, run]
    cases perform c w <;> exact ih _ _

end Feed

end Firmware
