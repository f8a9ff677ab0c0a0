import Firmware.Stream.Feed

namespace Firmware

open Manifest

class Source (τ : Type) where
  supports : τ → ComponentType → Bool
  /-- Feeds a payload, or answers `notFound` and feeds nothing. -/
  stream : τ → Text → StreamOptions → Feed (Except Failure Unit × τ)

structure Payloads where
  items : List (Text × Bytes)

instance : Source Payloads where
  supports _ _ := true
  stream p uri _ :=
    match p.items.lookup uri with
    | some data => do return (← Feed.ask (.write data), p)
    | none => return (.error .notFound, p)

instance {σ τ : Type} [Source σ] [Source τ] : Source (σ ⊕ τ) where
  supports
    | .inl s => Source.supports s
    | .inr t => Source.supports t
  stream
    | .inl s, uri, o => do
      let (r, s) ← Source.stream s uri o
      return (r, .inl s)
    | .inr t, uri, o => do
      let (r, t) ← Source.stream t uri o
      return (r, .inr t)

namespace Source

variable {τ : Type} [Source τ]

/--
Feeds a payload from the first tier that serves the type and has the payload. Any failure but
`notFound` ends the search. Tiers are counted from `i`.
-/
def fetch (uri : Text) (type : ComponentType) (options : StreamOptions) :
    Nat → List τ → Feed (Except Failure Unit × List τ)
  | _, [] => return (.error .notFound, [])
  | i, t :: ts => do
    Feed.remark (.supports i type)
    if supports t type then
      Feed.remark (.tier i uri options)
      match ← stream t uri options with
      | (.error .notFound, t) => do
        let (r, ts) ← fetch uri type options (i + 1) ts
        return (r, t :: ts)
      | (r, t) => return (r, t :: ts)
    else
      let (r, ts) ← fetch uri type options (i + 1) ts
      return (r, t :: ts)

end Source

end Firmware
