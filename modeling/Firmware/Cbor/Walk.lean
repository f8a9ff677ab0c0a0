import Firmware.Cbor.Item

/-!
Walking a map: keys are asked for in increasing order, and the pairs between them are read and
dropped. A walk ends by reading all pairs that are left.
-/

namespace Firmware.Cbor

variable {α β : Type} {m : Type → Type} [Monad m] [MonadLiftT Reader m]

structure Walker where
  left : Nat
  previous : Option Scalar
  /-- A key that was read while its value was not. -/
  ahead : Option Scalar
  lastAsked : Option Scalar

abbrev Walk (m : Type → Type) (α : Type) := StateT Walker m α

namespace Walker

def start (count : Nat) : Walker := ⟨count, none, none, none⟩

/-- Looks for `key` from the pair whose key `k` has been read and which `left` pairs follow. -/
def seek (key : Scalar) : Nat → Scalar → Reader (Option Item × Walker)
  | left, k =>
    match compare k key with
    | .lt => do
      (← Item.parse).ignore
      match left with
      | 0 => pure (none, ⟨0, some k, none, some key⟩)
      | left + 1 => seek key left (← readKey (some k))
    | .eq => do return (some (← Item.parse), ⟨left, some k, none, some key⟩)
    | .gt => pure (none, ⟨left, none, some k, some key⟩)

def find (key : Scalar) (w : Walker) : Reader (Option Item × Walker) :=
  if w.lastAsked.all (compare · key == .lt) then
    match w.ahead, w.left with
    | some k, left => seek key left k
    | none, 0 => pure (none, { w with lastAsked := some key })
    | none, left + 1 => do seek key left (← readKey w.previous)
  else throw .badEncoding

def rest (body : β → Scalar → Item → m β) (b : β) (w : Walker) : m β :=
  match w.ahead with
  | none => foldPairs body w.left w.previous b
  | some k => do foldPairs body w.left (some k) (← body b k (← Item.parse))

end Walker

namespace Walk

def find? (key : Scalar) : Walk m (Option Item) := fun w => Walker.find key w

def find (key : Scalar) : Walk m Item := do
  match ← find? key with
  | some i => pure i
  | none => show Reader Item from throw .unexpectedType

def rest (body : β → Scalar → Item → m β) (b : β) : Walk m β := fun w => do
  return (← w.rest body b, { w with left := 0, ahead := none })

end Walk

def walk (count : UInt32) (body : Walk m α) : m α := do
  let (a, w) ← body.run (Walker.start count.toNat)
  w.rest (fun _ _ i => i.ignore) ()
  return a

end Firmware.Cbor
