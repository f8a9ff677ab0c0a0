import Firmware.Cbor.Head

/-!
Items as their heads announce them. The parts of an array or a map are read by folding the item;
`Item.complete` folds it into the tree of all its parts.
-/

namespace Firmware.Cbor

variable {α β : Type} {m : Type → Type} [Monad m] [MonadLiftT Reader m]

inductive Item where
  | scalar (s : Scalar)
  | array (count : UInt32)
  | map (count : UInt32)
deriving DecidableEq

def maxTags : Nat := 4

def simple (info : UInt8) : Except Error Scalar :=
  match info.toNat with
  | 20 => .ok (.bool false)
  | 21 => .ok (.bool true)
  | 22 => .ok .null
  | _ => .error .badEncoding

def readText (n : Nat) : Reader Text := do
  match Text.ofBytes? (← Reader.take n) with
  | some t => pure t
  | none => throw .badEncoding

def Item.ofHead (major : UInt8) (argument : UInt32) : Reader Item :=
  match major.toNat with
  | 0 => pure (.scalar (.int ⟨false, argument⟩))
  | 1 => pure (.scalar (.int ⟨true, argument⟩))
  | 2 => do return .scalar (.bytes (← Reader.take argument.toNat))
  | 3 => do return .scalar (.text (← readText argument.toNat))
  | 4 => pure (.array argument)
  | _ => pure (.map argument)

def Item.untagged? : Reader (Option Item) := do
  let initial ← Reader.byte
  let major := initial >>> 5
  let info := initial &&& 0x1f
  if major = 7 then
    return some (.scalar (← simple info))
  let argument ← readArgument info
  if major = 6 then return none
  return some (← Item.ofHead major argument)

def Item.parseTagged : Nat → Reader Item
  | 0 => do
    match ← Item.untagged? with
    | some i => pure i
    | none => throw .badEncoding
  | tags + 1 => do
    match ← Item.untagged? with
    | some i => pure i
    | none => parseTagged tags

def Item.parse : Reader Item := Item.parseTagged maxTags

def foldElements (body : β → Item → m β) : Nat → β → m β
  | 0, b => pure b
  | count + 1, b => do foldElements body count (← body b (← Item.parse))

def readKey (previous : Option Scalar) : Reader Scalar := do
  match ← Item.parse with
  | .scalar k =>
    if k.isKey && previous.all (compare · k == .lt) then pure k else throw .badEncoding
  | _ => throw .badEncoding

def foldPairs (body : β → Scalar → Item → m β) : Nat → Option Scalar → β → m β
  | 0, _, b => pure b
  | count + 1, previous, b => do
    let k ← readKey previous
    foldPairs body count (some k) (← body b k (← Item.parse))

inductive Value where
  | scalar (s : Scalar)
  | array (vs : List Value)
  | map (ps : List (Scalar × Value))

namespace Item

def completeTo : Nat → Item → Reader Value
  | _, .scalar s => pure (.scalar s)
  | 0, _ => throw .truncated
  | depth + 1, .array n =>
    .array <$> foldElements (fun vs i => do return vs ++ [← completeTo depth i]) n.toNat []
  | depth + 1, .map n =>
    .map <$> foldPairs (fun ps k i => do return ps ++ [(k, ← completeTo depth i)]) n.toNat none []

/-- Folds an item into its tree. Every level takes a byte, so the input bounds the depth. -/
def complete (i : Item) : Reader Value := do completeTo ((← get).length + 1) i

def ignore (i : Item) : Reader Unit := discard i.complete

def toInteger : Item → Except Error Integer
  | .scalar (.int i) => .ok i
  | _ => .error .unexpectedType

def toUInt32 (i : Item) : Except Error UInt32 := do (← i.toInteger).toUInt32

def toBool : Item → Except Error Bool
  | .scalar (.bool b) => .ok b
  | _ => .error .unexpectedType

def toText : Item → Except Error Text
  | .scalar (.text t) => .ok t
  | _ => .error .unexpectedType

def toBytes : Item → Except Error Bytes
  | .scalar (.bytes b) => .ok b
  | _ => .error .unexpectedType

def readAll (r : Reader α) (i : Item) : Except Error α := do r.all .badEncoding (← i.toBytes)

def arrayCount : Item → Except Error UInt32
  | .array n => .ok n
  | _ => .error .unexpectedType

def mapCount : Item → Except Error UInt32
  | .map n => .ok n
  | _ => .error .unexpectedType

end Item

/-- Reads `left` elements by calls that each take some of them and say how many. -/
def claims (body : m (α × Nat)) (left : Nat) : m (List α) :=
  if left = 0 then pure []
  else do
    let (a, n) ← body
    if _h : 0 < n ∧ n ≤ left then
      return a :: (← claims body (left - n))
    else show Reader (List α) from throw .badEncoding
termination_by left

def readRaw : Reader Bytes := do return (← Reader.spanned (do (← Item.parse).ignore)).1

def itemLength (b : Bytes) : Except Error Nat := do return (← readRaw b).1.length

end Firmware.Cbor
