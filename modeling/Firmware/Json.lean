import Firmware.Double
import Firmware.Hex

/-!
Reading JSON. Strings may spell halves of surrogate pairs and numbers may be of any size, as far as
nobody asks for them.
-/

namespace Firmware

structure Json.Number where
  negative : Bool
  mantissa : Nat
  exponent : Int
  plain : Bool
deriving DecidableEq, Repr

inductive Json where
  | null
  | bool (b : Bool)
  | number (n : Json.Number)
  /-- There is no text if the string has half of a surrogate pair. -/
  | string (s : Option String)
  | array (xs : List Json)
  | object (ps : List (Option String × Json))
deriving Repr

namespace Json

abbrev Reader (α : Type) := StateT (List Char) Option α

def isBlank (c : Char) : Bool := c = ' ' || c = '\t' || c = '\n' || c = '\r'

def skip (s : List Char) : List Char := s.dropWhile isBlank

def decimal (ds : List Char) : Nat := ds.foldl (fun n c => 10 * n + (c.toNat - '0'.toNat)) 0

def digits : Reader (List Char) := fun s =>
  let ds := s.takeWhile Char.isDigit
  if ds.isEmpty then none else some (ds, s.dropWhile Char.isDigit)

def integerPart : Reader (List Char)
  | '0' :: s => some (['0'], s)
  | s => digits s

def fractionPart : Reader (Option (List Char))
  | '.' :: s => (some <$> digits) s
  | s => some (none, s)

def signedDigits : Reader Int
  | '-' :: s => (do return -(decimal (← digits) : Int)) s
  | '+' :: s => (do return (decimal (← digits) : Int)) s
  | s => (do return (decimal (← digits) : Int)) s

def exponentPart : Reader (Option Int)
  | 'e' :: s => (some <$> signedDigits) s
  | 'E' :: s => (some <$> signedDigits) s
  | s => some (none, s)

def readUnsigned (negative : Bool) : Reader Number := do
  let whole ← integerPart
  let fraction ← fractionPart
  let exponent ← exponentPart
  let places := fraction.getD []
  return {
    negative
    mantissa := decimal (whole ++ places)
    exponent := exponent.getD 0 - places.length
    plain := fraction.isNone && exponent.isNone }

def readNumber : Reader Number
  | '-' :: s => readUnsigned true s
  | s => readUnsigned false s

def hex4 : Reader Nat
  | a :: b :: c :: d :: s => do
    let ds ← [a, b, c, d].mapM Bytes.hexDigit?
    return (ds.foldl (fun n d => 16 * n + d) 0, s)
  | _ => none

def escape : Reader Nat
  | '"' :: s => some (0x22, s)
  | '\\' :: s => some (0x5c, s)
  | '/' :: s => some (0x2f, s)
  | 'b' :: s => some (0x08, s)
  | 'f' :: s => some (0x0c, s)
  | 'n' :: s => some (0x0a, s)
  | 'r' :: s => some (0x0d, s)
  | 't' :: s => some (0x09, s)
  | 'u' :: s => hex4 s
  | _ => none

def units : Nat → Reader (List Nat)
  | 0, _ => none
  | _ + 1, [] => none
  | fuel + 1, c :: s =>
    if c = '"' then some ([], s)
    else if c.toNat < 0x20 then none
    else if c = '\\' then (do return (← escape) :: (← units fuel)) s
    else (do return c.toNat :: (← units fuel)) s

def isHigh (u : Nat) : Bool := 0xd800 ≤ u && u < 0xdc00

def isLow (u : Nat) : Bool := 0xdc00 ≤ u && u < 0xe000

def join : List Nat → Option (List Char)
  | [] => some []
  | u :: us =>
    if isHigh u then
      match us with
      | v :: us =>
        if isLow v then
          (join us).map (Char.ofNat (0x10000 + (u - 0xd800) * 0x400 + (v - 0xdc00)) :: ·)
        else none
      | [] => none
    else if isLow u then none
    else (join us).map (Char.ofNat u :: ·)

def readString : Reader (Option String) := do
  return (join (← units ((← get).length + 1))).map String.ofList

mutual

def readValue : Nat → Reader Json
  | 0, _ => none
  | fuel + 1, s =>
    match skip s with
    | 'n' :: 'u' :: 'l' :: 'l' :: s => some (null, s)
    | 't' :: 'r' :: 'u' :: 'e' :: s => some (bool true, s)
    | 'f' :: 'a' :: 'l' :: 's' :: 'e' :: s => some (bool false, s)
    | '"' :: s => (string <$> readString) s
    | '[' :: s =>
      match skip s with
      | ']' :: s => some (array [], s)
      | s => (array <$> readElements fuel) s
    | '{' :: s =>
      match skip s with
      | '}' :: s => some (object [], s)
      | s => (object <$> readMembers fuel) s
    | s => (number <$> readNumber) s

def readElements : Nat → Reader (List Json)
  | 0, _ => none
  | fuel + 1, s => do
    let (x, s) ← readValue fuel s
    match skip s with
    | ',' :: s => (do return x :: (← readElements fuel)) s
    | ']' :: s => some ([x], s)
    | _ => none

def readMembers : Nat → Reader (List (Option String × Json))
  | 0, _ => none
  | fuel + 1, s => do
    let '"' :: s := skip s | none
    let (k, s) ← readString s
    let ':' :: s := skip s | none
    let (x, s) ← readValue fuel s
    match skip s with
    | ',' :: s => (do return (k, x) :: (← readMembers fuel)) s
    | '}' :: s => some ([(k, x)], s)
    | _ => none

end

/-- Reads a text that holds one value. Every second call takes a character, which bounds the fuel. -/
def ofText? (text : String) : Option Json := do
  let s := text.toList
  let (v, s) ← readValue (2 * s.length + 2) s
  if (skip s).isEmpty then some v else none

def Number.toNat? (n : Number) : Option Nat :=
  if n.plain && !n.negative then some n.mantissa else none

def Number.leading (mantissa : Nat) (exponent : Int) : Nat × Int :=
  if mantissa < 0x10000000000000000 then (mantissa, exponent)
  else leading (mantissa / 10) (exponent + 1)
termination_by mantissa

/-- Whether the number is worked out to a double. The leading digits and the power of ten are rounded
first, then their product. Powers above 308 are too large. -/
def Number.isFinite (n : Number) : Bool :=
  let (m, e) := leading n.mantissa n.exponent
  m = 0 || e ≤ 308 &&
    Double.round (Double.round m * Double.round (Nat.pow 10 e.toNat)) < Double.limit

mutual

def isModest : Nat → Json → Bool
  | _, null => true
  | _, bool _ => true
  | _, .number n => n.isFinite
  | _, .string s => s.isSome
  | 0, array _ => false
  | 0, object _ => false
  | n + 1, array xs => allModest n xs
  | n + 1, object ps => pairsModest n ps

def allModest (n : Nat) : List Json → Bool
  | [] => true
  | x :: xs => isModest n x && allModest n xs

def pairsModest (n : Nat) : List (Option String × Json) → Bool
  | [] => true
  | (k, x) :: ps => k.isSome && isModest n x && pairsModest n ps

end

end Json

end Firmware
