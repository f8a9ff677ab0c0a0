import Firmware.Coded
import Firmware.Text

/-!
Scalars of the binary object format, in the order of their encodings: integers, text, byte strings,
booleans, null. Strings compare by length first.
-/

namespace Firmware.Cbor

inductive Error where
  | truncated
  | badEncoding
  | unexpectedType
  | outOfRange
deriving DecidableEq, Repr

instance : Named Error where
  all := [.truncated, .badEncoding, .unexpectedType, .outOfRange]
  name
    | .truncated => "Truncated"
    | .badEncoding => "BadEncoding"
    | .unexpectedType => "UnexpectedType"
    | .outOfRange => "OutOfRange"

/-- An integer of 33 bits: `argument` itself, or `-1 - argument`. -/
structure Integer where
  negative : Bool
  argument : UInt32
deriving DecidableEq

namespace Integer

def value (i : Integer) : Int :=
  if i.negative then -1 - (i.argument.toNat : Int) else i.argument.toNat

def ofUInt32 (n : UInt32) : Integer := ⟨false, n⟩

def ofInt? (n : Int) : Option Integer :=
  if 0 ≤ n ∧ n < 0x100000000 then some ⟨false, UInt32.ofNat n.toNat⟩
  else if n < 0 ∧ -0x100000000 ≤ n then some ⟨true, UInt32.ofNat (-1 - n).toNat⟩
  else none

def toUInt32 (i : Integer) : Except Error UInt32 :=
  if i.negative then .error .outOfRange else .ok i.argument

def toInt32 (i : Integer) : Except Error Int :=
  if -0x80000000 ≤ i.value ∧ i.value < 0x80000000 then .ok i.value else .error .outOfRange

protected def compare (a b : Integer) : Ordering :=
  (compare a.negative b.negative).then (compare a.argument b.argument)

end Integer

inductive Scalar where
  | int (i : Integer)
  | text (t : Text)
  | bytes (b : Bytes)
  | bool (b : Bool)
  | null
deriving DecidableEq

namespace Scalar

/-- Shorter strings come first; strings of one length compare byte by byte. -/
def compareBytes (a b : Bytes) : Ordering := (compare a.length b.length).then (compare a b)

protected def compare : Scalar → Scalar → Ordering
  | int a, int b => a.compare b
  | int _, _ => .lt
  | _, int _ => .gt
  | text a, text b => compareBytes a.bytes b.bytes
  | text _, _ => .lt
  | _, text _ => .gt
  | bytes a, bytes b => compareBytes a b
  | bytes _, _ => .lt
  | _, bytes _ => .gt
  | bool a, bool b => compare a b
  | bool _, null => .lt
  | null, bool _ => .gt
  | null, null => .eq

instance : Ord Scalar := ⟨Scalar.compare⟩

instance : LT Scalar := ltOfOrd

def isKey : Scalar → Bool
  | int _ | text _ => true
  | _ => false

end Scalar

end Firmware.Cbor
