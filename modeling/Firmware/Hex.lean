import Firmware.Bytes

namespace Firmware.Bytes

def hexByte (b : UInt8) : List Char :=
  [Nat.digitChar (b.toNat / 16), Nat.digitChar (b.toNat % 16)]

def toHex (b : Bytes) : String := String.ofList (b.flatMap hexByte)

def hexDigit? (c : Char) : Option Nat :=
  if '0' ≤ c ∧ c ≤ '9' then some (c.toNat - '0'.toNat)
  else if 'a' ≤ c ∧ c ≤ 'f' then some (c.toNat - 'a'.toNat + 10)
  else if 'A' ≤ c ∧ c ≤ 'F' then some (c.toNat - 'A'.toNat + 10)
  else none

def ofHexDigits? : List Char → Option Bytes
  | [] => some []
  | [_] => none
  | a :: b :: s => do
    return UInt8.ofNat (16 * (← hexDigit? a) + (← hexDigit? b)) :: (← ofHexDigits? s)

def ofHex? (s : String) : Option Bytes := ofHexDigits? s.toList

end Firmware.Bytes
