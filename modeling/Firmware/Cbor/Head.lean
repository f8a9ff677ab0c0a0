import Firmware.Cbor.Scalar

/-!
The head of an item: three bits of major type and an argument below 2^32 in its shortest form.
Readers take bytes off the front of their input.
-/

namespace Firmware.Cbor

abbrev Decoder (ε α : Type) := StateT Bytes (Except ε) α

def Decoder.all {ε α : Type} (leftover : ε) (r : Decoder ε α) (s : Bytes) : Except ε α :=
  match r s with
  | .ok (a, []) => .ok a
  | .ok (_, _ :: _) => .error leftover
  | .error e => .error e

abbrev Reader (α : Type) := Decoder Error α

namespace Reader

def byte : Reader UInt8
  | [] => .error .truncated
  | b :: s => .ok (b, s)

def take (n : Nat) : Reader Bytes := fun s =>
  if n ≤ s.length then .ok (s.splitAt n) else .error .truncated

def spanned {α : Type} (r : Reader α) : Reader (Bytes × α) := fun s => do
  let (a, t) ← r s
  return ((s.take (s.length - t.length), a), t)

end Reader

/-- Refuses a number that a shorter form could hold. -/
def atLeast (low : Nat) (n : Nat) : Reader UInt32 :=
  if n < low then throw .badEncoding else pure (UInt32.ofNat n)

def readArgument (info : UInt8) : Reader UInt32 :=
  match info.toNat with
  | 24 => do atLeast 24 (← Reader.byte).toNat
  | 25 => do atLeast 0x100 (Bytes.toNatBe (← Reader.take 2))
  | 26 => do atLeast 0x10000 (Bytes.toNatBe (← Reader.take 4))
  | n => if n < 24 then pure (UInt32.ofNat n) else throw .badEncoding

/-- The shortest head; of `major`, only the low three bits count. -/
def encodeHead (major : UInt8) (argument : UInt32) : Bytes :=
  let initial := fun info : UInt8 => major <<< 5 ||| info
  let n := argument.toNat
  if n < 24 then [initial (UInt8.ofNat n)]
  else if n < 0x100 then [initial 24, UInt8.ofNat n]
  else if n < 0x10000 then initial 25 :: (Bytes.be32 argument).drop 2
  else initial 26 :: Bytes.be32 argument

end Firmware.Cbor
