import Firmware.Hash.Algorithm
import Firmware.Hash.Constants

namespace Firmware.Hash.Sha2

structure Family (ω : Type) where
  width : Nat
  ofNat : Nat → ω
  toNat : ω → Nat
  bigSigma0 : ω → ω
  bigSigma1 : ω → ω
  smallSigma0 : ω → ω
  smallSigma1 : ω → ω
  rounds : List ω

def rotate32 (x : UInt32) (n : UInt32) : UInt32 := x >>> n ||| x <<< (32 - n)

def rotate64 (x : UInt64) (n : UInt64) : UInt64 := x >>> n ||| x <<< (64 - n)

def family32 : Family UInt32 where
  width := 4
  ofNat := UInt32.ofNat
  toNat := UInt32.toNat
  bigSigma0 x := rotate32 x 2 ^^^ rotate32 x 13 ^^^ rotate32 x 22
  bigSigma1 x := rotate32 x 6 ^^^ rotate32 x 11 ^^^ rotate32 x 25
  smallSigma0 x := rotate32 x 7 ^^^ rotate32 x 18 ^^^ x >>> 3
  smallSigma1 x := rotate32 x 17 ^^^ rotate32 x 19 ^^^ x >>> 10
  rounds := rounds32

def family64 : Family UInt64 where
  width := 8
  ofNat := UInt64.ofNat
  toNat := UInt64.toNat
  bigSigma0 x := rotate64 x 28 ^^^ rotate64 x 34 ^^^ rotate64 x 39
  bigSigma1 x := rotate64 x 14 ^^^ rotate64 x 18 ^^^ rotate64 x 41
  smallSigma0 x := rotate64 x 1 ^^^ rotate64 x 8 ^^^ x >>> 7
  smallSigma1 x := rotate64 x 19 ^^^ rotate64 x 61 ^^^ x >>> 6
  rounds := rounds64

variable {ω : Type} [Add ω] [AndOp ω] [XorOp ω] [Complement ω] [Inhabited ω]

def digits : Nat → Nat → Bytes
  | 0, _ => []
  | width + 1, n => digits width (n / 0x100) ++ [UInt8.ofNat n]

def pieces (size : Nat) : Nat → Bytes → List Bytes
  | 0, _ => []
  | fuel + 1, s => if s.isEmpty then [] else s.take size :: pieces size fuel (s.drop size)

def pad (F : Family ω) (message : Bytes) : Bytes :=
  let block := 16 * F.width
  let used := message.length + 1 + 2 * F.width
  message ++ 0x80 :: List.replicate ((block - used % block) % block) 0
    ++ digits (2 * F.width) (8 * message.length)

def words (F : Family ω) (s : Bytes) : List ω :=
  (pieces F.width s.length s).map fun b => F.ofNat (Bytes.toNatBe b)

/-- Lengthens the schedule, kept newest first, by `n` words. -/
def extend (F : Family ω) : Nat → Array ω → Array ω
  | 0, w => w
  | n + 1, w =>
    let i := w.size
    extend F n (w.push (F.smallSigma1 w[i - 2]! + w[i - 7]! + F.smallSigma0 w[i - 15]! + w[i - 16]!))

def round (F : Family ω) : List ω → ω × ω → List ω
  | [a, b, c, d, e, f, g, h], (k, w) =>
    let t1 := h + F.bigSigma1 e + ((e &&& f) ^^^ (~~~e &&& g)) + k + w
    let t2 := F.bigSigma0 a + ((a &&& b) ^^^ (a &&& c) ^^^ (b &&& c))
    [t1 + t2, a, b, c, d + t1, e, f, g]
  | s, _ => s

def compress (F : Family ω) (state : List ω) (block : Bytes) : List ω :=
  let schedule := extend F (F.rounds.length - 16) (words F block).toArray
  List.zipWith (· + ·) state ((F.rounds.zip schedule.toList).foldl (round F) state)

def hash (F : Family ω) (initial : List ω) (message : Bytes) : Bytes :=
  let padded := pad F message
  let state := (pieces (16 * F.width) padded.length padded).foldl (compress F) initial
  state.flatMap fun w => digits F.width (F.toNat w)

end Sha2

open Sha2

def digest : Algorithm → Bytes → Bytes
  | .sha256, m => (hash family32 initial256 m).take 32
  | .sha384, m => (hash family64 initial384 m).take 48
  | .sha512, m => (hash family64 initial512 m).take 64

end Firmware.Hash
