import Firmware.Cbor.Item

namespace Firmware.Cbor

def lengthHead (major : UInt8) (n : Nat) : Bytes := encodeHead major (UInt32.ofNat n)

def Scalar.encode : Scalar → Bytes
  | int i => encodeHead (if i.negative then 1 else 0) i.argument
  | bytes b => lengthHead 2 b.length ++ b
  | text t => lengthHead 3 t.length ++ t.bytes
  | bool false => [0xf4]
  | bool true => [0xf5]
  | null => [0xf6]

namespace Value

mutual

def encode : Value → Bytes
  | scalar s => s.encode
  | array vs => lengthHead 4 vs.length ++ encodeAll vs
  | map ps => lengthHead 5 ps.length ++ encodePairs ps

def encodeAll : List Value → Bytes
  | [] => []
  | v :: vs => encode v ++ encodeAll vs

def encodePairs : List (Scalar × Value) → Bytes
  | [] => []
  | (k, v) :: ps => k.encode ++ encode v ++ encodePairs ps

end

end Value

end Firmware.Cbor
