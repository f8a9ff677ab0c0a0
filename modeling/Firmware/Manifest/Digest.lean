import Firmware.Hash.Algorithm
import Firmware.Manifest.Error

namespace Firmware.Manifest

open Cbor

structure Digest where
  algorithm : Hash.Algorithm
  value : Bytes
deriving DecidableEq

namespace Digest

def part : Option Integer × Option Bytes → Item → Decoder (Option Integer × Option Bytes)
  | (none, v), i => do return (some (← i.toInteger), v)
  | (some n, none), i => do return (some n, some (← i.toBytes))
  | _, _ => throw .wrongShape

def parse (i : Item) : Decoder Digest := do
  match ← foldElements part (← i.arrayCount).toNat (none, none) with
  | (some n, some value) =>
    let some algorithm := n.toInt32.toOption.bind Hash.Algorithm.ofIdentifier?
      | throw .unknownAlgorithm
    if value.length = algorithm.size then return ⟨algorithm, value⟩ else throw .wrongShape
  | _ => throw .wrongShape

def ofBytes (b : Bytes) : Except Error Digest := (do parse (← Item.parse) : Decoder Digest).whole b

end Digest

end Firmware.Manifest
