import Firmware.Manifest.Basic

/-!
Envelopes: a map of the authentication wrapper, the manifest, and payloads under their names.
Decoding one authenticates nothing.
-/

namespace Firmware

open Cbor Manifest

/-- A signature over the encoded digest, which it does not carry along. -/
structure Sign1 where
  headers : Bytes
  algorithm : Option Int
  keyId : Option Bytes
  signature : Bytes
deriving DecidableEq

namespace Sign1

open Parameters

def maxSignatures : Nat := 4

inductive Partial where
  | none
  | headers (h : Bytes)
  | unprotected (h : Bytes) (keyId : Option Bytes)
  | detached (h : Bytes) (keyId : Option Bytes)
  | all (h : Bytes) (keyId : Option Bytes) (signature : Bytes)

def part : Partial → Item → Reader Partial
  | .none, i => do return .headers (← i.toBytes)
  | .headers h, i => do
    let keyId ← walk (m := Reader) (← i.mapCount) do
      match ← Walk.find? (key 4) with
      | some i => return some (← i.toBytes)
      | none => return none
    return .unprotected h keyId
  | .unprotected h keyId, .scalar .null => return .detached h keyId
  | .detached h keyId, i => do return .all h keyId (← i.toBytes)
  | _, _ => throw .unexpectedType

def algorithmOf : Reader (Option Int) := do
  let n ← walk (m := Reader) (← (← Item.parse).mapCount) do
    match ← Walk.find? (key 1) with
    | some i => return some (← i.toInteger)
    | none => return none
  match n with
  | some n => return some (← n.toInt32)
  | none => return none

def parse (b : Bytes) : Except Manifest.Error Sign1 := do
  let r : Reader Partial := do foldElements part (← (← Item.parse).arrayCount).toNat .none
  match ← (r.all .badEncoding b : Except Cbor.Error Partial) with
  | .all headers keyId signature => do
    let algorithm ← if headers.isEmpty then pure none else
      liftM (m := Except Cbor.Error) (algorithmOf.all .badEncoding headers)
    return { headers, algorithm, keyId, signature }
  | _ => throw .wrongShape

end Sign1

structure Envelope where
  digest : Digest
  digestBytes : Bytes
  signatures : List Sign1
  /-- The encoded manifest, without the head of its byte string. -/
  manifestBytes : Bytes
  manifest : Manifest
  payloads : List (Text × Bytes)
deriving DecidableEq

namespace Envelope

open Parameters

def maxPayloads : Nat := 8

/-- Keeps payloads; any other element may be there and is not looked at. -/
def element (ps : List (Text × Bytes)) : Scalar → Item → Decoder (List (Text × Bytes))
  | .text name, i => do append maxPayloads ps (name, ← i.toBytes)
  | _, i => do
    i.ignore
    return ps

def parseMap : Decoder (Bytes × Bytes × List (Text × Bytes)) := do
  walk (m := Decoder) (← (← Item.parse).mapCount) do
    let auth ← (← Walk.find (key 2)).toBytes
    let manifest ← (← Walk.find (key 3)).toBytes
    return (auth, manifest, ← Walk.rest element [])

def authPart : Option (Bytes × List Sign1) → Item → Decoder (Option (Bytes × List Sign1))
  | none, i => do return some (← i.toBytes, [])
  | some (digest, sigs), i => do
    return some (digest, ← append Sign1.maxSignatures sigs (← Sign1.parse (← i.toBytes)))

def parseAuth : Decoder (Option (Bytes × List Sign1)) := do
  foldElements authPart (← (← Item.parse).arrayCount).toNat none

def parse (b : Bytes) : Except Manifest.Error Envelope := do
  let (auth, manifestBytes, payloads) ← parseMap.whole b
  let some (digestBytes, signatures) ← parseAuth.whole auth | throw .wrongShape
  let digest ← Digest.ofBytes digestBytes
  let manifest ← Manifest.parse.whole manifestBytes
  return { digest, digestBytes, signatures, manifestBytes, manifest, payloads }

/-- The head of the byte string that holds the manifest; the digest covers both. -/
def manifestHead (e : Envelope) : Bytes := encodeHead 2 (UInt32.ofNat e.manifestBytes.length)

def payload? (e : Envelope) (name : Text) : Option Bytes := e.payloads.lookup name

end Envelope

end Firmware
