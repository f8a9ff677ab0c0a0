import Firmware.Cbor.Item
import Firmware.Storage.Layout

namespace Firmware.Storage

open Flash

variable {δ : Type} [Flash δ] (l : Layout)

def installEnvelope (c : Uuid) (envelope : Bytes) : EStateM Failure δ Unit := do
  Record.save (← l.slot c).region envelope

/-- The installed envelope of a class: the first item of its slot, without the padding. -/
def installedEnvelope (c : Uuid) (d : δ) : EStateM Failure Arena Bytes := do
  let body ← Record.readBinary (← l.slot c).region d
  match Cbor.itemLength body with
  | .ok n => return body.take n
  | .error _ => throw .notFound

def clearEnvelope (c : Uuid) : EStateM Failure δ Unit := do Record.clear (← l.slot c).region

def saveReport (i : Nat) (report : Bytes) : EStateM Failure δ Unit := do
  Record.save (← l.report i) report

def readReport (i : Nat) (d : δ) : EStateM Failure Arena Bytes := do
  Record.readBinary (← l.report i) d

def clearReport (i : Nat) : EStateM Failure δ Unit := do Record.clear (← l.report i)

def maxCandidateRegions : Nat := 8

def setCandidate (rs : List Region) : EStateM Failure δ Unit := do
  if rs.isEmpty then throw .invalid
  unless rs.length ≤ maxCandidateRegions do throw .size
  Record.write l.candidate .binary [Bytes.le32 (UInt32.ofNat rs.length), rs.flatMap Region.encode]

def candidate (d : δ) : EStateM Failure Arena (List Region) := do
  let r := l.candidate
  discard (Record.checkRegion r d)
  let head ← (read r.start 8 d).mapError Flash.Error.failure
  unless Record.magic? head = some .binary do throw .notFound
  let some n := (Bytes.word32? (head.drop 4)).map UInt32.toNat | throw .notFound
  unless 0 < n ∧ n ≤ maxCandidateRegions do throw .notFound
  let items ← (readItems 8 4 (r.start + 8) n d).adaptExcept Flash.Error.failure
  return items.filterMap Region.ofBytes?

def clearCandidate : EStateM Failure δ Unit := Record.clear l.candidate

end Firmware.Storage
