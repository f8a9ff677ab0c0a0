import Firmware.Cbor.Item
import Firmware.Storage.Record
import Firmware.Stream.Source

/-!
The payload cache. A partition holds a map without a length, from names to payloads; the first erased
byte behind the last entry is the end of the map. The length of an entry is left erased while its
payload is written, so that an unfinished entry is not well formed, and each entry is filled up to
the erase unit by an entry under the empty name.
-/

namespace Firmware

open Flash Cbor

namespace Cache

def maxName : Nat := 128

def mapStart : UInt8 := 0xbf

/-- The end of a map, and what erased flash reads as. -/
def mapEnd : UInt8 := 0xff

def longBytes : UInt8 := 0x5a

def longHead (n : Nat) : Bytes := longBytes :: Bytes.be32 (UInt32.ofNat n)

/-- An empty name and the head of an empty payload. -/
def minPadding : Nat := 6

inductive Tail where
  | free (offset : Nat)
  | dirty (offset : Nat)
deriving DecidableEq, Repr

def Tail.offset : Tail → Nat
  | free n | dirty n => n

def readEntry : Reader (Text × Bytes) := do
  let name ← (← Item.parse).toText
  let head ← Reader.take 5
  unless head.head? = some longBytes do throw .unexpectedType
  return (name, ← Reader.take (Bytes.toNatBe head.tail))

/-- The entries of `s`, of which there are at most `fuel`; `s` lies at `offset`. -/
def scanEntries : Nat → Nat → Bytes → List (Text × Bytes) × Tail
  | 0, offset, _ => ([], .dirty offset)
  | fuel + 1, offset, s =>
    match s with
    | [] => ([], .free offset)
    | b :: _ =>
      if b = mapEnd then ([], .free offset)
      else
        match readEntry s with
        | .ok (e, t) =>
          let (es, tail) := scanEntries fuel (offset + (s.length - t.length)) t
          (e :: es, tail)
        | .error _ => ([], .dirty offset)

def scan : Bytes → List (Text × Bytes) × Tail
  | [] => ([], .free 0)
  | b :: s =>
    if b = mapEnd then ([], .free 0)
    else if b = mapStart then scanEntries (s.length + 1) 1 s
    else ([], .dirty 0)

/-- The payload under a name in the contents of a partition. The empty name is that of padding. -/
def lookup (name : Text) (contents : Bytes) : Option Bytes :=
  if name.isEmpty then none else (scan contents).1.lookup name

end Cache

structure Cache (δ : Type) where
  device : δ
  partitions : List Region

namespace Cache

variable {δ : Type} [Flash δ]

def create (d : δ) (partitions : List Region) : Except Failure (Cache δ) := do
  partitions.forM fun r => discard (Storage.Record.checkRegion r d)
  return ⟨d, partitions⟩

def contents (d : δ) (r : Region) : EStateM Failure Arena Bytes :=
  (readDirect r.start r.size 1 d).adaptExcept Flash.Error.failure

def searchIn (d : δ) (name : Text) : List Region → EStateM Failure Arena Bytes
  | [] => throw .notFound
  | r :: rs => do
    match lookup name (← contents d r) with
    | some payload => return payload
    | none => searchIn d name rs

def search (c : Cache δ) (name : Text) : EStateM Failure Arena Bytes :=
  searchIn c.device name c.partitions

def payload (c : Cache δ) (name : Text) : Except Failure Bytes := answer (c.search name .empty)

instance : Source (Cache δ) where
  supports _ _ := true
  stream c uri _ :=
    match c.payload uri with
    | .ok data => do return (← Feed.ask (.write data), c)
    | .error e => return (.error e, c)

def partition (i : Nat) (c : Cache δ) : Except Failure Region :=
  match c.partitions[i]? with
  | some r => .ok r
  | none => .error .notFound

def onDevice {α : Type} (f : EStateM Failure δ α) : EStateM Failure (Cache δ) α :=
  onPart device (fun c d => { c with device := d }) f

def eraseRange (address len : Nat) : EStateM Failure (Cache δ) Unit :=
  onDevice ((erase address len).adaptExcept Flash.Error.failure)

def clear (i : Nat) : EStateM Failure (Cache δ) Unit := do
  let r ← (← get).partition i
  eraseRange r.start r.size

structure OpenEntry (δ : Type) where
  writer : Writer δ
  head : Bytes
  block : Nat
  lengthAt : Nat
  written : Nat

/-- Where the next entry of a partition starts. An unfinished entry is erased. -/
def nextStart (r : Region) (tail : Tail) : EStateM Failure (Cache δ) Nat := do
  let block := eraseUnit (← get).device
  match tail with
  | .free offset => if offset % block = 0 then return offset else rewind (offset - offset % block)
  | .dirty offset => rewind (offset - offset % block)
where
  rewind (start : Nat) : EStateM Failure (Cache δ) Nat := do
    eraseRange (r.start + start) (r.size - start)
    return start

/-- What stands before the payload of an entry, its length left erased. -/
def entryHead (start : Nat) (name : Text) : Bytes :=
  (if start = 0 then [mapStart] else []) ++ encodeHead 3 (UInt32.ofNat name.length) ++ name.bytes ++
    longBytes :: Bytes.erased 4

def openEntry (i : Nat) (name : Text) : EStateM Failure (Cache δ) (OpenEntry δ) := do
  if name.isEmpty then throw .invalid
  unless name.length ≤ maxName do throw .size
  let c ← get
  if (c.payload name).isOk then throw .invalid
  let r ← c.partition i
  let (_, tail) := scan (← answer (contents c.device r .empty))
  let start ← nextStart r tail
  unless start < r.size do throw .noResources
  let head := entryHead start name
  let range : Region := ⟨UInt32.ofNat (r.start + start), UInt32.ofNat (r.size - start)⟩
  let c ← get
  let w ← Writer.start range c.device
  onDevice (fun d =>
    match Writer.write head { w with device := d } with
    | .ok () w => .ok ⟨w, head, eraseUnit c.device, r.start + start + head.length - 4, 0⟩ w.device
    | .error e w => .error e w.device)

namespace OpenEntry

def onWriter {α : Type} (f : EStateM Failure (Writer δ) α) : EStateM Failure (OpenEntry δ) α :=
  onPart writer (fun e w => { e with writer := w }) f

def write (data : Bytes) : EStateM Failure (OpenEntry δ) Unit := do
  onWriter (Writer.write data)
  modify fun e => { e with written := e.written + data.length }

def restart : EStateM Failure (OpenEntry δ) Unit := do
  onWriter Writer.erase
  modify fun e => { e with written := 0 }
  onWriter (Writer.write (← get).head)

instance : Sink (OpenEntry δ) where
  call
    | .write data => write data
    | .erase => restart
    | .seek _ => throw .unsupported
    | .flush => pure ()
  used e := .ok e.written

def paddingFor (used block : Nat) : Except Failure Nat :=
  match roundUp used block with
  | none => .error .size
  | some stop =>
    let n := stop - used
    .ok (if n ≠ 0 ∧ n < minPadding then n + block else n)

def padding (n : Nat) : List Bytes :=
  if n = 0 then []
  else
    let zeros := n - minPadding
    (0x60 :: longHead zeros) :: List.replicate (zeros / 32) (List.replicate 32 0) ++
      (if zeros % 32 = 0 then [] else [List.replicate (zeros % 32) 0])

/-- Programs bytes that were left erased inside programmed units. -/
def programOver (address : Nat) (data : Bytes) : EStateM Failure δ Unit := do
  let d ← get
  let start := address - address % writeUnit d
  let some stop := roundUp (address + data.length) (writeUnit d) | throw .outOfBounds
  unless stop - start ≤ 2 * maxWriteUnit do throw .size
  let units ← (read start (stop - start) d).mapError Flash.Error.failure
  let units := units.take (address - start) ++ data ++ units.drop (address - start + data.length)
  (program start units).adaptExcept Flash.Error.failure

def close : EStateM Failure (OpenEntry δ) Unit := do
  let e ← get
  let used := e.head.length + e.written
  let n ← paddingFor used e.block
  unless used + n ≤ e.writer.region.size do throw .noResources
  (padding n).forM fun piece => onWriter (Writer.write piece)
  onWriter Writer.flush
  onWriter (onPart Writer.device (fun w d => { w with device := d })
    (programOver e.lengthAt (Bytes.be32 (UInt32.ofNat e.written))))

def abandon : EStateM Failure (OpenEntry δ) Unit := onWriter Writer.erase

end OpenEntry

end Cache

end Firmware
