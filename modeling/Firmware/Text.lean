import Firmware.Bytes

/-!
Text is a byte string that is well-formed UTF-8: shortest forms only, no surrogates, nothing above
U+10FFFF.
-/

namespace Firmware

namespace Utf8

def continuation (b : UInt8) : Bool := 0x80 ≤ b && b ≤ 0xbf

/-- The range of the second byte in a three-byte form; the ends exclude long forms and surrogates. -/
def second3 (a b : UInt8) : Bool :=
  if a = 0xe0 then 0xa0 ≤ b && b ≤ 0xbf
  else if a = 0xed then 0x80 ≤ b && b ≤ 0x9f
  else continuation b

def second4 (a b : UInt8) : Bool :=
  if a = 0xf0 then 0x90 ≤ b && b ≤ 0xbf
  else if a = 0xf4 then 0x80 ≤ b && b ≤ 0x8f
  else continuation b

def valid : Bytes → Bool
  | [] => true
  | a :: s =>
    if a < 0x80 then valid s
    else if 0xc2 ≤ a && a ≤ 0xdf then
      match s with
      | b :: s => continuation b && valid s
      | _ => false
    else if 0xe0 ≤ a && a ≤ 0xef then
      match s with
      | b :: c :: s => second3 a b && continuation c && valid s
      | _ => false
    else if 0xf0 ≤ a && a ≤ 0xf4 then
      match s with
      | b :: c :: d :: s => second4 a b && continuation c && continuation d && valid s
      | _ => false
    else false

end Utf8

structure Text where
  bytes : Bytes
  valid : Utf8.valid bytes = true
deriving DecidableEq

namespace Text

def ofBytes? (b : Bytes) : Option Text :=
  if h : Utf8.valid b = true then some ⟨b, h⟩ else none

def ofString (s : String) : Text :=
  if h : Utf8.valid (Bytes.ofString s) = true then ⟨Bytes.ofString s, h⟩ else ⟨[], rfl⟩

protected def toString (t : Text) : String := (String.fromUTF8? ⟨t.bytes.toArray⟩).getD ""

def empty : Text := ⟨[], rfl⟩

def isEmpty (t : Text) : Bool := t.bytes.isEmpty

def length (t : Text) : Nat := t.bytes.length

instance : Inhabited Text := ⟨empty⟩

theorem ofBytes?_bytes (t : Text) : ofBytes? t.bytes = some t := by
  simp [ofBytes?, t.valid]

theorem bytes_of_ofBytes? {b : Bytes} {t : Text} (h : ofBytes? b = some t) : t.bytes = b := by
  simp only [ofBytes?] at h
  split at h <;> simp_all
  exact h ▸ rfl

end Text

end Firmware
