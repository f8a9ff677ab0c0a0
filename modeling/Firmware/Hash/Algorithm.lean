import Firmware.Bytes
import Firmware.Coded

namespace Firmware.Hash

inductive Algorithm where
  | sha256
  | sha384
  | sha512
deriving DecidableEq, Repr, Inhabited

namespace Algorithm

def all : List Algorithm := [sha256, sha384, sha512]

def bits : Algorithm → Nat
  | sha256 => 256
  | sha384 => 384
  | sha512 => 512

def size (a : Algorithm) : Nat := a.bits / 8

def identifier : Algorithm → Int
  | sha256 => -16
  | sha384 => -43
  | sha512 => -44

def ofIdentifier? (n : Int) : Option Algorithm := all.find? (·.identifier == n)

def name : Algorithm → String
  | sha256 => "Sha256"
  | sha384 => "Sha384"
  | sha512 => "Sha512"

instance : Named Algorithm := ⟨all, name⟩

theorem ofIdentifier?_identifier (a : Algorithm) : ofIdentifier? a.identifier = some a := by
  cases a <;> rfl

end Algorithm

end Firmware.Hash
