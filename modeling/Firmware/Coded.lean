/-!
Enumerations whose members have names, and those that are stored and exchanged as numbers. A type
lists its members once, and looking one up by its number or by its name follows from the list.
-/

namespace Firmware

class Named (α : Type) where
  all : List α
  name : α → String

def Named.ofName? {α : Type} [Named α] (s : String) : Option α := all.find? fun a : α => name a == s

class Coded (α : Type) (ω : outParam Type) extends Named α where
  code : α → ω

namespace Coded

variable {α ω : Type} [Coded α ω]

def ofCode? [BEq ω] (c : ω) : Option α := Named.all.find? fun a : α => code a == c

theorem code_of_ofCode? [BEq ω] [LawfulBEq ω] {c : ω} {a : α} (h : ofCode? c = some a) :
    code a = c := by
  have := List.find?_some h
  simpa using this

end Coded

end Firmware
