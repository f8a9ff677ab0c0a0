namespace Firmware.Double

/-- The nearest multiple of `unit`. Of two, it is the even one. -/
def roundTo (unit n : Nat) : Nat :=
  if unit < 2 * (n % unit) ∨ 2 * (n % unit) = unit ∧ n / unit % 2 = 1 then (n / unit + 1) * unit
  else n / unit * unit

def round (n : Nat) : Nat := roundTo (Nat.pow 2 (n.log2 - 52)) n

def limit : Nat := Nat.pow 2 1024

theorem roundTo_near {unit : Nat} (n : Nat) (h : 0 < unit) :
    2 * n ≤ 2 * roundTo unit n + unit ∧ 2 * roundTo unit n ≤ 2 * n + unit := by
  have e := Nat.div_add_mod n unit
  have l := Nat.mod_lt n h
  have s : (n / unit + 1) * unit = unit * (n / unit) + unit := by rw [Nat.succ_mul, Nat.mul_comm]
  have c : n / unit * unit = unit * (n / unit) := Nat.mul_comm ..
  simp only [roundTo]
  split <;> omega

@[simp] theorem roundTo_mul {unit : Nat} (q : Nat) (h : 0 < unit) :
    roundTo unit (q * unit) = q * unit := by
  simp [roundTo, h, Nat.ne_of_lt h]

end Firmware.Double
