import Firmware.Hash.Engine
import Firmware.Proofs.Computation

namespace Firmware.Hash

/-- When a comparison by the engine succeeds, what was written since the start has that digest. -/
class Sound (F : Algorithm → Bytes → Bytes) (η : Type) [Engine η] where
  making : η → Option (Algorithm × Bytes)
  start : ∀ {a e e'}, Engine.start a e = .ok () e' → making e' = some (a, [])
  write : ∀ {a b data e e'}, making e = some (a, b) → Engine.write data e = .ok () e' →
    making e' = some (a, b ++ data)
  compare : ∀ {a b x e e'}, making e = some (a, b) → Engine.compare x e = .ok () e' → F a b = x

/-- Besides, a digest that is supported can be made, and a comparison fails exactly if the digest is another one. -/
class Reliable (F : Algorithm → Bytes → Bytes) (η : Type) [Engine η] extends Sound F η where
  starts : ∀ {a} {e : η}, Engine.supports a e → ∃ e', Engine.start a e = .ok () e'
  writes : ∀ {a b e} (data : Bytes), making e = some (a, b) → ∃ e', Engine.write data e = .ok () e'
  compares : ∀ {a b x e}, making e = some (a, b) → x.length = a.size →
    ∃ e', Engine.compare x e = if F a b = x then .ok () e' else .error .mismatch e'

instance (F : Algorithm → Bytes → Bytes) : Sound F (Digester F) where
  making := Digester.running
  start h := by
    cases h
    rfl
  write {a b data e e'} hb h := by
    have hw : Engine.write data e = .ok () ⟨some (a, b ++ data)⟩ := by
      simp only [Engine.write, hb]
    cases hw.symm.trans h
    rfl
  compare {a b x e e'} hb h := by
    obtain ⟨y, u, ht, hc⟩ := EStateM.bind_eq_ok h
    simp only [Digester.take, hb] at ht
    split at ht <;> cases ht
    split at hc
    · assumption
    · cases hc

instance (F : Algorithm → Bytes → Bytes) : Reliable F (Digester F) where
  starts {a} e _ := ⟨⟨some (a, [])⟩, rfl⟩
  writes {a b e} data hb := ⟨⟨some (a, b ++ data)⟩, by
    have hb : e.running = some (a, b) := hb
    simp only [Engine.write, hb]⟩
  compares {a b x e} hb hx := by
    have hb : e.running = some (a, b) := hb
    refine ⟨.idle, ?_⟩
    have ht : Digester.take x.length e = .ok (F a b) .idle := by simp only [Digester.take, hb, hx, if_true]
    change (do unless (← Digester.take x.length) = x do throw Error.mismatch : EStateM Error (Digester F) Unit) e = _
    rw [EStateM.bind_of_ok _ _ _ ht]
    split <;> rfl

end Firmware.Hash
