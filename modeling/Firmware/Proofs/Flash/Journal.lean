import Firmware.Flash.Window
import Firmware.Flash.Writer
import Firmware.Proofs.Computation

namespace Firmware

variable {ε ε' σ ω α β : Type} {view : σ → ω}

def seen (view : σ → ω) : EStateM.Result ε σ α → EStateM.Result ε ω α
  | .ok a s => .ok a (view s)
  | .error e s => .error e (view s)

/-- Through a view of its states, one computation is the other. -/
def Mirrors (view : σ → ω) (f : EStateM ε σ α) (g : EStateM ε ω α) : Prop :=
  ∀ s, g (view s) = seen view (f s)

namespace Mirrors

lemma pure (a : α) : Mirrors view (pure a : EStateM ε σ α) (pure a) := fun _ => rfl

lemma throw (e : ε) : Mirrors view (throw e : EStateM ε σ α) (throw e) := fun _ => rfl

lemma lift (x : Except ε α) : Mirrors view (liftM x : EStateM ε σ α) (liftM x) := by
  intro s
  cases x <;> rfl

lemma modify {f : σ → σ} {g : ω → ω} (h : ∀ s, g (view s) = view (f s)) :
    Mirrors view (modify f : EStateM ε σ PUnit) (modify g) := by
  intro s
  rw [EStateM.modify_run, EStateM.modify_run, h]
  rfl

lemma bind {f : EStateM ε σ α} {g : EStateM ε ω α} {f' : α → EStateM ε σ β}
    {g' : α → EStateM ε ω β} (h : Mirrors view f g) (h' : ∀ a, Mirrors view (f' a) (g' a)) :
    Mirrors view (f >>= f') (g >>= g') := by
  intro s
  rw [EStateM.bind_run, EStateM.bind_run, h s]
  cases f s with
  | ok a t => exact h' a t
  | error e t => rfl

lemma discard {f : EStateM ε σ α} {g : EStateM ε ω α} (h : Mirrors view f g) :
    Mirrors view (discard f) (discard g) := bind h fun _ => pure PUnit.unit

lemma get_bind {f : σ → EStateM ε σ β} {g : ω → EStateM ε ω β}
    (h : ∀ s, Mirrors view (f s) (g (view s))) : Mirrors view (get >>= f) (get >>= g) :=
  fun s => h s s

lemma ite {p : Prop} [Decidable p] {f f' : EStateM ε σ α} {g g' : EStateM ε ω α}
    (h : Mirrors view f g) (h' : Mirrors view f' g') :
    Mirrors view (if p then f else f') (if p then g else g') := by
  split
  · exact h
  · exact h'

lemma check {p : Prop} [Decidable p] {e : ε} {f : PUnit → EStateM ε σ β} {g : PUnit → EStateM ε ω β}
    (h : Mirrors view (f ⟨⟩) (g ⟨⟩)) :
    Mirrors view (if p then f ⟨⟩ else MonadExcept.throw e >>= f)
      (if p then g ⟨⟩ else MonadExcept.throw e >>= g) :=
  ite h (throw e)

lemma adaptExcept {f : EStateM ε σ α} {g : EStateM ε ω α} (h : Mirrors view f g) (x : ε → ε') :
    Mirrors view (f.adaptExcept x) (g.adaptExcept x) := by
  intro s
  rw [EStateM.adaptExcept_run, EStateM.adaptExcept_run, h s]
  cases f s <;> rfl

lemma onPart {υ ψ : Type} {wide : υ → ψ} {f : EStateM ε σ α} {g : EStateM ε ω α}
    {part : υ → σ} {put : υ → σ → υ} {part' : ψ → ω} {put' : ψ → ω → ψ} (h : Mirrors view f g)
    (hp : ∀ u, part' (wide u) = view (part u)) (hq : ∀ u s, put' (wide u) (view s) = wide (put u s)) :
    Mirrors wide (onPart part put f) (onPart part' put' g) := by
  intro u
  simp only [Firmware.onPart]
  rw [hp, h (part u)]
  cases f (part u) with
  | ok a t => exact congrArg (EStateM.Result.ok a) (hq u t)
  | error e t => exact congrArg (EStateM.Result.error e) (hq u t)

lemma forM {γ : Type} {xs : List γ} {f : γ → EStateM ε σ PUnit} {g : γ → EStateM ε ω PUnit}
    (h : ∀ x, Mirrors view (f x) (g x)) : Mirrors view (xs.forM f) (xs.forM g) := by
  induction xs with
  | nil => exact pure _
  | cons x xs ih => exact bind (h x) fun _ => ih

end Mirrors

namespace Flash

variable {δ : Type}

lemma Journaled.mirrors_record (m : Mutation) (f : EStateM Flash.Error δ Unit) :
    Mirrors device (record m f) f := by
  intro j
  simp only [record]
  cases f j.device <;> rfl

variable [Flash δ]

namespace Writer

def plain (w : Writer (Journaled δ)) : Writer δ := { w with device := w.device.device }

omit [Flash δ] in
lemma mirrors_onDevice {f : EStateM Flash.Error (Journaled δ) Unit} {g : EStateM Flash.Error δ Unit}
    (h : Mirrors Journaled.device f g) : Mirrors plain (onDevice f) (onDevice g) :=
  (h.adaptExcept Flash.Error.failure).onPart (fun _ => rfl) fun _ _ => rfl

lemma mirrors_programUnits (n : Nat) (data : Bytes) :
    Mirrors plain (programUnits n data : EStateM Failure (Writer (Journaled δ)) Unit)
      (programUnits n data) :=
  .get_bind fun _ => .check (.bind (mirrors_onDevice (Journaled.mirrors_record _ _)) fun _ =>
    .modify fun _ => rfl)

lemma mirrors_writeUnits (data : Bytes) :
    Mirrors plain (writeUnits data : EStateM Failure (Writer (Journaled δ)) Unit)
      (writeUnits data) :=
  .get_bind fun _ => .ite (.bind (mirrors_programUnits _ _) fun _ => .modify fun _ => rfl)
    (.modify fun _ => rfl)

lemma mirrors_programStaged :
    Mirrors plain (programStaged : EStateM Failure (Writer (Journaled δ)) Unit) programStaged :=
  .get_bind fun _ => .bind (mirrors_programUnits _ _) fun _ => .modify fun _ => rfl

lemma mirrors_write (data : Bytes) :
    Mirrors plain (write data : EStateM Failure (Writer (Journaled δ)) Unit) (write data) := by
  refine .get_bind fun _ => .ite (mirrors_writeUnits data) ?_
  refine .bind (.modify fun _ => rfl) fun _ => .ite ?_ (.pure _)
  exact .bind mirrors_programStaged fun _ => mirrors_writeUnits _

lemma mirrors_flush :
    Mirrors plain (flush : EStateM Failure (Writer (Journaled δ)) Unit) flush := by
  have hp : Mirrors plain (pad : EStateM Failure (Writer (Journaled δ)) Unit) pad :=
    .get_bind fun _ => .ite (.pure _) mirrors_programStaged
  exact .bind hp fun _ => mirrors_onDevice (Journaled.mirrors_record _ _)

end Writer

lemma mirrors_writing (r : Region) {f : EStateM Failure (Writer (Journaled δ)) α}
    {g : EStateM Failure (Writer δ) α} (h : Mirrors Writer.plain f g) :
    Mirrors Journaled.device (writing r f) (writing r g) := by
  intro j
  have hs : Writer.start r j.device = (Writer.start r j).map Writer.plain := by
    simp only [Writer.start]
    rw [apply_ite (Except.map Writer.plain)]
    rfl
  simp only [writing]
  rw [hs]
  cases Writer.start r j with
  | error e => rfl
  | ok w =>
    simp only [Except.map]
    rw [h w]
    cases f w <;> rfl

end Flash

end Firmware
