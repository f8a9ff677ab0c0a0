import Firmware.Part
import Mathlib.Control.Monad.Basic
import Mathlib.Logic.Relation
import Mathlib.Tactic.Lemma

/-!
Computations with a state that survives failure: what they answer, and along which relation they
move the state. A relation that is a preorder is followed by a whole computation as soon as each of
its steps follows it.
-/

namespace Firmware

variable {ε ε' σ ω α β : Type}

namespace Except

@[simp] lemma pure_eq (a : α) : (pure a : Except ε α) = .ok a := rfl

@[simp] lemma throw_eq (e : ε) : (throw e : Except ε α) = .error e := rfl

@[simp] lemma ok_bind (a : α) (f : α → Except ε β) : (Except.ok a >>= f) = f a := rfl

@[simp] lemma error_bind (e : ε) (f : α → Except ε β) : (Except.error e >>= f) = .error e := rfl

@[simp] lemma discard_ok (a : α) : discard (Except.ok a : Except ε α) = .ok ⟨⟩ := rfl

@[simp] lemma discard_error (e : ε) : discard (Except.error e : Except ε α) = .error e := rfl

lemma discard_eq_ok {x : Except ε α} {u : PUnit} : discard x = .ok u ↔ ∃ a, x = .ok a := by
  cases x <;> simp

lemma bind_eq_ok {x : Except ε α} {f : α → Except ε β} {b : β} :
    (x >>= f) = .ok b ↔ ∃ a, x = .ok a ∧ f a = .ok b := by
  cases x <;> simp

lemma bind_eq_error {x : Except ε α} {f : α → Except ε β} {e : ε} :
    (x >>= f) = .error e ↔ x = .error e ∨ ∃ a, x = .ok a ∧ f a = .error e := by
  cases x <;> simp

lemma map_eq_ok {x : Except ε α} {f : α → β} {b : β} : x.map f = .ok b ↔ ∃ a, x = .ok a ∧ f a = b := by
  cases x <;> simp [Except.map]

lemma forM_eq_ok {f : α → Except ε Unit} {xs : List α} {u : Unit} :
    xs.forM f = .ok u ↔ ∀ x ∈ xs, f x = .ok () := by
  induction xs with
  | nil => simp
  | cons x xs ih =>
    change (f x >>= fun _ => xs.forM f) = _ ↔ _
    rw [bind_eq_ok, List.forall_mem_cons, ← ih]
    constructor
    · rintro ⟨v, hx, hs⟩
      exact ⟨hx, hs⟩
    · rintro ⟨hx, hs⟩
      exact ⟨(), hx, hs⟩

lemma mapError_eq_ok {x : Except ε α} {h : ε → ε'} {a : α} :
    x.mapError h = .ok a ↔ x = .ok a := by
  cases x <;> simp [Except.mapError]

end Except

namespace EStateM

variable (f : EStateM ε σ α) (g : α → EStateM ε σ β) (s : σ)

@[simp] lemma pure_run (a : α) : (pure a : EStateM ε σ α) s = .ok a s := rfl

@[simp] lemma throw_run (e : ε) : (throw e : EStateM ε σ α) s = .error e s := rfl

@[simp] lemma get_run : (get : EStateM ε σ σ) s = .ok s s := rfl

@[simp] lemma set_run (t : σ) : (set t : EStateM ε σ PUnit) s = .ok ⟨⟩ t := rfl

@[simp] lemma modify_run (h : σ → σ) : (modify h : EStateM ε σ PUnit) s = .ok ⟨⟩ (h s) := rfl

@[simp] lemma lift_run (x : Except ε α) :
    (liftM x : EStateM ε σ α) s =
      match x with
      | .ok a => .ok a s
      | .error e => .error e s := by
  cases x <;> rfl

lemma bind_run :
    (f >>= g) s =
      match f s with
      | .ok a t => g a t
      | .error e t => .error e t := rfl

lemma bind_of_ok {a : α} {t : σ} (h : f s = .ok a t) : (f >>= g) s = g a t := by
  simp [bind_run, h]

@[simp] lemma map_run (h : α → β) :
    (h <$> f) s =
      match f s with
      | .ok a t => .ok (h a) t
      | .error e t => .error e t := rfl

@[simp] lemma discard_run :
    (discard f) s =
      match f s with
      | .ok _ t => .ok ⟨⟩ t
      | .error e t => .error e t := rfl

@[simp] lemma adaptExcept_run (h : ε → ε') :
    f.adaptExcept h s =
      match f s with
      | .ok a t => .ok a t
      | .error e t => .error (h e) t := by
  simp only [EStateM.adaptExcept]
  cases f s <;> rfl

variable {f g s}

lemma bind_eq_ok {b : β} {u : σ} (h : (f >>= g) s = .ok b u) :
    ∃ a t, f s = .ok a t ∧ g a t = .ok b u := by
  rw [bind_run] at h
  cases hf : f s with
  | ok a t => exact ⟨a, t, rfl, by simpa [hf] using h⟩
  | error e t => simp [hf] at h

lemma bind_eq_error {e : ε} {u : σ} (h : (f >>= g) s = .error e u) :
    f s = .error e u ∨ ∃ a t, f s = .ok a t ∧ g a t = .error e u := by
  rw [bind_run] at h
  cases hf : f s with
  | ok a t => exact .inr ⟨a, t, rfl, by simpa [hf] using h⟩
  | error e t => simpa [hf] using h

lemma adaptExcept_eq_ok {h : ε → ε'} {a : α} {t : σ} (hf : f.adaptExcept h s = .ok a t) :
    f s = .ok a t := by
  rw [adaptExcept_run] at hf
  cases hs : f s <;> simp_all

lemma lift_eq_ok {x : Except ε α} {a : α} {t : σ} (h : (liftM x : EStateM ε σ α) s = .ok a t) :
    x = .ok a ∧ t = s := by
  cases x <;> simp_all

lemma get_bind_eq_ok {g : σ → EStateM ε σ β} {b : β} {u : σ} (h : (get >>= g) s = .ok b u) :
    g s s = .ok b u := h

lemma lift_bind_eq_ok {x : Except ε α} {b : β} {u : σ}
    (h : ((liftM x : EStateM ε σ α) >>= g) s = .ok b u) : ∃ a, x = .ok a ∧ g a s = .ok b u := by
  cases x with
  | ok a => exact ⟨a, rfl, h⟩
  | error e => cases h

lemma check_eq_ok {p : Prop} [Decidable p] {e : ε} {g : PUnit → EStateM ε σ β} {b : β} {u : σ}
    (h : (if p then g ⟨⟩ else MonadExcept.throw e >>= g) s = .ok b u) : p ∧ g ⟨⟩ s = .ok b u := by
  split at h
  · exact ⟨‹_›, h⟩
  · cases h

lemma refuse_eq_ok {p : Prop} [Decidable p] {e : ε} {g : PUnit → EStateM ε σ β} {b : β} {u : σ}
    (h : (if p then MonadExcept.throw e >>= g else g ⟨⟩) s = .ok b u) : ¬p ∧ g ⟨⟩ s = .ok b u := by
  split at h
  · cases h
  · exact ⟨‹_›, h⟩

lemma forM_append_eq_ok {γ : Type} {xs ys : List γ} {f : γ → EStateM ε σ PUnit} {u : PUnit} {t : σ}
    (h : (xs ++ ys).forM f s = .ok u t) : ∃ v, xs.forM f s = .ok ⟨⟩ v ∧ ys.forM f v = .ok u t := by
  have ha : (xs ++ ys).forM f = (do xs.forM f; ys.forM f) := List.forM_append
  rw [ha] at h
  obtain ⟨_, v, hx, hy⟩ := bind_eq_ok h
  exact ⟨v, hx, hy⟩

lemma forM_eq_error {γ : Type} {xs : List γ} {f : γ → EStateM ε σ PUnit} {e : ε} {u : σ}
    (h : xs.forM f s = .error e u) :
    ∃ before x after t, xs = before ++ x :: after ∧ before.forM f s = .ok ⟨⟩ t ∧ f x t = .error e u := by
  induction xs generalizing s with
  | nil => cases h
  | cons x xs ih =>
    rcases bind_eq_error h with h | ⟨_, t, hx, hs⟩
    · exact ⟨[], x, xs, s, rfl, rfl, h⟩
    · obtain ⟨before, y, after, v, rfl, hb, hy⟩ := ih hs
      exact ⟨x :: before, y, after, v, rfl, (bind_of_ok _ _ _ hx).trans hb, hy⟩

end EStateM

lemma onPart_eq_ok {get : ω → σ} {put : ω → σ → ω} {f : EStateM ε σ α} {w w' : ω} {a : α}
    (h : onPart get put f w = .ok a w') : ∃ s, f (get w) = .ok a s ∧ w' = put w s := by
  simp only [onPart] at h
  cases hf : f (get w) <;> simp_all

@[simp] lemma stateAfter_ok (a : α) (s : σ) : stateAfter (.ok a s : EStateM.Result ε σ α) = s := rfl

lemma answer_adaptExcept {h : ε → ε'} (f : EStateM ε σ α) (s : σ) :
    answer (f.adaptExcept h s) = (answer (f s)).mapError h := by
  rw [EStateM.adaptExcept_run]
  cases f s <;> rfl

@[simp] lemma stateAfter_error (e : ε) (s : σ) :
    stateAfter (.error e s : EStateM.Result ε σ α) = s := rfl

@[simp] lemma answer_ok (a : α) (s : σ) : answer (.ok a s : EStateM.Result ε σ α) = .ok a := rfl

@[simp] lemma answer_error (e : ε) (s : σ) :
    answer (.error e s : EStateM.Result ε σ α) = .error e := rfl

lemma answer_eq_ok {r : EStateM.Result ε σ α} {a : α} (h : answer r = .ok a) :
    r = .ok a (stateAfter r) := by
  cases r <;> simp_all

lemma answer_eq_error {r : EStateM.Result ε σ α} {e : ε} (h : answer r = .error e) :
    r = .error e (stateAfter r) := by
  cases r <;> simp_all

@[simp] lemma stateAfter_adaptExcept (f : EStateM ε σ α) (h : ε → ε') (s : σ) :
    stateAfter (f.adaptExcept h s) = stateAfter (f s) := by
  rw [EStateM.adaptExcept_run]
  cases f s <;> rfl

/-- Wherever it starts, a computation moves the state along `R`, also when it fails. -/
def Follows (R : σ → σ → Prop) (f : EStateM ε σ α) : Prop := ∀ s, R s (stateAfter (f s))

namespace Follows

variable {R : σ → σ → Prop} {f : EStateM ε σ α} {g : α → EStateM ε σ β}

lemma mono {S : σ → σ → Prop} (h : ∀ s t, R s t → S s t) (hf : Follows R f) : Follows S f :=
  fun s => h _ _ (hf s)

lemma of_ok (hf : Follows R f) {s t : σ} {a : α} (h : f s = .ok a t) : R s t := by
  simpa [h] using hf s

lemma of_error (hf : Follows R f) {s t : σ} {e : ε} (h : f s = .error e t) : R s t := by
  simpa [h] using hf s

lemma modify {h : σ → σ} (hm : ∀ s, R s (h s)) : Follows R (modify h : EStateM ε σ PUnit) := hm

@[simp] lemma adaptExcept {h : ε → ε'} (hf : Follows R f) : Follows R (f.adaptExcept h) := by
  intro s
  rw [stateAfter_adaptExcept]
  exact hf s

@[simp] lemma map {h : α → β} (hf : Follows R f) : Follows R (h <$> f) := by
  intro s
  have := hf s
  rw [EStateM.map_run]
  cases hs : f s <;> simpa [hs] using this

@[simp] lemma ite {p : Prop} [Decidable p] {f g : EStateM ε σ α} (hf : Follows R f)
    (hg : Follows R g) : Follows R (if p then f else g) := by
  split
  · exact hf
  · exact hg

lemma onPart {S : σ → σ → Prop} {T : ω → ω → Prop} {get : ω → σ} {put : ω → σ → ω}
    {f : EStateM ε σ α} (hf : Follows S f) (h : ∀ w s, S (get w) s → T w (put w s)) :
    Follows T (onPart get put f) := by
  intro w
  rw [stateAfter_onPart]
  exact h w _ (hf (get w))

lemma get_bind {g : σ → EStateM ε σ β} (h : ∀ s, R s (stateAfter (g s s))) :
    Follows R (MonadState.get >>= g) := h

@[simp] lemma discard (hf : Follows R f) : Follows R (discard f) := map hf

variable [IsPreorder σ R]

@[simp] lemma pure (a : α) : Follows R (pure a : EStateM ε σ α) := fun s => refl_of R s

@[simp] lemma throw (e : ε) : Follows R (throw e : EStateM ε σ α) := fun s => refl_of R s

@[simp] lemma get : Follows R (get : EStateM ε σ σ) := fun s => refl_of R s

@[simp] lemma lift (x : Except ε α) : Follows R (liftM x : EStateM ε σ α) := by
  intro s
  cases x <;> exact refl_of R s

@[simp] lemma bind (hf : Follows R f) (hg : ∀ a, Follows R (g a)) : Follows R (f >>= g) := by
  intro s
  rw [EStateM.bind_run]
  cases hs : f s with
  | ok a t => exact trans_of R (hf.of_ok hs) (hg a t)
  | error e t => exact hf.of_error hs

lemma check {p : Prop} [Decidable p] {e : ε} {g : PUnit → EStateM ε σ β}
    (hg : Follows R (g ⟨⟩)) :
    Follows R (if p then g ⟨⟩ else MonadExcept.throw e >>= g) :=
  ite hg (throw e)

lemma forM {γ : Type} {xs : List γ} {f : γ → EStateM ε σ PUnit} (h : ∀ x ∈ xs, Follows R (f x)) :
    Follows R (xs.forM f) := by
  induction xs with
  | nil => exact pure _
  | cons x xs ih =>
    exact bind (h x List.mem_cons_self) fun _ => ih fun y hy => h y (List.mem_cons_of_mem x hy)

lemma of_bind {s : σ} (hf : R s (stateAfter (f s)))
    (hg : ∀ a t, f s = .ok a t → R t (stateAfter (g a t))) : R s (stateAfter ((f >>= g) s)) := by
  rw [EStateM.bind_run]
  cases hs : f s with
  | ok a t =>
    rw [hs] at hf
    exact trans_of R hf (hg a t hs)
  | error e t =>
    rw [hs] at hf
    exact hf

lemma of_forM {γ : Type} {xs : List γ} {f : γ → EStateM ε σ PUnit} {s : σ}
    (h : ∀ before x after t, xs = before ++ x :: after → before.forM f s = .ok ⟨⟩ t →
      R t (stateAfter (f x t))) : R s (stateAfter (xs.forM f s)) := by
  induction xs generalizing s with
  | nil => exact refl_of R s
  | cons x xs ih =>
    change R s (stateAfter ((f x >>= fun _ => xs.forM f) s))
    refine of_bind (h [] x xs s rfl rfl) fun _ t ht => ih fun before y after u hxs hu => ?_
    refine h (x :: before) y after u (by rw [hxs, List.cons_append]) ?_
    exact (EStateM.bind_of_ok _ _ _ ht).trans hu

lemma rest (hg : ∀ a, Follows R (g a)) (s : σ) : R (stateAfter (f s)) (stateAfter ((f >>= g) s)) := by
  rw [EStateM.bind_run]
  cases f s with
  | ok a t => exact hg a t
  | error e t => exact refl_of R t

lemma rest_forM {γ : Type} {xs before after : List γ} {x : γ} {f : γ → EStateM ε σ PUnit} {s t : σ}
    (hf : ∀ y, Follows R (f y)) (hx : xs = before ++ x :: after) (ht : before.forM f s = .ok ⟨⟩ t) :
    R (stateAfter (f x t)) (stateAfter (xs.forM f s)) := by
  have hs : xs.forM f s = (do f x; after.forM f) t := by
    have ha : (before ++ x :: after).forM f = (do before.forM f; (x :: after).forM f) := List.forM_append
    rw [hx, ha, EStateM.bind_of_ok _ _ _ ht]
    rfl
  rw [hs]
  exact rest (fun _ => forM fun y _ => hf y) t

end Follows

def Maintains (I : σ → Prop) (s t : σ) : Prop := I s → I t

instance (I : σ → Prop) : IsPreorder σ (Maintains I) where
  refl _ := id
  trans _ _ _ h h' := h' ∘ h

def relocate (φ : σ → σ) : EStateM.Result ε σ α → EStateM.Result ε σ α
  | .ok a s => .ok a (φ s)
  | .error e s => .error e (φ s)

@[simp] lemma answer_relocate (φ : σ → σ) (x : EStateM.Result ε σ α) :
    answer (relocate φ x) = answer x := by
  cases x <;> rfl

@[simp] lemma stateAfter_relocate (φ : σ → σ) (x : EStateM.Result ε σ α) :
    stateAfter (relocate φ x) = φ (stateAfter x) := by
  cases x <;> rfl

/-- A computation does not look at what `φ` changes, and leaves it alone. -/
def Commutes (φ : σ → σ) (f : EStateM ε σ α) : Prop := ∀ s, f (φ s) = relocate φ (f s)

namespace Commutes

variable {φ : σ → σ} {f : EStateM ε σ α} {g : α → EStateM ε σ β}

lemma pure (a : α) : Commutes φ (pure a : EStateM ε σ α) := fun _ => rfl

lemma throw (e : ε) : Commutes φ (throw e : EStateM ε σ α) := fun _ => rfl

lemma modify {h : σ → σ} (hm : ∀ s, h (φ s) = φ (h s)) : Commutes φ (modify h : EStateM ε σ PUnit) := by
  intro s
  rw [EStateM.modify_run, EStateM.modify_run, hm]
  rfl

lemma bind (hf : Commutes φ f) (hg : ∀ a, Commutes φ (g a)) : Commutes φ (f >>= g) := by
  intro s
  rw [EStateM.bind_run, EStateM.bind_run, hf s]
  cases f s with
  | ok a t => exact hg a t
  | error e t => rfl

lemma get_bind {g : σ → EStateM ε σ β} (hg : ∀ s, g (φ s) = g s) (h : ∀ s, Commutes φ (g s)) :
    Commutes φ (MonadState.get >>= g) := by
  intro s
  change g (φ s) (φ s) = relocate φ (g s s)
  rw [hg]
  exact h s s

lemma adaptExcept {h : ε → ε'} (hf : Commutes φ f) : Commutes φ (f.adaptExcept h) := by
  intro s
  rw [EStateM.adaptExcept_run, EStateM.adaptExcept_run, hf s]
  cases f s <;> rfl

lemma onPart_of_eq {φ : ω → ω} {get : ω → σ} {put : ω → σ → ω} (hg : ∀ w, get (φ w) = get w)
    (hp : ∀ w s, put (φ w) s = φ (put w s)) (f : EStateM ε σ α) : Commutes φ (onPart get put f) := by
  intro w
  simp only [Firmware.onPart, hg]
  cases f (get w) with
  | ok a s | error e s =>
    simp only [relocate, hp]

lemma onPart {φ : ω → ω} {ψ : σ → σ} {get : ω → σ} {put : ω → σ → ω} (hg : ∀ w, get (φ w) = ψ (get w))
    (hp : ∀ w s, put (φ w) (ψ s) = φ (put w s)) (hf : Commutes ψ f) : Commutes φ (onPart get put f) := by
  intro w
  simp only [Firmware.onPart, hg, hf (get w)]
  cases f (get w) with
  | ok a s | error e s =>
    simp only [relocate, hp]

end Commutes

inductive Coupled (S : σ → σ → Prop) : EStateM.Result ε σ α → EStateM.Result ε σ α → Prop
  | ok {a : α} {s t : σ} : S s t → Coupled S (.ok a s) (.ok a t)
  | error {e : ε} {s t : σ} : S s t → Coupled S (.error e s) (.error e t)

namespace Coupled

variable {S : σ → σ → Prop} {x y : EStateM.Result ε σ α}

lemma answer (h : Coupled S x y) : answer x = answer y := by
  cases h <;> rfl

lemma stateAfter (h : Coupled S x y) : S (stateAfter x) (stateAfter y) := by
  cases h <;> assumption

end Coupled

/-- A computation does not tell states apart that `S` relates. -/
def Respects (S : σ → σ → Prop) (f : EStateM ε σ α) : Prop := ∀ ⦃s t⦄, S s t → Coupled S (f s) (f t)

namespace Respects

variable {S : σ → σ → Prop} {f : EStateM ε σ α} {g : α → EStateM ε σ β}

lemma pure (a : α) : Respects S (pure a : EStateM ε σ α) := fun _ _ h => .ok h

lemma throw (e : ε) : Respects S (throw e : EStateM ε σ α) := fun _ _ h => .error h

lemma lift (x : Except ε α) : Respects S (liftM x : EStateM ε σ α) := by
  cases x with
  | ok a => exact pure a
  | error e => exact throw e

lemma modify {h : σ → σ} (hm : ∀ ⦃s t⦄, S s t → S (h s) (h t)) :
    Respects S (modify h : EStateM ε σ PUnit) := fun _ _ hs => .ok (hm hs)

lemma bind (hf : Respects S f) (hg : ∀ a, Respects S (g a)) : Respects S (f >>= g) := by
  intro s t hs
  have h := hf hs
  rw [EStateM.bind_run, EStateM.bind_run]
  generalize f s = x at h ⊢
  generalize f t = y at h ⊢
  cases h with
  | ok h => exact hg _ h
  | error h => exact .error h

lemma get_bind {g : σ → EStateM ε σ β} (hg : ∀ ⦃s t⦄, S s t → g t = g s) (h : ∀ s, Respects S (g s)) :
    Respects S (MonadState.get >>= g) := by
  intro s t hs
  change Coupled S (g s s) (g t t)
  rw [hg hs]
  exact h s hs

lemma ite {p : Prop} [Decidable p] {f g : EStateM ε σ α} (hf : Respects S f) (hg : Respects S g) :
    Respects S (if p then f else g) := by
  split
  · exact hf
  · exact hg

lemma check {p : Prop} [Decidable p] {e : ε} {g : PUnit → EStateM ε σ β} (hg : Respects S (g ⟨⟩)) :
    Respects S (if p then g ⟨⟩ else MonadExcept.throw e >>= g) :=
  ite hg fun _ _ h => .error h

lemma forM {γ : Type} {xs : List γ} {f : γ → EStateM ε σ PUnit} (h : ∀ x ∈ xs, Respects S (f x)) :
    Respects S (xs.forM f) := by
  induction xs with
  | nil => exact pure _
  | cons x xs ih =>
    exact bind (h x List.mem_cons_self) fun _ => ih fun y hy => h y (List.mem_cons_of_mem x hy)

lemma adaptExcept {h : ε → ε'} (hf : Respects S f) : Respects S (f.adaptExcept h) := by
  intro s t hs
  have hx := hf hs
  rw [EStateM.adaptExcept_run, EStateM.adaptExcept_run]
  generalize f s = x at hx ⊢
  generalize f t = y at hx ⊢
  cases hx with
  | ok hx => exact .ok hx
  | error hx => exact .error hx

lemma onPart {T : ω → ω → Prop} {get : ω → σ} {put : ω → σ → ω} (hf : Respects S f)
    (hg : ∀ ⦃w v⦄, T w v → S (get w) (get v)) (hp : ∀ ⦃w v s t⦄, T w v → S s t → T (put w s) (put v t)) :
    Respects T (onPart get put f) := by
  intro w v hw
  have hx := hf (hg hw)
  simp only [Firmware.onPart]
  generalize f (get w) = x at hx ⊢
  generalize f (get v) = y at hx ⊢
  cases hx with
  | ok hx => exact .ok (hp hw hx)
  | error hx => exact .error (hp hw hx)

lemma of_ok (hf : Respects S f) {s t s' : σ} {a : α} (h : f s = .ok a s') (hs : S s t) :
    ∃ t', f t = .ok a t' ∧ S s' t' := by
  have hx := hf hs
  rw [h] at hx
  generalize f t = y at hx ⊢
  cases hx with
  | ok hx => exact ⟨_, rfl, hx⟩

end Respects

lemma commutes_iff_respects {φ : σ → σ} {f : EStateM ε σ α} :
    Commutes φ f ↔ Respects (fun s t => t = φ s) f := by
  constructor
  · rintro h s t rfl
    rw [h s]
    cases f s with
    | ok a s => exact .ok rfl
    | error e s => exact .error rfl
  · intro h s
    have hs := h (s := s) rfl
    generalize f s = x at hs ⊢
    generalize f (φ s) = y at hs ⊢
    cases hs with
    | ok h | error h =>
      subst h
      rfl

variable {P : ε → Prop}

/-- Wherever it starts, a computation fails only in ways that `P` allows. -/
def Raises (P : ε → Prop) (f : EStateM ε σ α) : Prop := ∀ s e t, f s = .error e t → P e

namespace Raises

variable {f : EStateM ε σ α} {g : α → EStateM ε σ β}

lemma pure (a : α) : Raises P (pure a : EStateM ε σ α) := fun _ _ _ h => by cases h

lemma throw {e : ε} (h : P e) : Raises P (throw e : EStateM ε σ α) := fun _ _ _ he => by cases he; exact h

lemma get : Raises P (get : EStateM ε σ σ) := fun _ _ _ h => by cases h

lemma modify (f : σ → σ) : Raises P (modify f : EStateM ε σ PUnit) := fun _ _ _ h => by cases h

lemma bind (hf : Raises P f) (hg : ∀ a, Raises P (g a)) : Raises P (f >>= g) := by
  intro s e t h
  rw [EStateM.bind_run] at h
  cases hs : f s with
  | ok a u =>
    rw [hs] at h
    exact hg a u e t h
  | error x u =>
    rw [hs] at h
    cases h
    exact hf s e t hs

lemma ite {p : Prop} [Decidable p] {f g : EStateM ε σ α} (hf : Raises P f) (hg : Raises P g) :
    Raises P (if p then f else g) := by
  split
  · exact hf
  · exact hg

lemma check {p : Prop} [Decidable p] {e : ε} {g : PUnit → EStateM ε σ β} (he : P e)
    (hg : Raises P (g ⟨⟩)) : Raises P (if p then g ⟨⟩ else MonadExcept.throw e >>= g) :=
  ite hg fun _ _ _ h => by cases h; exact he

lemma forM {γ : Type} {xs : List γ} {f : γ → EStateM ε σ PUnit} (h : ∀ x ∈ xs, Raises P (f x)) :
    Raises P (xs.forM f) := by
  induction xs with
  | nil => exact pure _
  | cons x xs ih =>
    exact bind (h x List.mem_cons_self) fun _ => ih fun y hy => h y (List.mem_cons_of_mem x hy)

lemma adaptExcept {f : EStateM ε' σ α} {h : ε' → ε} (hP : ∀ e, P (h e)) : Raises P (f.adaptExcept h) := by
  intro s e t he
  rw [EStateM.adaptExcept_run] at he
  cases hs : f s with
  | ok a u =>
    rw [hs] at he
    cases he
  | error x u =>
    rw [hs] at he
    cases he
    exact hP x

lemma onPart {get : ω → σ} {put : ω → σ → ω} (hf : Raises P f) : Raises P (onPart get put f) := by
  intro w e t h
  simp only [Firmware.onPart] at h
  cases hs : f (get w) with
  | ok a s =>
    rw [hs] at h
    cases h
  | error x s =>
    rw [hs] at h
    cases h
    exact hf _ _ _ hs

end Raises

end Firmware
