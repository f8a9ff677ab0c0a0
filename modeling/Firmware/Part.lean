namespace Firmware

variable {ε σ ω α : Type}

instance instMonadLiftExcept : MonadLift (Except ε) (EStateM ε σ) where
  monadLift
    | .ok a => fun s => .ok a s
    | .error e => fun s => .error e s

def onPart (get : ω → σ) (put : ω → σ → ω) (f : EStateM ε σ α) : EStateM ε ω α := fun w =>
  match f (get w) with
  | .ok a s => .ok a (put w s)
  | .error e s => .error e (put w s)

def stateAfter : EStateM.Result ε σ α → σ
  | .ok _ s => s
  | .error _ s => s

def answer : EStateM.Result ε σ α → Except ε α
  | .ok a _ => .ok a
  | .error e _ => .error e

theorem stateAfter_onPart (get : ω → σ) (put : ω → σ → ω) (f : EStateM ε σ α) (w : ω) :
    stateAfter (onPart get put f w) = put w (stateAfter (f (get w))) := by
  rw [onPart]
  split <;> simp_all [stateAfter]

theorem answer_onPart (get : ω → σ) (put : ω → σ → ω) (f : EStateM ε σ α) (w : ω) :
    answer (onPart get put f w) = answer (f (get w)) := by
  simp only [onPart]
  split <;> simp_all [answer]

end Firmware
