import Firmware.Proofs.Processor.Authentication

namespace Firmware.Processor

open Flash Manifest Storage

variable {π H δ η τ α β : Type}

def Call.isDecision : Call H → Bool
  | .authorizeComponent .. | .acquire .. | .checkOperation .. | .checkVendor .. | .checkClass ..
  | .checkDevice .. | .checkSlot .. => true
  | _ => false

def Event.isDecision : Event H → Bool
  | .call c _ => c.isDecision
  | _ => false

def decisions (p : Processor π H δ η τ) : List (Event H) := p.trace.filter Event.isDecision

/-- What may go wrong only when a run executes. -/
def Error.IsFault : Error → Prop
  | platform _ | digestMismatch => True
  | _ => False

variable [Platform π H] [Flash δ] {p q : Processor π H δ η τ} {es : List (Event H)}

lemma decisions_of_account (h : Account es p q) :
    decisions q = decisions p ++ es.filter Event.isDecision := by
  rw [decisions, h.trace, List.filter_append, decisions]

def Quiet (p q : Processor π H δ η τ) : Prop :=
  Does (fun _ e => e.isDecision = false) p q ∧ q.vars.config = p.vars.config

namespace Quiet

instance : IsPreorder (Processor π H δ η τ) Quiet where
  refl p := ⟨refl_of (Does _) p, rfl⟩
  trans _ _ _ h h' := ⟨trans_of (Does _) h.1 h'.1, h'.2.trans h.2⟩

lemma decisions_eq (h : Quiet p q) : decisions q = decisions p := by
  obtain ⟨⟨es, ha, he⟩, -⟩ := h
  have hn : es.filter Event.isDecision = [] := List.filter_eq_nil_iff.mpr fun e hm => by simp [he e hm]
  rw [decisions_of_account ha, hn, List.append_nil]

lemma log {e : Event H} (hc : ∀ c r, e ≠ .call c r) (p : Processor π H δ η τ) : Quiet p (p.log e) := by
  refine ⟨⟨_, .log p hc, fun _ he => List.mem_singleton.mp he ▸ ?_⟩, rfl⟩
  cases e with
  | call c r => exact absurd rfl (hc c r)
  | _ => rfl

lemma ask {c : Call H} (hc : c.isDecision = false) :
    Follows Quiet (ask c : EStateM Failure (Processor π H δ η τ) c.Reply) := fun p =>
  ⟨does_ask c (fun _ _ => hc) p, by rw [stateAfter_ask]⟩

lemma lends : Run.Lends (Quiet : Processor π H δ η τ → Processor π H δ η τ → Prop) := fun p digests =>
  ⟨lends_does p digests, rfl⟩

lemma sinks (h : H) : Run.Sinks (Quiet : Processor π H δ η τ → Processor π H δ η τ → Prop) h :=
  ⟨ask rfl, fun _ => ask rfl⟩

lemma streams : Run.Streams (Quiet : Processor π H δ η τ → Processor π H δ η τ → Prop) where
  note n p := log (e := .note n) (fun _ _ h => by cases h) p
  sources _ _ := ⟨⟨[], .aside rfl rfl rfl rfl rfl rfl, fun _ h => by cases h⟩, rfl⟩

variable [Hash.Engine η]

lemma readVariable (id : UInt32) :
    Follows Quiet (readVariable id : EStateM Failure (Processor π H δ η τ) UInt32) := fun p =>
  ⟨does_readVariable (fun _ _ => rfl) p, congrArg Variables.config (vars_readVariable id p)⟩

lemma setVariable (id value : UInt32) :
    Follows Quiet (setVariable id value : EStateM Failure (Processor π H δ η τ) Unit) := fun p =>
  ⟨does_setVariable (fun _ _ => rfl) (fun _ _ _ => rfl) p, config_of_setVariable id value p⟩

end Quiet

namespace Run

/-- What is done only when a run executes: nothing is decided, and what goes wrong is a fault. -/
structure Effect (f : Act π H δ η τ α) : Prop where
  steps : Follows (Steps (fun _ => True) Quiet) f
  faults : ∀ r e s, f r = .error e s → e.IsFault

namespace Effect

lemma pure (a : α) : Effect (pure a : Act π H δ η τ α) := ⟨.pure a, Raises.pure a⟩

lemma throw {e : Error} (h : e.IsFault) : Effect (throw e : Act π H δ η τ α) := ⟨.throw e, Raises.throw h⟩

lemma bind {f : Act π H δ η τ α} {g : α → Act π H δ η τ β} (hf : Effect f) (hg : ∀ a, Effect (g a)) :
    Effect (f >>= g) :=
  ⟨.bind hf.steps fun a => (hg a).steps, Raises.bind hf.faults fun a => (hg a).faults⟩

lemma ite {p : Prop} [Decidable p] {f g : Act π H δ η τ α} (hf : Effect f) (hg : Effect g) :
    Effect (if p then f else g) := by
  split
  · exact hf
  · exact hg

lemma platform {f : EStateM Failure (Run π H δ η τ) α} (hf : Follows (Steps (fun _ => True) Quiet) f) :
    Effect (f.adaptExcept .platform) :=
  ⟨.adaptExcept hf, Raises.adaptExcept fun _ => trivial⟩

lemma within {f : EStateM Failure (Processor π H δ η τ) α} (hf : Follows Quiet f) :
    Effect (within .platform f) :=
  ⟨steps_within hf, Raises.onPart (Raises.adaptExcept fun _ => trivial)⟩

lemma ask {c : Call H} (hc : c.isDecision = false) : Effect (ask c : Act π H δ η τ c.Reply) :=
  within (Quiet.ask hc)

lemma sink (h : H) (c : SinkCall) : Effect (sink h c : Act π H δ η τ Unit) :=
  (ask rfl).bind fun _ => ask rfl

lemma pump (chunk : Nat) (h : H) {write : Bytes → Act π H δ η τ Unit} (hw : ∀ b, Effect (write b))
    (limit offset : Nat) : Effect (pump chunk h write limit offset) := by
  induction hn : limit - offset using Nat.strongRecOn generalizing offset with
  | _ n ih =>
    rw [Run.pump]
    split
    · exact pure _
    · refine (ask rfl).bind fun b => ?_
      split
      · split
        · exact (hw b).bind fun _ => ih _ (by omega) _ rfl
        · exact pure _
      · exact throw trivial

lemma readThrough (h : H) (size : Option UInt32) {write : Bytes → Act π H δ η τ Unit}
    (hw : ∀ b, Effect (write b)) : Effect (readThrough h size write) :=
  ⟨.bind .get fun _ => (pump _ h hw _ _).steps, fun r => (pump _ h hw _ _).faults r⟩

lemma startsWith (h : H) (offset : Nat) (content : Bytes) : Effect
    (startsWith (fun offset want => Run.ask (.read h offset want)) offset content :
      Act π H δ η τ Bool) := by
  induction hn : content.length using Nat.strongRecOn generalizing offset content with
  | _ n ih =>
    rw [Processor.startsWith]
    split
    · exact pure _
    · refine (ask rfl).bind fun b => ?_
      split
      · split
        · refine ih _ ?_ _ _ rfl
          rw [List.length_drop]
          omega
        · exact pure _
      · exact pure _

lemma hasContent (h : H) (content : Bytes) :
    Effect (hasContent Run.ask h content : Act π H δ η τ Bool) := by
  refine (ask rfl).bind fun b => ?_
  cases b with
  | some b => exact pure b
  | none => exact startsWith h 0 content

variable [Hash.Engine η]

lemma digestMatches : Effect (digestMatches : Act π H δ η τ Bool) := by
  refine ⟨steps_digestMatches, fun r e s h => ?_⟩
  simp only [Run.digestMatches] at h
  split at h
  · simp only [onPart, EStateM.adaptExcept_run] at h
    repeat' split at h
    all_goals cases h
    rename_i hx
    split at hx <;> cases hx
    trivial
  · cases h

lemma checkDigest : Effect (checkDigest : Act π H δ η τ Unit) :=
  digestMatches.bind fun _ => ite (pure _) (throw trivial)

lemma withDigest {f : Act π H δ η τ α} (hf : Effect f) (d : Option Digest) :
    Effect (withDigest d f) := by
  have hc : Effect (Run.withDigest none f) := by
    refine ⟨steps_withDigest Quiet.lends hf.steps, fun r e s h => ?_⟩
    unfold Run.withDigest at h
    dsimp only at h
    split at h
    · cases h
    · rename_i x t ht
      cases h
      exact hf.faults r e t ht
  cases d with
  | none => exact hc
  | some d => exact (platform (steps_openDigest Quiet.lends d)).bind fun _ => hc

lemma imageMatches (h : H) (d : Digest) (size : Option UInt32) :
    Effect (imageMatches h d size : Act π H δ η τ Bool) :=
  withDigest ((readThrough h size fun _ => platform (steps_hash _)).bind fun _ =>
    ite (pure _) digestMatches) _

lemma streamInto [Source τ] (ps : Payloads) (type : ComponentType) (uri : Text) (h : H) :
    Effect (streamInto ps type uri h : Act π H δ η τ Unit) := by
  refine ⟨steps_streamInto (Quiet.sinks h) Quiet.streams ps type uri, fun r e s hs => ?_⟩
  rw [Run.streamInto] at hs
  dsimp only at hs
  split at hs
  · cases hs
  · cases hs
    trivial

end Effect

end Run

end Firmware.Processor
