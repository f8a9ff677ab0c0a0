import Firmware.Proofs.Processor.Course

/-!
The turns of a pass make up the pass. What each of them does to the processor, the pass does, and once a
turn is taken, what is left of the pass comes after it.
-/

namespace Firmware.Processor.Run

open Manifest

variable {π H δ η τ : Type} [Platform π H] [Flash δ] [Hash.Engine η] [Source τ]
variable {T : Processor π H δ η τ → Processor π H δ η τ → Prop} [IsPreorder (Processor π H δ η τ) T]
variable {k : Pass} {kinds : List SequenceKind} {r s t u : Run π H δ η τ} {c : Command} {b b' : Bytes}
variable {nested : Bytes → Act π H δ η τ Unit} {levels : Nat}

section Coverage

omit [Platform π H] [Flash δ] [Hash.Engine η] [Source τ] in
lemma along_tryEach_of {as : List (Option Bytes)}
    (hn : ∀ b u, Tries nested as s b u → Along T u (stateAfter (nested b u))) (failure : Error) :
    Along T s (stateAfter (tryEach nested failure as s)) := by
  induction as generalizing s failure with
  | nil => exact refl_of (Along T) s
  | cons a as ih =>
    cases a with
    | none => exact refl_of (Along T) s
    | some b =>
      have hs := hn b s .here
      rw [tryEach]
      dsimp only
      cases hx : nested b s with
      | ok v t =>
        rw [hx] at hs
        exact hs
      | error e t =>
        rw [hx] at hs
        cases e with
        | conditionFailed c =>
          have ht := ih (s := { t with members := s.members, selected := s.selected })
            (fun b u hu => hn b u (.next hx hu)) (.conditionFailed c)
          exact trans_of T hs ht
        | _ => exact hs

/-- What a pass puts into the trace between its turns, and what it does at them, moves the processor
along `T`. -/
structure Covers (k : Pass) (kinds : List SequenceKind) (r : Run π H δ η τ)
    (T : Processor π H δ η τ → Processor π H δ η τ → Prop) : Prop where
  log : ∀ {e : Event H}, e.IsRemark → ∀ p, T p (p.log e)
  acquire : ∀ id, Follows (Along T) (acquire k.classId id : Act π H δ η τ Unit)
  turn : ∀ {c f i u}, Turns k kinds r c f i u → Along T u (stateAfter (f i u))

namespace Covers

variable (hT : Covers k kinds r T)
include hT

lemma runCommand (hb : Runs k kinds r (levels + 1) b s) (hc : Comes k levels b s c t)
    (hn : ∀ b u, Runs k kinds r levels b u → Along T u (stateAfter (runSequence k levels b u))) :
    Along T t (stateAfter (runCommand k (runSequence k levels) c t)) := by
  have hlog : Along T t (noteCommand c t) := hT.log (e := .command c) trivial t.processor
  refine trans_of (Along T) hlog ?_
  cases h : (k.each c : Option (Nat → Act π H δ η τ Unit)) with
  | some f =>
    rw [runCommand_each h]
    exact Follows.of_forM (R := Along T) (s := noteCommand c t) fun before i after v hi hv =>
      hT.turn ⟨levels, b, s, t, before, after, hb, hc, h, hi, hv⟩
  | none =>
    cases c with
    | setComponentIndex i => exact Goes.along (goes_select i) (noteCommand _ t)
    | tryEach as => exact along_tryEach_of (fun b' u hu => hn b' u (.nested hb hc (.tryEach hu))) _
    | runSequence b' =>
      have hs := hn b' _ (.nested hb hc .runSequence)
      exact Follows.of_bind (R := Along T) (s := noteCommand _ t) hs fun _ u _ => refl_of T u.processor
    | condition d =>
      cases d with
      | abort => exact refl_of T _
      | _ => cases h
    | _ => cases h

lemma runSequence (hb : Runs k kinds r levels b s) : Along T s (stateAfter (runSequence k levels b s)) := by
  induction levels generalizing b s with
  | zero => exact refl_of (Along T) s
  | succ levels ih =>
    refine Follows.of_bind (R := Along T) (Follows.lift _ s) fun q s' hd => ?_
    obtain ⟨hq, rfl⟩ := EStateM.lift_eq_ok hd
    refine Follows.of_bind (R := Along T) ?_ fun _ u _ => ?_
    · refine Follows.of_forM fun before c after t hcs ht => ?_
      exact hT.runCommand hb ⟨q, before, after, Except.mapError_eq_ok.mp hq, hcs, ht⟩ fun _ _ => ih
    · cases q.failure with
      | none => exact refl_of (Along T) u
      | some e => exact refl_of (Along T) u

lemma runKind {kind : SequenceKind} {before after : List SequenceKind} (hk : kinds = before ++ kind :: after)
    (hs : k.upTo before (k.begin r) = .ok () s) : Along T s (stateAfter (runKind k kind s)) := by
  cases hb : k.manifest.sequence? kind with
  | none =>
    simp only [Run.runKind, hb]
    exact refl_of (Along T) s
  | some b =>
    rw [runKind_run hb]
    have hlog : Along T s (Pass.enter kind s) := hT.log (e := .sequence kind) trivial s.processor
    refine trans_of (Along T) hlog (Follows.of_bind ?_ fun _ t ht => hT.runSequence (.own hk hs hb ht))
    cases hm : k.manifest.shared with
    | none =>
      simp only [Pass.runShared, hm]
      exact refl_of (Along T) _
    | some b' =>
      simp only [Pass.runShared, hm]
      exact hT.runSequence (.shared hk hs hb hm)

lemma body : Along T (k.begin r) (stateAfter (k.body kinds (k.begin r))) := by
  have ha : Follows (Along T) (k.manifest.components.forM (Run.acquire k.classId) : Act π H δ η τ Unit) :=
    .forM fun id _ => hT.acquire id
  refine Follows.of_bind (ha _) fun _ s hs => Follows.of_bind ?_ fun _ u _ => refl_of (Along T) u
  refine Follows.of_forM fun before kind after t hk ht => ?_
  exact hT.runKind hk ((EStateM.bind_of_ok _ _ _ hs).trans ht)

end Covers

end Coverage

section Resumption

variable (hT : Allows k.mode T)

omit [Platform π H] [Flash δ] [Hash.Engine η] [Source τ] in
lemma Tries.resumes (hn : ∀ b, Follows (Along T) (nested b)) {as : List (Option Bytes)}
    (h : Tries nested as s b u) (failure : Error) :
    Along T (stateAfter (nested b u)) (stateAfter (tryEach nested failure as s)) := by
  have hb (r s : Run π H δ η τ) (h : Along T r s) :
      Along T r { s with members := r.members, selected := r.selected } := h
  induction h generalizing failure with
  | @here b as r =>
    rw [tryEach]
    dsimp only
    cases hx : nested b r with
    | ok v t => exact refl_of (Along T) t
    | error e t =>
      cases e with
      | conditionFailed c =>
        have ht := follows_tryEach hb hn (.conditionFailed c) as
          { t with members := r.members, selected := r.selected }
        exact ht
      | _ => exact refl_of (Along T) t
  | next hx _ ih =>
    rw [tryEach]
    dsimp only
    rw [hx]
    exact ih _

include hT

lemma along_runSequence (levels : Nat) (b : Bytes) :
    Follows (Along T) (runSequence k levels b : Act π H δ η τ Unit) :=
  Goes.along (goes_runSequence (governed_of_allows hT) levels b)

lemma along_runCommand (levels : Nat) (c : Command) :
    Follows (Along T) (runCommand k (runSequence k levels) c : Act π H δ η τ Unit) :=
  Goes.along (goes_runCommand (governed_of_allows hT)
    (fun b => goes_runSequence (governed_of_allows hT) levels b) c)

lemma along_each {f : Nat → Act π H δ η τ Unit} (h : k.each c = some f) (i : Nat) :
    Follows (Along T) (f i) := by
  by_cases hc : ∃ p, c = .overrideParameters p
  · obtain ⟨p, rfl⟩ := hc
    cases h
    exact Goes.along (goes_override p i)
  · exact Steps.along (steps_each (hT.guarded c) h (fun p hp => hc ⟨p, hp⟩) i)

lemma along_runKind (kind : SequenceKind) : Follows (Along T) (runKind k kind : Act π H δ η τ Unit) :=
  Goes.along (goes_runKind (governed_of_allows hT) kind)

lemma Enters.resumes (h : Enters (Run.runSequence k levels) c (noteCommand c t) b u) :
    Along T (stateAfter (Run.runSequence k levels b u))
      (stateAfter (runCommand k (Run.runSequence k levels) c t)) := by
  generalize hv : noteCommand c t = v at h
  cases h with
  | runSequence =>
    subst hv
    have hm : Follows (Along T) (modify fun u => { u with selected := t.selected } : Act π H δ η τ PUnit) :=
      along_modify fun _ => rfl
    exact Follows.rest (fun _ => hm) (noteCommand _ t)
  | tryEach h =>
    subst hv
    exact h.resumes (along_runSequence hT levels) (.conditionFailed .abort)

lemma Comes.resumes (h : Comes k levels b s c t) :
    Along T (stateAfter (runCommand k (runSequence k levels) c t))
      (stateAfter (runSequence k (levels + 1) b s)) := by
  obtain ⟨q, before, after, hq, hcs, ht⟩ := h
  have hd : (liftM ((Sequence.decode b).mapError Error.manifest) : Act π H δ η τ Sequence) s = .ok q s := by
    rw [hq]
    rfl
  have hrest : Along T (stateAfter (runCommand k (runSequence k levels) c t))
      (stateAfter (q.commands.forM (runCommand k (runSequence k levels)) s)) :=
    Follows.rest_forM (along_runCommand hT levels) hcs ht
  rw [show runSequence k (levels + 1) b s = _ from EStateM.bind_of_ok _ _ _ hd]
  refine trans_of (Along T) hrest (Follows.rest (fun _ => ?_) s)
  cases q.failure with
  | none => exact .pure _
  | some e => exact .throw _

lemma along_body_of {kind : SequenceKind} {before after : List SequenceKind} (hk : kinds = before ++ kind :: after)
    (hs : k.upTo before (k.begin r) = .ok () s) :
    Along T (stateAfter (runKind k kind s)) (stateAfter (k.body kinds (k.begin r))) := by
  obtain ⟨_, a, ha, hs⟩ := EStateM.bind_eq_ok hs
  have hrest : Along T (stateAfter (runKind k kind s)) (stateAfter (kinds.forM (runKind k) a)) :=
    Follows.rest_forM (along_runKind hT) hk hs
  have hb : k.body kinds (k.begin r) = runKinds k kinds a := EStateM.bind_of_ok _ _ _ ha
  have hm : Follows (Along T) (modify fun u => { u with report := { u.report with sequence := none } } :
      Act π H δ η τ PUnit) := along_modify fun _ => rfl
  rw [hb]
  exact trans_of (Along T) hrest (Follows.rest (fun _ => hm) a)

lemma Runs.resumes (h : Runs k kinds r levels b s) :
    Along T (stateAfter (runSequence k levels b s)) (stateAfter (k.body kinds (k.begin r))) := by
  induction h with
  | @shared kind before after s b b' hk hs hb hm =>
    refine trans_of (Along T) ?_ (along_body_of hT hk hs)
    have hrun : (k.runShared : Act π H δ η τ Unit) = runSequence k Sequence.maxNesting b' := by
      simp only [Pass.runShared, hm]
    rw [runKind_run hb, hrun]
    exact Follows.rest (fun _ => along_runSequence hT _ b) _
  | @own kind before after s b t hk hs hb ht =>
    refine trans_of (Along T) ?_ (along_body_of hT hk hs)
    rw [runKind_run hb, EStateM.bind_of_ok _ _ _ ht]
    exact refl_of (Along T) _
  | nested _ hc he ih => exact trans_of (Along T) (trans_of (Along T) (he.resumes hT) (hc.resumes hT)) ih

lemma Turns.resumes {f : Nat → Act π H δ η τ Unit} {i : Nat} (h : Turns k kinds r c f i u) :
    Along T (stateAfter (f i u)) (stateAfter (k.body kinds (k.begin r))) := by
  obtain ⟨levels, b, s, t, before, after, hb, hc, hf, hi, hu⟩ := h
  have hrest : Along T (stateAfter (f i u)) (stateAfter (runCommand k (runSequence k levels) c t)) := by
    rw [runCommand_each hf]
    exact Follows.rest_forM (s := noteCommand c t) (along_each hT hf) hi hu
  exact trans_of (Along T) hrest (trans_of (Along T) (hc.resumes hT) (hb.resumes hT))

end Resumption

end Firmware.Processor.Run
