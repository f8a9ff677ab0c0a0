import Firmware.Proofs.Processor.Decoding

/-!
The course of a pass: the sequences that it begins, the commands that these come to and the components
that commands turn to, each in the state that it finds. What every step keeps is found everywhere.
-/

namespace Firmware.Processor

open Manifest

def Member.place {H : Type} (m : Member H) : ComponentId × Target H := (m.id, m.target)

namespace Run

variable {π H δ η τ : Type} [Platform π H] [Flash δ] [Hash.Engine η] [Source τ]

def Pass.each (k : Pass) : Command → Option (Nat → Act π H δ η τ Unit)
  | .overrideParameters p => some (override p)
  | .condition .abort => none
  | .condition c => some fun i => do conclude c (← holds k.mode c (← member i))
  | .write => some fun i => do write k.mode (← member i)
  | .fetch => some fun i => do fetch k.mode ⟨k.payloads⟩ (← member i)
  | .copy => some fun i => do copy k.mode i (← member i)
  | .swap => some fun i => do swap k.mode i (← member i)
  | .invoke => some fun i => do invoke k.mode (← member i)
  | .setComponentIndex _ | .tryEach _ | .runSequence _ => none

lemma runCommand_each {k : Pass} {nested : Bytes → Act π H δ η τ Unit} {c : Command}
    {f : Nat → Act π H δ η τ Unit} (h : k.each c = some f) :
    runCommand k nested c = (do log (.command c); forSelected f) := by
  cases c with
  | condition c => cases c <;> cases h <;> rfl
  | setComponentIndex i | tryEach as | runSequence b => cases h
  | _ => cases h; rfl

lemma steps_each {K : H → Prop} {k : Pass} {c : Command}
    {T : List (H × Operation) → Processor π H δ η τ → Processor π H δ η τ → Prop}
    [∀ G, IsPreorder (Processor π H δ η τ) (T G)] (hT : Guarded k.mode c K T)
    {f : Nat → Act π H δ η τ Unit} (h : k.each c = some f) (hc : ∀ p, c ≠ .overrideParameters p)
    (i : Nat) : Follows (Steps K (T [])) (f i) := by
  cases c with
  | overrideParameters p => exact absurd rfl (hc p)
  | condition d =>
    cases d with
    | abort => cases h
    | _ => cases h; exact steps_member fun _ hx => steps_condition hx hT
  | write => cases h; exact steps_member fun _ hx => steps_write hx hT
  | fetch => cases h; exact steps_member fun _ hx => steps_fetch hx hT _
  | copy => cases h; exact steps_member fun _ hx => steps_copy hx hT i
  | swap => cases h; exact steps_member fun _ hx => steps_swap hx hT _
  | invoke => cases h; exact steps_member fun _ hx => steps_invoke hx hT
  | setComponentIndex _ | tryEach _ | runSequence _ => cases h

lemma follows_each {k : Pass} {c : Command} {f : Nat → Act π H δ η τ Unit} (h : k.each c = some f)
    (i : Nat) :
    Follows (fun r s : Run π H δ η τ => s.members.map Member.place = r.members.map Member.place ∧
      s.selected = r.selected) (f i) := by
  by_cases hc : ∃ p, c = .overrideParameters p
  · obtain ⟨p, rfl⟩ := hc
    cases h
    intro r
    refine ⟨?_, rfl⟩
    apply List.ext_getElem?
    intro j
    simp only [override, EStateM.modify_run, stateAfter_ok, List.getElem?_map, List.getElem?_modify]
    cases r.members[j]? with
    | none => rfl
    | some m =>
      apply congrArg some
      dsimp only
      split <;> rfl
  · intro r
    have hs := steps_each ((permits_does k.mode).toAllows.guarded (K := fun _ => True) c) h
      (fun p hp => hc ⟨p, hp⟩) i r fun _ _ _ _ => trivial
    rw [hs.2.1, hs.2.2.1]
    exact ⟨rfl, rfl⟩

def noteCommand (c : Command) (r : Run π H δ η τ) : Run π H δ η τ :=
  r.putProcessor (r.processor.log (.command c))

/-- Alternatives that are tried, each with what it finds. -/
inductive Tries (nested : Bytes → Act π H δ η τ Unit) :
    List (Option Bytes) → Run π H δ η τ → Bytes → Run π H δ η τ → Prop
  | here {b as r} : Tries nested (some b :: as) r b r
  | next {b as r c s b' t} : nested b r = .error (.conditionFailed c) s →
      Tries nested as { s with members := r.members, selected := r.selected } b' t →
      Tries nested (some b :: as) r b' t

/-- Sequences that a command begins. -/
inductive Enters (nested : Bytes → Act π H δ η τ Unit) :
    Command → Run π H δ η τ → Bytes → Run π H δ η τ → Prop
  | runSequence {b r} : Enters nested (.runSequence b) r b r
  | tryEach {as r b s} : Tries nested as r b s → Enters nested (.tryEach as) r b s

/-- A sequence with so many levels below it comes to a command. -/
def Comes (k : Pass) (levels : Nat) (b : Bytes) (r : Run π H δ η τ) (c : Command)
    (s : Run π H δ η τ) : Prop :=
  ∃ q cs ds, Sequence.decode b = .ok q ∧ q.commands = cs ++ c :: ds ∧
    cs.forM (runCommand k (runSequence k levels)) r = .ok () s

def Pass.enter (kind : SequenceKind) (r : Run π H δ η τ) : Run π H δ η τ :=
  { r with
    processor := r.processor.log (.sequence kind)
    report := { r.report with state := .running kind, sequence := some kind }
    selected := (List.range r.members.length).take 1 }

def Pass.runShared (k : Pass) : Act π H δ η τ Unit :=
  match k.manifest.shared with
  | some b => runSequence k Sequence.maxNesting b
  | none => pure ()

lemma runKind_run {k : Pass} {kind : SequenceKind} {b : Bytes}
    (h : k.manifest.sequence? kind = some b) (r : Run π H δ η τ) :
    runKind k kind r =
      (do k.runShared; runSequence k Sequence.maxNesting b) (Pass.enter kind r) := by
  simp only [runKind, h, Pass.runShared]
  cases k.manifest.shared <;> rfl

def Pass.upTo (k : Pass) (kinds : List SequenceKind) : Act π H δ η τ Unit := do
  k.manifest.components.forM (acquire k.classId)
  kinds.forM (runKind k)

/-- Sequences that a pass begins, with the levels that are left for them. -/
inductive Runs (k : Pass) (kinds : List SequenceKind) (r : Run π H δ η τ) :
    Nat → Bytes → Run π H δ η τ → Prop
  | shared {kind before after s b b'} : kinds = before ++ kind :: after →
      k.upTo before (k.begin r) = .ok () s → k.manifest.sequence? kind = some b →
      k.manifest.shared = some b' → Runs k kinds r Sequence.maxNesting b' (Pass.enter kind s)
  | own {kind before after s b t} : kinds = before ++ kind :: after →
      k.upTo before (k.begin r) = .ok () s → k.manifest.sequence? kind = some b →
      k.runShared (Pass.enter kind s) = .ok () t → Runs k kinds r Sequence.maxNesting b t
  | nested {levels b s c t b' u} : Runs k kinds r (levels + 1) b s → Comes k levels b s c t →
      Enters (runSequence k levels) c (noteCommand c t) b' u → Runs k kinds r levels b' u

/-- Components that a pass turns to in a command. -/
def Turns (k : Pass) (kinds : List SequenceKind) (r : Run π H δ η τ) (c : Command)
    (f : Nat → Act π H δ η τ Unit) (i : Nat) (u : Run π H δ η τ) : Prop :=
  ∃ levels b s t before after, Runs k kinds r (levels + 1) b s ∧ Comes k levels b s c t ∧
    k.each c = some f ∧ t.selected = before ++ i :: after ∧ before.forM f (noteCommand c t) = .ok () u

lemma Turns.each_eq {k : Pass} {kinds : List SequenceKind} {r u : Run π H δ η τ} {c : Command}
    {f : Nat → Act π H δ η τ Unit} {i : Nat} (h : Turns k kinds r c f i u) : k.each c = some f := by
  obtain ⟨-, -, -, -, -, -, -, -, hf, -⟩ := h
  exact hf

structure Sustains (k : Pass) (I : Run π H δ η τ → Prop) : Prop where
  log : ∀ {r} (e : Event H), I r → I (r.putProcessor (r.processor.log e))
  select : ∀ {r xs}, (∀ i ∈ xs, i < r.members.length) → I r → I { r with selected := xs }
  reselect : ∀ {r s}, I r → I s → I { s with selected := r.selected }
  restore : ∀ {r s}, I r → I s → I { s with members := r.members, selected := r.selected }
  each : ∀ {c f}, k.each c = some f → ∀ i, Follows (Maintains I) (f i)

structure Keeps (k : Pass) (I : Run π H δ η τ → Prop) : Prop extends Sustains k I where
  report : ∀ {r} (x : Report), I r → I { r with report := x }

namespace Sustains

variable {k : Pass} {I : Run π H δ η τ → Prop} (hk : Sustains k I)
include hk

lemma maintains_log (e : Event H) : Follows (Maintains I) (Run.log e : Act π H δ η τ Unit) := fun _ => hk.log e

lemma maintains_select (i : Index) : Follows (Maintains I) (Run.select i : Act π H δ η τ Unit) := by
  cases i with
  | all =>
    intro r
    apply hk.select
    intro i hi
    exact List.mem_range.mp hi
  | list is =>
    apply Follows.get_bind
    intro r
    dsimp only
    split
    · apply hk.select
      intro i hi
      exact List.mem_range.mp (List.mem_of_mem_filter hi)
    · exact id

lemma maintains_keepSelection {f : Act π H δ η τ Unit} (hf : Follows (Maintains I) f) :
    Follows (Maintains I) (keepSelection f) := by
  apply Follows.get_bind
  intro r hr
  rw [EStateM.bind_run]
  cases hs : f r with
  | ok u s => exact hk.reselect hr (hf.of_ok hs hr)
  | error e s => exact hf.of_error hs hr

lemma maintains_forSelected {c : Command} {f : Nat → Act π H δ η τ Unit} (h : k.each c = some f) :
    Follows (Maintains I) (forSelected f) :=
  follows_forSelected (hk.each h)

lemma maintains_runCommand {nested : Bytes → Act π H δ η τ Unit}
    (hn : ∀ b, Follows (Maintains I) (nested b)) (c : Command) :
    Follows (Maintains I) (runCommand k nested c) := by
  cases h : (k.each c : Option (Nat → Act π H δ η τ Unit)) with
  | some f =>
    rw [runCommand_each h]
    exact .bind (hk.maintains_log _) fun _ => hk.maintains_forSelected h
  | none =>
    refine .bind (hk.maintains_log _) fun _ => ?_
    cases c with
    | setComponentIndex i => exact hk.maintains_select i
    | tryEach as => exact follows_tryEach (fun r s h hr => hk.restore hr (h hr)) hn _ as
    | runSequence b => exact hk.maintains_keepSelection (hn b)
    | condition d =>
      cases d with
      | abort => exact .throw _
      | _ => cases h
    | _ => cases h

lemma maintains_runSequence (levels : Nat) (b : Bytes) :
    Follows (Maintains I) (runSequence k levels b : Act π H δ η τ Unit) := by
  induction levels generalizing b with
  | zero => exact .throw _
  | succ levels ih =>
    refine .bind (.lift _) fun q => .bind (.forM fun c _ => hk.maintains_runCommand ih c) fun _ => ?_
    cases q.failure with
    | none => exact .pure _
    | some e => exact .throw _

lemma maintains_runShared : Follows (Maintains I) (k.runShared : Act π H δ η τ Unit) := by
  simp only [Pass.runShared]
  cases k.manifest.shared with
  | none => exact .pure _
  | some b => exact hk.maintains_runSequence _ b

lemma tries {nested : Bytes → Act π H δ η τ Unit} (hn : ∀ b, Follows (Maintains I) (nested b))
    {as : List (Option Bytes)} {r s : Run π H δ η τ} {b : Bytes} (h : Tries nested as r b s) (hr : I r) :
    I s := by
  induction h with
  | here => exact hr
  | next hs _ ih => exact ih (hk.restore hr ((hn _).of_error hs hr))

lemma comes {levels : Nat} {b : Bytes} {c : Command} {r s : Run π H δ η τ} (h : Comes k levels b r c s)
    (hr : I r) : I s := by
  obtain ⟨q, cs, ds, -, -, hs⟩ := h
  exact Follows.of_ok (.forM fun c _ => hk.maintains_runCommand (hk.maintains_runSequence levels) c) hs hr

lemma enters {levels : Nat} {b : Bytes} {c : Command} {r s : Run π H δ η τ}
    (h : Enters (runSequence k levels) c r b s) (hr : I r) : I s := by
  cases h with
  | runSequence => exact hr
  | tryEach h => exact hk.tries (hk.maintains_runSequence levels) h hr

end Sustains

namespace Keeps

variable {k : Pass} {I : Run π H δ η τ → Prop} (hk : Keeps k I)
include hk

lemma enter (kind : SequenceKind) {r : Run π H δ η τ} (hr : I r) : I (Pass.enter kind r) := by
  have h := hk.report { r.report with state := .running kind, sequence := some kind } (hk.log (.sequence kind) hr)
  exact hk.select (fun i hi => List.mem_range.mp (List.mem_of_mem_take hi)) h

lemma maintains_runKind (kind : SequenceKind) :
    Follows (Maintains I) (runKind k kind : Act π H δ η τ Unit) := by
  cases h : k.manifest.sequence? kind with
  | none =>
    simp only [runKind, h]
    exact .pure _
  | some b =>
    intro r hr
    rw [runKind_run h]
    have hf : Follows (Maintains I) (do k.runShared; runSequence k Sequence.maxNesting b : Act π H δ η τ Unit) :=
      .bind hk.maintains_runShared fun _ => hk.maintains_runSequence _ b
    exact hf _ (hk.enter kind hr)

lemma maintains_runKinds (kinds : List SequenceKind) :
    Follows (Maintains I) (runKinds k kinds : Act π H δ η τ Unit) :=
  .bind (.forM fun kind _ => hk.maintains_runKind kind) fun _ _ => hk.report _

variable {kinds : List SequenceKind} {r : Run π H δ η τ}
variable (ha : ∀ s, k.manifest.components.forM (acquire k.classId) (k.begin r) = .ok () s → I s)
include ha

lemma upTo {s : Run π H δ η τ} {before : List SequenceKind} (h : k.upTo before (k.begin r) = .ok () s) :
    I s := by
  obtain ⟨_, t, ht, hs⟩ := EStateM.bind_eq_ok h
  exact Follows.of_ok (.forM fun kind _ => hk.maintains_runKind kind) hs (ha t ht)

lemma runs {levels : Nat} {b : Bytes} {s : Run π H δ η τ} (h : Runs k kinds r levels b s) : I s := by
  induction h with
  | shared _ hs _ _ => exact hk.enter _ (hk.upTo ha hs)
  | own _ hs _ ht => exact hk.maintains_runShared.of_ok ht (hk.enter _ (hk.upTo ha hs))
  | nested _ hc he ih => exact hk.enters he (hk.log _ (hk.comes hc ih))

lemma turns {c : Command} {f : Nat → Act π H δ η τ Unit} {i : Nat} {u : Run π H δ η τ}
    (h : Turns k kinds r c f i u) : I u := by
  obtain ⟨levels, b, s, t, before, after, hr, hc, hf, -, hu⟩ := h
  exact Follows.of_ok (.forM fun i _ => hk.each hf i) hu (hk.log _ (hk.comes hc (hk.runs ha hr)))

end Keeps

lemma keeps_places (k : Pass) (r : Run π H δ η τ) :
    Keeps k fun s : Run π H δ η τ => s.members.map Member.place = r.members.map Member.place where
  log _ := id
  report _ := id
  select _ := id
  reselect _ := id
  restore h _ := h
  each h i s := (follows_each h i s).1.trans

end Run

end Firmware.Processor
