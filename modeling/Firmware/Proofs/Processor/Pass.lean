import Firmware.Proofs.Processor.Commands

namespace Firmware.Processor.Run

open Flash Manifest Storage

variable {π H δ η τ α : Type} [Platform π H] [Flash δ]

omit [Platform π H] [Flash δ] in
lemma follows_forSelected {R : Run π H δ η τ → Run π H δ η τ → Prop}
    [IsPreorder (Run π H δ η τ) R] {f : Nat → Act π H δ η τ Unit} (hf : ∀ i, Follows R (f i)) :
    Follows R (forSelected f) :=
  .bind .get fun _ => .forM fun i _ => hf i

omit [Platform π H] [Flash δ] in
lemma follows_tryEach {R : Run π H δ η τ → Run π H δ η τ → Prop} [IsPreorder (Run π H δ η τ) R]
    (hb : ∀ r s, R r s → R r { s with members := r.members, selected := r.selected })
    {nested : Bytes → Act π H δ η τ Unit} (hn : ∀ s, Follows R (nested s)) (failure : Error)
    (as : List (Option Bytes)) : Follows R (tryEach nested failure as) := by
  induction as generalizing failure with
  | nil => exact .throw _
  | cons a as ih =>
    cases a with
    | none => exact .pure _
    | some s =>
      intro r
      have hr := hn s r
      rw [tryEach]
      dsimp only
      revert hr
      cases nested s r with
      | ok u t => exact id
      | error e t =>
        cases e with
        | conditionFailed c => exact fun hr => trans_of R (hb r t hr) (ih _ _)
        | _ => exact id

/-- The processor moves along `T`, and components come and go only with handles in `K`. -/
def Goes (K : H → Prop) (T : Processor π H δ η τ → Processor π H δ η τ → Prop)
    (r s : Run π H δ η τ) : Prop :=
  Uses K r → T r.processor s.processor ∧ Uses K s

section Sequences

variable {K : H → Prop} {T : Processor π H δ η τ → Processor π H δ η τ → Prop}

omit [Platform π H] [Flash δ] in
lemma Steps.goes {r s : Run π H δ η τ} (h : Steps K T r s) : Goes K T r s := fun hK =>
  ⟨(h hK).1, hK.of_members (h hK).2.1⟩

variable [IsPreorder (Processor π H δ η τ) T]

instance : IsPreorder (Run π H δ η τ) (Goes K T) where
  refl r hK := ⟨refl_of T r.processor, hK⟩
  trans _ _ _ h h' hK :=
    have ⟨hT, hK⟩ := h hK
    ⟨trans_of T hT (h' hK).1, (h' hK).2⟩

omit [Platform π H] [Flash δ] in
lemma goes_aside {r s : Run π H δ η τ} (h : s.processor = r.processor)
    (hm : Uses K r → Uses K s) : Goes K T r s :=
  fun hK => ⟨h ▸ refl_of T r.processor, hm hK⟩

omit [Platform π H] [Flash δ] in
lemma goes_select (i : Index) : Follows (Goes K T) (select i : Act π H δ η τ Unit) := by
  have hs (xs : List Nat) : Follows (Goes K T)
      (modify fun r => { r with selected := xs } : Act π H δ η τ PUnit) := fun _ => goes_aside rfl id
  cases i with
  | all => exact fun _ => goes_aside rfl id
  | list is => exact .bind .get fun _ => .check (hs _)

omit [Platform π H] [Flash δ] in
lemma goes_override (p : Parameters) (i : Nat) :
    Follows (Goes K T) (override p i : Act π H δ η τ Unit) := by
  refine fun r => goes_aside rfl fun hK m hm h ht => ?_
  change m ∈ r.members.modify i fun m => { m with parameters := m.parameters.apply p } at hm
  obtain ⟨n, hn⟩ := List.mem_iff_getElem?.mp hm
  rw [List.getElem?_modify] at hn
  obtain ⟨x, hx, rfl⟩ := Option.map_eq_some_iff.mp hn
  refine hK x (List.mem_of_getElem? hx) h ?_
  split at ht <;> exact ht

omit [Platform π H] [Flash δ] in
lemma goes_keepSelection {f : Act π H δ η τ Unit} (hf : Follows (Goes K T) f) :
    Follows (Goes K T) (keepSelection f) :=
  .bind .get fun _ => .bind hf fun _ _ => goes_aside rfl id

variable [Hash.Engine η]

/-- Between commands, the processor moves along `T₀`, and within command `c` along `T c`. -/
structure Governed (mode : Mode) (K : H → Prop)
    (T₀ : Processor π H δ η τ → Processor π H δ η τ → Prop)
    (T : Command → List (H × Operation) → Processor π H δ η τ → Processor π H δ η τ → Prop) :
    Prop where
  sequence : ∀ kind p, T₀ p (p.log (.sequence kind))
  command : ∀ {c} {f : Act π H δ η τ Unit}, Follows (Goes K (T c [])) f →
    Follows (Goes K T₀) (do log (.command c); f)
  guarded : ∀ c, Guarded mode c K (T c)

variable {T₀ : Processor π H δ η τ → Processor π H δ η τ → Prop}
variable {T : Command → List (H × Operation) → Processor π H δ η τ → Processor π H δ η τ → Prop}
variable [IsPreorder (Processor π H δ η τ) T₀] [∀ c G, IsPreorder (Processor π H δ η τ) (T c G)]
variable [Source τ] {k : Pass} (hT : Governed k.mode K T₀ T)
include hT

lemma goes_runCommand {nested : Bytes → Act π H δ η τ Unit}
    (hn : ∀ s, Follows (Goes K T₀) (nested s)) (c : Command) :
    Follows (Goes K T₀) (runCommand k nested c) := by
  have hl : Follows (Goes K T₀) (log (.command c) : Act π H δ η τ Unit) := by
    simpa only [bind_pure_unit] using hT.command (c := c) (f := pure ()) (.pure _)
  -- One component after the other.
  have hs {f : Nat → Member H → Act π H δ η τ Unit} (hf : ∀ i x,
      (∀ h, x.target = .component h → K h) → Follows (Steps K (T c [])) (f i x)) :
      Follows (Goes K T₀) (do log (.command c); forSelected fun i => do f i (← member i)) :=
    hT.command ((follows_forSelected fun i => steps_member fun x hx => hf i x hx).mono
      fun _ _ => Steps.goes)
  have hg := hT.guarded c
  cases c with
  | condition d =>
    cases d with
    | abort => exact hT.command (.throw _)
    | _ => exact hs fun i x hx => steps_condition hx hg
  | setComponentIndex i => exact hT.command (goes_select i)
  | overrideParameters p => exact hT.command (follows_forSelected (goes_override p))
  | tryEach as => exact .bind hl fun _ => follows_tryEach (fun _ _ h hK => ⟨(h hK).1, hK⟩) hn _ as
  | runSequence s => exact .bind hl fun _ => goes_keepSelection (hn s)
  | write => exact hs fun _ _ hx => steps_write hx hg
  | fetch => exact hs fun _ _ hx => steps_fetch hx hg _
  | copy => exact hs fun i _ hx => steps_copy hx hg i
  | swap => exact hs fun i _ hx => steps_swap hx hg i
  | invoke => exact hs fun _ _ hx => steps_invoke hx hg

lemma goes_runSequence (levels : Nat) (s : Bytes) :
    Follows (Goes K T₀) (runSequence k levels s : Act π H δ η τ Unit) := by
  induction levels generalizing s with
  | zero => exact .throw _
  | succ levels ih =>
    refine .bind (.lift _) fun q => .bind (.forM fun c _ => goes_runCommand hT ih c) fun _ => ?_
    cases q.failure with
    | none => exact .pure _
    | some e => exact .throw _

lemma goes_runKind (kind : SequenceKind) :
    Follows (Goes K T₀) (runKind k kind : Act π H δ η τ Unit) := by
  have hl : Follows (Goes K T₀) (log (.sequence kind) : Act π H δ η τ Unit) := fun r hK =>
    ⟨hT.sequence kind r.processor, hK⟩
  simp only [runKind]
  cases k.manifest.sequence? kind with
  | none => exact .pure _
  | some s =>
    refine .bind hl fun _ => .bind (fun _ => goes_aside rfl id) fun _ => ?_
    cases k.manifest.shared with
    | none => exact goes_runSequence hT _ s
    | some shared => exact .bind (goes_runSequence hT _ shared) fun _ => goes_runSequence hT _ s

lemma goes_runKinds (kinds : List SequenceKind) :
    Follows (Goes K T₀) (runKinds k kinds : Act π H δ η τ Unit) :=
  .bind (.forM fun kind _ => goes_runKind hT kind) fun _ _ => goes_aside rfl id

end Sequences

section Components

def admission (classId : Uuid) (id : ComponentId) : Act π H δ η τ Unit :=
  within (fun _ => .denied) (Processor.ask (.authorizeComponent classId id))

def add (id : ComponentId) (x : Target H) : Act π H δ η τ Unit :=
  modify fun r => { r with members := r.members ++ [⟨id, x, {}⟩] }

omit [Flash δ] in
lemma acquire_cases (classId : Uuid) (id : ComponentId) :
    (∃ n, acquire classId id = (admission classId id >>= fun _ => add id (.variable n) : Act π H δ η τ Unit)) ∨
      acquire classId id = (admission classId id >>= fun _ => throw .badComponent : Act π H δ η τ Unit) ∨
      acquire classId id = (do
        admission classId id
        let h ← ask (.acquire id)
        add id (.component h) : Act π H δ η τ Unit) := by
  cases ht : id.type with
  | manifestVariable =>
    cases hn : id.word? 0 with
    | some n =>
      refine .inl ⟨n, ?_⟩
      simp only [acquire, ht, hn]
      rfl
    | none =>
      refine .inr (.inl ?_)
      simp only [acquire, ht, hn]
      rfl
  | _ =>
    refine .inr (.inr ?_)
    simp only [acquire, ht]
    rfl

omit [Flash δ] in
lemma rel_releaseAll {R : Run π H δ η τ → Run π H δ η τ → Prop} [IsPreorder (Run π H δ η τ) R]
    (h : ∀ x (r : Run π H δ η τ),
      R r (r.putProcessor (stateAfter (Processor.ask (.release x) r.processor)))) (r : Run π H δ η τ) :
    R r (releaseAll r) := by
  -- The members are those from the beginning, whatever becomes of the run.
  simp only [releaseAll]
  generalize r.members = ms
  induction ms generalizing r with
  | nil => exact refl_of R r
  | cons m ms ih =>
    refine trans_of R ?_ (ih (releaseMember m r))
    simp only [releaseMember]
    cases m.target with
    | component x => exact h x r
    | «variable» id => exact refl_of R r

end Components

section

variable [Hash.Engine η] [Source τ]

def Pass.begin (k : Pass) (r : Run π H δ η τ) : Run π H δ η τ :=
  { r with
    processor := r.processor.log (.passBegins k.mode)
    report := { r.report with mode := k.mode }
    members := []
    selected := [] }

def Pass.body (k : Pass) (kinds : List SequenceKind) : Act π H δ η τ Unit := do
  k.manifest.components.forM (acquire k.classId)
  runKinds k kinds

lemma pass_run (k : Pass) (kinds : List SequenceKind) (r : Run π H δ η τ) :
    pass k kinds r =
      match k.body kinds (k.begin r) with
      | .ok () s => log (.passEnds k.mode) (releaseAll s)
      | .error e s => .error e (releaseAll s) := by
  have hb (f : Act π H δ η τ Unit) (r : Run π H δ η τ) :
      ((fun r => match f r with
        | .ok () s => .ok () (releaseAll s)
        | .error e s => .error e (releaseAll s) : Act π H δ η τ Unit) >>= fun _ => log (.passEnds k.mode)) r =
      match f r with
      | .ok () s => log (.passEnds k.mode) (releaseAll s)
      | .error e s => .error e (releaseAll s) := by
    simp only [bind, EStateM.bind]
    cases f r <;> rfl
  exact hb (k.body kinds) (k.begin r)

end

section Passes

variable {T : Processor π H δ η τ → Processor π H δ η τ → Prop}

omit [Platform π H] [Flash δ] in
lemma Goes.along {f : Act π H δ η τ α} (h : Follows (Goes (fun _ => True) T) f) :
    Follows (Along T) f :=
  h.mono fun _ _ h => (h fun _ _ _ _ => trivial).1

variable [IsPreorder (Processor π H δ η τ) T]
variable [Hash.Engine η] {mode : Mode}

lemma along_acquire (hT : Permits mode T) (classId : Uuid) (id : ComponentId) :
    Follows (Along T) (acquire classId id : Act π H δ η τ Unit) := by
  have hq : Follows (Along T) (admission classId id : Act π H δ η τ Unit) :=
    along_within (hT.ask not_false fun _ _ => trivial)
  have ha (x : Target H) : Follows (Along T) (add id x : Act π H δ η τ Unit) := along_modify fun _ => rfl
  obtain ⟨n, h⟩ | h | h := acquire_cases (π := π) classId id
  · rw [h]
    exact .bind hq fun _ => ha _
  · rw [h]
    exact .bind hq fun _ => .throw _
  · rw [h]
    exact .bind hq fun _ => .bind (along_within (hT.resource trivial)) fun _ => ha _

omit [Flash δ] [Hash.Engine η] in
lemma along_releaseAll (hT : ∀ h, Follows T (Processor.ask (.release h))) (r : Run π H δ η τ) :
    Along T r (releaseAll r) := by
  apply rel_releaseAll
  intro h r
  exact hT h r.processor

lemma governed_of_allows (hT : Allows mode T) : Governed mode (fun _ => True) T fun _ _ => T where
  sequence kind := hT.log (e := .sequence kind) trivial fun _ => trivial
  command {c f} hf := by
    refine .bind (fun r hK => ⟨?_, hK⟩) fun _ => hf
    exact hT.log (e := .command c) trivial (fun _ => trivial) r.processor
  guarded c := hT.guarded c

variable [Source τ]

lemma along_ending {k : Pass} (hr : ∀ h, Follows T (Processor.ask (.release h)))
    (he : ∀ p, T p (p.log (.passEnds k.mode))) (kinds : List SequenceKind) (r : Run π H δ η τ) :
    Along T (stateAfter (k.body kinds (k.begin r))) (stateAfter (pass k kinds r)) := by
  rw [pass_run]
  cases k.body kinds (k.begin r) with
  | ok u s => exact trans_of T (along_releaseAll hr s) (he _)
  | error e s => exact along_releaseAll hr s

lemma along_pass {k : Pass} (hT : Permits k.mode T) (kinds : List SequenceKind) :
    Follows (Along T) (pass k kinds : Act π H δ η τ Unit) := by
  have hb : Follows (Along T) (k.body kinds : Act π H δ η τ Unit) :=
    .bind (.forM fun id _ => along_acquire hT _ id) fun _ =>
      Goes.along (goes_runKinds (governed_of_allows hT.toAllows) kinds)
  intro r
  have hr : Along T r (k.begin r) := hT.bounds _ List.mem_cons_self r.processor
  refine trans_of (Along T) (trans_of (Along T) hr (hb (k.begin r))) (along_ending ?_ ?_ kinds r)
  · exact fun _ => hT.resource trivial
  · exact hT.bounds _ (List.mem_cons_of_mem _ (List.mem_singleton_self _))

end Passes

lemma acts_pass [Hash.Engine η] [Source τ] (k : Pass) (kinds : List SequenceKind) :
    Follows (Acts (Permitted k.mode)) (pass k kinds : Act π H δ η τ Unit) :=
  along_pass (permits_does k.mode) kinds

end Firmware.Processor.Run
