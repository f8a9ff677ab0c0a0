import Firmware.Proofs.Processor.Decisions
import Firmware.Proofs.Processor.Gate

/-!
The two passes over an envelope agree. On a platform whose decisions depend on their arguments only,
what gets through in `Validate` is not refused in `Execute`, and nothing is decided there that was not
decided before, unless a condition on contents turns out not to hold. Such conditions are taken to hold
in `Validate`, so that no alternative behind one is tried.
-/

namespace Firmware

namespace Manifest

def Condition.OfContent : Condition → Prop
  | .checkContent | .imageMatch => True
  | _ => False

end Manifest

namespace Processor

open Flash Manifest Storage

variable {π H δ η τ α β γ : Type}

/-- The platform decides by the arguments of a call only. -/
def Steadfast (π : Type) {H : Type} [Platform π H] : Prop :=
  ∀ c : Call H, c.isDecision → ∀ s t : π, answer (Platform.perform c s) = answer (Platform.perform c t)

namespace Error

def IsRefusal : Error → Prop
  | denied | badComponent | missingParameter => True
  | _ => False

def IsCondition : Error → Prop
  | conditionFailed _ => True
  | _ => False

end Error

variable [Platform π H] [Flash δ] {p q p' q' : Processor π H δ η τ} {as bs : List (Event H)}

def Affirmed (es : List (Event H)) : Prop := ∀ e ∈ es, ∃ c x, e = .call c (.ok x)

structure Level (as bs : List (Event H)) (p q : Processor π H δ η τ) : Prop where
  config : q.vars.config = p.vars.config
  same : ∃ ds, Affirmed ds ∧ decisions p = as ++ ds ∧ decisions q = bs ++ ds

def Behind (as bs : List (Event H)) (p q : Processor π H δ η τ) : Prop :=
  ∃ ds, Affirmed ds ∧ as ++ ds <+: decisions p ∧ decisions q = bs ++ ds

omit [Platform π H] [Flash δ] in
lemma Level.refl (h : q.vars.config = p.vars.config) : Level (decisions p) (decisions q) p q :=
  ⟨h, [], fun _ h => (by cases h), (List.append_nil _).symm, (List.append_nil _).symm⟩

lemma Level.quiet (h : Level as bs p q) (hp : Quiet p p') (hq : Quiet q q') : Level as bs p' q' := by
  refine ⟨hq.2.trans (h.config.trans hp.2.symm), ?_⟩
  rw [hp.decisions_eq, hq.decisions_eq]
  exact h.same

lemma Level.ask (h : Level as bs p q) {c : Call H} (hc : c.isDecision) {x : c.Reply}
    (hp : ask c p = .ok x p') (hq : ask c q = .ok x q') : Level as bs p' q' := by
  have hv {p p' : Processor π H δ η τ} (h : Processor.ask c p = .ok x p') :
      p'.vars.config = p.vars.config ∧ decisions p' = decisions p ++ [.call c (.ok x)] := by
    have hs := stateAfter_ask c p
    rw [h, stateAfter_ok] at hs
    refine ⟨by rw [hs], ?_⟩
    have he : (Event.call c (.ok x)).isDecision := hc
    rw [decisions_of_account (ask_eq_ok h), List.filter_cons_of_pos he, List.filter_nil]
  obtain ⟨hc, ds, hd, ha, hb⟩ := h
  refine ⟨(hv hq).1.trans (hc.trans (hv hp).1.symm), ds ++ [.call c (.ok x)], fun e he => ?_, ?_, ?_⟩
  · rcases List.mem_append.mp he with he | he
    · exact hd e he
    · exact ⟨c, x, List.mem_singleton.mp he⟩
  · rw [(hv hp).2, ha, List.append_assoc]
  · rw [(hv hq).2, hb, List.append_assoc]

omit [Platform π H] [Flash δ] in
lemma Level.behind (h : Level as bs p q) : Behind as bs p q := by
  obtain ⟨-, ds, hd, ha, hb⟩ := h
  exact ⟨ds, hd, ha ▸ List.prefix_refl _, hb⟩

lemma Behind.mono (h : Behind as bs p q) (hp : Does (fun _ _ => True) p p') (hq : Quiet q q') :
    Behind as bs p' q' := by
  obtain ⟨ds, hd, ha, hb⟩ := h
  obtain ⟨es, he, -⟩ := hp
  refine ⟨ds, hd, ha.trans ?_, hq.decisions_eq.trans hb⟩
  rw [decisions_of_account he]
  exact List.prefix_append _ _

namespace Run

structure Alike (as bs : List (Event H)) (r s : Run π H δ η τ) : Prop
    extends Level as bs r.processor s.processor where
  members : s.members = r.members
  selected : s.selected = r.selected

/-- How a run that executes ends, by how the run that validates does. -/
inductive Agrees (as bs : List (Event H)) (ρ : α → β → Prop) :
    EStateM.Result Error (Run π H δ η τ) α → EStateM.Result Error (Run π H δ η τ) β → Prop
  | ok {a : α} {b : β} {r s : Run π H δ η τ} : ρ a b → Alike as bs r s → Agrees as bs ρ (.ok a r) (.ok b s)
  | condition {c d : Condition} {r s : Run π H δ η τ} : Level as bs r.processor s.processor →
      Agrees as bs ρ (.error (.conditionFailed c) r) (.error (.conditionFailed d) s)
  | refused {e : Error} {r : Run π H δ η τ} {y : EStateM.Result Error (Run π H δ η τ) β} :
      ¬e.IsCondition → Agrees as bs ρ (.error e r) y
  | aborted {x : EStateM.Result Error (Run π H δ η τ) α} {e : Error} {s : Run π H δ η τ} :
      e.IsFault → Behind as bs (stateAfter x).processor s.processor → Agrees as bs ρ x (.error e s)

section Answers

def Answers (ρ : α → β → Prop) (f : Act π H δ η τ α) (g : Act π H δ η τ β) : Prop :=
  ∀ ⦃as bs r s⦄, Alike as bs r s → Agrees as bs ρ (f r) (g s)

variable {ρ : α → β → Prop}

omit [Platform π H] [Flash δ] in
lemma answers_pure {a : α} {b : β} (h : ρ a b) :
    Answers ρ (pure a : Act π H δ η τ α) (pure b : Act π H δ η τ β) := fun _ _ _ _ hA => .ok h hA

omit [Platform π H] [Flash δ] in
lemma answers_throw {e : Error} (he : ¬e.IsCondition) {g : Act π H δ η τ β} :
    Answers ρ (throw e : Act π H δ η τ α) g := fun _ _ _ _ _ => .refused he

lemma answers_effect {a : α} {g : Act π H δ η τ β} (hg : Effect g) (h : ∀ b, ρ a b) :
    Answers ρ (pure a : Act π H δ η τ α) g := by
  intro as bs r s hA
  obtain ⟨hq, hm, hl, -⟩ := hg.steps s fun _ _ _ _ => trivial
  have hL := hA.quiet (refl_of Quiet _) hq
  cases hs : g s with
  | ok b t =>
    rw [hs] at hm hl hL
    exact .ok (h b) ⟨hL, hm.trans hA.members, hl.trans hA.selected⟩
  | error e t =>
    rw [hs] at hL
    exact .aborted (hg.faults s e t hs) hL.behind

section Continuations

variable {f : γ → Act π H δ η τ α} {g : γ → Act π H δ η τ β}

omit [Platform π H] [Flash δ] in
lemma answers_check {p : Prop} [Decidable p] {e : Error} (he : ¬e.IsCondition)
    {f : PUnit → Act π H δ η τ α} {g : PUnit → Act π H δ η τ β} (h : Answers ρ (f ⟨⟩) (g ⟨⟩)) :
    Answers ρ (if p then f ⟨⟩ else throw e >>= f) (if p then g ⟨⟩ else throw e >>= g) := by
  split
  · exact h
  · exact answers_throw he

omit [Platform π H] [Flash δ] in
lemma answers_need (o : Option γ) (h : ∀ x, Answers ρ (f x) (g x)) :
    Answers ρ (need o >>= f) (need o >>= g) := by
  cases o with
  | none => exact answers_throw (e := .missingParameter) not_false
  | some x => exact h x

omit [Platform π H] [Flash δ] in
lemma answers_handle {f : H → Act π H δ η τ α} {g : H → Act π H δ η τ β} (m : Member H)
    (h : ∀ x, Answers ρ (f x) (g x)) : Answers ρ (handle m >>= f) (handle m >>= g) := by
  simp only [handle]
  cases m.target with
  | component x => exact h x
  | «variable» id => exact answers_throw (e := .badComponent) not_false

omit [Platform π H] [Flash δ] in
lemma answers_member {f : Member H → Act π H δ η τ α} {g : Member H → Act π H δ η τ β} (i : Nat)
    (h : ∀ x, Answers ρ (f x) (g x)) : Answers ρ (member i >>= f) (member i >>= g) := by
  intro as bs r s hA
  rw [member_bind_run, member_bind_run, hA.members]
  cases r.members[i]? with
  | none => exact .refused not_false
  | some m => exact h m hA

omit [Platform π H] [Flash δ] in
lemma answers_pair {f : H × H → Act π H δ η τ α} {g : H × H → Act π H δ η τ β} (i : Nat) (m : Member H)
    (h : ∀ x, Answers ρ (f x) (g x)) : Answers ρ (pair i m >>= f) (pair i m >>= g) := by
  simp only [pair, bind_assoc]
  refine answers_need _ fun j => ?_
  split
  · exact answers_throw (e := .badComponent) not_false
  · simpa only [bind_assoc, pure_bind] using
      answers_member j.toNat fun x => answers_handle m fun t => answers_handle x fun s => h (t, s)

omit [Platform π H] [Flash δ] in
lemma answers_access {f : Access → Act π H δ η τ α} {g : Access → Act π H δ η τ β} (id : UInt32)
    (h : ∀ x, Answers ρ (f x) (g x)) : Answers ρ (access id >>= f) (access id >>= g) := by
  intro as bs r s hA
  rw [access_bind_run, access_bind_run, Variables.access_congr hA.config]
  cases r.processor.vars.access id with
  | ok a => exact h a hA
  | error e => exact .refused not_false

lemma answers_ask {d : Call H} (hd : d.isDecision) (hπ : Steadfast π) {cause : Failure → Error}
    (hc : ∀ x, ¬(cause x).IsCondition) {f : d.Reply → Act π H δ η τ α} {g : d.Reply → Act π H δ η τ β}
    (h : ∀ x, Answers ρ (f x) (g x)) :
    Answers ρ (within cause (Processor.ask d) >>= f) (within cause (Processor.ask d) >>= g) := by
  intro as bs r s hA
  have ha : answer (Processor.ask d s.processor) = answer (Processor.ask d r.processor) := by
    rw [answer_ask, answer_ask, hπ d hd]
  rw [within_bind_run, within_bind_run]
  cases hr : Processor.ask d r.processor with
  | error e p => exact .refused (hc _)
  | ok x p =>
    cases hs : Processor.ask d s.processor with
    | error e q =>
      rw [hr, hs] at ha
      cases ha
    | ok y q =>
      rw [hr, hs] at ha
      obtain rfl : y = x := Except.ok.inj ha
      exact h y ⟨hA.ask hd hr hs, hA.members, hA.selected⟩

end Continuations

section Commands

variable [Hash.Engine η] (hπ : Steadfast π)
include hπ

omit [Hash.Engine η] in
lemma answers_authorize {ρ : α → β → Prop} (h : H) (op : Operation) {f : Act π H δ η τ α}
    {g : Act π H δ η τ β} (hf : Answers ρ f g) :
    Answers ρ (do authorize h op; f) (do authorize h op; g) :=
  answers_ask (d := .checkOperation h op) rfl hπ (fun _ => by exact not_false) fun _ => hf

lemma answers_write (m : Member H) : Answers Eq
    (write .validate m : Act π H δ η τ Unit) (write .execute m : Act π H δ η τ Unit) := by
  refine answers_need _ fun content => ?_
  cases m.target with
  | component h =>
    refine answers_authorize hπ h .write (answers_effect ?_ fun _ => rfl)
    exact (Effect.ask rfl).bind fun _ => (Effect.ask rfl).bind fun _ => (Effect.ask rfl).bind fun _ =>
      Effect.ask rfl
  | «variable» id =>
    refine answers_check (by exact not_false) (answers_access id fun a => answers_check (by exact not_false) ?_)
    exact answers_effect (.within (Quiet.setVariable id _)) fun _ => rfl

lemma answers_fetch [Source τ] (ps : Payloads) (m : Member H) : Answers Eq
    (fetch .validate ps m : Act π H δ η τ Unit) (fetch .execute ps m : Act π H δ η τ Unit) := by
  refine answers_need _ fun uri => answers_handle m fun h => answers_authorize hπ h .fetch ?_
  refine answers_effect (.withDigest (.bind (.sink _ _) fun _ => .bind (.streamInto _ _ _ _) fun _ =>
    .bind (.ask rfl) fun _ => .checkDigest) _) fun _ => rfl

lemma answers_copy (i : Nat) (m : Member H) : Answers Eq
    (copy .validate i m : Act π H δ η τ Unit) (copy .execute i m : Act π H δ η τ Unit) := by
  refine answers_pair i m fun ⟨t, s⟩ => answers_authorize hπ s .read (answers_authorize hπ t .copy ?_)
  refine answers_effect (.withDigest (.bind (.sink _ _) fun _ => .bind (.readThrough _ _ fun b =>
    .bind (.sink _ _) fun _ => .platform (steps_hash _)) fun n => ?_) _) fun _ => rfl
  have hf : Effect (do sink t .flush; checkDigest : Act π H δ η τ Unit) :=
    .bind (.sink _ _) fun _ => .checkDigest
  exact .ite (.bind (.throw trivial) fun _ => hf) hf

omit [Hash.Engine η] in
lemma answers_swap (i : Nat) (m : Member H) : Answers Eq
    (swap .validate i m : Act π H δ η τ Unit) (swap .execute i m : Act π H δ η τ Unit) := by
  refine answers_pair i m fun ⟨t, s⟩ => answers_authorize hπ t .swap (answers_authorize hπ s .swap ?_)
  exact answers_effect (.ask rfl) fun _ => rfl

omit [Hash.Engine η] in
lemma answers_invoke (m : Member H) : Answers Eq
    (invoke .validate m : Act π H δ η τ Unit) (invoke .execute m : Act π H δ η τ Unit) := by
  refine answers_handle m fun h => answers_authorize hπ h .invoke ?_
  exact answers_effect (.ask rfl) fun _ => rfl

/-- What the run that validates makes of a condition: it evaluates it, or it takes it to hold. -/
def Assumed (c : Condition) (b b' : Bool) : Prop := b' = b ∨ c.OfContent ∧ b = true

omit [Hash.Engine η] in
lemma answers_question {d : Call H} (hd : d.isDecision) {cause : Failure → Error}
    (hc : ∀ x, ¬(cause x).IsCondition) {ρ : d.Reply → d.Reply → Prop} (hρ : ∀ x, ρ x x) :
    Answers ρ (within cause (Processor.ask d) : Act π H δ η τ d.Reply)
      (within cause (Processor.ask d)) := by
  rw [← bind_pure (within cause (Processor.ask d))]
  exact answers_ask hd hπ hc fun x => answers_pure (hρ x)

lemma answers_holds (c : Condition) (m : Member H) : Answers (Assumed c)
    (holds .validate c m : Act π H δ η τ Bool) (holds .execute c m : Act π H δ η τ Bool) := by
  simp only [holds]
  cases m.target with
  | «variable» id =>
    by_cases hc : c = .checkContent
    · subst hc
      simp only [variableHolds, ↓reduceIte]
      refine answers_need _ fun content => answers_access id fun a => ?_
      refine answers_check (by exact not_false) (answers_effect ?_ fun _ => .inr ⟨trivial, rfl⟩)
      exact (Effect.within (Quiet.readVariable id)).bind fun _ => .pure _
    · simp only [variableHolds, hc, ↓reduceIte]
      exact answers_throw (by exact not_false)
  | component h =>
    have hn (x : Failure) : ¬(Error.platform x).IsCondition := not_false
    cases c with
    | vendorIdentifier =>
      exact answers_need _ fun x => answers_question hπ (d := .checkVendor h x) rfl hn fun _ => .inl rfl
    | classIdentifier =>
      exact answers_need _ fun x => answers_question hπ (d := .checkClass h x) rfl hn fun _ => .inl rfl
    | deviceIdentifier =>
      exact answers_need _ fun x => answers_question hπ (d := .checkDevice x) rfl hn fun _ => .inl rfl
    | componentSlot =>
      exact answers_need _ fun x => answers_question hπ (d := .checkSlot h x) rfl hn fun _ => .inl rfl
    | checkContent =>
      refine answers_need _ fun content => answers_authorize hπ h .read ?_
      exact answers_effect (.hasContent h content) fun _ => .inr ⟨trivial, rfl⟩
    | imageMatch =>
      refine answers_need _ fun digest => answers_authorize hπ h .read ?_
      exact answers_effect (.imageMatches h digest _) fun _ => .inr ⟨trivial, rfl⟩
    | abort => exact answers_pure (.inl rfl)

end Commands

end Answers

section Passes

/-- On the way from `s` to `t`, a condition on contents turns out not to hold. -/
def Missed (s t : Run π H δ η τ) : Prop :=
  ∃ es, t.processor.trace = s.processor.trace ++ es ∧ ∃ c : Condition, c.OfContent ∧ .condition c false ∈ es

lemma Missed.trans {r s t u : Run π H δ η τ} (hr : Acts (fun _ _ => True) r s) (h : Missed s t)
    (hu : Acts (fun _ _ => True) t u) : Missed r u := by
  obtain ⟨es, ht, c, hc, hm⟩ := h
  obtain ⟨fs, hf, -⟩ := hr
  obtain ⟨gs, hg, -⟩ := hu
  refine ⟨fs ++ (es ++ gs), ?_, c, hc, by simp [hm]⟩
  rw [hg.trace, ht, hf.trace]
  simp only [List.append_assoc]

structure Foretells (f g : Act π H δ η τ α) : Prop where
  validates : Follows (Acts fun _ _ => True) f
  executes : Follows (Acts fun _ _ => True) g
  agrees : ∀ ⦃as bs r s⦄, Alike as bs r s → Missed s (stateAfter (g s)) ∨ Agrees as bs Eq (f r) (g s)

lemma acts_bind {f : Act π H δ η τ α} {g : α → Act π H δ η τ β}
    (hg : ∀ a, Follows (Acts fun _ _ => True) (g a)) (r : Run π H δ η τ) :
    Acts (fun _ _ => True) (stateAfter (f r)) (stateAfter ((f >>= g) r)) := by
  rw [EStateM.bind_run]
  cases f r with
  | ok a t => exact hg a t
  | error e t => exact refl_of (Acts _) t

lemma acts_tryEach_cons {f : Bytes → Act π H δ η τ Unit} (hf : ∀ s, Follows (Acts fun _ _ => True) (f s))
    (e : Error) (b : Bytes) (as : List (Option Bytes)) (r : Run π H δ η τ) :
    Acts (fun _ _ => True) (stateAfter (f b r)) (stateAfter (tryEach f e (some b :: as) r)) := by
  simp only [tryEach]
  cases f b r with
  | ok u t => exact refl_of (Acts _) t
  | error e t =>
    cases e with
    | conditionFailed c =>
      exact follows_tryEach (R := Acts _) (fun _ _ h => h) hf (.conditionFailed c) as
        { t with members := r.members, selected := r.selected }
    | _ => exact refl_of (Acts _) t

namespace Foretells

lemma pure (a : α) : Foretells (pure a : Act π H δ η τ α) (pure a) :=
  ⟨.pure a, .pure a, fun _ _ _ _ hA => .inr (.ok rfl hA)⟩

lemma throw (e : Error) : Foretells (throw e : Act π H δ η τ α) (throw e) := by
  refine ⟨.throw e, .throw e, fun _ _ r s hA => .inr ?_⟩
  cases e with
  | conditionFailed c => exact .condition hA.toLevel
  | _ => exact .refused not_false

lemma bind {f f' : Act π H δ η τ α} {g g' : α → Act π H δ η τ β} (hf : Foretells f f')
    (hg : ∀ a, Foretells (g a) (g' a)) : Foretells (f >>= g) (f' >>= g') := by
  refine ⟨.bind hf.validates fun a => (hg a).validates, .bind hf.executes fun a => (hg a).executes, ?_⟩
  intro as bs r s hA
  have hr := acts_bind (f := f) (fun a => (hg a).validates) r
  have hs := hf.executes s
  rcases hf.agrees hA with h | h
  · exact .inl (h.trans (refl_of (Acts _) s) (acts_bind (fun a => (hg a).executes) s))
  · rw [EStateM.bind_run] at hr ⊢
    rw [EStateM.bind_run]
    generalize f r = x at h hr
    generalize f' s = y at h hs
    cases h with
    | @ok a b t u ha hA =>
      obtain rfl := ha
      exact ((hg a).agrees hA).imp_left fun h => h.trans hs (refl_of (Acts _) _)
    | condition hL => exact .inr (.condition hL)
    | refused he => exact .inr (.refused he)
    | aborted he hb => exact .inr (.aborted he (hb.mono hr (refl_of Quiet _)))

lemma forM {γ : Type} {f g : γ → Act π H δ η τ Unit} (h : ∀ x, Foretells (f x) (g x)) (xs : List γ) :
    Foretells (xs.forM f) (xs.forM g) := by
  induction xs with
  | nil => exact pure _
  | cons x xs ih => exact bind (h x) fun _ => ih

lemma forSelected {f g : Nat → Act π H δ η τ Unit} (h : ∀ i, Foretells (f i) (g i)) :
    Foretells (forSelected f) (forSelected g) := by
  refine ⟨follows_forSelected fun i => (h i).validates, follows_forSelected fun i => (h i).executes, ?_⟩
  intro as bs r s hA
  have hs := (forM h r.selected).agrees hA
  simp only [Run.forSelected, EStateM.bind_run, EStateM.get_run]
  rwa [hA.selected]

lemma log {e : Event H} (hc : ∀ c r, e ≠ .call c r) : Foretells (log e : Act π H δ η τ Unit) (log e) := by
  have hl : Follows (Acts fun _ _ => True) (Run.log e : Act π H δ η τ Unit) :=
    acts_log hc fun _ => trivial
  exact ⟨hl, hl, fun _ _ _ _ hA =>
    .inr (.ok rfl ⟨hA.quiet (Quiet.log hc _) (Quiet.log hc _), hA.members, hA.selected⟩)⟩

lemma change {f : Run π H δ η τ → Run π H δ η τ} (hp : ∀ r, (f r).processor = r.processor)
    (hA : ∀ {as bs r s}, Alike as bs r s → Alike as bs (f r) (f s)) :
    Foretells (modify f : Act π H δ η τ PUnit) (modify f) :=
  ⟨along_modify hp, along_modify hp, fun _ _ _ _ h => .inr (.ok rfl (hA h))⟩

lemma lift (x : Except Error α) : Foretells (liftM x : Act π H δ η τ α) (liftM x) := by
  cases x with
  | ok a => exact pure a
  | error e => exact throw e

lemma decision (hπ : Steadfast π) {d : Call H} (hd : d.isDecision) {cause : Failure → Error}
    (hc : ∀ x, ¬(cause x).IsCondition) :
    Foretells (within cause (Processor.ask d) : Act π H δ η τ d.Reply)
      (within cause (Processor.ask d)) := by
  have hs : Follows (Acts fun _ _ => True) (within cause (Processor.ask d) : Act π H δ η τ d.Reply) :=
    along_within (does_ask d fun _ _ => trivial)
  exact ⟨hs, hs, fun _ _ _ _ hA => .inr (answers_question hπ hd hc (fun _ => rfl) hA)⟩

lemma select (i : Index) : Foretells (select i : Act π H δ η τ Unit) (select i) := by
  cases i with
  | all => exact change (fun _ => rfl) fun hA => ⟨hA.toLevel, hA.members, by rw [hA.members]⟩
  | list is =>
    have hs : Follows (Acts fun _ _ => True) (Run.select (.list is) : Act π H δ η τ Unit) :=
      Goes.along (goes_select _)
    refine ⟨hs, hs, fun as bs r s hA => .inr ?_⟩
    simp only [Run.select, EStateM.bind_run, EStateM.get_run]
    rw [hA.members]
    split
    · exact .ok rfl ⟨hA.toLevel, hA.members, rfl⟩
    · exact .refused not_false

lemma override (p : Parameters) (i : Nat) :
    Foretells (override p i : Act π H δ η τ Unit) (override p i) :=
  change (fun _ => rfl) fun hA => ⟨hA.toLevel, by simp only [hA.members], hA.selected⟩

lemma tryEach {f g : Bytes → Act π H δ η τ Unit} (h : ∀ s, Foretells (f s) (g s)) (c d : Condition)
    (as : List (Option Bytes)) :
    Foretells (tryEach f (.conditionFailed c) as) (tryEach g (.conditionFailed d) as) := by
  refine ⟨follows_tryEach (fun _ _ h => h) (fun s => (h s).validates) _ as,
    follows_tryEach (fun _ _ h => h) (fun s => (h s).executes) _ as, ?_⟩
  induction as generalizing c d with
  | nil => exact fun _ _ r s hA => .inr (.condition hA.toLevel)
  | cons a as ih =>
    cases a with
    | none => exact fun _ _ r s hA => .inr (.ok rfl hA)
    | some b =>
      intro es fs r s hA
      have hr := acts_tryEach_cons (fun s => (h s).validates) (.conditionFailed c) b as r
      have hs := (h b).executes s
      rcases (h b).agrees hA with hm | ha
      · exact .inl (hm.trans (refl_of (Acts _) s) (acts_tryEach_cons (fun s => (h s).executes) _ b as s))
      · simp only [Run.tryEach] at hr ⊢
        generalize f b r = x at ha hr
        generalize g b s = y at ha hs
        cases ha with
        | ok hu ha => exact .inr (.ok hu ha)
        | @condition c d t u hL =>
          -- Both runs go on to the next alternative, with the components as they were.
          have hA' : Alike es fs { t with members := r.members, selected := r.selected }
              { u with members := s.members, selected := s.selected } := ⟨hL, hA.members, hA.selected⟩
          exact (ih c d hA').imp_left fun h => h.trans hs (refl_of (Acts _) _)
        | @refused e t y he =>
          cases e with
          | conditionFailed _ => exact (he trivial).elim
          | _ => exact .inr (.refused not_false)
        | @aborted x e u he hb =>
          cases e with
          | conditionFailed _ => exact he.elim
          | _ => exact .inr (.aborted he (hb.mono hr (refl_of Quiet _)))

lemma keepSelection {f g : Act π H δ η τ Unit} (h : Foretells f g) :
    Foretells (keepSelection f) (keepSelection g) := by
  have hk (xs : List Nat) : Foretells
      (do f; modify fun t => { t with selected := xs } : Act π H δ η τ PUnit)
      (do g; modify fun t => { t with selected := xs }) :=
    bind h fun _ => change (fun _ => rfl) fun hA => ⟨hA.toLevel, hA.members, rfl⟩
  refine ⟨.bind .get fun r => (hk r.selected).validates, .bind .get fun r => (hk r.selected).executes,
    fun as bs r s hA => ?_⟩
  have hr := (hk r.selected).agrees hA
  simp only [Run.keepSelection, EStateM.bind_run, EStateM.get_run] at hr ⊢
  rwa [hA.selected]

lemma member {f : Mode → Member H → Act π H δ η τ Unit} (i : Nat)
    (hf : ∀ m x, Follows (Steps (fun _ => True) (Does (Permitted m))) (f m x))
    (h : ∀ x, Answers Eq (f .validate x) (f .execute x)) :
    Foretells (do f .validate (← member i)) (do f .execute (← member i)) := by
  have hm (m : Mode) : Follows (Acts fun _ _ => True) (do f m (← Run.member i)) :=
    (Steps.along (steps_member fun x _ => hf m x)).mono fun _ _ => Does.mono fun _ _ => trivial
  exact ⟨hm .validate, hm .execute, fun _ _ _ _ hA => .inr (answers_member i h hA)⟩

end Foretells

variable [Hash.Engine η]

omit [Hash.Engine η] in
lemma agrees_conclude {as bs : List (Event H)} {r s : Run π H δ η τ} {c : Condition} {b b' : Bool}
    (hb : Assumed c b b') (hA : Alike as bs r s) :
    Missed s (stateAfter (conclude c b' s)) ∨ Agrees as bs Eq (conclude c b r) (conclude c b' s) := by
  have hL (b b' : Bool) : Level as bs (r.processor.log (.condition c b))
      (s.processor.log (.condition c b')) :=
    hA.quiet (.log (fun _ _ h => by cases h) _) (.log (fun _ _ h => by cases h) _)
  cases b' with
  | true =>
    obtain rfl : b = true := hb.elim Eq.symm And.right
    exact .inr (.ok rfl ⟨hL true true, hA.members, hA.selected⟩)
  | false =>
    rcases hb with rfl | ⟨hc, -⟩
    · exact .inr (.condition (hL false false))
    · exact .inl ⟨[.condition c false], rfl, c, hc, List.mem_singleton_self _⟩

lemma foretells_condition (hπ : Steadfast π) (c : Condition) (i : Nat) : Foretells
    (do conclude c (← holds .validate c (← member i)) : Act π H δ η τ Unit)
    (do conclude c (← holds .execute c (← member i))) := by
  have hg (m : Mode) : Guarded m (.condition c) (fun _ : H => True) fun _ =>
      (Does (Permitted m) : Processor π H δ η τ → Processor π H δ η τ → Prop) := (permits_does m).toAllows.guarded _
  have hd (m : Mode) (r s : Run π H δ η τ) : Along (Does (Permitted m)) r s → Acts (fun _ _ => True) r s :=
    Does.mono fun _ _ => trivial
  have hm (m : Mode) : Follows (Acts fun _ _ => True)
      (do conclude c (← holds m c (← member i)) : Act π H δ η τ Unit) :=
    (Steps.along (steps_member fun _ hx => steps_condition hx (hg m))).mono (hd m)
  have hk (b : Bool) : Follows (Acts fun _ _ => True) (conclude c b : Act π H δ η τ Unit) :=
    .bind (acts_log (fun _ _ h => by cases h) fun _ => trivial) fun _ => .ite (.pure _) (.throw _)
  refine ⟨hm .validate, hm .execute, fun as bs r s hA => ?_⟩
  rw [member_bind_run, member_bind_run, hA.members]
  cases r.members[i]? with
  | none => exact .inr (.refused not_false)
  | some x =>
    have hr := acts_bind (f := holds .validate c x) hk r
    have hs := hd .execute _ _ (Steps.along (steps_holds (x := x) (fun _ _ => trivial) (hg .execute)) s)
    have ha := answers_holds hπ c x hA
    dsimp only
    rw [EStateM.bind_run] at hr ⊢
    rw [EStateM.bind_run]
    generalize holds .validate c x r = y at ha hr
    generalize holds .execute c x s = z at ha hs
    cases ha with
    | ok hb hA => exact (agrees_conclude hb hA).imp_left fun h => h.trans hs (refl_of (Acts _) _)
    | condition hL => exact .inr (.condition hL)
    | refused he => exact .inr (.refused he)
    | aborted he hb => exact .inr (.aborted he (hb.mono hr (refl_of Quiet _)))

variable [Source τ]

lemma foretells_runCommand (hπ : Steadfast π) (e : Envelope) (c : Uuid)
    {f g : Bytes → Act π H δ η τ Unit} (h : ∀ s, Foretells (f s) (g s)) (d : Command) :
    Foretells (runCommand (passOf e c .validate) f d) (runCommand (passOf e c .execute) g d) := by
  have hg (m : Mode) : Guarded m d (fun _ : H => True) fun _ =>
      (Does (Permitted m) : Processor π H δ η τ → Processor π H δ η τ → Prop) := (permits_does m).toAllows.guarded d
  have hK (x : Member H) : ∀ h, x.target = .component h → True := fun _ _ => trivial
  refine .bind (.log fun _ _ h => by cases h) fun _ => ?_
  cases d with
  | condition d =>
    cases d with
    | abort => exact .throw _
    | _ => exact .forSelected fun i => foretells_condition hπ _ i
  | setComponentIndex i => exact .select i
  | overrideParameters p => exact .forSelected fun i => .override p i
  | tryEach as => exact .tryEach h .abort .abort as
  | runSequence s => exact .keepSelection (h s)
  | write =>
    exact .forSelected fun i => Foretells.member (f := write) i (fun m x => steps_write (hK x) (hg m))
      (answers_write hπ)
  | fetch =>
    exact .forSelected fun i => Foretells.member (f := fun m => fetch m ⟨e.payloads⟩) i
      (fun m x => steps_fetch (hK x) (hg m) _) (answers_fetch hπ _)
  | copy =>
    exact .forSelected fun i => Foretells.member (f := fun m => copy m i) i
      (fun m x => steps_copy (hK x) (hg m) i) (answers_copy hπ i)
  | swap =>
    exact .forSelected fun i => Foretells.member (f := fun m => swap m i) i
      (fun m x => steps_swap (hK x) (hg m) i) (answers_swap hπ i)
  | invoke =>
    exact .forSelected fun i => Foretells.member (f := invoke) i (fun m x => steps_invoke (hK x) (hg m))
      (answers_invoke hπ)

lemma foretells_runSequence (hπ : Steadfast π) (e : Envelope) (c : Uuid) (levels : Nat) (s : Bytes) :
    Foretells (runSequence (passOf e c .validate) levels s : Act π H δ η τ Unit)
      (runSequence (passOf e c .execute) levels s) := by
  induction levels generalizing s with
  | zero => exact .throw _
  | succ levels ih =>
    refine .bind (.lift _) fun q => .bind (.forM (fun d => foretells_runCommand hπ e c ih d) _) fun _ => ?_
    cases q.failure with
    | none => exact .pure _
    | some x => exact .throw _

lemma foretells_runKind (hπ : Steadfast π) (e : Envelope) (c : Uuid) (kind : SequenceKind) :
    Foretells (runKind (passOf e c .validate) kind : Act π H δ η τ Unit)
      (runKind (passOf e c .execute) kind) := by
  simp only [runKind, passOf]
  cases e.manifest.sequence? kind with
  | none => exact .pure _
  | some s =>
    refine .bind (.log fun _ _ h => by cases h) fun _ => .bind ?_ fun _ => ?_
    · exact .change (fun _ => rfl) fun hA => ⟨hA.toLevel, hA.members, by simp only [hA.members]⟩
    · have hs := foretells_runSequence (δ := δ) (η := η) (τ := τ) hπ e c Sequence.maxNesting
      cases e.manifest.shared with
      | none => exact hs s
      | some shared => exact .bind (hs shared) fun _ => hs s

omit [Hash.Engine η] [Source τ] in
lemma foretells_acquire (hπ : Steadfast π) (c : Uuid) (id : ComponentId) :
    Foretells (acquire c id : Act π H δ η τ Unit) (acquire c id) := by
  have ha (x : Target H) : Foretells (add id x : Act π H δ η τ Unit) (add id x) :=
    .change (fun _ => rfl) fun hA => ⟨hA.toLevel, by simp only [hA.members], hA.selected⟩
  have hq : Foretells (admission c id : Act π H δ η τ Unit) (admission c id) :=
    .decision hπ (d := .authorizeComponent c id) rfl fun _ => by exact not_false
  obtain ⟨n, h⟩ | h | h := acquire_cases (π := π) c id
  · rw [h]
    exact .bind hq fun _ => ha _
  · rw [h]
    exact .bind hq fun _ => .throw _
  · rw [h]
    refine .bind hq fun _ => .bind ?_ fun _ => ha _
    exact .decision hπ (d := .acquire id) rfl fun _ => by exact not_false

lemma foretells_body (hπ : Steadfast π) (e : Envelope) (c : Uuid) (kinds : List SequenceKind) :
    Foretells ((passOf e c .validate).body kinds : Act π H δ η τ Unit)
      ((passOf e c .execute).body kinds) := by
  refine .bind (.forM (foretells_acquire hπ c) _) fun _ => ?_
  refine .bind (.forM (foretells_runKind hπ e c) _) fun _ => .change (fun _ => rfl) fun hA => ?_
  exact ⟨hA.toLevel, hA.members, hA.selected⟩

omit [Hash.Engine η] [Source τ] in
lemma alike_begin (k k' : Pass) {r s : Run π H δ η τ}
    (h : s.processor.vars.config = r.processor.vars.config) :
    Alike (decisions r.processor) (decisions s.processor) (k.begin r) (k'.begin s) :=
  ⟨(Level.refl h).quiet (Quiet.log (fun _ _ h => by cases h) _) (Quiet.log (fun _ _ h => by cases h) _),
    rfl, rfl⟩

/-- If a pass validates, it is not refused when it executes, whatever the state it executes in, and it
asks the platform for nothing that it was not granted before; unless a condition on contents, which was
taken to hold, does not. -/
theorem passes_agree (hπ : Steadfast π) {e : Envelope} {c : Uuid} {kinds : List SequenceKind}
    {r r' s : Run π H δ η τ} (hv : pass (passOf e c .validate) kinds r = .ok () r')
    (hc : s.processor.vars.config = r.processor.vars.config)
    (hm : ¬Missed s (stateAfter (pass (passOf e c .execute) kinds s))) :
    (∀ x, answer (pass (passOf e c .execute) kinds s) = .error x → ¬x.IsRefusal) ∧
      Behind (decisions r.processor) (decisions s.processor) r'.processor
        (stateAfter (pass (passOf e c .execute) kinds s)).processor := by
  have hq (t : Run π H δ η τ) : Quiet t.processor (releaseAll t).processor :=
    along_releaseAll (fun _ => Quiet.ask rfl) t
  have hl (m : Mode) (t : Run π H δ η τ) : Quiet t.processor (t.processor.log (.passEnds m)) :=
    .log (fun _ _ h => by cases h) _
  have ha {p q : Processor π H δ η τ} (h : Quiet p q) : Does (fun _ _ => True) p q :=
    h.1.mono fun _ _ => trivial
  have hb := (foretells_body hπ e c kinds).agrees
    (alike_begin (passOf e c .validate) (passOf e c .execute) hc)
  rw [pass_run] at hv hm ⊢
  generalize (passOf e c .validate).body kinds ((passOf e c .validate).begin r) = x at hv hb
  generalize (passOf e c .execute).body kinds ((passOf e c .execute).begin s) = y at hm hb ⊢
  rcases hb with hb | hb
  · refine absurd (hb.trans (ha (.log (fun _ _ h => by cases h) _)) ?_) hm
    cases y with
    | ok u t => exact ha (trans_of Quiet (hq t) (hl _ _))
    | error e t => exact ha (hq t)
  · cases hb with
    | ok _ hA =>
      cases hv
      refine ⟨fun x hx => (by cases hx), Level.behind (hA.quiet ?_ ?_)⟩
      · exact trans_of Quiet (hq _) (hl _ _)
      · exact trans_of Quiet (hq _) (hl _ _)
    | condition => cases hv
    | refused => cases hv
    | @aborted x e u he hb =>
      cases x with
      | error e t => cases hv
      | ok a t =>
        cases hv
        refine ⟨fun x hx hr => ?_, hb.mono (ha (trans_of Quiet (hq t) (hl _ _))) (hq u)⟩
        cases hx
        cases e <;> first | exact he | exact hr

end Passes

end Run

/-- Lets components be written but not invoked. They all contain a zero. -/
inductive Guard where
  | guard
deriving DecidableEq

instance : Platform Guard Unit where
  perform
    | .authorizeComponent .. | .acquire .. => pure ()
    | .checkOperation _ op => if op = .invoke then throw .authentication else pure ()
    | .checkContent _ b => pure (some (b = [0]))
    | c => liftM c.byDefault

lemma steadfast_guard : Steadfast Guard := fun _ _ _ _ => rfl

def guarded : Processor Guard Unit Ram (Hash.Digester zeros) Payloads :=
  ⟨blank.layout, blank.options, .guard, blank.store, blank.vars, blank.digests, [], []⟩

def invokeUnless (b : UInt8) : Envelope where
  digest := ⟨.sha256, zeros .sha256 []⟩
  digestBytes := []
  signatures := []
  manifestBytes := []
  manifest :=
    { sequenceNumber := 1
      components := [⟨.memory, []⟩]
      shared := none
      componentId := none
      sequences := [(.install,
        [0x84, 0x14, 0xa1, 0x12, 0x41, b, 0x0f, 0x82, 0x43, 0x82, 0x06, 0x0f, 0x43, 0x82, 0x17, 0x0f])] }
  payloads := []

namespace Run

/-- When it turns out that the component does not contain a one, the alternative is to invoke it. -/
theorem refused_behind_condition :
    Steadfast Guard ∧
      let r := pass (passOf (invokeUnless 1) .zero .validate) [.install] (.start guarded)
      answer r = .ok () ∧
        answer (pass (passOf (invokeUnless 1) .zero .execute) [.install] (stateAfter r)) =
          .error .denied :=
  ⟨steadfast_guard, by decide +kernel⟩

theorem passes_agree_invokeUnless :
    let k (m : Mode) : Pass := passOf (invokeUnless 0) .zero m
    let r := pass (k .validate) [.install] (.start guarded)
    let s := pass (k .execute) [.install] (stateAfter r)
    Steadfast Guard ∧ answer r = .ok () ∧
      (stateAfter r).processor.vars.config = guarded.vars.config ∧ ¬Missed (stateAfter r) (stateAfter s) ∧
      (∀ x, answer s = .error x → ¬x.IsRefusal) ∧
      Behind (decisions guarded) (decisions (stateAfter r).processor) (stateAfter r).processor
        (stateAfter s).processor := by
  intro k r s
  have hr : answer r = .ok () := by decide +kernel
  have hc : (stateAfter r).processor.vars.config = guarded.vars.config := by decide +kernel
  have hn : (stateAfter s).processor.trace.all fun | .condition _ b => b | _ => true := by
    decide +kernel
  have hm : ¬Missed (stateAfter r) (stateAfter s) := by
    rintro ⟨es, he, c, -, hm⟩
    have hb := List.all_eq_true.mp hn (.condition c false) (he ▸ List.mem_append_right _ hm)
    exact Bool.false_ne_true hb
  exact ⟨steadfast_guard, hr, hc, hm, passes_agree steadfast_guard (answer_eq_ok hr) hc hm⟩

end Run

end Processor

end Firmware
