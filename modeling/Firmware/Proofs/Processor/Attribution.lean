import Firmware.Proofs.Processor.Coverage
import Firmware.Proofs.Processor.Variables

/-!
Where the values of variables come from. A pass sets a variable only where it completes a command that
writes to a component of the manifest that stands for the variable. So each change of a variable is
attributed to such a command, and a variable ends with what the last of them wrote.
-/

namespace Firmware.Processor

open Flash Manifest Ram Storage

section Traces

variable {π H δ η τ : Type} {P : UInt32 → UInt32 → List (Event H) → Prop}

/-- Whenever a variable is set on the way from one processor to another, `P` holds of its id, its value and
the trace up to then. -/
def SetsBy (P : UInt32 → UInt32 → List (Event H) → Prop) (p q : Processor π H δ η τ) : Prop :=
  p.trace <+: q.trace ∧ ∀ id x es, p.trace <+: es → es ++ [.variableSet id x (.ok ())] <+: q.trace →
    P id x (es ++ [.variableSet id x (.ok ())])

instance : IsPreorder (Processor π H δ η τ) (SetsBy P) where
  refl p := by
    refine ⟨List.prefix_refl _, fun id x es hs he => ?_⟩
    have hl := (he.trans hs).length_le
    rw [List.length_append, List.length_singleton] at hl
    omega
  trans p q r h h' := by
    refine ⟨h.1.trans h'.1, fun id x es hs he => ?_⟩
    rcases List.prefix_or_prefix_of_prefix he h'.1 with hq | hq
    · exact h.2 id x es hs hq
    · rcases List.prefix_concat_iff.mp hq with hq | hq
      · exact h.2 id x es hs (hq ▸ List.prefix_refl _)
      · exact h'.2 id x es hq he

variable [Platform π H] [Flash δ] {p q : Processor π H δ η τ} {Q : Layout → Event H → Prop}

lemma Does.trace_grows (h : Does Q p q) : p.trace <+: q.trace := by
  obtain ⟨es, ha, -⟩ := h
  exact ha.trace ▸ List.prefix_append _ _

variable {es fs : List (Event H)} {id x : UInt32}

omit [Platform π H] [Flash δ] in
lemma not_set_of_unset (hu : ∀ e ∈ es, Event.Unset e) (hs : p.trace <+: fs) :
    ¬fs ++ [.variableSet id x (.ok ())] <+: p.trace ++ es := by
  intro h
  obtain ⟨gs, rfl⟩ := hs
  rw [List.append_assoc, List.prefix_append_right_inj] at h
  exact hu _ (h.subset (List.mem_append_right _ (List.mem_singleton_self _))) id x rfl

lemma setsBy_of_unset (h : Does (fun _ e => e.Unset) p q) : SetsBy P p q := by
  refine ⟨h.trace_grows, fun id x fs hs he => ?_⟩
  obtain ⟨es, ha, hu⟩ := h
  rw [ha.trace] at he
  exact absurd he (not_set_of_unset hu hs)

lemma setsBy_of_set (ha : Account (es ++ [.variableSet id x (.ok ())]) p q) (hu : ∀ e ∈ es, Event.Unset e)
    (hP : P id x q.trace) : SetsBy P p q := by
  refine ⟨ha.trace ▸ List.prefix_append _ _, fun id' x' fs hs he => ?_⟩
  rw [ha.trace, ← List.append_assoc] at he hP
  rcases List.prefix_concat_iff.mp he with he | he
  · obtain ⟨-, h⟩ := List.append_inj' he rfl
    cases h
    exact he ▸ hP
  · exact absurd he (not_set_of_unset hu hs)

end Traces

variable {π H δ η τ : Type} [Platform π H] [Flash δ] [Hash.Engine η]

section Unset

variable {p q : Processor π H δ η τ} {e : Event H} {id x : UInt32}

omit [Platform π H] [Flash δ] [Hash.Engine η] in
lemma Event.IsRemark.unset (he : e.IsRemark) : e.Unset := by
  rintro id x rfl
  exact he

lemma concedes_unset (mode : Mode) :
    Concedes mode (Does fun _ e => e.Unset : Processor π H δ η τ → Processor π H δ η τ → Prop) where
  log he _ := unset_log he.ne_call he.unset
  ask _ _ := does_ask _ fun _ _ _ _ h => by cases h
  lends := lends_does
  sources _ _ _ := ⟨[], .aside rfl rfl rfl rfl rfl rfl, fun _ h => by cases h⟩
  readVariable _ _ := does_readVariable fun _ _ _ _ h => by cases h

end Unset

namespace Run

variable [Source τ] {k : Pass} {kinds : List SequenceKind} {r s u : Run π H δ η τ} {id : UInt32} {b : Bytes}

/-- A component of a manifest and what it stands for: a variable if it is of their type and names one. -/
def Named (k : Pass) (x : ComponentId × Target H) : Prop :=
  x.1 ∈ k.manifest.components ∧
    ∀ id, x.2 = .variable id ↔ x.1.type = .manifestVariable ∧ x.1.word? 0 = some id

def Reached (k : Pass) (r s : Run π H δ η τ) : Prop :=
  r.processor.trace <+: s.processor.trace ∧ ∀ x ∈ s.members.map Member.place, Named k x

omit [Platform π H] [Flash δ] [Hash.Engine η] [Source τ] in
lemma reached_add {x : Target H} {c : ComponentId} (h : Named k (c, x)) (hs : Reached k r s) :
    Reached k r (stateAfter ((add c x : Act π H δ η τ Unit) s)) := by
  refine ⟨hs.1, fun y hy => ?_⟩
  change y ∈ (s.members ++ [(⟨c, x, {}⟩ : Member H)]).map Member.place at hy
  rw [List.map_append, List.mem_append] at hy
  rcases hy with hy | hy
  · exact hs.2 y hy
  · exact List.mem_singleton.mp hy ▸ h

omit [Hash.Engine η] [Source τ] in
lemma reached_of_does {P : Layout → Event H → Prop} (h : Does P s.processor u.processor)
    (hm : u.members.map Member.place = s.members.map Member.place) (hs : Reached k r s) : Reached k r u :=
  ⟨hs.1.trans h.trace_grows, hm ▸ hs.2⟩

omit [Hash.Engine η] [Source τ] in
lemma maintains_acquire {c : ComponentId} (hc : c ∈ k.manifest.components) :
    Follows (Maintains (Reached k r)) (acquire k.classId c : Act π H δ η τ Unit) := by
  have hw {q : Call H} {cause : Failure → Error} :
      Follows (Maintains (Reached k r)) (within cause (Processor.ask q) : Act π H δ η τ q.Reply) :=
    fun s hs => reached_of_does (P := fun _ _ => True)
      (along_within (does_ask q fun _ _ => trivial) s) (by rw [within, stateAfter_onPart]; rfl) hs
  refine .bind hw fun _ => ?_
  cases ht : c.type with
  | manifestVariable =>
    cases hn : c.word? 0 with
    | some n =>
      refine fun s hs => reached_add ⟨hc, fun id => ?_⟩ hs
      simp [ht, hn]
    | none => exact .throw _
  | _ =>
    refine .bind hw fun h s hs => reached_add ⟨hc, fun id => ?_⟩ hs
    simp [ht]

lemma keeps_reached : Keeps k (Reached k r) where
  log _ hs := ⟨hs.1.trans (List.prefix_append _ _), hs.2⟩
  report _ hs := hs
  select _ hs := hs
  reselect _ hs := hs
  restore hr hs := ⟨hs.1, hr.2⟩
  each h i s hs := reached_of_does
    (along_each (permits_does k.mode).toAllows h i s) (follows_each h i s).1 hs

lemma Turns.reached {c : Command} {f : Nat → Act π H δ η τ Unit} {i : Nat} (h : Turns k kinds r c f i u) :
    Reached k r u := by
  refine keeps_reached.turns (fun s hs => ?_) h
  refine Follows.of_ok (.forM fun c hc => maintains_acquire hc) hs ⟨List.prefix_append _ _, ?_⟩
  exact fun _ hx => absurd hx List.not_mem_nil

/-- A pass has completed writing `b` to a component that stands for a variable, in `s`. -/
def Writes (k : Pass) (kinds : List SequenceKind) (r : Run π H δ η τ) (id : UInt32) (b : Bytes)
    (s : Run π H δ η τ) : Prop :=
  ∃ f i u m, Turns k kinds r .write f i u ∧ u.members[i]? = some m ∧ m.id ∈ k.manifest.components ∧
    m.id.type = .manifestVariable ∧ m.id.word? 0 = some id ∧ m.parameters.content = some b ∧
    f i u = .ok () s

def Grants (s : Run π H δ η τ) (id : UInt32) : Prop :=
  ∃ a, s.processor.vars.access id = .ok a ∧ a.write = true

structure Wrote (id : UInt32) (b : Bytes) (u s : Run π H δ η τ) : Prop where
  length : b.length = 4
  grants : Grants s id
  account : ∃ es, Account (es ++ [.variableSet id (UInt32.ofNat (Bytes.toNatLe b)) (.ok ())])
    u.processor s.processor ∧ ∀ e ∈ es, e.Unset

omit [Source τ] in
lemma writeVariable_cases (id : UInt32) (b : Bytes) (u : Run π H δ η τ) :
    (∃ s, writeVariable .execute id b u = .ok () s ∧ Wrote id b u s) ∨
      ∃ e s, writeVariable .execute id b u = .error e s ∧ Acts (fun _ e => e.Unset) u s := by
  have hrefl : Acts (fun _ e => e.Unset) u u := refl_of (Acts _) u
  by_cases hb : b.length = 4
  · simp only [writeVariable, hb, ↓reduceIte]
    rw [access_bind_run]
    cases ha : u.processor.vars.access id with
    | error e => exact .inr ⟨_, u, rfl, hrefl⟩
    | ok a =>
      by_cases hw : a.write = true
      · simp only [hw, ↓reduceIte]
        have hc := config_of_setVariable id (UInt32.ofNat (Bytes.toNatLe b)) u.processor
        rcases setVariable_cases id (UInt32.ofNat (Bytes.toNatLe b)) u.processor with
          ⟨q, es, hs, hes, hu⟩ | ⟨e, q, hs, hd⟩
        · rw [hs] at hc
          refine .inl ⟨u.putProcessor q, ?_, hb, ⟨a, ?_, hw⟩, es, hes, hu⟩
          · simp only [within, onPart, EStateM.adaptExcept_run, hs]
          · exact (Variables.access_congr hc id).trans ha
        · refine .inr ⟨.platform e, u.putProcessor q, ?_, hd⟩
          simp only [within, onPart, EStateM.adaptExcept_run, hs]
      · simp only [hw]
        exact .inr ⟨_, u, rfl, hrefl⟩
  · simp only [writeVariable, hb, ↓reduceIte]
    exact .inr ⟨_, u, rfl, hrefl⟩

omit [Hash.Engine η] [Source τ] in
lemma unset_writeComponent (mode : Mode) (h : H) (b : Bytes) :
    Follows (Acts fun _ e => e.Unset) (writeComponent mode h b : Act π H δ η τ Unit) := by
  have ha (c : Call H) : Follows (Acts fun _ e => e.Unset) (ask c : Act π H δ η τ c.Reply) :=
    along_within (does_ask c fun _ _ _ _ h => by cases h)
  refine .bind (along_within (does_ask _ fun _ _ _ _ h => by cases h)) fun _ => ?_
  cases mode with
  | validate => exact .pure _
  | execute => exact .bind (ha _) fun _ => .bind (ha _) fun _ => .bind (ha _) fun _ => ha _

lemma each_write_run {f : Nat → Act π H δ η τ Unit} (hf : k.each .write = some f) (i : Nat)
    (u : Run π H δ η τ) :
    f i u =
      match u.members[i]? with
      | some m => write k.mode m u
      | none => .error .badComponent u := by
  cases hf
  exact member_bind_run i _ u

omit [Source τ] in
lemma write_variable_run {m : Member H} {b : Bytes} (ht : m.target = .variable id)
    (hc : m.parameters.content = some b) (u : Run π H δ η τ) :
    write k.mode m u = writeVariable k.mode id b u := by
  simp only [write, hc, ht]
  rfl

variable (hk : k.mode = .execute)
include hk

lemma Writes.wrote (h : Writes k kinds r id b s) : ∃ u, Reached k r u ∧ Wrote id b u s := by
  obtain ⟨f, i, u, m, ht, hm, hc, hv, hn, hp, hs⟩ := h
  obtain ⟨-, hr⟩ := ht.reached
  have hx : m.target = .variable id :=
    ((hr _ (List.mem_map_of_mem (List.mem_of_getElem? hm))).2 id).mpr ⟨hv, hn⟩
  refine ⟨u, ht.reached, ?_⟩
  rw [each_write_run ht.each_eq, hm] at hs
  dsimp only at hs
  rw [write_variable_run hx hp, hk] at hs
  rcases writeVariable_cases id b u with ⟨t, ht, hw⟩ | ⟨e, t, ht, -⟩
  · cases hs.symm.trans ht
    exact hw
  · cases hs.symm.trans ht

omit hk in
def Explains (k : Pass) (kinds : List SequenceKind) (r : Run π H δ η τ) (id x : UInt32)
    (es : List (Event H)) : Prop :=
  ∃ b s, Writes k kinds r id b s ∧ x = UInt32.ofNat (Bytes.toNatLe b) ∧ s.processor.trace = es

lemma setsBy_write {f : Nat → Act π H δ η τ Unit} {i : Nat} (h : Turns k kinds r .write f i u) :
    Along (SetsBy (Explains k kinds r)) u (stateAfter (f i u)) := by
  have hr := h.reached.2
  have hrun := each_write_run h.each_eq i u
  cases hm : u.members[i]? with
  | none =>
    rw [hrun, hm]
    exact refl_of (Along _) u
  | some m =>
    rw [hm] at hrun
    dsimp only at hrun
    cases hp : m.parameters.content with
    | none =>
      have he : write k.mode m u = .error .missingParameter u := by
        simp only [write, hp]
        rfl
      rw [hrun, he]
      exact refl_of (Along _) u
    | some b =>
      cases hx : m.target with
      | component h =>
        have hc : write k.mode m u = writeComponent k.mode h b u := by
          simp only [write, hp, hx]
          rfl
        rw [hrun, hc]
        exact setsBy_of_unset (unset_writeComponent k.mode h b u)
      | «variable» id =>
        rw [write_variable_run hx hp, hk] at hrun
        obtain ⟨hc, hn⟩ := hr _ (List.mem_map_of_mem (List.mem_of_getElem? hm))
        obtain ⟨hv, hn⟩ := (hn id).mp hx
        rcases writeVariable_cases id b u with ⟨s, hs, hw⟩ | ⟨e, s, hs, hd⟩
        · rw [hs] at hrun
          obtain ⟨es, ha, hu⟩ := hw.account
          rw [hrun]
          exact setsBy_of_set ha hu ⟨b, s, ⟨f, i, u, m, h, hm, hc, hv, hn, hp, hrun⟩, rfl, rfl⟩
        · rw [hrun, hs]
          exact setsBy_of_unset hd

lemma covers_sets : Covers k kinds r (SetsBy (Explains k kinds r)) where
  log he p := setsBy_of_unset (unset_log he.ne_call he.unset p)
  acquire c := by
    refine (along_acquire (permits_does .validate) k.classId c).mono fun s t h => setsBy_of_unset ?_
    refine Does.mono (fun e he id x hx => ?_) h
    rw [hx] at he
    cases he
  turn {c f i u} h := by
    have hf := h.each_eq
    by_cases hc : c = .write
    · subst hc
      exact setsBy_write hk h
    · by_cases ho : ∃ p, c = .overrideParameters p
      · obtain ⟨p, rfl⟩ := ho
        cases hf
        exact Goes.along (goes_override p i) u
      · have hg : Guarded k.mode c (fun _ => True)
            fun _ => (Does fun _ e => e.Unset : Processor π H δ η τ → Processor π H δ η τ → Prop) :=
          (concedes_unset k.mode).guarded fun h => absurd h hc
        exact setsBy_of_unset (Steps.along (steps_each hg hf (fun p hp => ho ⟨p, hp⟩) i) u)

lemma sets_pass (kinds : List SequenceKind) (r : Run π H δ η τ) :
    Along (SetsBy (Explains k kinds r)) r (stateAfter (pass k kinds r)) := by
  have hb : Along (SetsBy (Explains k kinds r)) r (k.begin r) :=
    setsBy_of_unset (unset_log (fun _ _ h => by cases h) (fun _ _ h => by cases h) r.processor)
  refine trans_of (Along _) (trans_of (Along _) hb (covers_sets hk).body) (along_ending ?_ ?_ kinds r)
  · exact fun h p => setsBy_of_unset (does_ask (.release h) (fun _ _ _ _ h => by cases h) p)
  · exact fun p => setsBy_of_unset (unset_log (fun _ _ h => by cases h) (fun _ _ h => by cases h) p)

omit hk in
def LastWrite (k : Pass) (kinds : List SequenceKind) (r : Run π H δ η τ) (id : UInt32) (b : Bytes)
    (s : Run π H δ η τ) : Prop :=
  Writes k kinds r id b s ∧ ∀ b' s', Writes k kinds r id b' s' → s'.processor.trace <+: s.processor.trace

end Run

section Values

variable {F : Hash.Algorithm → Bytes → Bytes} [Source τ] {k : Run.Pass} {kinds : List SequenceKind}
variable {r s : Run π H Ram (Hash.Digester F) τ} {id : UInt32} {b : Bytes}

open Run

lemma Run.Writes.tells (h : Writes k kinds r id b s) : Along Tells s (stateAfter (pass k kinds r)) := by
  obtain ⟨f, i, u, m, ht, -, -, -, -, -, hs⟩ := h
  have hb := ht.resumes (permits_tells k.mode).toAllows
  rw [hs] at hb
  refine trans_of (Along Tells) hb (along_ending ?_ ?_ kinds r)
  · exact fun _ => (permits_tells k.mode).resource trivial
  · exact (permits_tells k.mode).bounds _ (List.mem_cons_of_mem _ (List.mem_singleton_self _))

lemma Run.Writes.traced (hk : k.mode = .execute) (h : Writes k kinds r id b s) :
    ∃ fs, s.processor.trace = fs ++ [.variableSet id (UInt32.ofNat (Bytes.toNatLe b)) (.ok ())] ∧
      r.processor.trace <+: fs ∧ s.processor.trace <+: (stateAfter (pass k kinds r)).processor.trace := by
  obtain ⟨u, hu, hw⟩ := h.wrote hk
  obtain ⟨es, ha, -⟩ := hw.account
  obtain ⟨fs, hf, -⟩ := h.tells
  refine ⟨u.processor.trace ++ es, ?_, hu.1.trans (List.prefix_append _ _), hf.trace ▸ List.prefix_append _ _⟩
  rw [ha.trace, List.append_assoc]

lemma Run.Writes.grants (hk : k.mode = .execute) (h : Writes k kinds r id b s) :
    b.length = 4 ∧ Grants r id := by
  obtain ⟨u, -, hl, ⟨a, ha, hg⟩, -⟩ := h.wrote hk
  obtain ⟨es, -, hs, -⟩ := h.tells
  obtain ⟨fs, -, hr, -⟩ : Along Tells r (stateAfter (pass k kinds r)) := along_pass (permits_tells k.mode) kinds r
  exact ⟨hl, a, (Variables.access_congr (hr.symm.trans hs) id).trans ha, hg⟩

lemma Run.Writes.last (hk : k.mode = .execute) (h : Writes k kinds r id b s) {after : List (Event H)}
    (hq : (stateAfter (pass k kinds r)).processor.trace = s.processor.trace ++ after)
    (hn : lastSet id after = none) : LastWrite k kinds r id b s := by
  refine ⟨h, fun b' s' h' => ?_⟩
  obtain ⟨fs, hs, -, hp⟩ := h'.traced hk
  rcases List.prefix_or_prefix_of_prefix hp (hq ▸ List.prefix_append _ after) with h | h
  · exact h
  · rw [hs] at h hp ⊢
    rcases List.prefix_concat_iff.mp h with h | ⟨gs, rfl⟩
    · exact h ▸ List.prefix_refl _
    · rw [hq, List.append_assoc, List.prefix_append_right_inj] at hp
      exact absurd (hp.subset (List.mem_append_right _ (List.mem_singleton_self _))) (lastSet_eq_none.mp hn _)

lemma value_pass (kinds : List SequenceKind) (hk : k.mode = .execute) (hr : Stable r.processor)
    (hid : r.processor.vars.Lasts id) :
    let q := (stateAfter (pass k kinds r)).processor
    (q.value id = r.processor.value id ∧ ∀ b s, ¬Writes k kinds r id b s) ∨
      ∃ b s, LastWrite k kinds r id b s ∧ b.length = 4 ∧ Grants r id ∧
        q.value id = .ok (UInt32.ofNat (Bytes.toNatLe b)) := by
  intro q
  obtain ⟨es, ha, -, hv⟩ : Tells r.processor q := along_pass (permits_tells k.mode) kinds r
  obtain ⟨-, hv⟩ := hv hr
  rw [hv id hid]
  cases hl : lastSet id es with
  | none =>
    refine .inl ⟨rfl, fun b s h => ?_⟩
    obtain ⟨fs, hs, ⟨gs, rfl⟩, hq⟩ := h.traced hk
    rw [hs, ha.trace, List.append_assoc, List.prefix_append_right_inj] at hq
    exact lastSet_eq_none.mp hl _ (hq.subset (List.mem_append_right _ (List.mem_singleton_self _)))
  | some x =>
    obtain ⟨before, after, rfl, hn⟩ := lastSet_eq_some hl
    have hq : q.trace = r.processor.trace ++ before ++ [.variableSet id x (.ok ())] ++ after := by
      simp only [ha.trace, List.append_assoc, List.singleton_append]
    obtain ⟨b, s, hb, rfl, hs⟩ := (sets_pass hk kinds r).2 id x _ (List.prefix_append _ before)
      (hq ▸ List.prefix_append _ after)
    obtain ⟨hlen, hg⟩ := hb.grants hk
    exact .inr ⟨b, s, hb.last hk (hs.symm ▸ hq) hn, hlen, hg, rfl⟩

end Values

end Firmware.Processor
