import Firmware.Proofs.Processor.Recovery

/-!
Where reports say that runs have failed. A report that names a sequence tells what was running. One that names
none tells of a state between passes, unless the components could not be acquired a second time: then it tells
of the last sequence that was validated.
-/

namespace Firmware.Processor

open Flash Manifest Storage

variable {π H δ η τ α : Type} [Platform π H] [Flash δ]

def Report.during (x : Report) (kind : SequenceKind) : Report :=
  { x with state := .running kind, sequence := some kind }

namespace Run

/-! ## What leaves the report alone -/

def Mute (r s : Run π H δ η τ) : Prop := s.report = r.report

instance : IsPreorder (Run π H δ η τ) Mute where
  refl _ := rfl
  trans _ _ _ h h' := h'.trans h

omit [Platform π H] [Flash δ] in
lemma Steps.mute {T : Processor π H δ η τ → Processor π H δ η τ → Prop} {f : Act π H δ η τ α}
    (hf : Follows (Steps (fun _ => True) T) f) : Follows Mute f := fun r =>
  (hf r fun _ _ _ _ => trivial).2.2.2

omit [Platform π H] [Flash δ] in
lemma mute_within (cause : Failure → Error) (f : EStateM Failure (Processor π H δ η τ) α) :
    Follows Mute (within cause f) := by
  intro r
  rw [within, stateAfter_onPart]
  rfl

omit [Flash δ] in
lemma mute_acquire (c : Uuid) (id : ComponentId) : Follows Mute (acquire c id : Act π H δ η τ Unit) := by
  have hq : Follows Mute (admission c id : Act π H δ η τ Unit) := mute_within _ _
  have ha (x : Target H) : Follows Mute (add id x : Act π H δ η τ Unit) := fun _ => rfl
  obtain ⟨n, h⟩ | h | h := acquire_cases (π := π) c id
  · rw [h]
    exact .bind hq fun _ => ha _
  · rw [h]
    exact .bind hq fun _ => .throw _
  · rw [h]
    exact .bind hq fun _ => .bind (mute_within _ _) fun _ => ha _

omit [Flash δ] in
lemma mute_releaseAll (r : Run π H δ η τ) : (releaseAll r).report = r.report :=
  rel_releaseAll (R := Mute) (fun _ _ => rfl) r

variable [Hash.Engine η]

lemma mute_authenticate (e : Envelope) (c : Uuid) (p : Policy) (t : Trigger) :
    Follows Mute (authenticate e c p t : Act π H δ η τ Unit) := by
  have hm (e : Envelope) :
      Follows (Steps (fun _ => True) (Does fun _ _ => True)) (manifestMatches e : Act π H δ η τ Bool) :=
    steps_withDigest lends_does (.bind (.adaptExcept (steps_hash _)) fun _ =>
      .bind (.adaptExcept (steps_hash _)) fun _ => steps_digestMatches)
  exact follows_authenticate (fun e => Steps.mute (hm e)) (fun _ _ _ => mute_within _ _) e c p t

section Passes

variable [Source τ] {k : Pass} {kinds : List SequenceKind} {kind : SequenceKind} {r s : Run π H δ η τ} {e : Error}

lemma sustains_report (k : Pass) (x : Report) :
    Sustains k fun r : Run π H δ η τ => r.report = x where
  log _ := id
  select _ := id
  reselect _ := id
  restore _ := id
  each {c f} h i := by
    by_cases hc : ∃ p, c = .overrideParameters p
    · obtain ⟨p, rfl⟩ := hc
      cases h
      exact fun _ => id
    · have hs := steps_each ((permits_does k.mode).toAllows.guarded (K := fun _ => True) c) h
        (fun p hp => hc ⟨p, hp⟩) i
      exact fun r => (Steps.mute hs r).trans

def Pass.sequences (k : Pass) (b : Bytes) : Act π H δ η τ Unit := do
  k.runShared
  runSequence k Sequence.maxNesting b

def Pass.present (k : Pass) (kinds : List SequenceKind) : List SequenceKind :=
  kinds.filter fun kind => (k.manifest.sequence? kind).isSome

def Pass.FailsAcquiring (k : Pass) (r : Run π H δ η τ) (e : Error) : Prop :=
  ∃ t, k.manifest.components.forM (acquire k.classId) (k.begin r) = .error e t

/-- A pass fails in what it runs for a kind, once it has got through the kinds before. -/
def Pass.FailsIn (k : Pass) (kinds : List SequenceKind) (r : Run π H δ η τ) (kind : SequenceKind) (e : Error) :
    Prop :=
  ∃ before after b s t, kinds = before ++ kind :: after ∧ k.upTo before (k.begin r) = .ok () s ∧
    k.manifest.sequence? kind = some b ∧ k.sequences b (Pass.enter kind s) = .error e t

/-! ## Reports of a pass -/

lemma report_sequences (k : Pass) (b : Bytes) (kind : SequenceKind) (r : Run π H δ η τ) :
    (stateAfter (k.sequences b (Pass.enter kind r))).report = r.report.during kind := by
  have hk := sustains_report (π := π) (δ := δ) (η := η) (τ := τ) k (r.report.during kind)
  have hs : Follows (Maintains fun s : Run π H δ η τ => s.report = r.report.during kind) (k.sequences b) :=
    .bind hk.maintains_runShared fun _ => hk.maintains_runSequence _ b
  exact hs (Pass.enter kind r) rfl

lemma report_forM_runKind (h : kinds.forM (runKind k) r = .ok () s) :
    s.report = (k.present kinds).getLast?.elim r.report r.report.during := by
  induction kinds generalizing r with
  | nil =>
    cases h
    rfl
  | cons kind kinds ih =>
    obtain ⟨_, t, ht, h⟩ := EStateM.bind_eq_ok h
    rw [ih h]
    cases hb : k.manifest.sequence? kind with
    | none =>
      have hp : k.present (kind :: kinds) = k.present kinds := by simp [Pass.present, hb]
      simp only [runKind, hb] at ht
      cases ht
      rw [hp]
    | some b =>
      have hp : k.present (kind :: kinds) = kind :: k.present kinds := by simp [Pass.present, hb]
      have hr := report_sequences k b kind r
      rw [runKind_run hb] at ht
      rw [Pass.sequences, ht, stateAfter_ok] at hr
      rw [hp, List.getLast?_cons, hr]
      cases (k.present kinds).getLast? <;> rfl

omit [Flash δ] [Hash.Engine η] [Source τ] in
lemma report_acquire (h : k.manifest.components.forM (acquire k.classId) (k.begin r) = .ok () s) :
    s.report = (k.begin r).report :=
  Follows.of_ok (R := Mute) (.forM fun _ _ => mute_acquire _ _) h

lemma report_pass_ok (h : pass k kinds r = .ok () s) :
    s.report.sequence = none ∧
      s.report.state = (k.present kinds).getLast?.elim r.report.state State.running := by
  rw [pass_run] at h
  cases hx : k.body kinds (k.begin r) with
  | error e t =>
    rw [hx] at h
    cases h
  | ok u t =>
    rw [hx] at h
    cases h
    obtain ⟨_, r₁, h₁, hx⟩ := EStateM.bind_eq_ok hx
    obtain ⟨_, r₂, h₂, hx⟩ := EStateM.bind_eq_ok hx
    cases hx
    change (releaseAll _).report.sequence = none ∧ (releaseAll _).report.state = _
    rw [mute_releaseAll]
    refine ⟨rfl, ?_⟩
    change r₂.report.state = _
    rw [report_forM_runKind h₂, report_acquire h₁]
    cases (k.present kinds).getLast? <;> rfl

lemma report_pass_error (h : pass k kinds r = .error e s) :
    k.FailsAcquiring r e ∧ s.report = (k.begin r).report ∨
      ∃ kind, k.FailsIn kinds r kind e ∧ s.report = (k.begin r).report.during kind := by
  rw [pass_run] at h
  cases hx : k.body kinds (k.begin r) with
  | ok u t =>
    rw [hx] at h
    cases h
  | error e' t =>
    rw [hx] at h
    cases h
    rw [mute_releaseAll]
    rcases EStateM.bind_eq_error hx with hx | ⟨_, r₁, h₁, hx⟩
    · exact .inl ⟨⟨t, hx⟩, Follows.of_error (R := Mute) (.forM fun _ _ => mute_acquire _ _) hx⟩
    · rcases EStateM.bind_eq_error hx with hx | ⟨_, r₂, -, hx⟩
      · obtain ⟨before, kind, after, r₂, rfl, h₂, hx⟩ := EStateM.forM_eq_error hx
        cases hb : k.manifest.sequence? kind with
        | none =>
          simp only [runKind, hb] at hx
          cases hx
        | some b =>
          have hr := report_sequences k b kind r₂
          rw [runKind_run hb] at hx
          rw [Pass.sequences, hx, stateAfter_error] at hr
          refine .inr ⟨kind, ⟨before, after, b, r₂, t, rfl, (EStateM.bind_of_ok _ _ _ h₁).trans h₂, hb, hx⟩, ?_⟩
          rw [hr, report_forM_runKind h₂, report_acquire h₁]
          cases (k.present before).getLast? <;> rfl
      · cases hx

end Passes

/-! ## Reports before passes -/

def openingStates : List State := [.start, .authenticate, .authorize]

def Opening (r : Run π H δ η τ) : Prop :=
  r.report.sequence = none ∧ r.report.mode = .validate ∧ r.report.state ∈ openingStates

omit [Platform π H] [Flash δ] [Hash.Engine η] in
lemma Mute.opening {f : Act π H δ η τ α} (hf : Follows Mute f) : Follows (Maintains Opening) f := by
  refine hf.mono fun r s h hr => ?_
  rw [Opening, h]
  exact hr

omit [Platform π H] [Flash δ] [Hash.Engine η] in
lemma opening_enter {s : State} (hs : s ∈ openingStates) :
    Follows (Maintains Opening) (enter s : Act π H δ η τ Unit) := fun _ h => ⟨h.1, h.2.1, hs⟩

omit [Platform π H] [Flash δ] [Hash.Engine η] in
lemma opening_decode (b : Bytes) : Follows (Maintains Opening) (decode b : Act π H δ η τ Envelope) :=
  .bind (.lift _) fun _ => .bind (fun _ h => h) fun _ => .pure _

lemma opening_accept (b : Bytes) (a : Arena) :
    Follows (Maintains Opening) (accept b a : Act π H δ η τ (Envelope × Uuid)) := by
  refine .bind (opening_decode b) fun e => ?_
  cases e.manifest.classId? with
  | none => exact .throw _
  | some c =>
    exact .bind (fun _ h => h) fun _ => .bind (opening_enter (by decide)) fun _ => .bind (follows_slot c) fun s =>
      .bind (Mute.opening (mute_authenticate e c _ _)) fun _ => .bind (opening_enter (by decide)) fun _ =>
        .bind (follows_installedSequence c a) fun _ => .bind (Mute.opening (mute_within _ _)) fun _ => .pure _

lemma opening_acceptInstalled (c : Uuid) (a : Arena) :
    Follows (Maintains Opening) (acceptInstalled c a : Act π H δ η τ Envelope) := by
  refine .bind (fun _ h => h) fun _ => .bind (follows_slot c) fun s => ?_
  refine .bind (.bind .get fun _ => .lift _) fun b => .bind (opening_decode b) fun e => .check ?_
  exact .bind (opening_enter (by decide)) fun _ =>
    .bind (Mute.opening (mute_authenticate e c _ _)) fun _ => .pure _

end Run

open Run

variable [Hash.Engine η] [Source τ]

/-- What a processor is called for that reports how it went. -/
inductive Mission where
  | update (b : Bytes) (a : Arena)
  | boot (c : Uuid) (a : Arena)

namespace Mission

variable {p : Processor π H δ η τ}

def perform : Mission → EStateM Error (Processor π H δ η τ) Unit
  | update b a => Processor.update b a
  | boot c a => Processor.boot c a

def act : Mission → Act π H δ η τ Unit
  | update b a => Run.update b a
  | boot c a => bootOrRecover c a

def ended (m : Mission) (p : Processor π H δ η τ) : Run π H δ η τ :=
  (stateAfter (m.act (.start p))).finish (answer (m.act (.start p)))

/-- The passes of a mission, each with the run that it begins in. -/
inductive Passes (p : Processor π H δ η τ) : Mission → Pass → List SequenceKind → Run π H δ η τ → Prop
  | validateUpdate {b a e c r} : accept b a (.start p) = .ok (e, c) r →
      Passes p (update b a) (passOf e c .validate) updateKinds r
  | executeUpdate {b a e c r s} : accept b a (.start p) = .ok (e, c) r →
      pass (passOf e c .validate) updateKinds r = .ok () s →
      Passes p (update b a) (passOf e c .execute) updateKinds s
  | validateBoot {c a e r} : acceptInstalled c a (.start { p with sources := [] }) = .ok e r →
      Passes p (boot c a) (passOf e c .validate) bootKinds r
  | executeBoot {c a e r s} : acceptInstalled c a (.start { p with sources := [] }) = .ok e r →
      pass (passOf e c .validate) bootKinds r = .ok () s →
      Passes p (boot c a) (passOf e c .execute) bootKinds s

end Mission

def restingStates : List State := [.start, .authenticate, .authorize, .commit, .done]

/-- What a report tells of a run that has ended with `x`, after the passes that are in `P`. -/
structure Locates (P : Pass → List SequenceKind → Run π H δ η τ → Prop) (x : Except Error Unit) (rep : Report) :
    Prop where
  done : x = .ok () → rep.state = .done ∧ rep.sequence = none
  running : ∀ kind, rep.sequence = some kind → rep.state = .running kind ∧
    ∃ e k kinds r, x = .error e ∧ P k kinds r ∧ k.mode = rep.mode ∧ k.FailsIn kinds r kind e
  resting : rep.sequence = none → rep.state ∈ restingStates ∨
    ∃ e k kinds r kind, x = .error e ∧ P k kinds r ∧ k.mode = .execute ∧ rep.mode = .execute ∧
      k.FailsAcquiring r e ∧ (k.present kinds).getLast? = some kind ∧ rep.state = .running kind

namespace Locates

variable {P : Pass → List SequenceKind → Run π H δ η τ → Prop} {e : Error} {r s : Run π H δ η τ}

lemma of_resting {rep : Report} (hq : rep.sequence = none) (hs : rep.state ∈ restingStates) :
    Locates P (.error e) rep where
  done := nofun
  running kind h := by cases hq.symm.trans h
  resting _ := .inl hs

lemma of_failed {k : Pass} {kinds : List SequenceKind} (hp : P k kinds r) (h : pass k kinds r = .error e s)
    (hq : r.report.sequence = none) (hr : r.report.state ∈ restingStates ∨
      k.mode = .execute ∧ ∃ kind, (k.present kinds).getLast? = some kind ∧ r.report.state = .running kind) :
    Locates P (.error e) s.report := by
  rcases report_pass_error h with ⟨ha, hs⟩ | ⟨kind, hf, hs⟩
  · rw [hs]
    refine ⟨nofun, fun kind h => (by cases hq.symm.trans h), fun _ => hr.imp_right ?_⟩
    rintro ⟨hm, kind, hl, hk⟩
    exact ⟨e, k, kinds, r, kind, rfl, hp, hm, hm, ha, hl, hk⟩
  · rw [hs]
    refine ⟨nofun, fun kind' h => ?_, nofun⟩
    cases h
    exact ⟨rfl, e, k, kinds, r, rfl, hp, rfl, hf⟩

lemma of_passes {x : Envelope} {c : Uuid} {kinds : List SequenceKind} {tail : Act π H δ η τ Unit} (hr : Opening r)
    (hv : P (passOf x c .validate) kinds r)
    (he : ∀ s, pass (passOf x c .validate) kinds r = .ok () s → P (passOf x c .execute) kinds s)
    (ht : ∀ s, s.report.sequence = none → Locates P (answer (tail s)) (stateAfter (tail s)).report) :
    let y := (do pass (passOf x c .validate) kinds; pass (passOf x c .execute) kinds; tail) r
    Locates P (answer y) (stateAfter y).report := by
  intro y
  have hrest : ∀ s ∈ openingStates, s ∈ restingStates := by decide
  simp only [y]
  rw [EStateM.bind_run]
  cases h₁ : pass (passOf x c .validate) kinds r with
  | error e s => exact of_failed hv h₁ hr.1 (.inl (hrest _ hr.2.2))
  | ok u s =>
    obtain ⟨hq, hs⟩ := report_pass_ok h₁
    dsimp only
    rw [EStateM.bind_run]
    cases h₂ : pass (passOf x c .execute) kinds s with
    | ok u t => exact ht t (report_pass_ok h₂).1
    | error e t =>
      refine of_failed (he s h₁) h₂ hq ?_
      -- The state is still that of the last sequence that the first pass has run.
      cases hl : ((passOf x c .validate).present kinds).getLast? with
      | none =>
        rw [hl, Option.elim_none] at hs
        exact .inl (hs ▸ hrest _ hr.2.2)
      | some kind =>
        rw [hl, Option.elim_some] at hs
        exact .inr ⟨rfl, kind, hl, hs⟩

end Locates

namespace Mission

variable {p : Processor π H δ η τ}

omit [Platform π H] [Flash δ] [Hash.Engine η] [Source τ] in
lemma opening_start (p : Processor π H δ η τ) : Opening (.start p) := ⟨rfl, rfl, List.mem_cons_self⟩

lemma locates_opening {P : Pass → List SequenceKind → Run π H δ η τ → Prop} {e : Error} {r : Run π H δ η τ}
    (hr : Opening r) : Locates P (.error e) r.report :=
  have hrest : ∀ s ∈ openingStates, s ∈ restingStates := by decide
  .of_resting hr.1 (hrest _ hr.2.2)

lemma locates_done {P : Pass → List SequenceKind → Run π H δ η τ → Prop} (r : Run π H δ η τ)
    (hq : r.report.sequence = none) :
    Locates P (answer ((enter .done : Act π H δ η τ Unit) r))
      (stateAfter ((enter .done : Act π H δ η τ Unit) r)).report where
  done _ := ⟨rfl, hq⟩
  running kind h := by cases hq.symm.trans h
  resting _ := .inl (by decide : State.done ∈ restingStates)

lemma locates_commit {P : Pass → List SequenceKind → Run π H δ η τ → Prop} {f : Act π H δ η τ Unit}
    (hf : Follows Mute f) (r : Run π H δ η τ) (hq : r.report.sequence = none) :
    let y := (do enter .commit; f; enter .done : Act π H δ η τ Unit) r
    Locates P (answer y) (stateAfter y).report := by
  intro y
  have hm := hf { r with report := { r.report with state := .commit } }
  simp only [y]
  rw [EStateM.bind_run, enter, EStateM.modify_run]
  dsimp only
  rw [EStateM.bind_run]
  cases h : f { r with report := { r.report with state := .commit } } with
  | error e s =>
    rw [h] at hm
    exact .of_resting (congrArg Report.sequence hm |>.trans hq)
      (congrArg Report.state hm ▸ (by decide : State.commit ∈ restingStates))
  | ok u s =>
    rw [h] at hm
    exact locates_done s (congrArg Report.sequence hm |>.trans hq)

lemma locates_update (b : Bytes) (a : Arena) :
    Locates ((update b a).Passes p) (answer (Run.update b a (.start p)))
      (stateAfter (Run.update b a (.start p))).report := by
  have ho := opening_accept b a (.start p)
  rw [Run.update, EStateM.bind_run]
  cases h : accept b a (.start p) with
  | error e r =>
    rw [h] at ho
    exact locates_opening (ho (opening_start p))
  | ok x r =>
    rw [h] at ho
    obtain ⟨e, c⟩ := x
    refine Locates.of_passes (ho (opening_start p)) (.validateUpdate h) (fun s hs => .executeUpdate h hs) fun s hq => ?_
    exact locates_commit (mute_within _ _) s hq

lemma bootOrRecover_report (c : Uuid) (a : Arena) (r : Run π H δ η τ) :
    let x : EStateM.Result Error (Run π H δ η τ) Unit :=
      Run.boot c a (r.putProcessor { r.processor with sources := [] })
    answer (bootOrRecover c a r) = answer x ∧ (stateAfter (bootOrRecover c a r)).report = (stateAfter x).report := by
  intro x
  rw [bootOrRecover, withoutSources]
  dsimp only [x]
  cases Run.boot c a (r.putProcessor { r.processor with sources := [] }) <;> exact ⟨rfl, rfl⟩

lemma locates_boot (c : Uuid) (a : Arena) :
    Locates ((boot c a).Passes p) (answer (bootOrRecover c a (.start p)))
      (stateAfter (bootOrRecover c a (.start p))).report := by
  obtain ⟨ha, hr⟩ := bootOrRecover_report c a (.start p)
  rw [ha, hr]
  change Locates _ (answer (Run.boot c a (.start { p with sources := [] })))
    (stateAfter (Run.boot c a (.start { p with sources := [] }))).report
  have ho := opening_acceptInstalled c a (.start { p with sources := ([] : List τ) })
  rw [boot_eq, EStateM.bind_run]
  cases h : acceptInstalled c a (.start { p with sources := [] }) with
  | error e r =>
    rw [h] at ho
    exact locates_opening (ho (opening_start _))
  | ok e r =>
    rw [h] at ho
    exact Locates.of_passes (ho (opening_start _)) (.validateBoot h) (fun s hs => .executeBoot h hs) locates_done

lemma locates_act (m : Mission) (p : Processor π H δ η τ) :
    Locates (m.Passes p) (answer (m.act (.start p))) (stateAfter (m.act (.start p))).report := by
  cases m with
  | update b a => exact locates_update b a
  | boot c a => exact locates_boot c a

lemma perform_eq (m : Mission) (p : Processor π H δ η τ) : m.perform p = reporting m.act p := by
  cases m with
  | update b a => rfl
  | boot c a => exact boot_reporting c a p

end Mission

/-- A report that is saved tells whether a run has succeeded and, if not, how it has failed. If it names a
sequence, that is where. If it names none, it tells of a state in which nothing runs, unless the components could
not be acquired for the pass that executes: then its state is that of the last sequence that was validated. -/
theorem report_locates_failure (m : Mission) (p : Processor π H δ η τ)
    (hs : answer (saveReport (m.ended p)) = .ok ()) :
    let rep := (m.ended p).report
    let q := (m.ended p).processor
    let x := answer (m.perform p)
    stateAfter (m.perform p) = stateAfter (onDevice (Storage.saveReport q.layout q.options.reportSlot rep.encode)
        (q.log (.reported rep))) ∧
      (rep.outcome = .success ↔ x = .ok ()) ∧ (∀ e, x = .error e → rep.outcome = e.outcome) ∧
      Locates (m.Passes p) x rep := by
  intro rep q x
  have hx : x = answer (m.act (.start p)) := by
    simp only [x, Mission.perform_eq]
    exact answer_reporting_of_saved hs
  have ho : rep.outcome = .ofResult x := by
    rw [hx]
    rfl
  refine ⟨?_, ?_, fun e he => by rw [ho, he]; rfl, ?_⟩
  · rw [Mission.perform_eq, stateAfter_reporting, stateAfter_saveReport]
    rfl
  · rw [ho, Outcome.ofResult_eq_success]
    exact ⟨fun ⟨_, h⟩ => h, fun h => ⟨_, h⟩⟩
  · rw [hx]
    have hl := Mission.locates_act m p
    exact ⟨hl.done, hl.running, hl.resting⟩

structure Once where
  acquired : Bool

instance : Platform Once Unit where
  perform
    | .authorizeComponent .. => pure ()
    | .acquire _ => fun s => if s.acquired then .error .io s else .ok () ⟨true⟩
    | c => liftM c.byDefault

def once : Processor Once Unit Ram (Hash.Digester zeros) Payloads :=
  ⟨blank.layout, blank.options, ⟨false⟩, blank.store, blank.vars, blank.digests, [], []⟩

theorem report_locates_failure_aborted :
    let m : Mission := .update (installing [0x82, 0x0e, 0x00]) (.ofSize 256)
    let rep := (m.ended once).report
    answer (saveReport (m.ended once)) = .ok () ∧ rep.sequence = some .install ∧ rep.mode = .validate ∧
      answer (m.perform once) = .error (.conditionFailed .abort) ∧
      Locates (m.Passes once) (answer (m.perform once)) rep := by
  intro m rep
  have hs : answer (saveReport (m.ended once)) = .ok () := by decide +kernel
  have hq : rep.sequence = some .install := by decide +kernel
  have hm : rep.mode = .validate := by decide +kernel
  have hx : answer (m.perform once) = .error (.conditionFailed .abort) := by decide +kernel
  exact ⟨hs, hq, hm, hx, (report_locates_failure m once hs).2.2.2⟩

/-- The sequence has been validated when the component cannot be acquired a second time. -/
theorem report_stale_state :
    let m : Mission := .update (installing [0x82, 0x0c, 0x00]) (.ofSize 256)
    let rep := (m.ended once).report
    answer (saveReport (m.ended once)) = .ok () ∧ answer (m.perform once) = .error (.platform .io) ∧
      rep.mode = .execute ∧ rep.sequence = none ∧ rep.state = .install ∧ State.install ∉ restingStates := by
  decide +kernel

end Firmware.Processor
