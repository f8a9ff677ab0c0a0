import Firmware.Proofs.Processor.Gate

namespace Firmware.Processor

open Flash Manifest Storage

variable {π H δ η τ α : Type} [Platform π H] [Flash δ]

/-- What happens when a processor only asks and decides. A source that is used would leave a note. -/
def Consultation : Event H → Prop
  | .call (.checkContent ..) _ | .call (.openSink ..) _ | .call (.sink ..) _ | .call (.read ..) _
  | .call (.swap ..) _ | .call (.invoke ..) _ | .note _ | .device _ | .variableRead ..
  | .variableSet .. | .reported _ | .passBegins .execute | .passEnds .execute => False
  | _ => True

omit [Platform π H] [Flash δ] in
lemma Consultation.of_permitted {l : Layout} {e : Event H} (he : Permitted .validate l e) :
    Consultation e := by
  cases e with
  | call c r => cases c <;> trivial
  | passBegins m | passEnds m => cases (show m = .validate from he); trivial
  | note n | variableRead id x | variableSet id v x => cases he
  | device e => cases he.1
  | reported r => exact he
  | _ => trivial

omit [Platform π H] [Flash δ] in
lemma Consultation.of_authorization {c : Call H} (h : c.IsAuthorization) (x : Except Failure c.Reply) :
    Consultation (.call c x) := by
  cases c <;> trivial

structure Consults (p q : Processor π H δ η τ) : Prop where
  does : Does (fun _ => Consultation) p q
  store : q.store = p.store
  vars : q.vars = p.vars
  sources : q.sources = p.sources

instance : IsPreorder (Processor π H δ η τ) Consults where
  refl p := ⟨refl_of (Does _) p, rfl, rfl, rfl⟩
  trans _ _ _ h h' :=
    ⟨trans_of (Does _) h.does h'.does, h'.store.trans h.store, h'.vars.trans h.vars,
      h'.sources.trans h.sources⟩

lemma consults_ask {c : Call H} (hc : ∀ x, Consultation (.call c x)) :
    Follows Consults (ask c : EStateM Failure (Processor π H δ η τ) c.Reply) := by
  intro p
  refine ⟨does_ask c (fun _ => hc) p, ?_, ?_, ?_⟩ <;> rw [stateAfter_ask]

lemma permits_consults [Hash.Engine η] :
    Permits .validate (Consults : Processor π H δ η τ → Processor π H δ η τ → Prop) where
  log he hP p := ⟨⟨_, .log p he.ne_call, fun _ he => List.mem_singleton.mp he ▸ .of_permitted (hP p.layout)⟩,
    rfl, rfl, rfl⟩
  ask _ hP p := consults_ask (fun x => .of_permitted (hP p.layout x)) p
  lends p digests := ⟨lends_does p digests, rfl, rfl, rfl⟩
  sources h := by cases h
  readVariable h := by cases h
  setVariable h := by cases h
  resource {c} hc p := consults_ask (fun _ => by cases c <;> trivial) p
  bounds e he p := by
    simp only [List.mem_cons, List.not_mem_nil, or_false] at he
    rcases he with rfl | rfl
    all_goals
      refine ⟨⟨_, .log p (fun _ _ h => by cases h), fun _ he => ?_⟩, rfl, rfl, rfl⟩
      exact List.mem_singleton.mp he ▸ trivial

structure Spares (exempt : List Region) (p q : Processor π H δ η τ) : Prop where
  does : Does (fun _ e => Consultation e ∨ Preliminary exempt e) p q
  vars : q.vars = p.vars
  sources : q.sources = p.sources

namespace Spares

variable {exempt exempt' : List Region} {p q r : Processor π H δ η τ}

lemma of_consults (h : Consults p q) : Spares exempt p q :=
  ⟨h.does.mono fun _ => .inl, h.vars, h.sources⟩

lemma trans (h : Spares exempt p q) (h' : Spares exempt q r) : Spares exempt p r :=
  ⟨trans_of (Does _) h.does h'.does, h'.vars.trans h.vars, h'.sources.trans h.sources⟩

lemma withVariables (h : Spares exempt p q) (v : Variables) :
    Spares exempt { p with vars := v } { q with vars := v } := by
  obtain ⟨⟨es, ha, hP⟩, -, hs⟩ := h
  exact ⟨⟨es, ⟨ha.trace, ha.layout, ha.options, ha.calls, fun hn => absurd rfl hn, ha.device⟩, hP⟩,
    rfl, hs⟩

lemma of_onDevice {f : EStateM Failure (Journaled δ) α}
    (hf : Follows (Reach fun m => ∃ x ∈ exempt, m.Inside x) f) (p : Processor π H δ η τ) :
    Spares exempt p (stateAfter (onDevice f p)) :=
  ⟨does_onDevice p hf fun _ he => .inr he, vars_onStore _ p, sources_onStore _ p⟩

end Spares

namespace Run

lemma spares_saveReport (r : Run π H δ η τ) {exempt : List Region}
    (h : reportRegions r.processor ⊆ exempt) :
    Spares exempt r.processor (stateAfter (saveReport r)).processor := by
  have hl : Spares exempt r.processor (r.processor.log (.reported r.report)) :=
    ⟨⟨_, .log _ fun _ _ h => (by cases h), fun _ he => List.mem_singleton.mp he ▸ .inr trivial⟩, rfl, rfl⟩
  rw [stateAfter_saveReport]
  refine hl.trans (.of_onDevice ((follows_saveReport _ _ _).mono fun _ _ => .mono ?_) _)
  exact fun m ⟨x, hx, hm⟩ => ⟨x, h hx, hm⟩

lemma spares_requestRecovery (r : Run π H δ η τ) (exempt : List Region)
    (h : r.processor.layout.flags ∈ exempt) :
    Spares exempt r.processor (requestRecovery r).processor :=
  .of_onDevice ((follows_setFlag _ .recovery).mono fun _ _ => .mono fun _ hm => ⟨_, h, hm⟩) _

section

variable [Hash.Engine η]

lemma consults_accept (b : Bytes) (a : Arena) :
    Follows (Along Consults) (accept b a : Act π H δ η τ (Envelope × Uuid)) :=
  along_accept permits_consults.lends (fun _ hc => consults_ask (.of_authorization hc)) b a

lemma consults_acceptInstalled (c : Uuid) (a : Arena) :
    Follows (Along Consults) (acceptInstalled c a : Act π H δ η τ Envelope) :=
  along_acceptInstalled permits_consults.lends (fun _ hc => consults_ask (.of_authorization hc)) c a

lemma consults_authenticate (e : Envelope) (c : Uuid) (p : Policy) (t : Trigger) :
    Follows (Along Consults) (authenticate e c p t : Act π H δ η τ Unit) :=
  along_authenticate permits_consults.lends (fun _ hc => consults_ask (.of_authorization hc)) e c p t

lemma consults_pass [Source τ] (e : Envelope) (c : Uuid) (kinds : List SequenceKind) :
    Follows (Along Consults) (pass (passOf e c .validate) kinds : Act π H δ η τ Unit) :=
  along_pass permits_consults kinds

end

end Run

section

variable [Hash.Engine η] [Source τ]

/-- Nothing but asking happens until all sequences of an envelope are validated. The envelope
satisfies `P`. -/
def Validates (P : Envelope → Uuid → Prop) (kinds : List SequenceKind) (p q : Processor π H δ η τ) :
    Prop :=
  ∃ e c r s, P e c ∧ Consults p r.processor ∧
    Run.pass (Run.passOf e c .validate) kinds r = .ok () s ∧
    Consults r.processor s.processor ∧ Does (fun _ _ => True) s.processor q

variable {P : Envelope → Uuid → Prop} {kinds : List SequenceKind} {p q r : Processor π H δ η τ}

lemma Validates.of_consults (h : Consults p q) (h' : Validates P kinds q r) : Validates P kinds p r := by
  obtain ⟨e, c, s, t, hP, hs, hv⟩ := h'
  exact ⟨e, c, s, t, hP, trans_of Consults h hs, hv⟩

lemma Validates.trans_does {Q : Layout → Event H → Prop} (h : Validates P kinds p q)
    (h' : Does Q q r) : Validates P kinds p r := by
  obtain ⟨e, c, s, t, hP, hs, hv, hc, hd⟩ := h
  exact ⟨e, c, s, t, hP, hs, hv, hc, trans_of (Does _) hd (h'.mono fun _ _ => trivial)⟩

/-- Nothing but asking happens, or only what comes after all sequences of an envelope. -/
def Rehearsed (P : Envelope → Uuid → Prop) (kinds : List SequenceKind) (p q : Processor π H δ η τ) :
    Prop :=
  Consults p q ∨ Validates P kinds p q

lemma Rehearsed.layout (h : Rehearsed P kinds p q) : q.layout = p.layout := by
  rcases h with h | ⟨e, c, s, t, -, hs, -, ht, hd⟩
  · exact h.does.layout
  · exact hd.layout.trans (ht.does.layout.trans hs.does.layout)

end

namespace Run

variable [Hash.Engine η] [Source τ]
variable {P : Envelope → Uuid → Prop} {kinds : List SequenceKind} {r : Run π H δ η τ}

lemma rehearsed_bind {f : Act π H δ η τ α} {g : α → Act π H δ η τ Unit}
    (hf : Follows (Along Consults) f)
    (hg : ∀ a s, f r = .ok a s → Consults r.processor s.processor →
      Rehearsed P kinds s.processor (stateAfter (g a s)).processor) :
    Rehearsed P kinds r.processor (stateAfter ((f >>= g) r)).processor := by
  have hr := hf r
  rw [EStateM.bind_run]
  cases hs : f r with
  | error e s =>
    rw [hs] at hr
    exact .inl hr
  | ok a s =>
    rw [hs] at hr
    exact (hg a s hs hr).imp (trans_of Consults hr) (.of_consults hr)

lemma rehearsed_pass {e : Envelope} {c : Uuid} {f : Act π H δ η τ Unit} (hP : P e c)
    (hf : Follows (Acts fun _ _ => True) f) :
    Rehearsed P kinds r.processor
      (stateAfter ((do pass (passOf e c .validate) kinds; f) r)).processor := by
  have hr := consults_pass e c kinds r
  rw [EStateM.bind_run]
  cases hs : pass (passOf e c .validate) kinds r with
  | error x s =>
    rw [hs] at hr
    exact .inl hr
  | ok u s =>
    rw [hs] at hr
    exact .inr ⟨e, c, r, s, hP, refl_of Consults r.processor, hs, hr, hf s⟩

lemma rehearsed_update (b : Bytes) (a : Arena) (r : Run π H δ η τ) :
    Rehearsed (fun e c => Envelope.parse b = .ok e ∧ e.manifest.classId? = some c) updateKinds
      r.processor (stateAfter (Run.update b a r)).processor := by
  refine rehearsed_bind (consults_accept b a) fun ⟨e, c⟩ s hs _ => ?_
  obtain ⟨_, ha⟩ := accept_eq_ok hs
  refine rehearsed_pass ⟨ha.parsed, ha.classId⟩ (.bind (acts_pass_any _ _) fun _ => ?_)
  exact .bind (along_enter _) fun _ => .bind (acts_install (fun _ _ => trivial) _ _) fun _ => along_enter _

lemma rehearsed_boot (c : Uuid) (a : Arena) (r : Run π H δ η τ) :
    Rehearsed (fun e c' => c' = c ∧ e.manifest.classId? = some c ∧ ∃ b,
        answer (installedEnvelope r.processor.layout c r.processor.store.device a) = .ok b ∧
          Envelope.parse b = .ok e) bootKinds
      r.processor (stateAfter (Run.boot c a r)).processor := by
  refine rehearsed_bind (along_modify fun _ => rfl) fun _ r₁ h₁ _ => ?_
  cases h₁
  refine rehearsed_bind (along_slot c) fun s r₂ _ a₂ => ?_
  refine rehearsed_bind (.bind .get fun _ => .lift _) fun b r₃ h₃ _ => ?_
  refine rehearsed_bind (along_decode b) fun e r₄ h₄ _ => ?_
  by_cases hc : e.manifest.classId? = some c
  · simp only [hc, ↓reduceIte]
    refine rehearsed_bind (along_enter _) fun _ r₅ _ _ => ?_
    refine rehearsed_bind (consults_authenticate e c _ _) fun _ r₆ _ _ => ?_
    refine rehearsed_pass ⟨rfl, hc, b, ?_, decode_eq_ok h₄⟩
      (.bind (acts_pass_any _ _) fun _ => along_enter _)
    have hb := installed_eq_ok h₃
    rwa [a₂.does.layout, a₂.store] at hb
  · simp only [hc, ↓reduceIte]
    exact .inl (refl_of Consults _)

end Run

variable [Hash.Engine η] [Source τ] {P : Envelope → Uuid → Prop} {kinds : List SequenceKind}
variable {exempt : List Region} {sources : List τ} {p q r : Processor π H δ η τ}

/-- All that a run with `sources` does, besides ending the session and changing some regions of the
device, it does after all sequences of an envelope were validated. -/
def Staged (exempt : List Region) (sources : List τ) (P : Envelope → Uuid → Prop)
    (kinds : List SequenceKind) (p q : Processor π H δ η τ) : Prop :=
  Spares exempt { p with vars := p.vars.endSession } q ∨ Validates P kinds { p with sources } q

lemma Staged.of_reporting {f : Run.Act π H δ η τ Unit}
    (h : Spares exempt p (stateAfter (f (.start p))).processor ∨
      Validates P kinds { p with sources } (stateAfter (f (.start p))).processor)
    (hr : reportRegions p ⊆ exempt) :
    Staged exempt sources P kinds p (stateAfter (reporting f p)) := by
  rw [stateAfter_reporting]
  generalize hs : (stateAfter (f (.start p))).finish (answer (f (.start p))) = t
  refine h.imp (fun h => ?_) fun h => ?_
  · have hf : Spares exempt { p with vars := p.vars.endSession } t.processor := by
      have hw := h.withVariables (stateAfter (f (.start p))).processor.vars.endSession
      rw [h.vars] at hw
      rw [← hs, Run.finish, h.vars]
      exact hw
    exact hf.trans (Run.spares_saveReport t (reportRegions_of_does hf.does ▸ hr))
  · have hf : Does (fun _ _ => True) (stateAfter (f (.start p))).processor t.processor :=
      hs ▸ Run.acts_finish _ _
    exact (h.trans_does hf).trans_does (Run.acts_saveReport t)

omit [Hash.Engine η] [Source τ] in
lemma Consults.restored {ts : List τ} (h : Consults { p with sources := ts } q) :
    Consults p { q with sources := p.sources } := by
  obtain ⟨⟨es, ha, hP⟩, hs, hv, -⟩ := h
  exact ⟨⟨es, ⟨ha.trace, ha.layout, ha.options, ha.calls, ha.vars, ha.device⟩, hP⟩, hs, hv, rfl⟩

lemma Rehearsed.withoutSources {f : Run.Act π H δ η τ Unit}
    (h : Rehearsed P kinds { p with sources := [] }
      (stateAfter (f (.start { p with sources := [] }))).processor) (exempt : List Region) :
    (stateAfter (Run.withoutSources f (.start p))).processor.layout = p.layout ∧
      (Spares exempt p (stateAfter (Run.withoutSources f (.start p))).processor ∨
        Validates P kinds { p with sources := [] }
          (stateAfter (Run.withoutSources f (.start p))).processor) := by
  rw [stateAfter_withoutSources]
  refine ⟨h.layout, h.imp (fun h => .of_consults h.restored) fun h => ?_⟩
  refine h.trans_does (Q := fun _ _ => True) ⟨[], .aside rfl rfl rfl rfl rfl rfl, ?_⟩
  exact fun _ h => by cases h

lemma consults_checkUpdate (b : Bytes) (a : Arena) (p : Processor π H δ η τ) :
    Consults p (stateAfter (checkUpdate b a p)) := by
  have h : Follows (Run.Along Consults) (Run.checkUpdate b a : Run.Act π H δ η τ Unit) :=
    .bind (Run.consults_accept b a) fun _ => Run.consults_pass _ _ _
  have hc := h (.start { p with sources := [] })
  rw [stateAfter_checkUpdate, stateAfter_withoutSources]
  exact hc.restored

lemma staged_boot (c : Uuid) (a : Arena) (p : Processor π H δ η τ) :
    Staged (p.layout.flags :: reportRegions p) []
      (fun e c' => c' = c ∧ e.manifest.classId? = some c ∧ ∃ b,
        answer (installedEnvelope p.layout c p.store.device a) = .ok b ∧ Envelope.parse b = .ok e)
      Run.bootKinds p (stateAfter (boot c a p)) := by
  refine .of_reporting ?_ (List.subset_cons_self _ _)
  have ht := (Run.rehearsed_boot c a (.start { p with sources := ([] : List τ) })).withoutSources
    (p.layout.flags :: reportRegions p)
  revert ht
  cases Run.withoutSources (Run.boot c a) (.start p) with
  | ok u t => exact And.right
  | error e t =>
    rintro ⟨hl, ht⟩
    have ho := Run.spares_requestRecovery t (p.layout.flags :: reportRegions p)
      (List.mem_cons.mpr (.inl (congrArg Layout.flags hl)))
    exact ht.imp (·.trans ho) (·.trans_does ho.does)

/-- A validation only asks the platform. An update and a boot do no more, but for reports and the request
for recovery, until all sequences of an envelope are validated. -/
theorem validation_consults (p : Processor π H δ η τ) (b : Bytes) (c : Uuid) (a : Arena) :
    Consults p (stateAfter (checkUpdate b a p)) ∧
    (∀ (e : Envelope) (c : Uuid) (kinds : List SequenceKind) (r : Run π H δ η τ),
      Consults r.processor (stateAfter (Run.pass (Run.passOf e c .validate) kinds r)).processor) ∧
    Staged (reportRegions p) p.sources
      (fun e c => Envelope.parse b = .ok e ∧ e.manifest.classId? = some c) Run.updateKinds p
      (stateAfter (update b a p)) ∧
    Staged (p.layout.flags :: reportRegions p) []
      (fun e c' => c' = c ∧ e.manifest.classId? = some c ∧ ∃ b,
        answer (installedEnvelope p.layout c p.store.device a) = .ok b ∧ Envelope.parse b = .ok e)
      Run.bootKinds p (stateAfter (boot c a p)) := by
  refine ⟨consults_checkUpdate b a p, fun e c kinds => Run.consults_pass e c kinds, ?_,
    staged_boot c a p⟩
  exact .of_reporting ((Run.rehearsed_update b a (.start p)).imp_left .of_consults) (List.Subset.refl _)

end Firmware.Processor
