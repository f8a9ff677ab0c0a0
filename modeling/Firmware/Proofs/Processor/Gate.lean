import Firmware.Proofs.Processor.Authentication
import Firmware.Proofs.Storage.Layout

namespace Firmware.Processor

open Flash Manifest Storage

variable {π H δ η τ α : Type} [Platform π H] [Flash δ] {P : Event H → Prop}
variable {Q : List (Event H) → Prop} {p q r : Processor π H δ η τ}

def reportRegions (p : Processor π H δ η τ) : List Region :=
  (p.layout.report p.options.reportSlot).toOption.toList

omit [Platform π H] [Flash δ] in
lemma mem_reports {r : Region} (h : r ∈ reportRegions p) : r ∈ p.layout.reports := by
  simp only [reportRegions, Layout.report] at h
  split at h
  · rename_i s hs
    have hr : r = s := by simpa [Except.toOption] using h
    exact hr ▸ List.mem_of_getElem? hs
  · simp [Except.toOption] at h

lemma reportRegions_of_does {P : Layout → Event H → Prop} (h : Does P p q) :
    reportRegions q = reportRegions p := by
  obtain ⟨es, ha, -⟩ := h
  rw [reportRegions, ha.layout, ha.options, reportRegions]

def Opens (P : Event H → Prop) (Q : List (Event H) → Prop) (p q : Processor π H δ η τ) : Prop :=
  ∃ es, Account es p q ∧ ((∀ e ∈ es, P e) ∨ ∃ fs gs, es = fs ++ gs ∧ Q fs)

lemma Opens.of_does (h : Does (fun _ => P) p q) : Opens P Q p q := by
  obtain ⟨es, ha, hP⟩ := h
  exact ⟨es, ha, .inl hP⟩

lemma Opens.of_account {fs : List (Event H)} (h : Account fs p q) (hQ : Q fs)
    (h' : Does (fun _ _ => True) q r) : Opens P Q p r := by
  obtain ⟨gs, hg, -⟩ := h'
  exact ⟨fs ++ gs, h.trans hg, .inr ⟨fs, gs, rfl, hQ⟩⟩

lemma Opens.of_aside (h : Account [] p q) (h' : Opens P Q q r) : Opens P Q p r := by
  obtain ⟨es, ha, hp⟩ := h'
  exact ⟨es, h.trans ha, hp⟩

lemma Opens.trans_does (h : Opens P Q p q) (h' : Does (fun _ => P) q r) : Opens P Q p r := by
  obtain ⟨es, ha, hp⟩ := h
  obtain ⟨fs, hf, hP⟩ := h'
  refine ⟨es ++ fs, ha.trans hf, ?_⟩
  rcases hp with hp | ⟨gs, hs, rfl, hQ⟩
  · exact .inl fun e he => (List.mem_append.mp he).elim (hp e) (hP e)
  · exact .inr ⟨gs, hs ++ fs, List.append_assoc _ _ _, hQ⟩

lemma Opens.mono {P' : Event H → Prop} (h : Opens P Q p q) (hP : ∀ e, P e → P' e) :
    Opens P' Q p q := by
  obtain ⟨es, ha, hp⟩ := h
  exact ⟨es, ha, hp.imp_left fun h e he => hP e (h e he)⟩

lemma Preliminary.mono {rs rs' : List Region} (h : rs ⊆ rs') {e : Event H}
    (he : Preliminary rs e) : Preliminary rs' e := by
  simp only [Preliminary] at he ⊢
  split at he
  all_goals first | trivial | skip
  obtain ⟨r, hr, hi⟩ := he
  exact ⟨r, h hr, hi⟩

namespace Run

omit [Platform π H] in
lemma stateAfter_saveReport (r : Run π H δ η τ) :
    (stateAfter (saveReport r)).processor = stateAfter (onDevice
      (Storage.saveReport r.processor.layout r.processor.options.reportSlot r.report.encode)
      (r.processor.log (.reported r.report))) := by
  change (stateAfter (within .platform _ _)).processor = _
  rw [within, stateAfter_onPart, stateAfter_adaptExcept]
  rfl

lemma acts_saveReport (r : Run π H δ η τ) :
    Acts (fun _ => Preliminary (reportRegions r.processor)) r (stateAfter (saveReport r)) := by
  have hl := acts_log (P := fun _ => Preliminary (reportRegions r.processor)) (e := .reported r.report)
    (fun _ _ h => by cases h) (fun _ => trivial) r
  rw [Acts, stateAfter_saveReport]
  exact trans_of (Does _) hl (does_onDevice (P := fun _ => Preliminary (reportRegions r.processor)) _
    (follows_saveReport r.processor.layout r.processor.options.reportSlot r.report.encode)
    fun _ he => he)

lemma acts_requestRecovery (r : Run π H δ η τ) :
    Acts (fun _ => Preliminary [r.processor.layout.flags]) r (requestRecovery r) :=
  does_onDevice (P := fun _ => Preliminary [r.processor.layout.flags]) r.processor
    (follows_setFlag r.processor.layout .recovery) fun _ he => ⟨_, List.mem_singleton_self _, he⟩

lemma acts_finish (x : Except Error Unit) (r : Run π H δ η τ) :
    Acts (fun _ => P) r (r.finish x) :=
  ⟨[], .aside rfl rfl rfl rfl rfl rfl, fun _ h => by cases h⟩

variable {β : Type} {f : Act π H δ η τ α} {g : α → Act π H δ η τ β} {r : Run π H δ η τ}

lemma opens_bind_quiet (hf : Follows (Acts fun _ _ => False) f)
    (hg : ∀ a s, f r = .ok a s → Account [] r.processor s.processor →
      Opens P Q s.processor (stateAfter (g a s)).processor) :
    Opens P Q r.processor (stateAfter ((f >>= g) r)).processor := by
  have ha : Account [] r.processor (stateAfter (f r)).processor := Does.account (hf r)
  rw [EStateM.bind_run]
  cases hr : f r with
  | ok a s =>
    rw [hr] at ha
    exact .of_aside ha (hg a s hr ha)
  | error e s =>
    rw [hr] at ha
    exact ⟨[], ha, .inl fun _ h => by cases h⟩

lemma opens_bind_loud (hf : Follows (Acts fun _ => P) f)
    (hQ : ∀ a s, f r = .ok a s → ∃ fs, Account fs r.processor s.processor ∧ Q fs)
    (hg : ∀ a, Follows (Acts fun _ _ => True) (g a)) :
    Opens P Q r.processor (stateAfter ((f >>= g) r)).processor := by
  have ha := hf r
  rw [EStateM.bind_run]
  cases hr : f r with
  | ok a s =>
    obtain ⟨fs, hfs, hq⟩ := hQ a s hr
    exact .of_account hfs hq (hg a s)
  | error e s =>
    rw [hr] at ha
    exact .of_does ha

lemma acts_install {P : Layout → Event H → Prop} (hP : ∀ l e, P l (.device e)) (c : Uuid) (b : Bytes) :
    Follows (Acts P) (within .platform do
      onDevice (installEnvelope (← get).layout c b) : Act π H δ η τ Unit) := by
  refine along_within (.get_bind fun p => does_onDevice (Q := fun _ => True) p ?_ fun _ _ => hP _ _)
  exact .bind (.lift _) fun s => (Record.follows_save _ b).mono fun _ _ => .mono fun _ _ => trivial

omit [Platform π H] in
lemma installed_eq_ok {c : Uuid} {a : Arena} {b : Bytes} {r s : Run π H δ η τ}
    (h : installed c a r = .ok b s) :
    answer (installedEnvelope r.processor.layout c r.processor.store.device a) = .ok b := by
  obtain ⟨p, t, hp, h⟩ := EStateM.bind_eq_ok h
  cases hp
  have hc := answer_eq_ok (Except.mapError_eq_ok.mp (EStateM.lift_eq_ok h).1)
  obtain ⟨b', a', hb, hc⟩ := EStateM.bind_eq_ok hc
  obtain ⟨_, a'', -, hc⟩ := EStateM.bind_eq_ok hc
  cases hc
  rw [hb]
  rfl

variable [Hash.Engine η]

/-- The authorizations of an update: the envelope decodes and its digest is right. -/
def UpdateAuthorized (F : Hash.Algorithm → Bytes → Bytes) (l : Layout) (b : Bytes)
    (fs : List (Event H)) : Prop :=
  ∃ e c s n, Authentic F b c e ∧ l.slot c = .ok s ∧
    fs = authentications e c s.policy .update ++
      [.call (.authorizeSequence c s.policy e.manifest.sequenceNumber n) (.ok ())]

/-- The authorizations of a boot from installed bytes: they decode to an envelope of the class, and
its digest is right. -/
def BootAuthorized (F : Hash.Algorithm → Bytes → Bytes) (l : Layout) (c : Uuid) (d : δ) (a : Arena)
    (fs : List (Event H)) : Prop :=
  ∃ b e s, answer (installedEnvelope l c d a) = .ok b ∧ Authentic F b c e ∧ l.slot c = .ok s ∧
    fs = authentications e c s.policy .boot

variable {F : Hash.Algorithm → Bytes → Bytes} [Hash.Sound F η] [Source τ]

lemma acts_pass_any (k : Pass) (kinds : List SequenceKind) :
    Follows (Acts fun _ _ => True) (pass k kinds : Act π H δ η τ Unit) :=
  (acts_pass k kinds).mono fun _ _ => Does.mono fun _ _ => trivial

lemma opens_update (b : Bytes) (a : Arena) (r : Run π H δ η τ) :
    Opens (Preliminary []) (UpdateAuthorized F r.processor.layout b) r.processor
      (stateAfter (Run.update b a r)).processor := by
  refine opens_bind_loud (acts_accept b a []) (fun x s hs => ?_) fun x =>
    .bind (acts_pass_any _ _) fun _ => .bind (acts_pass_any _ _) fun _ => .bind (along_enter _) fun _ =>
      .bind (acts_install (fun _ _ => trivial) _ _) fun _ => along_enter _
  obtain ⟨e, c⟩ := x
  obtain ⟨t, ha⟩ := accept_eq_ok hs
  obtain ⟨u, v, hm⟩ := ha.matched
  exact ⟨_, ha.account, e, c, t, _, ⟨ha.parsed, ha.classId, manifestMatches_eq_true hm⟩, ha.slot, rfl⟩

lemma opens_boot (c : Uuid) (a : Arena) (r : Run π H δ η τ) :
    Opens (Preliminary [])
      (BootAuthorized F r.processor.layout c r.processor.store.device a) r.processor
      (stateAfter (Run.boot c a r)).processor := by
  refine opens_bind_quiet (along_modify fun _ => rfl) fun _ r₁ h₁ _ => ?_
  cases h₁
  refine opens_bind_quiet (along_slot c) fun s r₂ h₂ a₂ => ?_
  refine opens_bind_quiet (.bind .get fun _ => .lift _) fun b r₃ h₃ a₃ => ?_
  refine opens_bind_quiet (along_decode b) fun e r₄ h₄ a₄ => ?_
  by_cases hc : e.manifest.classId? = some c
  · simp only [hc, ↓reduceIte]
    refine opens_bind_quiet (along_enter _) fun _ r₅ h₅ _ => ?_
    cases h₅
    refine opens_bind_loud (acts_authenticate e c _ _ []) (fun _ r₆ h₆ => ?_) fun _ =>
      .bind (acts_pass_any _ _) fun _ => .bind (acts_pass_any _ _) fun _ => along_enter _
    obtain ⟨⟨u, v, hm⟩, ha⟩ := authenticate_eq_ok h₆
    have hd := manifestMatches_eq_true (F := F) hm
    have hs := slot_eq_ok h₂
    refine ⟨_, ha, b, e, s, ?_, ⟨decode_eq_ok h₄, hc, hd⟩, hs, rfl⟩
    have hb := installed_eq_ok h₃
    rwa [a₂.layout, (a₂.device (fun _ => False) fun _ h => by cases h).eq] at hb
  · simp only [hc, ↓reduceIte]
    exact .of_does (refl_of (Does _) _)

end Run

omit [Platform π H] in
lemma stateAfter_reporting (f : Run.Act π H δ η τ Unit) (p : Processor π H δ η τ) :
    stateAfter (reporting f p) =
      (stateAfter (Run.saveReport
        ((stateAfter (f (.start p))).finish (answer (f (.start p)))))).processor := by
  unfold reporting
  dsimp only
  cases answer (f (.start p)) with
  | error e => rfl
  | ok u =>
    cases Run.saveReport ((stateAfter (f (.start p))).finish (.ok u)) <;> rfl

lemma opens_reporting {exempt : List Region} {f : Run.Act π H δ η τ Unit}
    (h : Opens (Preliminary exempt) Q p (stateAfter (f (.start p))).processor)
    (hr : reportRegions p ⊆ exempt) :
    Opens (Preliminary exempt) Q p (stateAfter (reporting f p)) := by
  rw [stateAfter_reporting]
  generalize hs : (stateAfter (f (.start p))).finish (answer (f (.start p))) = s
  have hf : Does (fun _ => Preliminary exempt) (stateAfter (f (.start p))).processor s.processor :=
    hs ▸ Run.acts_finish (P := Preliminary exempt) (answer (f (.start p))) (stateAfter (f (.start p)))
  refine (h.trans_does hf).trans_does ((Run.acts_saveReport s).mono fun _ => .mono ?_)
  obtain ⟨es, ha, -⟩ := h.trans_does hf
  rwa [reportRegions, ha.layout, ha.options]

omit [Platform π H] [Flash δ] in
lemma stateAfter_withoutSources (f : Run.Act π H δ η τ α) (r : Run π H δ η τ) :
    (stateAfter (Run.withoutSources f r)).processor =
      { (stateAfter (f (r.putProcessor { r.processor with sources := [] }))).processor with
        sources := r.processor.sources } := by
  rw [Run.withoutSources]
  dsimp only
  cases f (r.putProcessor { r.processor with sources := [] }) <;> rfl

lemma stateAfter_checkUpdate [Hash.Engine η] [Source τ] (b : Bytes) (a : Arena)
    (p : Processor π H δ η τ) :
    stateAfter (checkUpdate b a p) =
      (stateAfter (Run.withoutSources (Run.checkUpdate b a) (.start p))).processor := by
  rw [checkUpdate]
  cases Run.withoutSources (Run.checkUpdate b a) (.start p) <;> rfl

lemma Opens.withoutSources {f : Run.Act π H δ η τ α} {r : Run π H δ η τ}
    (h : Opens P Q r.processor
      (stateAfter (f (r.putProcessor { r.processor with sources := [] }))).processor) :
    Opens P Q r.processor (stateAfter (Run.withoutSources f r)).processor := by
  rw [stateAfter_withoutSources]
  exact h.trans_does ⟨[], .aside rfl rfl rfl rfl rfl rfl, fun _ h => by cases h⟩

/-- Nothing that lasts has changed outside some regions of the device. -/
structure Unaffected [Hash.Engine η] (exempt : List Region) (p q : Processor π H δ η τ) : Prop where
  vars : q.vars.platform = p.vars.platform
  bytes : ∀ i, (∀ r ∈ exempt, i < r.start ∨ r.stop ≤ i) →
    read i 1 q.store.device = read i 1 p.store.device
  nonVolatile : ∀ i (e : η), answer (Store.getVariable p.layout i ⟨q.store.device, e⟩) =
    answer (Store.getVariable p.layout i ⟨p.store.device, e⟩)

/-- The calls of a run are in its trace. Either all of them are preliminary and nothing else changes,
or the trace begins with what satisfies `Q`. -/
def Gated [Hash.Engine η] (exempt : List Region) (Q : List (Event H) → Prop)
    (p q : Processor π H δ η τ) : Prop :=
  ∃ es, Account es p q ∧ ((∀ e ∈ es, Preliminary exempt e) ∧ Unaffected exempt p q ∨
    ∃ fs gs, es = fs ++ gs ∧ Q fs)

variable [Hash.Engine η]

lemma unaffected_of_preliminary [Local δ] {exempt : List Region} {es : List (Event H)}
    (h : Account es p q) (hP : ∀ e ∈ es, Preliminary exempt e)
    (hl : p.layout.Valid p.store.device)
    (ha : ∀ r ∈ exempt, r.Apart p.layout.variableArea ∧ r.Apart p.layout.variableBackup) :
    Unaffected exempt p q := by
  have hr : Reach (fun m => ∃ r ∈ exempt, m.Inside r) p.store.device q.store.device :=
    h.device _ fun e he => hP _ he
  have hfit := hl.fits
  have hv {r : Region} (hf : p.layout.variableRecordLen ≤ r.size)
      (ha : ∀ x ∈ exempt, x.Apart r) : read r.start p.layout.variableRecordLen q.store.device =
        read r.start p.layout.variableRecordLen p.store.device := by
    apply hr.read_eq
    rintro m ⟨x, hx, hm⟩
    have hxr := ha x hx
    apply hm.spares
    simp only [Region.Apart, Region.stop] at hxr ⊢
    omega
  constructor
  · by_contra hn
    obtain ⟨id, value, he⟩ := h.vars hn
    exact hP _ he
  · intro i hi
    apply hr.read_eq
    rintro m ⟨r, hr, hm⟩
    have hir := hi r hr
    exact hm.spares (by omega)
  · exact Store.getVariable_congr
      (hv (Nat.le_trans hfit (Nat.min_le_left _ _)) fun r hr => (ha r hr).1)
      (hv (Nat.le_trans hfit (Nat.min_le_right _ _)) fun r hr => (ha r hr).2)

lemma Opens.gated [Local δ] {exempt : List Region} (h : Opens (Preliminary exempt) Q p q)
    (hl : p.layout.Valid p.store.device)
    (ha : ∀ r ∈ exempt, r.Apart p.layout.variableArea ∧ r.Apart p.layout.variableBackup) :
    Gated exempt Q p q := by
  obtain ⟨es, he, hP | hQ⟩ := h
  · exact ⟨es, he, .inl ⟨hP, unaffected_of_preliminary he hP hl ha⟩⟩
  · exact ⟨es, he, .inr hQ⟩

lemma opens_bootOrRecover {F : Hash.Algorithm → Bytes → Bytes} [Hash.Sound F η] [Source τ]
    {exempt : List Region} (c : Uuid) (a : Arena) (r : Run π H δ η τ)
    (hf : r.processor.layout.flags ∈ exempt) :
    Opens (Preliminary exempt)
      (Run.BootAuthorized F r.processor.layout c r.processor.store.device a) r.processor
      (stateAfter (match Run.withoutSources (Run.boot c a) r with
        | .ok () r => .ok () r
        | .error e r => .error e r.requestRecovery : EStateM.Result Error (Run π H δ η τ) Unit)).processor := by
  have hb : Opens (Preliminary exempt)
      (Run.BootAuthorized F r.processor.layout c r.processor.store.device a) r.processor
      (stateAfter (Run.withoutSources (Run.boot c a) r)).processor := by
    apply Opens.withoutSources
    have hm : ∀ e : Event H, Preliminary [] e → Preliminary exempt e :=
      fun _ => .mono (List.nil_subset exempt)
    have ho := Run.opens_boot (F := F) c a (r.putProcessor { r.processor with sources := [] })
    have ha : Account [] r.processor { r.processor with sources := [] } :=
      .aside rfl rfl rfl rfl rfl rfl
    exact .of_aside ha (ho.mono hm)
  revert hb
  cases Run.withoutSources (Run.boot c a) r with
  | ok u s => exact id
  | error e s =>
    intro hb
    refine hb.trans_does ((Run.acts_requestRecovery s).mono fun _ => .mono ?_)
    obtain ⟨es, ha, -⟩ := hb
    have hl : s.processor.layout = r.processor.layout := ha.layout
    rw [hl]
    simpa using hf

/-- An update and a boot have no effect but their report, and the request for recovery, unless they
begin with the authorizations of a decoded envelope whose digest is right. -/
theorem effects_authorized {F : Hash.Algorithm → Bytes → Bytes} [Local δ] [Hash.Sound F η] [Source τ]
    (p : Processor π H δ η τ) (hl : p.layout.validate p.store.device = .ok ()) (b : Bytes) (c : Uuid)
    (a : Arena) :
    Gated (reportRegions p) (Run.UpdateAuthorized F p.layout b) p (stateAfter (update b a p)) ∧
      Gated (p.layout.flags :: reportRegions p)
        (Run.BootAuthorized F p.layout c p.store.device a) p (stateAfter (boot c a p)) := by
  have hv := Layout.validate_eq_ok.mp hl
  obtain ⟨-, -, hrs, hfs⟩ := hv.parts_apart
  have hr : ∀ r ∈ reportRegions p, r.Apart p.layout.variableArea ∧ r.Apart p.layout.variableBackup := by
    intro r hr
    have hm := hrs r (mem_reports hr)
    exact ⟨hm _ (by simp), hm _ (by simp)⟩
  have hf : p.layout.flags.Apart p.layout.variableArea ∧
      p.layout.flags.Apart p.layout.variableBackup := by
    have hm := (List.pairwise_cons.mp hfs).1
    exact ⟨hm _ (by simp), hm _ (by simp)⟩
  constructor
  · refine Opens.gated (opens_reporting ?_ (List.Subset.refl _)) hv hr
    exact (Run.opens_update b a (.start p)).mono fun _ => .mono (List.nil_subset _)
  · refine Opens.gated (opens_reporting ?_ (List.subset_cons_self _ _)) hv
      (List.forall_mem_cons.mpr ⟨hf, hr⟩)
    exact opens_bootOrRecover c a (.start p) List.mem_cons_self

inductive Indifferent where
  | indifferent
deriving DecidableEq

instance : Platform Indifferent Unit := ⟨fun c => liftM c.byDefault⟩

def zeroClass : Slot := ⟨.zero, .appRoot, ⟨0, 128⟩, ⟨true, true, .disabled⟩⟩

def oneClass : Layout where
  manifests := [zeroClass]
  flags := ⟨128, 64⟩
  reports := [⟨192, 64⟩]
  variableArea := ⟨256, 64⟩
  variableBackup := ⟨320, 64⟩
  variableCount := 1
  candidate := ⟨384, 64⟩

def zeros (_ : Hash.Algorithm) (_ : Bytes) : Bytes := List.replicate digestLen 0

def plainEnvelope (n : UInt8) : Bytes :=
  let digest : Bytes := [0x82, 0x2f, 0x58, 0x20] ++ zeros .sha256 []
  let auth : Bytes := [0x81, 0x58, 0x24] ++ digest
  let type : Bytes := [0x4c, 0x6b] ++ Bytes.ofString "INSTLD_MFST"
  let component : Bytes := [0x82] ++ type ++ [0x50] ++ Uuid.zero.bytes
  let manifest : Bytes := [0xa3, 0x01, 0x01, 0x02, n, 0x05] ++ component
  [0xa2, 0x02, 0x58, 0x27] ++ auth ++ [0x03, 0x58, UInt8.ofNat manifest.length] ++ manifest

def blank : Processor Indifferent Unit Ram (Hash.Digester zeros) Payloads where
  layout := oneClass
  options := .usual
  platform := .indifferent
  store := ⟨Ram.ofBytes (Bytes.erased 448) 4 64, default⟩
  vars := ⟨⟨⟨0, 0, ⟨false, false⟩⟩, ⟨0, 0, ⟨false, false⟩⟩, ⟨0, 0, ⟨false, false⟩⟩⟩, [], []⟩
  digests := .ofEngines [default]
  sources := []
  trace := []

theorem effects_authorized_blank :
    oneClass.validate blank.store.device = .ok () ∧
      answer (update (plainEnvelope 7) (.ofSize 256) blank) = .ok () ∧
      Gated (reportRegions blank) (Run.UpdateAuthorized zeros oneClass (plainEnvelope 7)) blank
        (stateAfter (update (plainEnvelope 7) (.ofSize 256) blank)) ∧
      Gated (oneClass.flags :: reportRegions blank)
        (Run.BootAuthorized zeros oneClass .zero blank.store.device (.ofSize 256)) blank
        (stateAfter (boot .zero (.ofSize 256) blank)) := by
  have hl : oneClass.validate blank.store.device = .ok () := by decide +kernel
  have hu : answer (update (plainEnvelope 7) (.ofSize 256) blank) = .ok () := by decide +kernel
  exact ⟨hl, hu, effects_authorized blank hl (plainEnvelope 7) .zero (.ofSize 256)⟩

end Firmware.Processor
