import Firmware.Proofs.Processor.Balance
import Firmware.Proofs.Processor.Reports
import Firmware.Proofs.Processor.Rollback
import Firmware.Proofs.Storage.Healthy

namespace Firmware.Storage

open Flash

section Mirrors

variable {δ : Type} [Flash δ] (l : Layout)

lemma Record.mirrors_clear (r : Region) :
    Mirrors Journaled.device (clear r : EStateM Failure (Journaled δ) Unit) (clear r) :=
  .get_bind fun j => .bind (.discard (.lift (checkRegion r j))) fun _ =>
    .adaptExcept (Journaled.mirrors_record _ _) _

lemma mirrors_setFlag (f : Flag) :
    Mirrors Journaled.device (setFlag l f : EStateM Failure (Journaled δ) Unit) (setFlag l f) := by
  have hw : Mirrors Journaled.device (writeFlag l (some f) : EStateM Failure (Journaled δ) Unit)
      (writeFlag l (some f)) :=
    .bind (Record.mirrors_clear _) fun _ => mirrors_writing l.flags
      (.bind (Writer.mirrors_write _) fun _ => Writer.mirrors_flush)
  exact .get_bind fun j => .bind (.lift (currentFlag l j)) fun _ => .ite (.pure _) hw

lemma mirrors_saveReport (i : Nat) (b : Bytes) :
    Mirrors Journaled.device (saveReport l i b : EStateM Failure (Journaled δ) Unit)
      (saveReport l i b) :=
  .bind (.lift _) fun r => Record.mirrors_write r .binary [b]

end Mirrors

end Firmware.Storage

namespace Firmware.Processor

open Flash Manifest Storage Ram

variable {π H η τ : Type} [Platform π H] {l : Layout} {xs : List Register} {e : Event H}

section Homes

def Touches (xs : List Register) (l : Layout) : Event H → Prop
  | .device e => ∃ x ∈ xs, l.At x e.mutation
  | _ => True

omit [Platform π H] in
lemma Touches.of_preliminary {x : Register} (hx : x ∈ xs) (he : Preliminary (l.home x) e) :
    Touches xs l e := by
  cases e with
  | device e => exact ⟨x, hx, he⟩
  | _ => trivial

omit [Platform π H] in
lemma Touches.of_permitted {m : Mode} (hx : .values ∈ xs) (he : Permitted m l e) : Touches xs l e := by
  cases e with
  | device e => exact ⟨.values, hx, Layout.at_values.mpr he.2⟩
  | _ => trivial

omit [Platform π H] in
lemma Touches.mono {ys : List Register} (hs : xs ⊆ ys) (he : Touches xs l e) : Touches ys l e := by
  cases e with
  | device e =>
    obtain ⟨x, hx, he⟩ := he
    exact ⟨x, hs hx, he⟩
  | _ => trivial

variable {p q : Processor π H Ram η τ} {x : Register} {r : Region}

lemma image_of_touches (h : Does (Touches xs) p q) (hp : p.layout.Valid p.store.device)
    (hr : (x, r) ∈ p.layout.plan) (hx : x ∉ xs) :
    image r q.store.device = image r p.store.device := by
  refine image_of_does (f := fun l => xs.flatMap l.home) (h.mono ?_) fun r' hr' => ?_
  · rintro e he d rfl
    obtain ⟨y, hy, r', hr', hd⟩ := he
    exact ⟨r', List.mem_flatMap.mpr ⟨y, hy, hr'⟩, hd⟩
  · obtain ⟨y, hy, hr'⟩ := List.mem_flatMap.mp hr'
    have hne : y ≠ x := fun h => hx (h ▸ hy)
    exact hp.plan_apart hne (Layout.mem_plan hr') hr

lemma working_of_does {P : Layout → Event H → Prop} (h : Does P p q)
    (hp : Working p.layout p.store.device) : Working q.layout q.store.device :=
  h.layout ▸ hp.of_alike (alike_of_does h)

end Homes

section Saving

variable {p q : Processor π H Ram η τ} {r : Run π H Ram η τ} {s : Region} {rep : Report}

omit [Platform π H] in
lemma Run.answer_saveReport (r : Run π H Ram η τ) :
    answer (saveReport r) = (answer (onDevice
      (Storage.saveReport r.processor.layout r.processor.options.reportSlot r.report.encode)
      (r.processor.log (.reported r.report)))).mapError .platform := by
  change answer (within .platform _ _) = _
  rw [within, answer_onPart, answer_adaptExcept]
  rfl

omit [Platform π H] in
lemma saveReport_saved (hw : Working r.processor.layout r.processor.store.device)
    (hs : r.processor.layout.report r.processor.options.reportSlot = .ok s) (hn : 36 ≤ s.size) :
    answer (Run.saveReport r) = .ok () ∧
      image s (stateAfter (Run.saveReport r)).processor.store.device =
        filled (Record.bytes .binary [r.report.encode]) s.size := by
  have hc := hw.valid.checked s (Layout.mem_regions_of_home (Layout.mem_home_report.mpr hs))
  have hl : [r.report.encode].flatten.length = 32 := by simp [Report.len]
  have hh : Record.headLen = 4 := rfl
  rcases Record.write_healthy hc hw.faultless hw.units (by omega) .binary [r.report.encode] with
    ⟨-, d, hd, hi⟩ | ⟨hlt, -⟩
  · have hm := mirrors_saveReport (δ := Ram) r.processor.layout r.processor.options.reportSlot
      r.report.encode
    obtain ⟨ha, hx⟩ := onDevice_eq hm (r.processor.log (.reported r.report))
    have hr : Storage.saveReport r.processor.layout r.processor.options.reportSlot r.report.encode
        (r.processor.log (.reported r.report)).store.device = .ok () d := by
      rw [Storage.saveReport, hs]
      exact hd
    rw [hr] at ha hx
    rw [Run.answer_saveReport, Run.stateAfter_saveReport, ha, hx]
    exact ⟨rfl, hi⟩
  · omega

omit [Platform π H] in
lemma lastReport_answer (hs : q.layout.report q.options.reportSlot = .ok s)
    (hc : Record.Checked s q.store.device)
    (hi : image s q.store.device = filled (Record.bytes .binary [rep.encode]) s.size) (a : Arena) :
    answer (q.lastReport a) = .ok rep := by
  have hr := readReport_answer hs hc a
  rw [hi, bodyIn_filled, List.flatten_cons, List.flatten_nil, List.append_nil] at hr
  have hb := answer_eq_ok hr
  rw [lastReport, EStateM.bind_run, EStateM.adaptExcept_run, hb]
  dsimp only
  rw [filled, Report.decode_encode]
  rfl

omit [Platform π H] in
lemma answer_reporting_of_saved {δ : Type} [Flash δ] {f : Run.Act π H δ η τ Unit} {p : Processor π H δ η τ}
    (h : answer (Run.saveReport ((stateAfter (f (.start p))).finish (answer (f (.start p))))) = .ok ()) :
    answer (reporting f p) = answer (f (.start p)) := by
  unfold reporting
  dsimp only
  cases ha : answer (f (.start p)) with
  | error e => rfl
  | ok u =>
    rw [ha] at h
    have hs := answer_eq_ok h
    dsimp only
    rw [hs]
    rfl

lemma reporting_saved {f : Run.Act π H Ram η τ Unit} {P : Layout → Event H → Prop}
    (hd : Does P p (stateAfter (f (.start p))).processor) (hw : Working p.layout p.store.device)
    (hr : p.layout.report p.options.reportSlot = .ok s) (hn : 36 ≤ s.size) :
    answer (reporting f p) = answer (f (.start p)) ∧
      Does (Touches [.report p.options.reportSlot]) (stateAfter (f (.start p))).processor
        (stateAfter (reporting f p)) ∧
      ∀ a, answer ((stateAfter (reporting f p)).lastReport a) = .ok { (stateAfter (f (.start p))).report with
        outcome := .ofResult (answer (f (.start p))) } := by
  rw [stateAfter_reporting]
  have hsaved := answer_reporting_of_saved (f := f) (p := p)
  generalize ht : (stateAfter (f (.start p))).finish (answer (f (.start p))) = t at hsaved ⊢
  have hft : Does (Touches [.report p.options.reportSlot]) (stateAfter (f (.start p))).processor
      t.processor :=
    ht ▸ ⟨[], .aside rfl rfl rfl rfl rfl rfl, fun _ h => by cases h⟩
  have hwt : Working t.processor.layout t.processor.store.device :=
    working_of_does hft (working_of_does hd hw)
  have hlt : t.processor.layout = p.layout := ht ▸ hd.layout
  have hot : t.processor.options = p.options := by
    obtain ⟨es, ha, -⟩ := hd
    exact ht ▸ ha.options
  have hrt : t.processor.layout.report t.processor.options.reportSlot = .ok s := by rw [hlt, hot, hr]
  have hst : Does (Touches [.report p.options.reportSlot]) t.processor
      (stateAfter (Run.saveReport t)).processor := by
    refine (Run.acts_saveReport t).mono fun e he => ?_
    apply Touches.of_preliminary (List.mem_singleton_self _)
    rwa [reportRegions, hot] at he
  obtain ⟨hok, hi⟩ := saveReport_saved hwt hrt hn
  refine ⟨hsaved hok, trans_of (Does _) hft hst, fun a => ?_⟩
  have hc := (working_of_does hst hwt).valid.checked s
    (Layout.mem_regions_of_home (Layout.mem_home_report.mpr (hst.layout ▸ hrt)))
  obtain ⟨es, hs, -⟩ := hst
  refine (lastReport_answer ?_ hc hi a).trans (by rw [← ht]; rfl)
  rw [hs.layout, hs.options, hrt]

end Saving

section Completion

open Run

variable {δ : Type} [Flash δ] [Hash.Engine η] [Source τ] {c : Uuid} {a : Arena}

/-- Each sequence that there is has run to its end, behind those before it. -/
def Run.Pass.Completes (k : Pass) (kinds : List SequenceKind) (r : Run π H δ η τ) : Prop :=
  ∀ kind ∈ kinds, ∀ b, k.manifest.sequence? kind = some b →
    ∃ before after s t, kinds = before ++ kind :: after ∧ k.upTo before (k.begin r) = .ok () s ∧
      (do k.runShared; runSequence k Sequence.maxNesting b) (Pass.enter kind s) = .ok () t

lemma Run.completes_of_pass {k : Pass} {kinds : List SequenceKind} {r s : Run π H δ η τ}
    (h : pass k kinds r = .ok () s) : k.Completes kinds r := by
  intro kind hk b hb
  obtain ⟨before, after, rfl⟩ := List.append_of_mem hk
  rw [pass_run] at h
  cases hx : k.body (before ++ kind :: after) (k.begin r) with
  | error e u =>
    rw [hx] at h
    cases h
  | ok v u =>
    obtain ⟨_, r₁, ha, hx⟩ := EStateM.bind_eq_ok hx
    obtain ⟨_, r₂, hx, -⟩ := EStateM.bind_eq_ok hx
    obtain ⟨r₃, hbefore, hx⟩ := EStateM.forM_append_eq_ok hx
    obtain ⟨_, r₄, hkind, -⟩ := EStateM.bind_eq_ok hx
    rw [runKind_run hb] at hkind
    exact ⟨before, after, r₃, r₄, rfl, (EStateM.bind_of_ok _ _ _ ha).trans hbefore, hkind⟩

/-- The installed envelope of a class is accepted, and all its boot sequences run, first to validate
and then to execute. -/
def BootCompletes (c : Uuid) (a : Arena) (p : Processor π H δ η τ) : Prop :=
  ∃ (b : Bytes) (e : Envelope) (s t u : Run π H δ η τ),
    answer (installedEnvelope p.layout c p.store.device a) = .ok b ∧ Envelope.parse b = .ok e ∧
    acceptInstalled c a (.start { p with sources := [] }) = .ok e s ∧
    pass (passOf e c .validate) bootKinds s = .ok () t ∧
    pass (passOf e c .execute) bootKinds t = .ok () u ∧
    (passOf e c .validate).Completes bootKinds s ∧ (passOf e c .execute).Completes bootKinds t

omit [Source τ] in
lemma Run.acceptInstalled_eq_ok {e : Envelope} {r s : Run π H δ η τ}
    (h : acceptInstalled c a r = .ok e s) :
    ∃ b, answer (installedEnvelope r.processor.layout c r.processor.store.device a) = .ok b ∧
      Envelope.parse b = .ok e := by
  obtain ⟨_, r₁, h₁, h⟩ := EStateM.bind_eq_ok h
  cases h₁
  obtain ⟨x, r₂, h₂, h⟩ := EStateM.bind_eq_ok h
  obtain ⟨b, r₃, h₃, h⟩ := EStateM.bind_eq_ok h
  obtain ⟨e', r₄, h₄, h⟩ := EStateM.bind_eq_ok h
  have hr : r₂.processor = r.processor := by
    rw [slot_run] at h₂
    split at h₂ <;> cases h₂
    rfl
  have he : e' = e := by
    dsimp only at h
    split at h
    · obtain ⟨_, r₅, -, h⟩ := EStateM.bind_eq_ok h
      obtain ⟨_, r₆, -, h⟩ := EStateM.bind_eq_ok h
      cases h
      rfl
    · cases h
  exact ⟨b, hr ▸ installed_eq_ok h₃, he ▸ decode_eq_ok h₄⟩

lemma bootCompletes_of_boot {p : Processor π H δ η τ}
    (h : answer ((Run.boot c a : Act π H δ η τ Unit) (.start { p with sources := [] })) = .ok ()) :
    BootCompletes c a p := by
  have h := answer_eq_ok h
  rw [boot_eq] at h
  obtain ⟨e, s, hs, h⟩ := EStateM.bind_eq_ok h
  obtain ⟨_, t, ht, h⟩ := EStateM.bind_eq_ok h
  obtain ⟨_, u, hu, -⟩ := EStateM.bind_eq_ok h
  obtain ⟨b, hb, he⟩ := acceptInstalled_eq_ok hs
  exact ⟨b, e, s, t, u, hb, he, hs, ht, hu, completes_of_pass ht, completes_of_pass hu⟩

def Run.bootOrRecover (c : Uuid) (a : Arena) : Act π H δ η τ Unit := fun r =>
  match (withoutSources (Run.boot c a)) r with
  | .ok () r => .ok () r
  | .error e r => .error e r.requestRecovery

lemma boot_reporting (c : Uuid) (a : Arena) (p : Processor π H δ η τ) :
    boot c a p = reporting (bootOrRecover c a) p := by
  rw [boot]
  congr 1
  funext r
  rw [bootOrRecover]
  cases withoutSources (Run.boot c a) r <;> rfl

end Completion

section Boots

open Run

variable [Hash.Engine η] [Source τ] {p : Processor π H Ram η τ} {c : Uuid} {a : Arena}

omit [Platform π H] [Hash.Engine η] [Source τ] in
lemma Run.answer_withoutSources (f : Act π H Ram η τ Unit) (r : Run π H Ram η τ) :
    answer (withoutSources f r) = answer (f (r.putProcessor { r.processor with sources := [] })) := by
  rw [withoutSources]
  dsimp only
  cases f (r.putProcessor { r.processor with sources := [] }) <;> rfl

lemma bootOrRecover_cases (hw : Working p.layout p.store.device) {f : Option Flag}
    (hf : decodeCell ((image p.layout.flags p.store.device).take flagLen) = .ok f) :
    (∃ e r, bootOrRecover c a (.start p) = .error e r ∧ Does (Touches [.values, .flags]) p r.processor ∧
        decodeCell ((image p.layout.flags r.processor.store.device).take flagLen) = .ok (some .recovery)) ∨
      ∃ r, bootOrRecover c a (.start p) = .ok () r ∧ Does (Touches [.values]) p r.processor ∧
        BootCompletes c a p := by
  have hb : Acts (Touches [.values]) (.start p)
      (stateAfter (withoutSources (Run.boot c a) (.start p))) := by
    refine acts_withoutSources (acts_boot (fun l e he => ?_) (fun m l e he => ?_) c a) _
    · exact .of_preliminary (x := .values) (List.mem_singleton_self _) (he.mono (List.nil_subset _))
    · exact .of_permitted (List.mem_singleton_self _) he
  have ha := answer_withoutSources (Run.boot c a) (.start p)
  simp only [bootOrRecover]
  cases hx : withoutSources (Run.boot c a) (.start p) with
  | ok u r =>
    rw [hx] at hb ha
    exact .inr ⟨r, rfl, hb, bootCompletes_of_boot ha.symm⟩
  | error e r =>
    rw [hx] at hb
    change Does (Touches [.values]) p r.processor at hb
    refine .inl ⟨e, r.requestRecovery, rfl, ?_, ?_⟩
    · refine trans_of (Does _) (hb.mono fun e => .mono (by simp)) ?_
      exact (acts_requestRecovery r).mono fun e he => .of_preliminary (x := .flags) (by simp) he
    · have hi := image_of_touches hb hw.valid (x := .flags)
        (Layout.mem_plan (List.mem_singleton_self _)) (by simp)
      have hl := hb.layout
      obtain ⟨d, hd, hs⟩ := setFlag_healthy (working_of_does hb hw) (c := f)
        (by rw [hl, hi]; exact hf) .recovery
      obtain ⟨-, hq⟩ := onDevice_eq (mirrors_setFlag r.processor.layout .recovery) r.processor
      rw [hd, stateAfter_ok] at hq
      rw [hl] at hs
      rw [requestRecovery]
      dsimp only [putProcessor]
      rw [hq, hs]

omit [Hash.Engine η] [Source τ] in
lemma images_of_touches {q : Processor π H Ram η τ} {i : Nat}
    (h : Does (Touches [.values, .flags, .report i]) p q) (hp : p.layout.Valid p.store.device) :
    (∀ s ∈ p.layout.manifests, image s.region q.store.device = image s.region p.store.device) ∧
    (∀ j s, j ≠ i → p.layout.report j = .ok s → image s q.store.device = image s p.store.device) ∧
    image p.layout.candidate q.store.device = image p.layout.candidate p.store.device := by
  refine ⟨fun s hs => ?_, fun j s hj hs => ?_, ?_⟩
  · exact image_of_touches h hp (Layout.envelope_mem_plan hs) (by simp)
  · exact image_of_touches h hp (Layout.mem_plan (Layout.mem_home_report.mpr hs)) (by simp [hj])
  · exact image_of_touches h hp (x := .candidate) (Layout.mem_plan (List.mem_singleton_self _)) (by simp)

lemma boot_reported (hw : Working p.layout p.store.device) {r : Region}
    (hr : p.layout.report p.options.reportSlot = .ok r) (hn : 36 ≤ r.size)
    {y : EStateM.Result Error (Run π H Ram η τ) Unit} (hy : bootOrRecover c a (.start p) = y)
    (hd : Does (Touches [.values, .flags]) p (stateAfter y).processor) :
    let x := boot c a p
    let q := stateAfter x
    answer x = answer y ∧ Does (Touches [.values, .flags, .report p.options.reportSlot]) p q ∧
      image p.layout.flags q.store.device = image p.layout.flags (stateAfter y).processor.store.device ∧
      ∀ a', ∃ rep, answer (q.lastReport a') = .ok rep ∧ (rep.outcome = .success ↔ answer x = .ok ()) := by
  intro x q
  subst hy
  obtain ⟨ha, hs, hrep⟩ := reporting_saved hd hw hr hn
  rw [← boot_reporting] at ha hs hrep
  refine ⟨ha, ?_, ?_, fun a' => ⟨_, hrep a', ?_⟩⟩
  · exact trans_of (Does _) (hd.mono fun _ => .mono (by simp)) (hs.mono fun _ => .mono (by simp))
  · refine image_of_touches hs (valid_of_does hd hw.valid) (x := .flags) ?_ (by simp)
    rw [hd.layout]
    exact Layout.mem_plan (List.mem_singleton_self _)
  · rw [← ha, Outcome.ofResult_eq_success]
    exact ⟨fun ⟨_, h⟩ => h, fun h => ⟨_, h⟩⟩

/-- If a boot fails for any reason, the next one is into recovery, and if it does not, it has run all
its sequences in both modes. Either way its report says so, and slots, the other reports and the update
candidate are as they were. -/
theorem boot_requests_recovery (hl : p.layout.validate p.store.device = .ok ())
    (hu : p.store.device.writeUnit ∣ p.store.device.eraseUnit)
    (hf : ∀ k, p.store.device.faulty k = false) {r : Region}
    (hr : p.layout.report p.options.reportSlot = .ok r) (hn : 36 ≤ r.size)
    (hc : (image p.layout.flags p.store.device).take flagLen = Bytes.erased flagLen ∨
      ∃ f : Flag, (image p.layout.flags p.store.device).take flagLen =
        Bytes.le32 (Coded.code Magic.flag) ++ Bytes.le32 (Coded.code f)) (c : Uuid) (a : Arena) :
    let x := boot c a p
    let q := stateAfter x
    ((∃ e, answer x = .error e) → checkFlag p.layout .recovery q.store.device = .ok () ∧
      checkFlag p.layout .foregroundDfu q.store.device = .error .notFound) ∧
    (answer x = .ok () → BootCompletes c a p ∧
      image p.layout.flags q.store.device = image p.layout.flags p.store.device) ∧
    (∀ s ∈ p.layout.manifests, image s.region q.store.device = image s.region p.store.device) ∧
    (∀ i s, i ≠ p.options.reportSlot → p.layout.report i = .ok s →
      image s q.store.device = image s p.store.device) ∧
    image p.layout.candidate q.store.device = image p.layout.candidate p.store.device ∧
    ∀ a', ∃ rep, answer (q.lastReport a') = .ok rep ∧ (rep.outcome = .success ↔ answer x = .ok ()) := by
  intro x q
  have hw : Working p.layout p.store.device := ⟨⟨Layout.validate_eq_ok.mp hl, hu⟩, hf⟩
  obtain ⟨f, hcell⟩ := decodeCell_known hc
  rcases bootOrRecover_cases (c := c) (a := a) hw hcell with ⟨e, r', hy, hd, hflag⟩ | ⟨r', hy, hd, hall⟩
  · obtain ⟨ha, hq, hi, hrep⟩ := boot_reported hw hr hn hy hd
    obtain ⟨hm, hreps, hcand⟩ := images_of_touches hq hw.valid
    have hwq : Working p.layout q.store.device := hq.layout ▸ working_of_does hq hw
    have hcell : decodeCell ((image p.layout.flags q.store.device).take flagLen) =
        .ok (some .recovery) := by
      rw [hi]
      exact hflag
    refine ⟨fun _ => ⟨?_, ?_⟩, fun h => (by cases ha.symm.trans h), hm, hreps, hcand, hrep⟩
    · rw [checkFlag_run hwq.valid hcell]
      rfl
    · rw [checkFlag_run hwq.valid hcell]
      rfl
  · obtain ⟨ha, hq, hi, hrep⟩ := boot_reported hw hr hn hy (hd.mono fun _ => .mono (by simp))
    obtain ⟨hm, hreps, hcand⟩ := images_of_touches hq hw.valid
    have hi₀ := image_of_touches hd hw.valid (x := .flags)
      (Layout.mem_plan (List.mem_singleton_self _)) (by simp)
    exact ⟨fun ⟨e, h⟩ => (by cases ha.symm.trans h), fun _ => ⟨hall, hi.trans hi₀⟩, hm, hreps, hcand, hrep⟩

end Boots

def stocked : Processor Indifferent Unit Ram (Hash.Digester zeros) Payloads :=
  let contents := filled (Record.bytes .binary [plainEnvelope 7]) 128 ++ Bytes.erased 320
  { blank with store := ⟨Ram.ofBytes contents 4 64, default⟩ }

theorem boot_requests_recovery_blank :
    let failed := boot .zero (.ofSize 256) blank
    let done := boot .zero (.ofSize 256) stocked
    (answer failed = .error (.platform .notFound) ∧
      checkFlag blank.layout .recovery (stateAfter failed).store.device = .ok () ∧
      checkFlag blank.layout .foregroundDfu (stateAfter failed).store.device = .error .notFound) ∧
    answer done = .ok () ∧ BootCompletes .zero (.ofSize 256) stocked ∧
      image stocked.layout.flags (stateAfter done).store.device = Bytes.erased 64 := by
  have hx : answer (boot .zero (.ofSize 256) blank) = .error (.platform .notFound) := by decide +kernel
  have hy : answer (boot .zero (.ofSize 256) stocked) = .ok () := by decide +kernel
  have hi₀ : image stocked.layout.flags stocked.store.device = Bytes.erased 64 := by decide +kernel
  have hr : oneClass.report 0 = .ok ⟨192, 64⟩ := rfl
  obtain ⟨hfail, -⟩ := boot_requests_recovery (p := blank) (by decide +kernel) (by decide) (fun _ => rfl) hr
    (by decide) (.inl (by decide +kernel)) .zero (.ofSize 256)
  obtain ⟨-, hok, -⟩ := boot_requests_recovery (p := stocked) (by decide +kernel) (by decide) (fun _ => rfl) hr
    (by decide) (.inl (by decide +kernel)) .zero (.ofSize 256)
  have he : ∃ e, answer (boot .zero (.ofSize 256) blank) = .error e := ⟨_, hx⟩
  obtain ⟨hall, hi⟩ := hok hy
  exact ⟨⟨hx, hfail he⟩, hy, hall, hi.trans hi₀⟩

end Firmware.Processor
