import Firmware.Proofs.Processor.Balance
import Firmware.Proofs.Processor.Blindness
import Firmware.Proofs.Processor.Validation

namespace Firmware.Processor

open Flash Manifest Storage

variable {π H δ η τ α : Type}

def Begins [Platform π H] [Flash δ] (e : Event H) (p q : Processor π H δ η τ) : Prop :=
  ∃ es, Account (e :: es) p q

lemma Begins.trans_does [Platform π H] [Flash δ] {e : Event H} {P : Layout → Event H → Prop}
    {p q r : Processor π H δ η τ} (h : Begins e p q) (h' : Does P q r) : Begins e p r := by
  obtain ⟨es, ha⟩ := h
  obtain ⟨fs, hf, -⟩ := h'
  exact ⟨es ++ fs, ha.trans hf⟩

def withSources (sources : List τ) (p : Processor π H δ η τ) : Processor π H δ η τ := { p with sources }

namespace Run

def supply (sources : List τ) (r : Run π H δ η τ) : Run π H δ η τ :=
  r.putProcessor (r.processor.withSources sources)

variable {sources : List τ}

section Digests

variable [Hash.Engine η]

lemma commutes_openDigest (d : Digest) :
    Commutes (supply sources) (openDigest d : EStateM Failure (Run π H δ η τ) Unit) :=
  .bind (.onPart_of_eq (φ := supply sources) (fun _ => rfl) (fun _ _ => rfl) _) fun _ =>
    .modify fun _ => rfl

lemma closeDigest_supply (r : Run π H δ η τ) :
    closeDigest (supply sources r) = supply sources (closeDigest r) := by
  have hd : (supply sources r).digest = r.digest := rfl
  simp only [closeDigest, hd]
  cases r.digest <;> rfl

lemma commutes_withDigest (d : Option Digest) {f : Act π H δ η τ α} (hf : Commutes (supply sources) f) :
    Commutes (supply sources) (withDigest d f) := by
  -- Closing is the same with and without a digest, so that the case without one is part of the other.
  have hc : Commutes (supply sources) (withDigest none f) := by
    intro r
    unfold withDigest
    dsimp only
    rw [hf r]
    cases f r with
    | ok a s | error e s => simp only [relocate, closeDigest_supply]
  cases d with
  | none => exact hc
  | some d =>
    have hd : withDigest (some d) f =
        ((openDigest d).adaptExcept .platform >>= fun _ => withDigest none f) := rfl
    rw [hd]
    exact .bind (.adaptExcept (commutes_openDigest d)) fun _ => hc

end Digests

section Updates

variable [Platform π H] [Hash.Engine η]

lemma unaware_supply : Unaware fun r s : Run π H δ η τ => s = supply sources r where
  members r s h := by rw [h]; rfl
  selected r s h := by rw [h]; rfl
  config r s h := by rw [h]; rfl
  log r s e h := by rw [h]; rfl
  revise r s ms is h := by rw [h]; rfl
  layout r s h := by rw [h]; rfl
  store r s h := by rw [h]; rfl
  report r s f h := by rw [h]; rfl
  ask c cause _ := commutes_iff_respects.mp (commutes_call (φ := id) (ψ := fun _ => sources) c cause)
  call c cause := commutes_iff_respects.mp (commutes_call (φ := id) (ψ := fun _ => sources) c cause)
  manifestMatches e := by
    have hh (c : SinkCall) : Commutes (supply sources) ((hash c).adaptExcept .platform : Act π H δ η τ Unit) :=
      .adaptExcept (commutes_hash (φ := id) (ψ := fun _ => sources) c)
    exact commutes_iff_respects.mp (commutes_withDigest _ (.bind (hh _) fun _ => .bind (hh _) fun _ =>
      commutes_digestMatches (φ := id) (ψ := fun _ => sources)))

variable [Flash δ] [Source τ]

lemma commutes_checkUpdate (sources : List τ) (b : Bytes) (a : Arena) :
    Commutes (supply sources) (Run.checkUpdate b a : Act π H δ η τ Unit) :=
  commutes_iff_respects.mpr (.bind (unaware_supply.accept b a) fun _ =>
    unaware_supply.pass (fun _ _ h => respects_each unaware_supply.toBlind rfl h) _)

omit [Platform π H] [Flash δ] [Hash.Engine η] [Source τ] in
lemma withoutSources_run {f : Act π H δ η τ α} (hf : ∀ sources, Commutes (supply sources) f)
    (r : Run π H δ η τ) : withoutSources f r = f r := by
  have hr : f r = relocate (supply r.processor.sources) (f r) := hf r.processor.sources r
  have hn : f (supply [] r) = relocate (supply []) (f r) := hf [] r
  rw [supply, withSources] at hn
  rw [withoutSources, hr]
  dsimp only
  rw [hn]
  cases f r <;> rfl

lemma checkUpdate_run (b : Bytes) (a : Arena) (p : Processor π H δ η τ) :
    answer (Processor.checkUpdate b a p) = answer (Run.checkUpdate b a (.start p)) ∧
      stateAfter (Processor.checkUpdate b a p) = (stateAfter (Run.checkUpdate b a (.start p))).processor := by
  rw [Processor.checkUpdate, withoutSources_run fun sources => commutes_checkUpdate sources b a]
  cases Run.checkUpdate b a (.start p) <;> exact ⟨rfl, rfl⟩

variable {b : Bytes} {a : Arena} {r s : Run π H δ η τ}

lemma update_of_error {e : Error} (h : Run.checkUpdate b a r = .error e s) :
    Run.update b a r = .error e s := by
  simp only [Run.checkUpdate, Run.update, EStateM.bind_run] at h ⊢
  cases ha : accept b a r with
  | error x t =>
    rw [ha] at h
    exact h
  | ok x t =>
    rw [ha] at h
    dsimp only at h ⊢
    rw [h]

lemma begins_pass (k : Pass) (kinds : List SequenceKind) (r : Run π H δ η τ) :
    Begins (.passBegins k.mode) r.processor (stateAfter (pass k kinds r)).processor := by
  obtain ⟨es, ha, body, freed, -, -, rfl | rfl⟩ := balanced_pass k kinds r
  · exact ⟨_, ha⟩
  · exact ⟨_, ha⟩

lemma update_begins (h : Run.checkUpdate b a r = .ok () s) :
    Begins (.passBegins .execute) s.processor (stateAfter (Run.update b a r)).processor := by
  simp only [Run.checkUpdate, EStateM.bind_run] at h
  cases ha : accept b a r with
  | error x t =>
    rw [ha] at h
    cases h
  | ok x t =>
    obtain ⟨e, c⟩ := x
    rw [ha] at h
    have hp : pass (passOf e c .validate) updateKinds t = .ok () s := h
    have hu : Run.update b a r = (do
        pass (passOf e c .execute) updateKinds
        enter .commit
        within .platform do onDevice (installEnvelope (← get).layout c b)
        enter .done : Act π H δ η τ Unit) s :=
      (EStateM.bind_of_ok _ _ _ ha).trans (EStateM.bind_of_ok _ _ _ hp)
    have hi : Follows (Acts fun _ _ => True) (do
        enter .commit
        within .platform do onDevice (installEnvelope (← get).layout c b)
        enter .done : Act π H δ η τ Unit) :=
      .bind (along_enter _) fun _ => .bind (acts_install (fun _ _ => trivial) _ _) fun _ => along_enter _
    have hb := begins_pass (passOf e c .execute) updateKinds s
    rw [hu, EStateM.bind_run]
    cases he : pass (passOf e c .execute) updateKinds s with
    | error y u =>
      rw [he] at hb
      exact hb
    | ok v u =>
      rw [he] at hb
      exact hb.trans_does (hi u)

omit [Platform π H] [Hash.Engine η] [Source τ] in
lemma saveReport_run (r : Run π H δ η τ) : ∃ (d : δ) (ds : List Entry),
    (stateAfter (saveReport r)).processor =
      { r.processor with
        store := ⟨d, r.processor.store.engine⟩
        trace := r.processor.trace ++ .reported r.report :: ds.map .device } := by
  rw [stateAfter_saveReport, stateAfter_onDevice]
  let j : Journaled δ := stateAfter (Storage.saveReport r.processor.layout r.processor.options.reportSlot
    r.report.encode ⟨r.processor.store.device, []⟩)
  refine ⟨j.device, j.entries, ?_⟩
  simp only [Processor.log, List.append_assoc, List.singleton_append]
  rfl

end Updates

end Run

variable [Platform π H] [Flash δ]

/-- From `p`, a check has led to `q`, and an update with `sources` to `q'`. The update has done what the check
did, has saved a report and has ended the session. -/
structure Foretold (sources : List τ) (p q q' : Processor π H δ η τ) : Prop where
  trace : ∃ es r, ∃ ds : List Entry, q.trace = p.trace ++ es ∧ (∀ n, .note n ∉ es) ∧
    q'.trace = q.trace ++ .reported r :: ds.map .device
  layout : q'.layout = p.layout
  options : q'.options = p.options
  platform : q'.platform = q.platform
  digests : q'.digests = q.digests ∧ q'.digests.present = p.digests.present
  sources : q'.sources = sources
  vars : q'.vars = p.vars.endSession
  engine : q'.store.engine = p.store.engine
  bytes : ∀ i, (∀ x ∈ reportRegions p, i < x.start ∨ x.stop ≤ i) →
    read i 1 q'.store.device = read i 1 p.store.device

lemma foretold_finish [Local δ] {p : Processor π H δ η τ} {s : Run π H δ η τ} (hc : Consults p s.processor)
    (he : s.processor.digests.present = p.digests.present) (sources : List τ) (x : Except Error Unit) :
    Foretold sources p s.processor
      (stateAfter (Run.saveReport ((Run.supply sources s).finish x))).processor := by
  generalize ht : (Run.supply sources s).finish x = t
  have hr : reportRegions t.processor = reportRegions p := by
    rw [← reportRegions_of_does hc.does, ← ht]
    rfl
  have hd : t.processor.store.device = p.store.device := by
    rw [← hc.store, ← ht]
    rfl
  obtain ⟨es, ha, hes⟩ := hc.does
  obtain ⟨fs, hf, hfs⟩ := Run.acts_saveReport t
  obtain ⟨d, ds, hs⟩ := Run.saveReport_run t
  -- The check has left the device alone, and all that is changed after it lies within the report.
  have hreach : Reach (fun m => ∃ x ∈ reportRegions p, m.Inside x) p.store.device
      (stateAfter (Run.saveReport t)).processor.store.device := by
    rw [← hd, ← hr]
    exact hf.device _ fun e he => hfs _ he
  rw [hs] at hreach ⊢
  subst ht
  exact
    { trace := ⟨es, _, ds, ha.trace, fun n hn => hes _ hn, rfl⟩
      layout := ha.layout
      options := ha.options
      platform := rfl
      digests := ⟨rfl, he⟩
      sources := rfl
      vars := congrArg Variables.endSession hc.vars
      engine := by
        rw [← hc.store]
        rfl
      bytes := fun i hi => hreach.read_eq fun m ⟨y, hy, hm⟩ => hm.spares (by have := hi y hy; omega) }

variable [Hash.Engine η] [Source τ] {p : Processor π H δ η τ} {b : Bytes} {a : Arena}

lemma foretold_error [Local δ] {e : Error} (h : answer (checkUpdate b a p) = .error e) (sources : List τ) :
    answer (update b a (p.withSources sources)) = .error e ∧
      Foretold sources p (stateAfter (checkUpdate b a p)) (stateAfter (update b a (p.withSources sources))) := by
  obtain ⟨ha, hs⟩ := Run.checkUpdate_run b a p
  have hc := consults_checkUpdate b a p
  have he := (even_checkUpdate b a p).engines
  rw [ha] at h
  rw [hs] at hc he ⊢
  cases hr : Run.checkUpdate b a (.start p) with
  | ok u s =>
    rw [hr] at h
    cases h
  | error x s =>
    rw [hr] at h hc he
    cases h
    have hu : Run.update b a (.start (p.withSources sources)) = .error e (Run.supply sources s) := by
      apply Run.update_of_error
      exact (Run.commutes_checkUpdate sources b a (.start p)).trans (congrArg _ hr)
    refine ⟨?_, ?_⟩
    · rw [update, reporting, hu]
      rfl
    · rw [update, stateAfter_reporting, hu]
      exact foretold_finish hc he sources (.error e)

lemma begins_execute (h : answer (checkUpdate b a p) = .ok ()) (sources : List τ) :
    Begins (.passBegins .execute) ((stateAfter (checkUpdate b a p)).withSources sources)
      (stateAfter (update b a (p.withSources sources))) := by
  obtain ⟨ha, hs⟩ := Run.checkUpdate_run b a p
  rw [ha] at h
  rw [hs, update, stateAfter_reporting]
  cases hr : Run.checkUpdate b a (.start p) with
  | error e s =>
    rw [hr] at h
    cases h
  | ok u s =>
    have hc : Run.checkUpdate b a (.start (p.withSources sources)) = .ok () (Run.supply sources s) :=
      (Run.commutes_checkUpdate sources b a (.start p)).trans (congrArg _ hr)
    have hb := Run.update_begins hc
    exact (hb.trans_does (Run.acts_finish (P := fun _ => True) _ _)).trans_does (Run.acts_saveReport _)

/-- An update goes as a check has foretold it, whatever sources it has: where the check fails, the update does
the same and then nothing but saving a report and ending the session, and otherwise it goes on to execute. -/
theorem checkUpdate_predicts [Local δ] (p : Processor π H δ η τ) (b : Bytes) (a : Arena) (sources : List τ) :
    (∀ e, answer (checkUpdate b a p) = .error e →
      answer (update b a (p.withSources sources)) = .error e ∧
        Foretold sources p (stateAfter (checkUpdate b a p))
          (stateAfter (update b a (p.withSources sources)))) ∧
    (answer (checkUpdate b a p) = .ok () → Begins (.passBegins .execute)
      ((stateAfter (checkUpdate b a p)).withSources sources)
      (stateAfter (update b a (p.withSources sources)))) :=
  ⟨fun _ h => foretold_error h sources, fun h => begins_execute h sources⟩

theorem checkUpdate_predicts_guarded :
    let refused := installing [0x82, 0x17, 0x0f]
    let a := Arena.ofSize 256
    let p := guarded.withSources [⟨[]⟩]
    (answer (checkUpdate refused a guarded) = .error .denied ∧ answer (update refused a p) = .error .denied ∧
      Foretold [⟨[]⟩] guarded (stateAfter (checkUpdate refused a guarded)) (stateAfter (update refused a p))) ∧
    answer (checkUpdate (installing matching) a guarded) = .ok () ∧
      Begins (.passBegins .execute) ((stateAfter (checkUpdate (installing matching) a guarded)).withSources [⟨[]⟩])
        (stateAfter (update (installing matching) a p)) := by
  intro refused a p
  have he : answer (checkUpdate refused a guarded) = .error .denied := by decide +kernel
  have ho : answer (checkUpdate (installing matching) a guarded) = .ok () := by decide +kernel
  exact ⟨⟨he, (checkUpdate_predicts guarded refused a [⟨[]⟩]).1 _ he⟩, ho,
    (checkUpdate_predicts guarded (installing matching) a [⟨[]⟩]).2 ho⟩

end Firmware.Processor
