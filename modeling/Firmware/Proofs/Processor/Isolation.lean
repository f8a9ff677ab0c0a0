import Firmware.Proofs.Processor.Attribution
import Firmware.Proofs.Processor.Validation

/-!
What calls leave in the variables. An update and a boot end with all variables of the session at zero, so
that nothing that was in them gets to a later call. The other variables have what the pass that executes
wrote to them last, or what they had before.
-/

namespace Firmware.Processor

open Flash Hash Manifest Ram Storage

variable {π H τ : Type} [Platform π H] {F : Hash.Algorithm → Bytes → Bytes}
variable {p q : Processor π H Ram (Digester F) τ} {id : UInt32}

section Rest

omit [Platform π H] in
lemma Touches.of_consultation {xs : List Register} {l : Layout} {e : Event H} (he : Consultation e) :
    Touches xs l e := by
  cases e with
  | device e => exact he.elim
  | _ => trivial

lemma rests_of_spares {x : Register} (hx : x ≠ .values) (h : Spares (p.layout.home x) p q) : Rests p q := by
  refine rests_of_touches (X := [x]) (h.does.mono fun e he => ?_) (by simpa using hx.symm) h.vars
  exact he.elim .of_consultation (.of_preliminary (List.mem_singleton_self x))

lemma rests_of_consults (h : Consults p q) : Rests p q :=
  rests_of_spares (x := .flags) nofun (.of_consults h)

lemma rests_sources (p : Processor π H Ram (Digester F) τ) (sources : List τ) : Rests p { p with sources } :=
  rests_of_touches (X := []) ⟨[], .aside rfl rfl rfl rfl rfl rfl, fun _ h => absurd h List.not_mem_nil⟩
    List.not_mem_nil rfl

namespace Run

lemma rests_install (c : Uuid) (b : Bytes) : Follows (Along Rests) (within .platform do
    onDevice (installEnvelope (← get).layout c b) : Act π H Ram (Digester F) τ Unit) := by
  refine along_within fun p => rests_of_spares (x := .envelope c) nofun (.of_onDevice ?_ p)
  exact follows_onSlot fun r => Record.follows_save r b

lemma rests_saveReport : Follows (Along Rests) (saveReport : Act π H Ram (Digester F) τ Unit) := fun r =>
  rests_of_spares (x := .report r.processor.options.reportSlot) nofun
    (spares_saveReport r (List.Subset.refl _))

lemma rests_requestRecovery (r : Run π H Ram (Digester F) τ) : Along Rests r r.requestRecovery :=
  rests_of_spares (x := .flags) nofun (spares_requestRecovery r _ (List.mem_singleton_self _))

end Run

end Rest

section Sessions

omit [Platform π H] in
lemma stable_endSession (h : Stable p) : Stable { p with vars := p.vars.endSession } :=
  ⟨h.working, h.digests, h.places⟩

omit [Platform π H] in
lemma value_endSession (h : Stable p) (hid : p.vars.Lasts id) :
    Processor.value { p with vars := p.vars.endSession } id = p.value id := by
  rw [value_eq h, value_eq (stable_endSession h)]
  exact Variables.value_congr hid rfl (fun _ _ => rfl) fun _ _ => rfl

omit [Platform π H] in
lemma value_session (h : Stable p) {i : Nat} (hid : p.vars.home id = .ok (.session i)) :
    Processor.value { p with vars := p.vars.endSession } id = .ok 0 := by
  have hh : p.vars.endSession.home id = .ok (.session i) := hid
  rw [value_eq (stable_endSession h), Variables.value, hh, Except.ok_bind]
  simp only [Variables.endSession, List.getD_eq_getElem?_getD, List.getElem?_replicate]
  split <;> rfl

end Sessions

section Calls

open Run

variable [Source τ]

inductive Executing (p : Processor π H Ram (Digester F) τ) :
    Request τ → Pass → List SequenceKind → Run π H Ram (Digester F) τ → Prop
  | update {sources b a e c s t} : accept b a (.start { p with sources }) = .ok (e, c) s →
      pass (passOf e c .validate) updateKinds s = .ok () t →
      Executing p (.update sources b a) (passOf e c .execute) updateKinds t
  | boot {c a e s t} : acceptInstalled c a (.start { p with sources := [] }) = .ok e s →
      pass (passOf e c .validate) bootKinds s = .ok () t →
      Executing p (.boot c a) (passOf e c .execute) bootKinds t

/-- The pass of a call that executes writes nothing to a variable, which has what it had, or what it writes
last is what the variable has then. -/
def Accounted (p : Processor π H Ram (Digester F) τ) (c : Request τ) (id : UInt32)
    (x : Except Failure UInt32) : Prop :=
  (x = p.value id ∧ ∀ k kinds r b s, Executing p c k kinds r → ¬Writes k kinds r id b s) ∨
    ∃ k kinds r b s, Executing p c k kinds r ∧ LastWrite k kinds r id b s ∧ b.length = 4 ∧
      (∃ a, p.vars.access id = .ok a ∧ a.write = true) ∧ x = .ok (UInt32.ofNat (Bytes.toNatLe b))

lemma stable_pass (k : Pass) (kinds : List SequenceKind) (r : Run π H Ram (Digester F) τ)
    (h : Stable r.processor) : Stable (stateAfter (pass k kinds r)).processor ∧
      (stateAfter (pass k kinds r)).processor.vars.config = r.processor.vars.config := by
  obtain ⟨es, -, hc, hv⟩ := along_pass (permits_tells k.mode) kinds r
  exact ⟨(hv h).1, hc⟩

structure Passed (p : Processor π H Ram (Digester F) τ) (c : Request τ) (q : Processor π H Ram (Digester F) τ) :
    Prop where
  stable : Stable q
  config : q.vars.config = p.vars.config
  accounted : ∀ id, p.vars.Lasts id → Accounted p c id (q.value id)

lemma Passed.rests (h : Passed p c q) (hr : Rests q r) : Passed p c r :=
  ⟨hr.stable h.stable, (congrArg _ hr.vars).trans h.config,
    fun id hid => hr.value h.stable id ▸ h.accounted id hid⟩

variable {α : Type} {f : Act π H Ram (Digester F) τ α} {e : α → Envelope} {c : α → Uuid}
variable {g : α → Act π H Ram (Digester F) τ Unit} {kinds : List SequenceKind} {req : Request τ}
variable {r : Run π H Ram (Digester F) τ}

lemma Passed.of_rests (hp : Stable p) (hr : Rests p q) (hE : ∀ k kinds r, ¬Executing p req k kinds r) :
    Passed p req q :=
  ⟨hr.stable hp, congrArg _ hr.vars,
    fun id _ => .inl ⟨hr.value hp id, fun k kinds r _ _ h => absurd h (hE k kinds r)⟩⟩

lemma Passed.of_executing {k : Pass} (hp : Stable p) (hr : Rests p r.processor) (hk : k.mode = .execute)
    (hE : ∀ k' kinds' r', Executing p req k' kinds' r' ↔ k' = k ∧ kinds' = kinds ∧ r' = r) :
    Passed p req (stateAfter (pass k kinds r)).processor := by
  obtain ⟨hs, hc⟩ := stable_pass k kinds r (hr.stable hp)
  refine ⟨hs, hc.trans (congrArg _ hr.vars), fun id hid => ?_⟩
  rcases value_pass kinds hk (hr.stable hp) (hr.vars ▸ hid) with ⟨hv, hn⟩ | ⟨b, s, hw, hb, hg, hv⟩
  · refine .inl ⟨hv.trans (hr.value hp id), fun k' kinds' r' b s h => ?_⟩
    obtain ⟨rfl, rfl, rfl⟩ := (hE k' kinds' r').mp h
    exact hn b s
  · refine .inr ⟨k, kinds, r, b, s, (hE k kinds r).mpr ⟨rfl, rfl, rfl⟩, hw, hb, ?_, hv⟩
    rw [← hr.vars]
    exact hg

lemma passed_bind (hp : Stable p) (hr : Rests p (stateAfter (f r)).processor)
    (hE : ∀ x s, f r = .error x s → ∀ k kinds t, ¬Executing p req k kinds t)
    (hg : ∀ x s, f r = .ok x s → Passed p req (stateAfter (g x s)).processor) :
    Passed p req (stateAfter ((f >>= g) r)).processor := by
  rw [EStateM.bind_run]
  cases hs : f r with
  | ok x s => exact hg x s hs
  | error x s =>
    rw [hs] at hr
    exact .of_rests hp hr (hE x s hs)

lemma passed_of_passes (hp : Stable p) (hr : Rests p r.processor) (hf : Follows (Along Rests) f)
    (hg : ∀ x, Follows (Along Rests) (g x))
    (hE : ∀ k kinds' t, Executing p req k kinds' t ↔ ∃ x s, f r = .ok x s ∧
      pass (passOf (e x) (c x) .validate) kinds s = .ok () t ∧ k = passOf (e x) (c x) .execute ∧ kinds' = kinds) :
    Passed p req (stateAfter ((do
      let x ← f
      pass (passOf (e x) (c x) .validate) kinds
      pass (passOf (e x) (c x) .execute) kinds
      g x) r)).processor := by
  have hr := trans_of Rests hr (hf r)
  refine passed_bind hp hr (fun y s hs k kinds' t h => ?_) fun x s hs => ?_
  · obtain ⟨_, _, hx, -⟩ := (hE k kinds' t).mp h
    cases hs.symm.trans hx
  rw [hs] at hr
  have hr := trans_of Rests hr (rests_of_consults (consults_pass (e x) (c x) kinds s))
  refine passed_bind hp hr (fun y t ht k kinds' u h => ?_) fun _ t ht => ?_
  · obtain ⟨_, _, hx, hv, -⟩ := (hE k kinds' u).mp h
    cases hs.symm.trans hx
    cases ht.symm.trans hv
  rw [ht] at hr
  have hq : Passed p req (stateAfter (pass (passOf (e x) (c x) .execute) kinds t)).processor := by
    refine .of_executing hp hr rfl fun k kinds' u => (hE k kinds' u).trans ⟨?_, ?_⟩
    · rintro ⟨_, _, hx, hv, rfl, rfl⟩
      cases hs.symm.trans hx
      cases ht.symm.trans hv
      exact ⟨rfl, rfl, rfl⟩
    · rintro ⟨rfl, rfl, rfl⟩
      exact ⟨x, s, hs, ht, rfl, rfl⟩
  exact hq.rests (Follows.rest (R := Along Rests) (fun _ => hg x) t)

lemma passed_update (hp : Stable p) (sources : List τ) (b : Bytes) (a : Arena) :
    Passed p (.update sources b a) (stateAfter (Run.update b a (.start { p with sources }))).processor := by
  have hg (c : Uuid) : Follows (Along Rests) (do
      enter .commit
      within .platform do onDevice (installEnvelope (← get).layout c b)
      enter .done : Act π H Ram (Digester F) τ Unit) :=
    .bind (along_enter _) fun _ => .bind (rests_install c b) fun _ => along_enter _
  refine passed_of_passes (e := Prod.fst) (c := Prod.snd) hp (rests_sources p sources)
    ((consults_accept b a).mono fun _ _ => rests_of_consults) (fun x => hg x.2) fun k kinds t => ?_
  constructor
  · rintro (⟨ha, ht⟩ | _)
    exact ⟨_, _, ha, ht, rfl, rfl⟩
  · rintro ⟨⟨e, c⟩, s, ha, ht, rfl, rfl⟩
    exact .update ha ht

lemma passed_boot (hp : Stable p) (c : Uuid) (a : Arena) :
    Passed p (.boot c a) (stateAfter (bootOrRecover c a (.start p))).processor := by
  have hb : Passed p (.boot c a) (stateAfter (Run.boot c a (.start { p with sources := [] }))).processor := by
    rw [boot_eq]
    refine passed_of_passes (e := id) (c := fun _ => c) hp (rests_sources p [])
      ((consults_acceptInstalled c a).mono fun _ _ => rests_of_consults) (fun _ => along_enter _) fun k kinds t => ?_
    constructor
    · rintro (_ | ⟨ha, ht⟩)
      exact ⟨_, _, ha, ht, rfl, rfl⟩
    · rintro ⟨e, s, ha, ht, rfl, rfl⟩
      exact .boot ha ht
  have hw : Passed p (.boot c a) (stateAfter (withoutSources (Run.boot c a) (.start p))).processor := by
    rw [stateAfter_withoutSources]
    exact hb.rests (rests_sources _ _)
  rw [bootOrRecover]
  cases h : withoutSources (Run.boot c a) (.start p) with
  | ok u r =>
    rw [h] at hw
    exact hw
  | error e r =>
    rw [h] at hw
    exact hw.rests (rests_requestRecovery r)

lemma passed_reporting {f : Act π H Ram (Digester F) τ Unit} {p' : Processor π H Ram (Digester F) τ}
    (h : Passed p req (stateAfter (f (.start p'))).processor) :
    Passed p req (stateAfter (reporting f p')) ∧
      ∀ id i, p.vars.home id = .ok (.session i) → (stateAfter (reporting f p')).value id = .ok 0 := by
  let t := (stateAfter (f (.start p'))).processor
  let t' : Processor π H Ram (Digester F) τ := { t with vars := t.vars.endSession }
  have hs : Rests t' (stateAfter (reporting f p')) := by
    rw [stateAfter_reporting]
    exact rests_saveReport ((stateAfter (f (.start p'))).finish (answer (f (.start p'))))
  have ht : Passed p req t' := by
    refine ⟨stable_endSession h.stable, h.config, fun id hid => ?_⟩
    have hl : t.vars.Lasts id := (lasts_congr h.config).mpr hid
    exact value_endSession h.stable hl ▸ h.accounted id hid
  refine ⟨ht.rests hs, fun id i hi => ?_⟩
  have hh : t.vars.home id = .ok (.session i) := (Variables.home_congr h.config id).trans hi
  exact (hs.value ht.stable id).trans (value_session h.stable hh)

lemma passed_serve (hp : Stable p) (hc : ∀ b a, req ≠ .check b a) :
    Passed p req (serve p req) ∧ ∀ id i, p.vars.home id = .ok (.session i) → (serve p req).value id = .ok 0 := by
  cases req with
  | update sources b a => exact passed_reporting (passed_update hp sources b a)
  | check b a => exact absurd rfl (hc b a)
  | boot c a =>
    rw [serve, boot_reporting]
    exact passed_reporting (passed_boot hp c a)

lemma rests_check (p : Processor π H Ram (Digester F) τ) (b : Bytes) (a : Arena) :
    Rests p (serve p (.check b a)) :=
  rests_of_consults (consults_checkUpdate b a p)

lemma stable_serve (hp : Stable p) (req : Request τ) : Stable (serve p req) := by
  by_cases hc : ∃ b a, req = .check b a
  · obtain ⟨b, a, rfl⟩ := hc
    exact (rests_check p b a).stable hp
  · exact (passed_serve hp fun b a h => hc ⟨b, a, h⟩).1.stable

lemma stable_run (hp : Stable p) (reqs : List (Request τ)) : Stable (reqs.foldl serve p) := by
  induction reqs generalizing p with
  | nil => exact hp
  | cons req reqs ih => exact ih (stable_serve hp req)

lemma traced_update {sources : List τ} {b : Bytes} {a : Arena} {k : Pass}
    (h : Executing p (.update sources b a) k kinds r) :
    k.mode = .execute ∧
      (stateAfter (pass k kinds r)).processor.trace <+: (serve p (.update sources b a)).trace := by
  cases h with
  | @update _ _ _ e c s _ ha hv =>
    let g : Act π H Ram (Digester F) τ Unit := do
      enter .commit
      within .platform do onDevice (installEnvelope (← get).layout c b)
      enter .done
    have hu : Run.update b a (.start { p with sources }) =
        (pass (passOf e c .execute) updateKinds >>= fun _ => g) r := by
      rw [Run.update, EStateM.bind_run, ha]
      dsimp only
      rw [EStateM.bind_run, hv]
    have hg : Follows (Acts fun _ _ => True) g := by
      refine .bind (along_enter _) fun _ => .bind (along_within fun q => ?_) fun _ => along_enter _
      exact does_onDevice q (follows_onSlot fun r => Record.follows_save r b) fun _ _ => trivial
    have hr : (stateAfter (pass (passOf e c .execute) updateKinds r)).processor.trace <+:
        (stateAfter (Run.update b a (.start { p with sources }))).processor.trace := by
      rw [hu]
      exact (Follows.rest (R := Acts fun _ _ => True) (fun _ => hg) r).trace_grows
    exact ⟨rfl, hr.trans (outside_reporting (Run.update b a) _).trace_grows⟩

end Calls

section Overwriting

variable {δ η : Type} {g : List UInt32 → List UInt32}

/-- Runs something and leaves other values in the variables of the session. -/
def Run.overwriting (g : List UInt32 → List UInt32) (f : Run.Act π H δ η τ Unit) : Run.Act π H δ η τ Unit :=
  fun r => relocate (fun s => s.putProcessor { s.processor with
    vars := { s.processor.vars with session := g s.processor.vars.session } }) (f r)

variable [Flash δ]

omit [Platform π H] in
lemma reporting_overwriting (hg : ∀ xs, (g xs).length = xs.length) (f : Run.Act π H δ η τ Unit) :
    reporting (Run.overwriting g f) = reporting f := by
  have hf (s : Run π H δ η τ) (x : Except Error Unit) :
      Run.finish x (s.putProcessor { s.processor with
        vars := { s.processor.vars with session := g s.processor.vars.session } }) = s.finish x := by
    simp only [Run.finish, Run.putProcessor, Variables.endSession, hg]
  funext p
  simp only [reporting, Run.overwriting, answer_relocate, stateAfter_relocate, hf]

end Overwriting

/-- Between the calls of a run, nothing is left in the variables of the session: an update and a boot end
with all of them at zero, and whatever else they had left there would have made no difference to what they
answer and become. The other variables are as they were, or the pass of the call that executes has written
to them, which their range grants, and they have the last 4 bytes that it wrote. A check changes nothing.

The write unit has to divide the erase unit. Otherwise an accepted layout may have no room for a record of
the variables, and a command that fails for this may have written to one. -/
theorem variables_isolated [Source τ] {p : Processor π H Ram (Digester F) τ}
    (hl : p.layout.validate p.store.device = .ok ())
    (hu : p.store.device.writeUnit ∣ p.store.device.eraseUnit)
    (hf : ∀ k, p.store.device.faulty k = false)
    (hF : ∀ x, x.length = p.layout.variableCount.toNat → (F .sha256 x).length = digestLen)
    (hv : p.vars.config.platform.count.toNat ≤ p.vars.platform.length) (before : List (Request τ)) :
    let q := before.foldl serve p
    (∀ c, (∀ b a, c ≠ .check b a) →
      (∀ id i, q.vars.home id = .ok (.session i) → (serve q c).value id = .ok 0) ∧
      ∀ id, q.vars.Lasts id → Accounted q c id ((serve q c).value id)) ∧
    (∀ b a, (serve q (.check b a)).vars = q.vars ∧ ∀ id, (serve q (.check b a)).value id = q.value id) ∧
    ∀ g : List UInt32 → List UInt32, (∀ xs, (g xs).length = xs.length) → ∀ b c a,
      reporting (Run.overwriting g (Run.update b a)) q = update b a q ∧
      reporting (Run.overwriting g (Run.bootOrRecover c a)) q = boot c a q := by
  intro q
  have hp : Stable q := stable_run ⟨⟨⟨Layout.validate_eq_ok.mp hl, hu⟩, hf⟩, hF, hv⟩ before
  refine ⟨fun c hc => ?_, fun b a => ?_, fun g hg b c a => ⟨?_, ?_⟩⟩
  · obtain ⟨hq, hs⟩ := passed_serve hp hc
    exact ⟨hs, hq.accounted⟩
  · have hr := rests_check q b a
    exact ⟨hr.vars, hr.value hp⟩
  · rw [reporting_overwriting hg]
    rfl
  · rw [reporting_overwriting hg, boot_reporting]

def keeping : Processor Guard Unit Ram (Digester zeros) Payloads :=
  let access : Access := ⟨true, true⟩
  { guarded with vars := ⟨⟨⟨0, 1, access⟩, ⟨1, 1, access⟩, ⟨2, 0, access⟩⟩, [0], [0]⟩ }

/-- An envelope with two variables that writes `b` to both. It is too long for the slot of its class. -/
def writing (b : Bytes) : Bytes :=
  let wrap := fun (b : Bytes) => Cbor.encodeHead 2 (UInt32.ofNat b.length) ++ b
  let type := fun (t : ComponentType) =>
    wrap (Cbor.encodeHead 3 (UInt32.ofNat t.name.length) ++ Bytes.ofString t.name)
  let component := fun (t : ComponentType) (b : Bytes) => [0x82] ++ type t ++ wrap b
  let common : Bytes := [0xa1, 0x02, 0x82] ++ component .manifestVariable [0] ++ component .manifestVariable [1]
  let install : Bytes := [0x86, 0x0c, 0xf5, 0x14, 0xa1, 0x12] ++ wrap b ++ [0x12, 0x0f]
  let manifest : Bytes := [0xa5, 0x01, 0x01, 0x02, 0x01, 0x03] ++ wrap common ++ [0x05] ++
    component .installedManifest Uuid.zero.bytes ++ [0x11] ++ wrap install
  [0xa2, 0x02] ++ wrap ([0x81] ++ wrap ([0x82, 0x2f] ++ wrap (zeros .sha256 []))) ++ [0x03] ++ wrap manifest

theorem variables_isolated_writing :
    let c : Request Payloads := .update [] (writing [5, 0, 0, 0]) (.ofSize 256)
    let q := serve keeping c
    answer (update (writing [5, 0, 0, 0]) (.ofSize 256) keeping) = .error (.platform .size) ∧
      q.value 1 = .ok 0 ∧ q.value 0 = .ok 5 ∧ ∃ k kinds r b s, Executing keeping c k kinds r ∧
        Run.LastWrite k kinds r 0 b s ∧ b.length = 4 ∧ UInt32.ofNat (Bytes.toNatLe b) = 5 := by
  intro c q
  have hx : answer (update (writing [5, 0, 0, 0]) (.ofSize 256) keeping) = .error (.platform .size) := by
    decide +kernel
  have hv : q.value 0 = .ok 5 := by decide +kernel
  have hv₀ : keeping.value 0 = .ok 0 := by decide +kernel
  obtain ⟨h, -, -⟩ := variables_isolated (p := keeping) (by decide +kernel) (by decide) (fun _ => rfl)
    (fun _ _ => rfl) (by decide) []
  obtain ⟨hs, hl⟩ := h c nofun
  have h₁ : keeping.vars.home 1 = .ok (.session 0) := by decide
  have h₀ : keeping.vars.home 0 = .ok (.platform 0) := by decide
  have hn : keeping.vars.Lasts 0 := fun i hi => by cases h₀.symm.trans hi
  refine ⟨hx, hs 1 0 h₁, hv, ?_⟩
  rcases hl 0 hn with ⟨h, -⟩ | ⟨k, kinds, r, b, s, hr, hw, hb, -, h⟩
  · cases hv₀.symm.trans (h.symm.trans hv)
  · exact ⟨k, kinds, r, b, s, hr, hw, hb, Except.ok.inj (h.symm.trans hv)⟩

/-- The backup of the variables ends between two write units of 4 bytes, so that it has no room for the end
of a record. -/
def uneven : Layout where
  manifests := [⟨.zero, .appRoot, ⟨0, 60⟩, ⟨true, true, .disabled⟩⟩]
  flags := ⟨60, 12⟩
  reports := [⟨72, 60⟩]
  variableArea := ⟨180, 48⟩
  variableBackup := ⟨228, 42⟩
  variableCount := 5
  candidate := ⟨132, 48⟩

def mirroring : Processor Guard Unit Ram (Digester zeros) Payloads :=
  let copy := Layout.recordOf zeros (List.replicate 5 0)
  let b := Bytes.erased 180 ++ filled copy 48 ++ filled copy 48
  let access : Access := ⟨true, true⟩
  { guarded with
    layout := uneven
    store := stateAfter (Store.init uneven ⟨Ram.ofBytes b 4 6, default⟩)
    vars := ⟨⟨⟨5, 0, access⟩, ⟨6, 0, access⟩, ⟨0, 5, access⟩⟩, [], []⟩ }

/-- A command that writes a variable fails, since its backup has no room, and the variable has changed. -/
theorem refused_write_lasts :
    let c : Request Payloads := .update [] (writing [5, 0, 0, 0]) (.ofSize 256)
    answer (Store.init uneven mirroring.store) = .ok .intact ∧
      answer (update (writing [5, 0, 0, 0]) (.ofSize 256) mirroring) = .error (.platform .size) ∧
      mirroring.vars.Lasts 0 ∧ ¬Accounted mirroring c 0 ((serve mirroring c).value 0) := by
  intro c
  have hv₀ : mirroring.value 0 = .ok 0 := by decide +kernel
  have hv : (serve mirroring c).value 0 = .ok 5 := by decide +kernel
  have hn : lastSet 0 (serve mirroring c).trace = none := by decide +kernel
  have h₀ : mirroring.vars.home 0 = .ok (.nonVolatile 0) := by decide
  have hl : mirroring.vars.Lasts 0 := fun i hi => by cases h₀.symm.trans hi
  refine ⟨by decide +kernel, by decide +kernel, hl, ?_⟩
  rintro (⟨h, -⟩ | ⟨k, kinds, r, b, s, hr, ⟨hw, -⟩, -⟩)
  · cases hv.symm.trans (h.trans hv₀)
  · obtain ⟨hk, ht⟩ := traced_update hr
    obtain ⟨fs, hs, -, hp⟩ := hw.traced hk
    have hp := hp.trans ht
    rw [hs] at hp
    refine lastSet_eq_none.mp hn (UInt32.ofNat (Bytes.toNatLe b)) (hp.subset ?_)
    exact List.mem_append_right _ (List.mem_singleton_self _)

end Firmware.Processor
