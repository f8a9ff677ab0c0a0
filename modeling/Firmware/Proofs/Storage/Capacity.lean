import Firmware.Proofs.Processor.Reports
import Firmware.Proofs.Storage.Registers
import Firmware.Proofs.Storage.Values

/-!
What a layout that was accepted can hold. A role is stored exactly if its region starts at a write unit and
has room for the record up to the end of its last unit. An accepted layout may have less.
-/

namespace Firmware.Storage

open Flash Ram Hash Layout Store

variable {l : Layout} {d d' : Ram} {r : Region}

lemma answer_write (h : Record.Checked r d) (hf : ∀ k, d.faulty k = false) {m : Magic} {parts : List Bytes} :
    answer (Record.write r m parts d) = .ok () ↔ Record.Takes r (Record.headLen + parts.flatten.length) d := by
  rw [← Record.length_bytes m]
  constructor
  · exact fun hx => (Record.write_eq_ok (answer_eq_ok hx)).1
  · intro ht
    obtain ⟨d', hd⟩ := Record.write_of_takes h hf ht
    rw [hd, answer_ok]

section Flags

lemma Layout.Valid.takes_flags (h : l.Valid d) : Record.Takes l.flags flagLen d ↔ d.writeUnit ∣ l.flags.start := by
  obtain ⟨n, hn, hs⟩ := (Option.any_eq_true _ _).mp h.flags
  obtain ⟨hl, -, hu⟩ := of_roundUp hn
  exact ⟨fun ht => ht.start, fun hs' => ⟨hs', n, hl, of_decide_eq_true hs, hu⟩⟩

lemma writeFlag_some (f : Flag) :
    writeFlag l (some f) = (do
      Record.clear l.flags
      writing l.flags do [cell (some f)].forM Writer.write; Writer.flush : EStateM Failure Ram Unit) := by
  simp [writeFlag, cell]

lemma writeFlag_cases (h : l.Valid d) (hf : ∀ k, d.faulty k = false) (f : Flag) :
    (answer (writeFlag l (some f) d) = .ok () ↔ d.writeUnit ∣ l.flags.start) ∧
      ∀ d', writeFlag l (some f) d = .ok () d' → image l.flags d' = filled (cell (some f)) l.flags.size := by
  obtain ⟨e, he, hi⟩ := Record.clear_healthy h.checked_flags hf
  have ha : d.Alike e := alike_of_reach ((Record.follows_clear l.flags).of_ok he)
  have hc := h.checked_flags.of_shaped ha.toShaped
  have hn : [cell (some f)].flatten ≠ [] := by simp [cell, Bytes.le32]
  have hl : [cell (some f)].flatten.length = flagLen := rfl
  have ht : Record.Takes l.flags flagLen e ↔ d.writeUnit ∣ l.flags.start := by
    rw [(h.of_shaped ha.toShaped).takes_flags, ha.writeUnit]
  rw [writeFlag_some, EStateM.bind_of_ok _ _ _ he, ← ht, ← hl]
  refine ⟨⟨fun hx => (Record.writing_eq_ok hc hi hn (answer_eq_ok hx)).1, fun ht => ?_⟩,
    fun d' hx => by simpa using (Record.writing_eq_ok hc hi hn hx).2⟩
  obtain ⟨d', hd⟩ := Record.writing_of_takes hc hi (fun k => ha.faulty ▸ hf k) ht
  rw [hd, answer_ok]

lemma setFlag_run (h : l.Valid d) {c : Option Flag} (hc : decodeCell ((image l.flags d).take flagLen) = .ok c)
    (f : Flag) : setFlag l f d = if c = some f then .ok () d else writeFlag l (some f) d := by
  rw [setFlag, EStateM.bind_run, EStateM.get_run]
  dsimp only
  rw [EStateM.bind_run, currentFlag_run h, hc]
  by_cases he : c = some f <;> simp [he]

end Flags

variable {H : Hash.Algorithm → Bytes → Bytes} {s t : Store Ram (Digester H)}

/-- A change succeeds exactly if `p`, and then the answer to a query is `v`. -/
structure Stored (l : Layout) (o : Change) (q : Query) (v : q.Answer) (p : Prop) (t : Store Ram (Digester H)) :
    Prop where
  succeeds : answer (o.run l t) = .ok () ↔ p
  found : answer (o.run l t) = .ok () → ∀ a, Roomy a → answer (q.run l (stateAfter (o.run l t), a)) = .ok v

section Roles

lemma stored_onDevice {o : Change} {q : Query} {v : q.Answer} {p : Prop} {f : EStateM Failure Ram Unit}
    (ho : o.run l t = onDevice f t) (hp : answer (f t.device) = .ok () ↔ p)
    (hq : ∀ d', f t.device = .ok () d' → ∀ a, Roomy a → answer (q.run l (⟨d', t.engine⟩, a)) = .ok v) :
    Stored l o q v p t := by
  have ha : answer (onDevice f t) = answer (f t.device) := answer_onPart ..
  refine ⟨by rw [ho, ha, hp], fun hx => ?_⟩
  rw [ho, ha] at hx
  have hd := answer_eq_ok hx
  rw [ho, onDevice_of_ok hd]
  exact hq _ hd

variable (h : l.Valid t.device) (hf : ∀ k, t.device.faulty k = false)
include h hf

lemma stored_flag {c : Option Flag} (hc : decodeCell ((image l.flags t.device).take flagLen) = .ok c) (f : Flag) :
    Stored l (.setFlag f) (.flag f) () (c = some f ∨ t.device.writeUnit ∣ l.flags.start) t := by
  obtain ⟨ho, hi⟩ := writeFlag_cases h hf f
  have hr := setFlag_run h hc f
  refine stored_onDevice (f := setFlag l f) rfl ?_ fun d' hx a _ => ?_
  · rw [hr]
    split
    · simp [*]
    · simp [*]
  · have hg : decodeCell ((image l.flags d').take flagLen) = .ok (some f) := by
      rw [hr] at hx
      split at hx
      · cases hx
        rwa [‹c = some f›] at hc
      · rw [hi d' hx, decodeCell_cell h.flags_size]
    have ha : t.device.Alike d' := alike_of_reach ((follows_setFlag l f).of_ok hx)
    rw [Query.run, Query.answer_onArena, checkFlag_run (h.of_shaped ha.toShaped) hg, if_pos rfl]
    rfl

lemma stored_report {i : Nat} (hr : l.report i = .ok r) (b : Bytes) :
    Stored l (.saveReport i b) (.report i) (filled b (r.size - Record.headLen))
      (Record.Takes r (Record.headLen + b.length) t.device) t := by
  have hc := h.checked r (mem_regions_of_home (mem_home_report.mpr hr))
  have hs : saveReport l i b t.device = Record.write r .binary [b] t.device := by
    rw [saveReport, hr]
    rfl
  have hb : [b].flatten = b := List.append_nil b
  refine stored_onDevice (f := saveReport l i b) rfl ?_ fun d' hx a _ => ?_
  · rw [hs, answer_write hc hf, hb]
  · rw [hs] at hx
    have ha : t.device.Alike d' := alike_of_reach ((Record.follows_write r .binary [b]).of_ok hx)
    rw [Query.run, Query.answer_onArena, readReport_answer hr (hc.of_shaped ha.toShaped),
      (Record.write_eq_ok hx).2, bodyIn_filled, hb]
    rfl

lemma stored_candidate {rs : List Region} (h0 : rs ≠ []) (hm : rs.length ≤ maxCandidateRegions) :
    Stored l (.setCandidate rs) .candidate rs
      (Record.Takes l.candidate (Record.headLen + (4 + 8 * rs.length)) t.device) t := by
  have hs : setCandidate l rs t.device = Record.write l.candidate .binary (candidateParts rs) t.device := by
    rw [setCandidate_run, if_neg (by simpa using h0), if_pos hm]
  refine stored_onDevice (f := setCandidate l rs) rfl ?_ fun d' hx a ha => ?_
  · rw [hs, answer_write h.checked_candidate hf, length_candidateParts]
  · rw [hs] at hx
    have hd : t.device.Alike d' := alike_of_reach ((Record.follows_write l.candidate .binary _).of_ok hx)
    obtain ⟨⟨-, k, hk, hn, -⟩, hi⟩ := Record.write_eq_ok hx
    rw [Record.length_bytes] at hk
    rw [Query.run, Query.answer_onArena]
    exact candidate_filled (h.of_shaped hd.toShaped).checked_candidate h0 hm (by omega) hi ha

section Variables

variable (hd : ∀ x, x.length = l.variableCount.toNat → (H .sha256 x).length = digestLen)
include hd

omit h in
lemma answer_writeCopy {x : Bytes} (hx : x.length = l.variableCount.toNat) (hr : Record.Checked r t.device) :
    answer (writeCopy r ⟨x, H .sha256 x⟩ t) = .ok () ↔ Record.Takes r l.variableRecordLen t.device := by
  have hl : Record.headLen + [x, H .sha256 x].flatten.length = l.variableRecordLen := by
    simp [hx, hd x hx, variableRecordLen, Nat.add_assoc]
  rw [writeCopy, onDevice, answer_onPart, answer_write hr hf, hl]

lemma answer_commit {x : Bytes} (hx : x.length = l.variableCount.toNat) :
    answer (commit l x t) = .ok () ↔ Record.Takes l.variableArea l.variableRecordLen t.device ∧
      Record.Takes l.variableBackup l.variableRecordLen t.device := by
  have hm := answer_writeCopy (t := ⟨t.device, Digester.idle⟩) hf hd hx h.checked_area
  rw [commit_run, EStateM.bind_run, ← hm]
  cases hw : writeCopy l.variableArea ⟨x, H .sha256 x⟩ ⟨t.device, Digester.idle⟩ with
  | error e u => simp
  | ok _ u =>
    obtain ⟨ha, -⟩ := writeCopy_eq_ok (hd x hx) hx hw
    have hb := answer_writeCopy (t := u) (fun k => ha.faulty ▸ hf k) hd hx
      (h.of_shaped ha.toShaped).checked_backup
    rw [Record.takes_congr ha.toShaped] at hb
    simpa using hb

lemma stored_variable {x : Bytes} (hm : l.copy H l.variableArea t.device = some x) {i : Nat}
    (hi : i < l.variableCount.toNat) (v : UInt8) :
    Stored l (.setVariable i v) (.value i) v (x.getD i 0xff = v ∨
      Record.Takes l.variableArea l.variableRecordLen t.device ∧
        Record.Takes l.variableBackup l.variableRecordLen t.device) t := by
  have hx := length_of_copy h.checked_area h.area_fits hm
  obtain ⟨e, hr⟩ := setVariable_run h hm i v
  rw [if_pos hi] at hr
  have hl : (x.set i v).length = l.variableCount.toNat := by rw [List.length_set, hx]
  constructor
  · rw [Change.run, hr]
    split
    · rename_i hv
      simp only [answer_ok, hv, true_or]
    · simp only [*, false_or]
      exact answer_commit (t := ⟨t.device, e⟩) h hf hd hl
  · rw [Change.run]
    intro ho a _
    have hu := answer_eq_ok ho
    generalize stateAfter (setVariable l i v t) = u at hu ⊢
    rw [hr] at hu
    rw [Query.run, answer_onPart]
    dsimp only
    split at hu
    · rename_i hv
      cases hu
      rw [getVariable_answer (s := ⟨t.device, e⟩) h, stored_of_copy hm, if_pos hi, hv]
    · obtain ⟨ha, hc⟩ := commit_eq_ok (s := ⟨t.device, e⟩) hd h hl hu
      rw [getVariable_answer (h.of_shaped ha.toShaped), stored_of_copy hc.main, if_pos hi]
      simp [List.getD_eq_getElem?_getD, hx, hi]

lemma main_change (ht : Record.Takes l.variableArea l.variableRecordLen t.device ∧
      Record.Takes l.variableBackup l.variableRecordLen t.device)
    (hm : ∃ x, l.copy H l.variableArea t.device = some x) (o : Change) :
    ∃ x, l.copy H l.variableArea (stateAfter (o.run l t)).device = some x := by
  obtain ⟨x, hm⟩ := hm
  by_cases ho : o.register = .values
  · cases o with
    | setVariable i v =>
      obtain ⟨e, hr⟩ := setVariable_run h hm i v
      rw [Change.run, hr]
      split
      · split
        · exact ⟨x, hm⟩
        · have hx : (x.set i v).length = l.variableCount.toNat := by
            rw [List.length_set, length_of_copy h.checked_area h.area_fits hm]
          have hc := (answer_commit (t := ⟨t.device, e⟩) h hf hd hx).mpr ht
          exact ⟨_, (commit_eq_ok (s := ⟨t.device, e⟩) hd h hx (answer_eq_ok hc)).2.main⟩
      · exact ⟨x, hm⟩
    | _ => cases ho
  · refine ⟨x, ?_⟩
    have hi := h.image_of_at (o.follows_run t) (x := .values) (Ne.symm ho) List.mem_cons_self
    rw [copy, hi]
    exact hm

end Variables

end Roles

section Histories

lemma alike_run (steps : List Step) : s.device.Alike (steps.foldl (Step.onDevice l) s).device := by
  induction steps generalizing s with
  | nil => exact refl_of Alike _
  | cons a steps ih =>
    refine trans_of Alike ?_ ih
    cases a with
    | change o => exact alike_of_reach (o.follows_run s)
    | query q a =>
      have hd : (Step.onDevice l s (.query q a)).device = s.device := q.follows_run (s, a)
      rw [hd]
      exact refl_of Alike s.device

lemma main_run (hd : ∀ x, x.length = l.variableCount.toNat → (H .sha256 x).length = digestLen)
    (h : l.Valid s.device) (hf : ∀ k, s.device.faulty k = false)
    (ht : Record.Takes l.variableArea l.variableRecordLen s.device ∧
      Record.Takes l.variableBackup l.variableRecordLen s.device)
    (hm : ∃ x, l.copy H l.variableArea s.device = some x) (steps : List Step) :
    ∃ x, l.copy H l.variableArea (steps.foldl (Step.onDevice l) s).device = some x := by
  induction steps generalizing s with
  | nil => exact hm
  | cons a steps ih =>
    have ha : s.device.Alike (Step.onDevice l s a).device := alike_run [a]
    refine ih (h.of_shaped ha.toShaped) (fun k => ha.faulty ▸ hf k) ?_ ?_
    · simpa only [Record.takes_congr ha.toShaped] using ht
    · cases a with
      | change o => exact main_change h hf hd ht hm o
      | query q a =>
        have hq : (Step.onDevice l s (.query q a)).device = s.device := q.follows_run (s, a)
        rwa [hq]

end Histories

lemma Stored.congr {o : Change} {q : Query} {v : q.Answer} {p p' : Prop} (h : Stored l o q v p t) (hp : p ↔ p') :
    Stored l o q v p' t := ⟨h.succeeds.trans hp, h.found⟩

/-- After a start, and whatever was changed since, a flag, a variable, a report and a candidate are stored and
read back exactly if the region takes their record. A start does not ask for as much. Where erase units are made
of write units, flags and variables are always stored, and reports and candidates need only be small enough. -/
theorem accepted_stores {s₀ : Store Ram (Digester H)} {rep : Repair}
    (hd : ∀ x, x.length = l.variableCount.toNat → (H .sha256 x).length = digestLen)
    (hf : ∀ k, s₀.device.faulty k = false) (hi : init l s₀ = .ok rep s) (steps : List Step) :
    let t := steps.foldl (Step.onDevice l) s
    let Takes := fun r n => Record.Takes r n s₀.device
    (∀ c, decodeCell ((image l.flags t.device).take flagLen) = .ok c → ∀ f,
      Stored l (.setFlag f) (.flag f) () (c = some f ∨ s₀.device.writeUnit ∣ l.flags.start) t) ∧
    (steps = [] ∨ Takes l.variableArea l.variableRecordLen ∧ Takes l.variableBackup l.variableRecordLen →
      ∃ x, l.copy H l.variableArea t.device = some x) ∧
    (∀ x, l.copy H l.variableArea t.device = some x → ∀ i < l.variableCount.toNat, ∀ v,
      Stored l (.setVariable i v) (.value i) v (x.getD i 0xff = v ∨
        Takes l.variableArea l.variableRecordLen ∧ Takes l.variableBackup l.variableRecordLen) t) ∧
    (∀ i r, l.report i = .ok r → ∀ p : Processor.Report, ∃ b, Processor.Report.decode b = some p ∧
      Stored l (.saveReport i p.encode) (.report i) b (Takes r (Record.headLen + Processor.Report.len)) t) ∧
    (∀ rs, rs ≠ [] → rs.length ≤ maxCandidateRegions →
      Stored l (.setCandidate rs) .candidate rs
        (Takes l.candidate (Record.headLen + (4 + 8 * rs.length))) t) ∧
    (s₀.device.writeUnit ∣ s₀.device.eraseUnit →
      s₀.device.writeUnit ∣ l.flags.start ∧ Takes l.variableArea l.variableRecordLen ∧
        Takes l.variableBackup l.variableRecordLen ∧ ∀ r ∈ l.regions, ∀ n, Takes r n ↔ n ≤ r.size) := by
  intro t Takes
  obtain ⟨hv, hr⟩ := init_eq_ok hi
  obtain ⟨hs, x, -, hx, -⟩ := repair_eq_ok hd hv hr
  have ht : s₀.device.Alike t.device := trans_of Alike hs (alike_run steps)
  have h : l.Valid t.device := hv.of_shaped ht.toShaped
  have hft : ∀ k, t.device.faulty k = false := fun k => ht.faulty ▸ hf k
  have hT {r : Region} {n : Nat} : Record.Takes r n t.device ↔ Takes r n := Record.takes_congr ht.toShaped
  refine ⟨fun c hc f => ?_, ?_, fun x hx i hi v => ?_, fun i r hr p => ?_, fun rs h0 hm => ?_, fun hu => ?_⟩
  · exact (stored_flag h hft hc f).congr (by rw [ht.writeUnit])
  · rintro (rfl | hb)
    · exact ⟨x, hx⟩
    · refine main_run hd (hv.of_shaped hs.toShaped) (fun k => hs.faulty ▸ hf k) ?_ ⟨x, hx⟩ steps
      simpa only [Record.takes_congr hs.toShaped] using hb
  · exact (stored_variable h hft hd hx hi v).congr (by rw [hT, hT])
  · exact ⟨_, p.decode_encode _, (stored_report h hft hr p.encode).congr (by rw [hT, p.length_encode])⟩
  · exact (stored_candidate h hft h0 hm).congr hT
  · have hall {r : Region} (hc : Record.Checked r s₀.device) (n : Nat) : Takes r n ↔ n ≤ r.size :=
      Record.takes_iff_of_units (hc.dvd_start hu) (hc.dvd_size hu) n
    exact ⟨hv.checked_flags.dvd_start hu, (hall hv.checked_area _).mpr hv.area_fits,
      (hall hv.checked_backup _).mpr hv.backup_fits, fun r hr => hall (hv.checked r hr)⟩

theorem accepted_stores_twoClasses :
    let s₀ : Store Ram (Digester fun _ x => x ++ Bytes.erased 31) :=
      ⟨Ram.ofBytes (List.replicate 60 0 ++ Bytes.erased 110) 2 10, Digester.idle⟩
    let s := stateAfter (init twoClasses s₀)
    let t := [Step.change (.setVariable 0 5)].foldl (Step.onDevice twoClasses) s
    init twoClasses s₀ = .ok .reinitialized s ∧
      answer ((Change.setFlag .recovery).run twoClasses t) = .ok () ∧
      answer ((Change.setVariable 0 9).run twoClasses t) = .ok () ∧
      (∀ p : Processor.Report, answer ((Change.saveReport 0 p.encode).run twoClasses t) ≠ .ok ()) ∧
      answer ((Change.setCandidate [⟨7, 9⟩]).run twoClasses t) = .ok () ∧
      answer ((Change.setCandidate [⟨7, 9⟩, ⟨0, 1⟩]).run twoClasses t) ≠ .ok () := by
  intro s₀ s t
  have hi : init twoClasses s₀ = .ok .reinitialized s := answer_eq_ok (by decide +kernel)
  have hH (x : Bytes) (hx : x.length = twoClasses.variableCount.toNat) :
      (x ++ Bytes.erased 31).length = digestLen := by
    rw [List.length_append, hx, Bytes.length_erased]
    rfl
  obtain ⟨hf, hm, hv, hr, hc, hu⟩ := accepted_stores hH (fun _ => rfl) hi [.change (.setVariable 0 5)]
  obtain ⟨hs, ha, hb, hT⟩ := hu (by decide)
  obtain ⟨x, hx⟩ := hm (.inr ⟨ha, hb⟩)
  refine ⟨hi, (hf none (by decide +kernel) .recovery).succeeds.mpr (.inr hs),
    (hv x hx 0 (by decide) 9).succeeds.mpr (.inr ⟨ha, hb⟩), fun p => ?_,
    (hc _ (by decide) (by decide)).succeeds.mpr ((hT _ (by decide) _).mpr (by decide)), ?_⟩
  · obtain ⟨b, -, hr⟩ := hr 0 ⟨40, 20⟩ rfl p
    rw [ne_eq, hr.succeeds, hT _ (by decide)]
    decide
  · rw [ne_eq, (hc _ (by decide) (by decide)).succeeds, hT _ (by decide)]
    decide

/-- Regions between write units of 16 bytes, each too small for what it is for. -/
def cramped : Layout where
  manifests := []
  flags := ⟨8, 16⟩
  reports := [⟨24, 16⟩]
  variableArea := ⟨40, 40⟩
  variableBackup := ⟨80, 40⟩
  variableCount := 1
  candidate := ⟨120, 64⟩

/-- A layout is accepted in which nothing can be stored. -/
theorem cramped_accepted :
    let b := Bytes.erased 40 ++ filled (recordOf zeroPadded [7]) 40 ++ filled (recordOf zeroPadded [7]) 40 ++
      Bytes.erased 64
    let s₀ : Store Ram (Digester zeroPadded) := ⟨Ram.ofBytes b 16 8, Digester.idle⟩
    let s := stateAfter (init cramped s₀)
    answer (init cramped s₀) = .ok .intact ∧
      answer ((Change.setFlag .recovery).run cramped s) ≠ .ok () ∧
      answer ((Change.setVariable 0 8).run cramped s) ≠ .ok () ∧
      answer ((Change.saveReport 0 Processor.Report.initial.encode).run cramped s) ≠ .ok () ∧
      answer ((Change.setCandidate (List.replicate 8 ⟨0, 1⟩)).run cramped s) ≠ .ok () := by
  decide +kernel

end Firmware.Storage
