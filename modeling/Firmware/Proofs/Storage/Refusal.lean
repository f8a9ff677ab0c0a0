import Firmware.Proofs.Storage.Healthy

/-!
What the checks before a record do not see. They count bytes, but what is programmed are whole units:
a record whose last unit does not fit is refused only after its region was erased.
-/

namespace Firmware.Storage

open Flash Ram

variable {r : Region} {b : Bytes} {p q : Prop} {d d' : Ram} {x : EStateM.Result Failure Ram Unit}

/-- The checks let a record of `n` bytes behind its head pass, but the region has no room for its units. -/
def Overruns (r : Region) (n : Nat) (d : Ram) : Prop :=
  Record.Checked r d ∧ n ≤ r.size - Record.headLen ∧ ¬ Record.Takes r (Record.headLen + n) d

/-- An attempt to write `b` that leaves the device alone if it fails, unless it runs into `p`. Then it
does fail, with the region erased and maybe some units of `b` in it. -/
structure Refuses (p : Prop) (r : Region) (b : Bytes) (d : Ram) (x : EStateM.Result Failure Ram Unit) : Prop where
  spared : ¬ p → ∀ e d', x = .error e d' → d' = d
  overrun : p → ∃ e d', x = .error e d' ∧ TornBetween r b d'

lemma Refuses.congr (h : Refuses p r b d x) (hq : q ↔ p) : Refuses q r b d x :=
  ⟨fun hn => h.spared (mt hq.mpr hn), fun hp => h.overrun (hq.mp hp)⟩

lemma refuses_error (e : Failure) : Refuses False r b d (.error e d) :=
  ⟨fun _ _ _ hx => by cases hx; rfl, False.elim⟩

lemma overruns_iff_of_units (hu : d.writeUnit ∣ d.eraseUnit) (r : Region) (n : Nat) :
    Overruns r n d ↔ Record.Checked r d ∧ r.size < Record.headLen ∧ n = 0 := by
  refine and_congr_right fun h => ?_
  rw [Record.takes_iff_of_units (h.dvd_start hu) (h.dvd_size hu)]
  omega

section Faultless

variable (hf : ∀ k, d.faulty k = false)
include hf

lemma clear_refused {e : Failure} (hx : Record.clear r d = .error e d') : d' = d := by
  cases hc : Record.checkRegion r d with
  | error f =>
    rw [Record.clear, EStateM.bind_run, EStateM.get_run] at hx
    dsimp only at hx
    rw [EStateM.bind_run, EStateM.discard_run, EStateM.lift_run, hc] at hx
    cases hx
    rfl
  | ok u =>
    obtain ⟨e', he, -⟩ := Record.clear_healthy (Record.checkRegion_eq_ok.mp hc).2 hf
    cases he.symm.trans hx

lemma torn_of_overruns {m : Magic} {parts : List Bytes} (h : Overruns r parts.flatten.length d) :
    ∃ e d', Record.write r m parts d = .error e d' ∧ TornBetween r (Record.bytes m parts) d' := by
  obtain ⟨hc, hn, ht⟩ := h
  cases hx : Record.write r m parts d with
  | ok u d' =>
    refine absurd (Record.write_eq_ok hx).1 ?_
    rwa [Record.length_bytes]
  | error e d' =>
    refine ⟨e, d', rfl, ?_⟩
    rw [Record.write_run, Record.checkRegion_eq_ok.mpr ⟨rfl, hc⟩] at hx
    dsimp only at hx
    rw [if_pos hn, EStateM.bind_run] at hx
    rcases hc.eraseRegion_cases with ⟨f, d₁, -, hk, -⟩ | ⟨d₁, hd, hc₁, -, hi⟩
    · rw [hf] at hk
      cases hk
    · rw [hd] at hx
      rcases Record.writing_cases hc₁ hi (Bytes.le32 (Coded.code m) :: parts) with
        ⟨d₂, hw, -⟩ | ⟨f, d₂, hw, htorn, -⟩
      · cases hw.symm.trans hx
      · cases hw.symm.trans hx
        exact htorn

lemma refuses_write (m : Magic) (parts : List Bytes) :
    Refuses (Overruns r parts.flatten.length d) r (Record.bytes m parts) d (Record.write r m parts d) where
  spared hn e d' hx := by
    by_cases h : Record.Checked r d ∧ parts.flatten.length ≤ r.size - Record.headLen
    · have ht : Record.Takes r (Record.bytes m parts).length d := by
        rw [Record.length_bytes]
        exact not_not.mp fun ht => hn ⟨h.1, h.2, ht⟩
      obtain ⟨d₁, hw⟩ := Record.write_of_takes h.1 hf ht
      cases hw.symm.trans hx
    · exact Record.eq_of_write_error h hx
  overrun := torn_of_overruns hf

lemma refuses_setCandidate (l : Layout) (rs : List Region) :
    Refuses (rs ≠ [] ∧ rs.length ≤ maxCandidateRegions ∧ Overruns l.candidate (4 + 8 * rs.length) d)
      l.candidate (Record.bytes .binary (candidateParts rs)) d (setCandidate l rs d) := by
  rw [setCandidate_run]
  split
  · rename_i h0
    exact (refuses_error _).congr (iff_false_intro fun h => h.1 (List.isEmpty_iff.mp h0))
  · rename_i h0
    split
    · rw [← length_candidateParts rs]
      exact (refuses_write hf .binary _).congr
        ⟨fun h => h.2.2, fun h => ⟨mt List.isEmpty_iff.mpr h0, ‹_›, h⟩⟩
    · exact (refuses_error _).congr (iff_false_intro fun h => absurd h.2.1 ‹_›)

end Faultless

open Record

/-- Without faults, what fails leaves the device as it was: clearing always does, and writing a record
does unless the checks let it pass that has no room for its units. -/
theorem refusals_spare (hf : ∀ k, d.faulty k = false) (l : Layout) (r : Region) :
    (∀ e d', clear r d = .error e d' → d' = d) ∧
    (∀ b, Refuses (Overruns r b.length d) r (bytes .binary [b]) d (save r b d)) ∧
    (∀ v, Refuses (Overruns r 4 d) r (bytes .flag [Bytes.le32 v]) d (saveFlag r v d)) ∧
    (∀ rs, Refuses
      (rs ≠ [] ∧ rs.length ≤ maxCandidateRegions ∧ Overruns l.candidate (4 + 8 * rs.length) d)
      l.candidate (bytes .binary (candidateParts rs)) d (setCandidate l rs d)) ∧
    (d.writeUnit ∣ d.eraseUnit → ∀ r n, Overruns r n d ↔ Checked r d ∧ r.size < headLen ∧ n = 0) := by
  refine ⟨fun e d' hx => clear_refused hf hx, fun b => ?_, fun v => ?_,
    refuses_setCandidate hf l, overruns_iff_of_units⟩
  · have hw := refuses_write (r := r) hf .binary [b]
    rwa [List.flatten_singleton] at hw
  · exact refuses_write (r := r) hf .flag [Bytes.le32 v]

theorem refusals_spare_sixBytes :
    let d := Ram.ofBytes (List.replicate 12 0) 4 6
    (∃ e d', save ⟨0, 6⟩ [1, 2] d = .error e d' ∧ TornBetween ⟨0, 6⟩ (bytes .binary [[1, 2]]) d') ∧
      ∀ e d', save ⟨0, 6⟩ [1, 2, 3] d = .error e d' → d' = d := by
  intro d
  obtain ⟨-, hs, -⟩ := refusals_spare (d := d) (fun _ => rfl) twoClasses ⟨0, 6⟩
  have hc : checkRegion ⟨0, 6⟩ d = .ok 4 := by decide
  refine ⟨(hs [1, 2]).overrun ⟨(checkRegion_eq_ok.mp hc).2, by decide, ?_⟩, (hs [1, 2, 3]).spared fun h => absurd h.2.1 (by decide)⟩
  rintro ⟨-, k, h6, hk, hu⟩
  cases Nat.le_antisymm h6 hk
  exact absurd hu (by decide)

/-- The region is erased and programmed before the write is refused, here a payload of two bytes that
takes a unit more than there is, and a payload without bytes in a region that is shorter than a head. -/
theorem refusal_erases :
    let x := save ⟨0, 6⟩ [1, 2] (Ram.ofBytes (List.replicate 6 0) 4 6)
    let y := save ⟨0, 2⟩ [] (Ram.ofBytes [0, 0] 1 2)
    (answer x = .error .size ∧ (stateAfter x).contents = [0x53, 0x55, 0x42, 0x4e, 0xff, 0xff]) ∧
      answer y = .error .size ∧ (stateAfter y).contents = [0xff, 0xff] := by
  decide +kernel

end Firmware.Storage
