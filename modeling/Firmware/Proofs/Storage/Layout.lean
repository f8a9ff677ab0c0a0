import Firmware.Storage.Layout
import Firmware.Proofs.Storage.Record
import Mathlib.Data.List.Pairwise

namespace Firmware.Storage

open Flash

variable {δ : Type} [Flash δ] {l : Layout}

lemma Record.Checked.apart {r s : Region} {d : δ} (hr : Record.Checked r d)
    (hs : Record.Checked s d) (h : r.overlaps s = false) : r.Apart s := by
  obtain ⟨_, hr', -⟩ := hr.stop
  obtain ⟨_, hs', -⟩ := hs.stop
  have hr0 := hr.nonempty
  have hs0 := hs.nonempty
  simp only [Region.overlaps, hr', hs'] at h
  simp only [Bool.and_eq_false_iff, decide_eq_false_iff_not] at h
  simp only [Region.Apart]
  omega

lemma slot_mem {c : Uuid} {s : Slot} (h : l.slot c = .ok s) : s ∈ l.manifests ∧ s.classId = c := by
  simp only [Layout.slot] at h
  split at h
  · rename_i t ht
    cases h
    exact ⟨List.mem_of_find?_eq_some ht, by simpa using List.find?_some ht⟩
  · cases h

namespace Layout

structure Valid (l : Layout) (d : δ) : Prop where
  checked : ∀ r ∈ l.regions, Record.Checked r d
  disjoint : l.regions.Pairwise fun r s => r.overlaps s = false
  distinct : distinct (l.manifests.map Slot.classId) = true
  flags : (roundUp flagLen (writeUnit d)).any (· ≤ l.flags.size) = true
  count : l.variableCount.toNat ≤ maxVariables
  fits : l.variableRecordLen ≤ min l.variableArea.size l.variableBackup.size

lemma checkRegions_eq_ok {rs : List Region} {d : δ} {u : Unit} :
    checkRegions d rs = .ok u ↔
      (∀ r ∈ rs, Record.Checked r d) ∧ rs.Pairwise fun r s => r.overlaps s = false := by
  induction rs with
  | nil => simp [checkRegions]
  | cons r rs ih =>
    simp only [checkRegions, Except.bind_eq_ok, Except.discard_eq_ok, Record.checkRegion_eq_ok,
      List.pairwise_cons, List.forall_mem_cons]
    by_cases ho : rs.any r.overlaps
    · obtain ⟨s, hs, hr⟩ := List.any_eq_true.mp ho
      simp only [ho, ↓reduceIte, Except.throw_eq, Except.error_bind, reduceCtorEq, and_false,
        exists_false, false_iff]
      rintro ⟨-, ha, -⟩
      simp [ha s hs] at hr
    · have hn : ∀ s ∈ rs, r.overlaps s = false := by simpa using ho
      simp only [ho, Bool.false_eq_true, ↓reduceIte, ih, exists_eq_left, exists_and_right]
      grind

lemma validate_eq_ok {d : δ} : l.validate d = .ok () ↔ l.Valid d := by
  simp only [validate, Except.bind_eq_ok, checkRegions_eq_ok]
  constructor
  · rintro ⟨_, ⟨hc, hd⟩, h⟩
    repeat' split at h
    all_goals try cases h
    exact ⟨hc, hd, ‹_›, ‹_›, ‹_›, ‹_›⟩
  · rintro ⟨hc, hd, hi, hf, hn, hl⟩
    exact ⟨(), ⟨hc, hd⟩, by simp only [hi, hf, hn, hl, ↓reduceIte, Except.pure_eq]⟩

namespace Valid

variable {d : δ} (h : l.Valid d)
include h

lemma apart : l.regions.Pairwise Region.Apart :=
  h.disjoint.imp_of_mem fun hr hs => (h.checked _ hr).apart (h.checked _ hs)

lemma parts_apart :
    ((l.manifests.map Slot.region).Pairwise Region.Apart ∧
      ∀ s ∈ l.manifests, ∀ r ∈ l.reports, s.region.Apart r) ∧
    (∀ s ∈ l.manifests, ∀ r ∈ [l.flags, l.variableArea, l.variableBackup, l.candidate],
      s.region.Apart r) ∧
    (∀ q ∈ l.reports, ∀ r ∈ [l.flags, l.variableArea, l.variableBackup, l.candidate], q.Apart r) ∧
    [l.flags, l.variableArea, l.variableBackup, l.candidate].Pairwise Region.Apart := by
  have ha := h.apart
  rw [regions, List.append_assoc, List.pairwise_append, List.pairwise_append] at ha
  obtain ⟨hm, ⟨hr, ht, hrt⟩, hc⟩ := ha
  have hs : ∀ s ∈ l.manifests, s.region ∈ l.manifests.map Slot.region := fun s =>
    List.mem_map_of_mem
  exact ⟨⟨hm, fun s h r hr => hc _ (hs s h) r (List.mem_append_left _ hr)⟩,
    fun s h r hr => hc _ (hs s h) r (List.mem_append_right _ hr), hrt, ht⟩

lemma slot_apart_slot {s t : Slot} (hs : s ∈ l.manifests) (ht : t ∈ l.manifests) (hn : s ≠ t) :
    s.region.Apart t.region := by
  have : Std.Symm fun a b : Slot => a.region.Apart b.region := ⟨fun _ _ => Region.Apart.symm⟩
  exact (List.pairwise_map.mp h.parts_apart.1.1).forall hs ht hn

lemma area_apart_backup : l.variableArea.Apart l.variableBackup := by
  obtain ⟨-, -, -, hp⟩ := h.parts_apart
  simp only [List.pairwise_cons, List.mem_cons, forall_eq_or_imp] at hp
  exact hp.2.1.1

lemma checked_area : Record.Checked l.variableArea d := h.checked _ (by simp [regions])

lemma checked_backup : Record.Checked l.variableBackup d := h.checked _ (by simp [regions])

lemma area_fits : l.variableRecordLen ≤ l.variableArea.size := Nat.le_trans h.fits (Nat.min_le_left _ _)

lemma backup_fits : l.variableRecordLen ≤ l.variableBackup.size := Nat.le_trans h.fits (Nat.min_le_right _ _)

end Valid

lemma Valid.of_shaped {d d' : Ram} (h : l.Valid d) (ha : d.Shaped d') : l.Valid d' where
  checked r hr := (h.checked r hr).of_shaped ha
  disjoint := h.disjoint
  distinct := h.distinct
  flags := by
    have hu : Flash.writeUnit d' = Flash.writeUnit d := ha.writeUnit
    rw [hu]
    exact h.flags
  count := h.count
  fits := h.fits

end Layout

end Firmware.Storage
