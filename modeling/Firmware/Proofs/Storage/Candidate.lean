import Firmware.Proofs.Storage.Healthy
import Firmware.Proofs.Words

/-!
Update candidates that were cut off. The count of a list is programmed in front of the list, so that a
write that is cut off behind it leaves a list whose tail is still erased, and reading cannot tell.
-/

namespace Firmware

namespace Bytes

lemma word32?_of_erased {b : Bytes} (h : b[3]? = some 0xff) :
    ∃ w, word32? b = some w ∧ 0xff000000 ≤ w.toNat := by
  match b, h with
  | x :: y :: z :: _ :: b, rfl =>
    refine ⟨_, rfl, ?_⟩
    have hff : (0xff : UInt8).toNat = 255 := rfl
    rw [toNat_ofNat_toNatLe rfl]
    simp only [List.take, toNatLe, hff]
    omega

end Bytes

namespace Flash.Region

lemma exists_encode {n : Nat} {b : Bytes} (h : b.length = 8 * n) :
    ∃ rs : List Region, rs.length = n ∧ rs.flatMap encode = b := by
  induction n generalizing b with
  | zero => exact ⟨[], rfl, (List.eq_nil_of_length_eq_zero h).symm⟩
  | succ n ih =>
    obtain ⟨rs, hl, hb⟩ := ih (b := b.drop 8) (by rw [List.length_drop]; omega)
    obtain ⟨v, hv⟩ := Bytes.exists_le32 (b := b.take 4) (by rw [List.length_take]; omega)
    obtain ⟨w, hw⟩ := Bytes.exists_le32 (b := (b.drop 4).take 4) (by simp; omega)
    refine ⟨⟨v, w⟩ :: rs, congrArg (· + 1) hl, ?_⟩
    rw [List.flatMap_cons, hb, encode, hv, hw, List.append_assoc, ← List.drop_drop (i := 4) (j := 4),
      List.take_append_drop, List.take_append_drop]

end Flash.Region

namespace Storage

open Flash Ram

variable {l : Layout} {rs : List Region} {d d' : Ram} {a : Arena}

lemma candidate_congr (h : d.Shaped d') (hc : d'.contents = d.contents) : candidate l d' = candidate l d := by
  obtain ⟨c, w, e, r, _, _, _⟩ := d
  obtain ⟨c', w', e', r', _, _, _⟩ := d'
  obtain ⟨rfl, rfl, rfl, -⟩ := h
  cases hc
  rfl

section Torn

variable (h : Record.Checked l.candidate d)
include h

lemma candidate_of_head (hz : 8 ≤ l.candidate.size) {p : Bytes} (hl : p.length < 8)
    (hi : image l.candidate d = filled p l.candidate.size) (a : Arena) :
    answer (candidate l d a) = .error .notFound := by
  have ht : (image l.candidate d).take 8 = p ++ Bytes.erased (8 - p.length) := by
    rw [hi, filled, List.take_append, List.take_of_length_le (Nat.le_of_lt hl), Bytes.erased, Bytes.erased,
      List.take_replicate, Nat.min_eq_left (by omega)]
  have hff {i : Nat} (h₁ : p.length ≤ i) (h₂ : i < 8) : (p ++ Bytes.erased (8 - p.length))[i]? = some 0xff := by
    rw [List.getElem?_append_right h₁, Bytes.erased, List.getElem?_replicate, if_pos (by omega)]
  rw [candidate_run h hz, ht]
  dsimp only
  by_cases hk : p.length ≤ 3
  · obtain ⟨w, hw, hn⟩ := Bytes.word32?_of_erased (hff hk (by decide))
    rw [if_neg]
    · rfl
    · rw [Record.magic?, hw]
      intro hm
      have := Coded.code_of_ofCode? hm
      subst this
      exact absurd hn (by decide)
  · split
    · obtain ⟨w, hw, hn⟩ := Bytes.word32?_of_erased (b := (p ++ Bytes.erased (8 - p.length)).drop 4)
        (by rw [List.getElem?_drop]; exact hff (by omega) (by decide))
      rw [hw]
      dsimp only [Option.map]
      rw [if_neg]
      · rfl
      · have : maxCandidateRegions = 8 := rfl
        omega
    · rfl

lemma candidate_of_list (h0 : rs ≠ []) (hm : rs.length ≤ maxCandidateRegions)
    (hs : (candidateParts rs).flatten.length ≤ l.candidate.size - Record.headLen) {q : Bytes}
    (hq : q <+: rs.flatMap Region.encode)
    (hi : image l.candidate d = filled (candidateHead rs.length ++ q) l.candidate.size) (ha : Roomy a) :
    ∃ ts, answer (candidate l d a) = .ok ts ∧ ts.flatMap Region.encode = filled q (8 * rs.length) := by
  have hn : q.length ≤ 8 * rs.length := length_encode rs ▸ hq.length_le
  obtain ⟨ts, hl, ht⟩ := Region.exists_encode (n := rs.length) (b := filled q (8 * rs.length))
    (by rw [length_filled]; omega)
  have hts : (candidateParts ts).flatten.length = (candidateParts rs).flatten.length := by
    rw [length_candidateParts, length_candidateParts, hl]
  refine ⟨ts, candidate_filled h ?_ (hl ▸ hm) (hts ▸ hs) ?_ ha, ht⟩
  · rintro rfl
    exact h0 (List.eq_nil_of_length_eq_zero hl.symm)
  · rw [length_candidateParts] at hs
    have hk : Record.headLen = 4 := rfl
    have hf : Record.bytes .binary (candidateParts ts) =
        (candidateHead rs.length ++ q) ++ Bytes.erased (8 * rs.length - q.length) := by
      rw [Record.bytes, flatten_candidateParts, ht, hl]
      simp only [candidateHead, filled, List.append_assoc]
    rw [hi, hf, filled_erased]
    rw [List.length_append, length_candidateHead]
    omega

end Torn

/-- What is found where the list `rs` was to be stored: what was found there before, the list, nothing, or
the list with ones from the end of a write unit on. -/
inductive Finds (old : Except Failure (List Region)) (unit : Nat) (rs : List Region) :
    Except Failure (List Region) → Prop
  | unchanged : Finds old unit rs old
  | stored : Finds old unit rs (.ok rs)
  | missing : Finds old unit rs (.error .notFound)
  | torn {k : Nat} {ts : List Region} : k < 8 * rs.length → unit ∣ 8 + k →
      ts.flatMap Region.encode = filled ((rs.flatMap Region.encode).take k) (8 * rs.length) →
      Finds old unit rs (.ok ts)

lemma finds_of_tornBetween (h : Record.Checked l.candidate d) (h0 : rs ≠ [])
    (hm : rs.length ≤ maxCandidateRegions)
    (hs : (candidateParts rs).flatten.length ≤ l.candidate.size - Record.headLen)
    (ht : TornBetween l.candidate (Record.bytes .binary (candidateParts rs)) d) (ha : Roomy a)
    (old : Except Failure (List Region)) :
    Finds old d.writeUnit rs (answer (candidate l d a)) := by
  obtain ⟨p, hp, hu, hi⟩ := ht
  have hb : Record.bytes .binary (candidateParts rs) = candidateHead rs.length ++ rs.flatMap Region.encode := by
    rw [Record.bytes, flatten_candidateParts, candidateHead, List.append_assoc]
  rw [hb] at hp
  have hk : Record.headLen = 4 := rfl
  have hz : 8 ≤ l.candidate.size := by
    rw [length_candidateParts] at hs
    have := List.length_pos_iff.mpr h0
    omega
  by_cases hl : p.length < 8
  · rw [candidate_of_head h hz hl hi a]
    exact .missing
  · obtain ⟨q, rfl⟩ : candidateHead rs.length <+: p :=
      List.prefix_of_prefix_length_le (List.prefix_append _ _) hp (Nat.not_lt.mp hl)
    have hq : q <+: rs.flatMap Region.encode := (List.prefix_append_right_inj _).mp hp
    by_cases hn : q.length < 8 * rs.length
    · obtain ⟨ts, hts, ht⟩ := candidate_of_list h h0 hm hs hq hi ha
      rw [hts]
      rw [List.length_append, length_candidateHead] at hu
      exact .torn hn hu (List.prefix_iff_eq_take.mp hq ▸ ht)
    · have he : q = rs.flatMap Region.encode := hq.eq_of_length_le (length_encode rs ▸ Nat.not_lt.mp hn)
      rw [candidate_filled h h0 hm hs (by rw [hi, hb, he]) ha]
      exact .stored

/-- A list that was cut off is found as it was before, as it was to be, or not at all, unless a write unit
ends inside the list: then the list may be found with ones from there on. -/
theorem interrupted_candidate {l : Layout} {rs : List Region} {d d' : Ram} {e : Failure} {a : Arena}
    (ha : Roomy a) (h : setCandidate l rs d = .error e d') :
    Finds (answer (candidate l d a)) d.writeUnit rs (answer (candidate l d'.healthy a)) := by
  have hd : d.Alike d' := alike_of_reach ((follows_setCandidate rs).of_error h)
  have hh : d'.Shaped d'.healthy := ⟨rfl, rfl, rfl, rfl⟩
  have hs : candidate l d'.healthy = candidate l d' := candidate_congr hh rfl
  rw [hs]
  have hsame (hc : d'.contents = d.contents) :
      Finds (answer (candidate l d a)) d.writeUnit rs (answer (candidate l d' a)) := by
    rw [candidate_congr hd.toShaped hc]
    exact .unchanged
  rw [setCandidate_run] at h
  split at h
  · cases h
    exact .unchanged
  · rename_i h0
    split at h
    · by_cases hn : Record.Checked l.candidate d ∧
          (candidateParts rs).flatten.length ≤ l.candidate.size - Record.headLen
      · have hw := Record.leaves_write l.candidate .binary (candidateParts rs) d
        rw [h] at hw
        obtain _ | ⟨hc | ht, -⟩ := hw
        · exact hsame hc
        · rw [← hd.writeUnit]
          exact finds_of_tornBetween (hn.1.of_shaped hd.toShaped) (mt List.isEmpty_iff.mpr h0) ‹_› hn.2 ht ha _
      · cases Record.eq_of_write_error hn h
        exact .unchanged
    · cases h
      exact .unchanged

/-- With units of two bytes, a device that fails once the count is programmed. -/
theorem interrupted_candidate_behindCount :
    let d := (Ram.ofBytes (Bytes.erased 170) 2 10).failAfter 3
    let x := setCandidate twoClasses [⟨7, 9⟩] d
    Roomy (Arena.ofSize 100) ∧ x = .error .io (stateAfter x) ∧
      Finds (.error .notFound) 2 [⟨7, 9⟩]
        (answer (candidate twoClasses (stateAfter x).healthy (Arena.ofSize 100))) := by
  intro d x
  have ha : Roomy (Arena.ofSize 100) := ⟨by decide, by decide⟩
  have hx : x = .error .io (stateAfter x) := answer_eq_error (by decide +kernel)
  have h0 : answer (candidate twoClasses d (Arena.ofSize 100)) = .error .notFound := by decide +kernel
  have hf := interrupted_candidate ha hx
  rw [h0] at hf
  exact ⟨ha, hx, hf⟩

/-- What is found on it is a region that nobody stored. -/
theorem interrupted_candidate_mistaken :
    let d := (Ram.ofBytes (Bytes.erased 170) 2 10).failAfter 3
    let x := setCandidate twoClasses [⟨7, 9⟩] d
    answer x = .error .io ∧ answer (candidate twoClasses d (Arena.ofSize 100)) = .error .notFound ∧
      answer (candidate twoClasses (stateAfter x).healthy (Arena.ofSize 100)) =
        .ok [⟨0xffffffff, 0xffffffff⟩] := by
  decide +kernel

end Storage

end Firmware
