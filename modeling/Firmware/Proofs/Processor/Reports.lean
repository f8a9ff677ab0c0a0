import Firmware.Processor.Report
import Firmware.Proofs.Words

namespace Firmware.Processor

open Manifest

lemma State.ofCode?_code (s : State) : Coded.ofCode? (Coded.code s) = some s := by
  cases s <;> rfl

lemma Mode.ofCode?_code (m : Mode) : Coded.ofCode? (Coded.code m) = some m := by
  cases m <;> rfl

lemma Outcome.ofCode?_code (o : Outcome) : Coded.ofCode? (Coded.code o) = some o := by
  cases o <;> rfl

lemma Outcome.ofResult_eq_success {α : Type} {x : Except Error α} :
    ofResult x = .success ↔ ∃ a, x = .ok a := by
  rcases x with e | a
  · cases e <;> simp [ofResult, Error.outcome]
  · simp [ofResult]

namespace Report

lemma sequenceOfCode?_sequenceCode (k : Option SequenceKind) :
    sequenceOfCode? (sequenceCode k) = some k := by
  cases k with
  | none => rfl
  | some k => cases k <;> rfl

@[simp] lemma length_encode (r : Report) : r.encode.length = len := by
  simp [encode, r.classId.size, len]

lemma decode_encode (r : Report) (s : Bytes) : decode (r.encode ++ s) = some r := by
  have ht : (r.encode ++ s).take len = r.encode := List.take_left' r.length_encode
  have h4 : r.encode.drop 4 = Bytes.le16 (Coded.code r.outcome) ++ ([0, 0] ++
    Bytes.le32 (sequenceCode r.sequence) ++ Bytes.le32 r.sequenceNumber ++ r.classId.bytes) := rfl
  have h8 : r.encode.drop 8 = Bytes.le32 (sequenceCode r.sequence) ++
    (Bytes.le32 r.sequenceNumber ++ r.classId.bytes) := rfl
  have h12 : r.encode.drop 12 = Bytes.le32 r.sequenceNumber ++ r.classId.bytes := rfl
  have h16 : r.encode.drop 16 = r.classId.bytes := rfl
  have h0 : (guard (r.encode.head? = some version) : Option Unit) = some () := rfl
  have h1 : r.encode[1]? = some (Coded.code r.state) := rfl
  have h2 : r.encode[2]? = some (Coded.code r.mode) := rfl
  rw [decode, ht, h0]
  simp only [h1, h2, h4, h8, h12, h16, Bytes.word16?_le16, Bytes.word32?_le32]
  simp [State.ofCode?_code, Mode.ofCode?_code, Outcome.ofCode?_code, sequenceOfCode?_sequenceCode]

def reserved : List Nat := [3, 6, 7]

def blanked (b : Bytes) : Bytes := reserved.foldl (fun b i => b.set i 0) b

variable {b : Bytes} {r : Report}

lemma eq_cons_of_le (h : 8 ≤ b.length) :
    ∃ b₀ b₁ b₂ b₃ b₄ b₅ b₆ b₇ s, b = b₀ :: b₁ :: b₂ :: b₃ :: b₄ :: b₅ :: b₆ :: b₇ :: s := by
  match b, h with
  | b₀ :: b₁ :: b₂ :: b₃ :: b₄ :: b₅ :: b₆ :: b₇ :: s, _ => exact ⟨b₀, b₁, b₂, b₃, b₄, b₅, b₆, b₇, s, rfl⟩

lemma blanked_eq (h : 8 ≤ b.length) :
    blanked b = b.take 3 ++ 0 :: ((b.drop 4).take 2 ++ 0 :: 0 :: b.drop 8) := by
  obtain ⟨_, _, _, _, _, _, _, _, _, rfl⟩ := eq_cons_of_le h
  rfl

lemma sequenceCode_of_sequenceOfCode? {c : UInt32} {k : Option SequenceKind} (h : sequenceOfCode? c = some k) :
    sequenceCode k = c := by
  rw [sequenceOfCode?] at h
  split at h
  · rename_i hc
    cases h
    exact hc.symm
  · obtain ⟨k', hk, rfl⟩ := Option.map_eq_some_iff.mp h
    exact Coded.code_of_ofCode? hk

lemma encode_of_decode (h : decode b = some r) : len ≤ b.length ∧ r.encode = blanked (b.take len) := by
  rw [decode] at h
  generalize hx : b.take len = x at h ⊢
  obtain ⟨_, hv, h⟩ := Option.bind_eq_some_iff.mp h
  simp only [Option.bind_eq_bind, Option.bind_eq_some_iff, Option.pure_def, Option.some.injEq] at h
  obtain ⟨o, ho, outcome, hoo, s, hs, state, hss, m, hm, mode, hmm, q, hq, sequence, hqq, u, hu, n, hn, rfl⟩ := h
  have hlen : x.length = len := by
    have := congrArg List.length (Uuid.bytes_of_ofBytes? hu)
    simp only [u.size, List.length_drop] at this
    simp only [len]
    omega
  have hhead : x.take 3 = [version, s, m] := by
    have hv : x[0]? = some version := by
      rw [← List.head?_eq_getElem?]
      by_contra hne
      have hg : (guard (x.head? = some version) : Option Unit) = none := if_neg hne
      cases hg.symm.trans hv
    simp only [List.take_add_one, hv, hs, hm, List.take_zero, Option.toList_some, List.nil_append,
      List.cons_append]
  have htail : x.drop 8 = (x.drop 8).take 4 ++ ((x.drop 12).take 4 ++ x.drop 16) := by
    rw [← List.drop_drop (i := 4) (j := 12), List.take_append_drop, ← List.drop_drop (i := 4) (j := 8),
      List.take_append_drop]
  refine ⟨?_, ?_⟩
  · rw [← hlen, ← hx]
    exact List.length_take_le' _ _
  · rw [blanked_eq (by rw [hlen]; decide), hhead, htail]
    simp only [encode, Coded.code_of_ofCode? hoo, Coded.code_of_ofCode? hss, Coded.code_of_ofCode? hmm,
      sequenceCode_of_sequenceOfCode? hqq, Bytes.le16_of_word16? ho, Bytes.le32_of_word32? hq,
      Bytes.le32_of_word32? hn, Uuid.bytes_of_ofBytes? hu]
    simp

lemma decode_blanked (h : len ≤ b.length) : decode (blanked (b.take len)) = decode b := by
  have hl : (b.take len).length = len := List.length_take_of_le h
  generalize hx : b.take len = x at hl
  have ht : (blanked x).take len = blanked x := by
    apply List.take_of_length_le
    simp [blanked, reserved, hl]
  rw [decode, decode, hx, ht]
  have h8 : 8 ≤ x.length := hl ▸ by decide
  obtain ⟨_, _, _, _, _, _, _, _, _, rfl⟩ := eq_cons_of_le h8
  rfl

lemma blanked_eq_self (h : ∀ i ∈ reserved, b[i]? = some 0) : blanked b = b := by
  have hs {i : Nat} (hi : i ∈ reserved) : b.set i 0 = b := by
    obtain ⟨hl, he⟩ := List.getElem?_eq_some_iff.mp (h i hi)
    rw [← he]
    exact List.set_getElem_self hl
  simp only [blanked, reserved, List.foldl]
  rw [hs (by decide), hs (by decide), hs (by decide)]

/-- A report is read off bytes exactly if they begin with its encoding once the reserved ones are blanked. They
begin with the encoding as they are exactly if, besides, the reserved ones are zero. -/
theorem decode_canonical (b : Bytes) (r : Report) :
    (∀ s, decode (r.encode ++ s) = some r) ∧
      (decode b = some r ↔ len ≤ b.length ∧ r.encode = blanked (b.take len)) ∧
      (r.encode = b.take len ↔ decode b = some r ∧ ∀ i ∈ reserved, b[i]? = some 0) := by
  refine ⟨decode_encode r, ⟨encode_of_decode, ?_⟩, ?_, ?_⟩
  · rintro ⟨hl, hb⟩
    have hr := decode_encode r []
    rw [List.append_nil, hb] at hr
    exact (decode_blanked hl).symm.trans hr
  · intro h
    have hb : b = r.encode ++ b.drop len := by rw [h, List.take_append_drop]
    refine ⟨hb ▸ decode_encode r _, fun i hi => ?_⟩
    have hlt : i < r.encode.length := by
      rw [length_encode]
      revert i
      decide
    rw [hb, List.getElem?_append_left hlt]
    simp only [reserved, List.mem_cons, List.not_mem_nil, or_false] at hi
    rcases hi with rfl | rfl | rfl <;> rfl
  · rintro ⟨hd, hz⟩
    obtain ⟨-, hb⟩ := encode_of_decode hd
    rw [hb]
    refine blanked_eq_self fun i hi => ?_
    have hlt : i < len := by
      revert i
      decide
    rw [List.getElem?_take_of_lt hlt]
    exact hz i hi

theorem decode_unblanked :
    decode (initial.encode.set 3 1) = some initial ∧
      initial.encode ≠ (initial.encode.set 3 1).take len := by
  decide

end Report

end Firmware.Processor
