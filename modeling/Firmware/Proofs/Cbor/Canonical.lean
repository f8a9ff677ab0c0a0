import Firmware.Cbor.Value
import Firmware.Proofs.Cbor.Reading
import Mathlib.Data.List.Chain

namespace Firmware.Cbor

def Scalar.Fits : Scalar → Prop
  | bytes b => b.length < 0x100000000
  | text t => t.length < 0x100000000
  | _ => True

/-- Trees whose lengths and counts have heads, and whose keys are integers or texts that increase. -/
inductive Value.WellFormed : Value → Prop
  | scalar {s : Scalar} : s.Fits → WellFormed (.scalar s)
  | array {vs : List Value} : vs.length < 0x100000000 → (∀ v ∈ vs, WellFormed v) → WellFormed (.array vs)
  | map {ps : List (Scalar × Value)} :
      ps.length < 0x100000000 → (∀ p ∈ ps, p.1.isKey ∧ p.1.Fits) → (ps.map Prod.fst).IsChain (· < ·) →
      (∀ p ∈ ps, WellFormed p.2) → WellFormed (.map ps)

def TagFree (b : Bytes) : Prop := ∃ v, Derives 0 (.item v) b

variable {x b : Bytes} {k : Scalar} {v : Value}

section Heads

variable {major n : Nat}

lemma head_length_iff (hm : major < 8) :
    Head major n x ↔ n < 0x100000000 ∧ x = lengthHead (UInt8.ofNat major) n := by
  have hn (h : n < 0x100000000) : (UInt32.ofNat n).toNat = n := UInt32.toNat_ofNat_of_lt' h
  constructor
  · intro h
    have hh := h
    rw [← hn h.lt, head_iff hm] at hh
    exact ⟨h.lt, hh⟩
  · rintro ⟨h, rfl⟩
    have hh := head_encodeHead hm (UInt32.ofNat n)
    rwa [hn h] at hh

lemma lengthHead_toNat (major : UInt8) (n : UInt32) : lengthHead major n.toNat = encodeHead major n := by
  rw [lengthHead, UInt32.ofNat_toNat]

lemma opening_scalar : Opening (.scalar k) x ↔ k.Fits ∧ x = k.encode := by
  constructor
  · intro h
    cases h with
    | unsigned h => exact ⟨trivial, (head_iff (by decide)).mp h⟩
    | negative h => exact ⟨trivial, (head_iff (by decide)).mp h⟩
    | bytes h =>
      obtain ⟨hn, rfl⟩ := (head_length_iff (by decide)).mp h
      exact ⟨hn, rfl⟩
    | text h =>
      obtain ⟨hn, rfl⟩ := (head_length_iff (by decide)).mp h
      exact ⟨hn, rfl⟩
    | no | yes | null => exact ⟨trivial, rfl⟩
  · rintro ⟨h, rfl⟩
    cases k with
    | int i =>
      obtain ⟨negative, n⟩ := i
      cases negative with
      | false => exact .unsigned (head_encodeHead (by decide) n)
      | true => exact .negative (head_encodeHead (by decide) n)
    | bytes b => exact .bytes ((head_length_iff (by decide)).mpr ⟨h, rfl⟩)
    | text t => exact .text ((head_length_iff (by decide)).mpr ⟨h, rfl⟩)
    | bool b =>
      cases b with
      | false => exact .no
      | true => exact .yes
    | null => exact .null

lemma opening_array {n : UInt32} : Opening (.array n) x ↔ x = encodeHead 4 n := by
  constructor
  · intro h
    cases h with
    | array h => exact (head_iff (by decide)).mp h
  · rintro rfl
    exact .array (head_encodeHead (by decide) n)

lemma opening_map {n : UInt32} : Opening (.map n) x ↔ x = encodeHead 5 n := by
  constructor
  · intro h
    cases h with
    | map h => exact (head_iff (by decide)).mp h
  · rintro rfl
    exact .map (head_encodeHead (by decide) n)

end Heads

lemma Tags.mono {m n : Nat} (hmn : m ≤ n) (h : Tags m x) : Tags n x := by
  induction h generalizing n with
  | nil => exact .nil
  | @cons limit a t b ha _ ih =>
    obtain ⟨n, rfl⟩ := Nat.exists_eq_add_of_le' (Nat.lt_of_lt_of_le (Nat.succ_pos limit) hmn)
    exact .cons ha (ih (Nat.le_of_succ_le_succ hmn))

lemma Derives.mono {m n : Nat} {p : Phrase} (hmn : m ≤ n) (h : Derives m p x) : Derives n p x := by
  induction h with
  | item ht ho _ ih => exact .item (ht.mono hmn) ho ih
  | scalar => exact .scalar
  | array hn _ ih => exact .array hn ih
  | map hn _ ih => exact .map hn ih
  | nil => exact .nil
  | cons _ _ ihv ih => exact .cons ihv ih
  | last => exact .last
  | pair hk hlt _ _ _ ihk ihv ih => exact .pair hk hlt ihk ihv ih

section Encoding

open Value

def Phrase.encode : Phrase → Bytes
  | item v => v.encode
  | parts _ (.scalar _) => []
  | parts _ (.array vs) => encodeAll vs
  | parts _ (.map ps) => encodePairs ps
  | elements vs => encodeAll vs
  | pairs _ ps => encodePairs ps

lemma Derives.eq_encode {p : Phrase} (h : Derives 0 p x) : x = p.encode := by
  induction h with
  | @item i v t x y ht ho hp ih =>
    cases ht
    rw [ih, List.nil_append]
    cases hp with
    | scalar =>
      obtain ⟨-, rfl⟩ := opening_scalar.mp ho
      simp [Phrase.encode, encode]
    | array hn _ => simp [Phrase.encode, encode, hn, lengthHead_toNat, opening_array.mp ho]
    | map hn _ => simp [Phrase.encode, encode, hn, lengthHead_toNat, opening_map.mp ho]
  | scalar => rfl
  | array _ _ ih => exact ih
  | map _ _ ih => exact ih
  | nil => simp [Phrase.encode, encodeAll]
  | cons _ _ ihv ih => simp_all [Phrase.encode, encodeAll]
  | last => simp [Phrase.encode, encodePairs]
  | pair _ _ _ _ _ ihk ihv ih => simp_all [Phrase.encode, encodePairs, encode]

lemma derives_elements {vs : List Value} (h : ∀ v ∈ vs, Derives 0 (.item v) v.encode) :
    Derives 0 (.elements vs) (encodeAll vs) := by
  induction vs with
  | nil =>
    rw [encodeAll]
    exact .nil
  | cons v vs ih =>
    rw [List.forall_mem_cons] at h
    rw [encodeAll]
    exact .cons h.1 (ih h.2)

lemma derives_encode_scalar (h : k.Fits) : Derives 0 (.item (.scalar k)) k.encode :=
  derives_scalar.mpr ⟨[], k.encode, rfl, .nil, opening_scalar.mpr ⟨h, rfl⟩⟩

lemma derives_pairs {ps : List (Scalar × Value)} {previous : Option Scalar}
    (hk : ∀ p ∈ ps, p.1.isKey ∧ p.1.Fits) (hc : (previous.toList ++ ps.map Prod.fst).IsChain (· < ·))
    (hv : ∀ p ∈ ps, Derives 0 (.item p.2) p.2.encode) :
    Derives 0 (.pairs previous ps) (encodePairs ps) := by
  induction ps generalizing previous with
  | nil =>
    rw [encodePairs]
    exact .last
  | cons p ps ih =>
    obtain ⟨k, v⟩ := p
    rw [List.forall_mem_cons] at hk hv
    rw [encodePairs, List.append_assoc]
    have hlt : ∀ p ∈ previous, p < k := by
      rintro p rfl
      exact (List.isChain_cons_cons.mp hc).1
    have hcs : ((some k).toList ++ ps.map Prod.fst).IsChain (· < ·) := by
      cases previous with
      | none => exact hc
      | some p => exact (List.isChain_cons_cons.mp hc).2
    exact .pair hk.1.1 hlt (derives_encode_scalar hk.1.2) hv.1 (ih hk.2 hcs hv.2)

lemma Value.WellFormed.derives (h : v.WellFormed) : Derives 0 (.item v) v.encode := by
  induction h with
  | scalar hs =>
    rw [encode]
    exact derives_encode_scalar hs
  | @array vs hn _ ih =>
    have hl : vs.length = (UInt32.ofNat vs.length).toNat := (UInt32.toNat_ofNat_of_lt' hn).symm
    rw [encode]
    exact .item .nil (opening_array.mpr rfl) (.array hl (derives_elements ih))
  | @map ps hn hk hc _ ih =>
    have hl : ps.length = (UInt32.ofNat ps.length).toNat := (UInt32.toNat_ofNat_of_lt' hn).symm
    rw [encode]
    exact .item .nil (opening_map.mpr rfl) (.map hl (derives_pairs hk hc ih))

end Encoding

lemma readValue_of_derives {tags : Nat} (ht : tags ≤ maxTags) (h : Derives tags (.item v) b) (s : Bytes) :
    readValue (b ++ s) = .ok (v, s) :=
  readValue_eq_ok.mpr ⟨b, rfl, h.mono ht⟩

lemma TagFree.encode_eq (hb : TagFree b) (h : readValue b = .ok (v, [])) : v.encode = b := by
  obtain ⟨w, hw⟩ := hb
  have hr := readValue_of_derives (Nat.zero_le maxTags) hw []
  rw [List.append_nil, h] at hr
  cases hr
  exact hw.eq_encode.symm

/-- Trees are read back from their encodings, whatever stands behind, and of the byte strings that are
read to one tree only the encoding has no tags. -/
theorem readValue_encode :
    (∀ v : Value, v.WellFormed → ∀ s, readValue (v.encode ++ s) = .ok (v, s)) ∧
      (∀ b v, TagFree b → readValue b = .ok (v, []) → v.encode = b) ∧
      ∀ b c v, TagFree b → TagFree c → readValue b = .ok (v, []) → readValue c = .ok (v, []) → b = c := by
  refine ⟨fun v h => readValue_of_derives (Nat.zero_le maxTags) h.derives, ?_, ?_⟩
  · exact fun b v hb h => hb.encode_eq h
  · exact fun b c v hb hc h h' => (hb.encode_eq h).symm.trans (hc.encode_eq h')

theorem readValue_encode_map :
    let v : Value := .map [(.int ⟨false, 1⟩, .array [.scalar (.bool true), .scalar .null]),
      (.text ⟨[0x41], rfl⟩, .scalar (.int ⟨true, 23⟩))]
    let b : Bytes := [0xa2, 0x01, 0x82, 0xf5, 0xf6, 0x61, 0x41, 0x37]
    readValue (v.encode ++ [0xff]) = .ok (v, [0xff]) ∧ v.encode = b ∧
      ∀ c, TagFree c → readValue c = .ok (v, []) → b = c := by
  intro v b
  have hv : v.WellFormed := by
    refine .map (by decide) (by simp [Scalar.isKey, Scalar.Fits, Text.length]) ?_ ?_
    · exact List.isChain_cons_cons.mpr ⟨rfl, List.isChain_singleton _⟩
    · rintro p hp
      rcases List.mem_cons.mp hp with rfl | hp
      · refine .array (by decide) fun w hw => ?_
        rcases List.mem_pair.mp hw with rfl | rfl
        · exact .scalar trivial
        · exact .scalar trivial
      · cases List.mem_singleton.mp hp
        exact .scalar trivial
  have hb : TagFree b := ⟨v, (by decide +kernel : v.encode = b) ▸ hv.derives⟩
  have hr : readValue b = .ok (v, []) := readValue_encode.1 v hv []
  refine ⟨readValue_encode.1 v hv [0xff], readValue_encode.2.1 b v hb hr, fun c hc h => ?_⟩
  exact readValue_encode.2.2 b c v hb hc hr h

end Firmware.Cbor
