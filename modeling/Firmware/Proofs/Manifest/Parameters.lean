import Firmware.Manifest.Command
import Firmware.Proofs.Cbor.Canonical
import Firmware.Proofs.Cbor.Lookup

/-!
The encoding of parameters, from which they are decoded again. Their map is walked along the list of the
fields: whoever has asked for the first few faces the entries of the others.
-/

namespace Firmware

namespace Cbor

variable {k : Scalar}

lemma parse_encode_scalar (h : k.Fits) (s : Bytes) :
    Item.parse ((Value.scalar k).encode ++ s) = .ok (.scalar k, s) := by
  rw [Value.encode]
  exact Item.parse_eq_ok.mpr ⟨[], k.encode, rfl, .nil, opening_scalar.mpr ⟨h, rfl⟩⟩

lemma parse_encode_array (vs : List Value) (s : Bytes) :
    Item.parse ((Value.array vs).encode ++ s) =
      .ok (.array (UInt32.ofNat vs.length), Value.encodeAll vs ++ s) := by
  refine Item.parse_eq_ok.mpr ⟨[], lengthHead 4 vs.length, ?_, .nil, opening_array.mpr rfl⟩
  rw [Value.encode, List.append_assoc]
  rfl

lemma parse_encode_map (ps : List (Scalar × Value)) (s : Bytes) :
    Item.parse ((Value.map ps).encode ++ s) =
      .ok (.map (UInt32.ofNat ps.length), Value.encodePairs ps ++ s) := by
  refine Item.parse_eq_ok.mpr ⟨[], lengthHead 5 ps.length, ?_, .nil, opening_map.mpr rfl⟩
  rw [Value.encode, List.append_assoc]
  rfl

lemma length_encodeHead_le (major : UInt8) (n : UInt32) : (encodeHead major n).length ≤ 5 := by
  simp only [encodeHead]
  split_ifs <;> simp

lemma complete_scalar {i : Item} {b t : Bytes} (h : i.complete b = .ok (.scalar k, t)) :
    i = .scalar k ∧ t = b := by
  cases i with
  | scalar j =>
    cases h
    exact ⟨rfl, rfl⟩
  | array n =>
    obtain ⟨vs, -, hv⟩ := Decoder.map_eq_ok.mp h
    cases hv
  | map n =>
    obtain ⟨ps, -, hv⟩ := Decoder.map_eq_ok.mp h
    cases hv

end Cbor

namespace Manifest

open Cbor Cbor.Decoder

variable {α β : Type}

lemma foldElements_scalars {body : List α → Item → Decoder (List α)} {g : α → Scalar} (xs : List α)
    (hg : ∀ x ∈ xs, (g x).Fits) (hb : ∀ ys x s, body ys (.scalar (g x)) s = .ok (ys ++ [x], s))
    (ys : List α) (s : Bytes) :
    foldElements body xs.length ys (Value.encodeAll (xs.map fun x => .scalar (g x)) ++ s) =
      .ok (ys ++ xs, s) := by
  induction xs generalizing ys with
  | nil =>
    rw [List.append_nil]
    rfl
  | cons x xs ih =>
    rw [List.forall_mem_cons] at hg
    have hp := parse_encode_scalar hg.1 (Value.encodeAll (xs.map fun x => .scalar (g x)) ++ s)
    rw [List.map_cons, Value.encodeAll, List.append_assoc, List.length_cons, foldElements]
    refine (bind_of_ok (liftReader_eq_ok.mpr hp)).trans ((bind_of_ok (hb ys x _)).trans ?_)
    rw [ih hg.2, List.append_assoc, List.singleton_append]

namespace Digest

def identifier (a : Hash.Algorithm) : Integer := ⟨true, UInt32.ofNat (-1 - a.identifier).toNat⟩

def encode (d : Digest) : Bytes :=
  (Value.array [.scalar (.int (identifier d.algorithm)), .scalar (.bytes d.value)]).encode

lemma ofIdentifier?_identifier (a : Hash.Algorithm) :
    (identifier a).toInt32.toOption.bind Hash.Algorithm.ofIdentifier? = some a := by
  cases a <;> rfl

lemma foldElements_part {n : Integer} {b : Bytes} (hb : b.length < 0x100000000) :
    foldElements part 2 (none, none)
      (Value.encodeAll [.scalar (.int n), .scalar (.bytes b)]) = .ok ((some n, some b), []) := by
  have hn := parse_encode_scalar (k := .int n) trivial (Value.encodeAll [.scalar (.bytes b)])
  have hv := parse_encode_scalar (k := .bytes b) hb []
  rw [Value.encodeAll, foldElements]
  refine (bind_of_ok (liftReader_eq_ok.mpr hn)).trans ?_
  refine (bind_of_ok (a := (some n, none)) rfl).trans ?_
  rw [Value.encodeAll, Value.encodeAll, foldElements]
  exact (bind_of_ok (liftReader_eq_ok.mpr hv)).trans rfl

lemma size_lt (a : Hash.Algorithm) : a.size < 0x100000000 := by
  cases a <;> decide

lemma length_encode_lt {d : Digest} (h : d.value.length = d.algorithm.size) :
    d.encode.length < 0x100000000 := by
  have hs : d.algorithm.size ≤ 64 := by cases d.algorithm <;> decide
  have he : d.encode = encodeHead 4 2 ++ (encodeHead 1 (identifier d.algorithm).argument ++
      (encodeHead 2 (UInt32.ofNat d.value.length) ++ d.value ++ [])) := rfl
  have hp := length_encodeHead_le 4 2
  have hn := length_encodeHead_le 1 (identifier d.algorithm).argument
  have hv := length_encodeHead_le 2 (UInt32.ofNat d.value.length)
  simp only [he, List.length_append, List.length_nil]
  omega

lemma ofBytes_encode {d : Digest} (h : d.value.length = d.algorithm.size) : ofBytes d.encode = .ok d := by
  have hp := parse_encode_array [.scalar (.int (identifier d.algorithm)), .scalar (.bytes d.value)] []
  have hd : parse (.array 2)
      (Value.encodeAll [.scalar (.int (identifier d.algorithm)), .scalar (.bytes d.value)]) = .ok (d, []) := by
    refine (bind_of_ok (a := (2 : UInt32)) rfl).trans ?_
    refine (bind_of_ok (foldElements_part (h ▸ size_lt d.algorithm))).trans ?_
    simp only [ofIdentifier?_identifier, h, ↓reduceIte]
    rfl
  have hr : (do parse (← Item.parse) : Decoder Digest) d.encode = .ok (d, []) := by
    rw [List.append_nil, List.append_nil] at hp
    exact (bind_of_ok (liftReader_eq_ok.mpr hp)).trans hd
  simp only [ofBytes, Decoder.whole, Decoder.all, hr]

end Digest

namespace Parameters

def entries (fs : List (UInt32 × Option Scalar)) : List (Scalar × Value) :=
  fs.filterMap fun f => f.2.map fun k => (key f.1, .scalar k)

lemma key_lt {m n : UInt32} (h : m < n) : key m < key n := by
  have hc : compare m n = .lt := if_pos h
  exact hc

lemma mem_entries {fs : List (UInt32 × Option Scalar)} {p : Scalar × Value} (h : p ∈ entries fs) :
    ∃ f ∈ fs, ∃ k ∈ f.2, p = (key f.1, .scalar k) := by
  obtain ⟨f, hf, hp⟩ := List.mem_filterMap.mp h
  obtain ⟨k, hk, rfl⟩ := Option.map_eq_some_iff.mp hp
  exact ⟨f, hf, k, hk, rfl⟩

structure Orderly (fs : List (UInt32 × Option Scalar)) : Prop where
  ascending : fs.Pairwise fun f g => f.1 < g.1
  fits : ∀ f ∈ fs, ∀ k ∈ f.2, k.Fits

/-- A walker that has come to the first of some fields. -/
structure Ready (fs : List (UInt32 × Option Scalar)) (s : Bytes) (w : Walker) (b : Bytes) : Prop where
  orderly : Orderly fs
  faces : w.Faces b (entries fs) s
  asked : ∀ a ∈ w.lastAsked, ∀ f ∈ fs, a < key f.1

variable {fs gs hs : List (UInt32 × Option Scalar)} {s b : Bytes}

/-- Answers `a` to a walker that faces the fields `fs`, which then faces `gs`. -/
def Takes (fs gs : List (UInt32 × Option Scalar)) (p : Walk Decoder α) (a : α) : Prop :=
  ∀ w b s, Ready fs s w b → ∃ w' t, p w b = .ok ((a, w'), t) ∧ Ready gs s w' t

lemma Takes.bind {p : Walk Decoder α} {q : α → Walk Decoder β} {a : α} {c : β} (hp : Takes fs gs p a)
    (hq : Takes gs hs (q a) c) : Takes fs hs (p >>= q) c := by
  intro w b s h
  obtain ⟨w', t, ha, h⟩ := hp w b s h
  obtain ⟨w'', u, hc, h⟩ := hq w' t s h
  exact ⟨w'', u, Walk.bind_eq_ok.mpr ⟨a, w', t, ha, hc⟩, h⟩

lemma Takes.pure (a : α) : Takes fs fs (Pure.pure a : Walk Decoder α) a :=
  fun w b _ h => ⟨w, b, rfl, h⟩

lemma Orderly.tail {f : UInt32 × Option Scalar} (hs : Orderly (f :: fs)) : Orderly fs :=
  ⟨hs.ascending.tail, fun g hg => hs.fits g (List.mem_cons_of_mem f hg)⟩

lemma Orderly.above {n : UInt32} {o : Option Scalar} (hs : Orderly ((n, o) :: fs)) :
    ∀ f ∈ fs, key n < key f.1 :=
  fun f hf => key_lt ((List.pairwise_cons.mp hs.ascending).1 f hf)

lemma Orderly.entries_above {n : UInt32} {o : Option Scalar} (hs : Orderly ((n, o) :: fs)) :
    ∀ p ∈ entries fs, key n < p.1 := by
  intro p hp
  obtain ⟨f, hf, k, -, rfl⟩ := mem_entries hp
  exact hs.above f hf

lemma Orderly.lookup {n : UInt32} {o : Option Scalar} (hs : Orderly ((n, o) :: fs)) :
    (entries ((n, o) :: fs)).lookup (key n) = o.map .scalar := by
  cases o with
  | none => exact lookup_of_lt hs.entries_above
  | some k => exact List.lookup_cons_self

lemma Orderly.filter {n : UInt32} {o : Option Scalar} (hs : Orderly ((n, o) :: fs)) :
    (entries ((n, o) :: fs)).filter (key n < ·.1) = entries fs := by
  cases o with
  | none => exact filter_of_lt hs.entries_above
  | some k =>
    have hn : ¬key n < key n := irrefl_of (· < ·) (key n)
    exact (List.filter_cons_of_neg (by simpa using hn)).trans (filter_of_lt hs.entries_above)

lemma takes_field {f : Item → Except Cbor.Error α} {g : α → Scalar} (hf : ∀ a, f (.scalar (g a)) = .ok a)
    {n : UInt32} {x : Option α} : Takes ((n, x.map g) :: fs) fs (field n f) x := by
  intro w b s h
  have hs := h.orderly
  have hw : Walker.Finds (key n) _ s (w.find (key n) b) :=
    h.faces.find fun a ha => h.asked a ha _ List.mem_cons_self
  have ha {w' : Walker} {o : Option Item} {t : Bytes} (hr : w.find (key n) b = .ok ((o, w'), t)) :
      ∀ a ∈ w'.lastAsked, ∀ f ∈ fs, a < key f.1 := by
    rw [Walker.find_asked hr]
    intro a hn
    cases hn
    exact hs.above
  generalize hr : w.find (key n) b = r at hw
  cases hw with
  | @miss w' t hl hw =>
    rw [hs.lookup, Option.map_map, Option.map_eq_none_iff] at hl
    rw [hs.filter] at hw
    subst hl
    exact ⟨w', t, Walk.bind_eq_ok.mpr ⟨none, w', t, liftReader_eq_ok.mpr hr, rfl⟩, hs.tail, hw, ha hr⟩
  | @hit i w' v t u hl hi hw =>
    rw [hs.lookup, Option.map_map] at hl
    obtain ⟨a, rfl, rfl⟩ := Option.map_eq_some_iff.mp hl
    rw [hs.filter] at hw
    obtain ⟨rfl, rfl⟩ := complete_scalar hi
    refine ⟨w', u, Walk.bind_eq_ok.mpr ⟨some _, w', u, liftReader_eq_ok.mpr hr, ?_⟩, hs.tail, hw, ha hr⟩
    refine Walk.bind_eq_ok.mpr ⟨a, w', u, ?_, rfl⟩
    rw [hf]
    rfl

lemma Orderly.wellFormed (hs : Orderly fs) (hl : fs.length < 0x100000000) :
    (Value.map (entries fs)).WellFormed := by
  refine .map ((List.length_filterMap_le _ _).trans_lt hl) (fun p hp => ?_) ?_ fun p hp => ?_
  · obtain ⟨f, -, k, -, rfl⟩ := mem_entries hp
    exact ⟨rfl, trivial⟩
  · rw [entries, List.map_filterMap]
    refine (List.pairwise_filterMap.mpr (hs.ascending.imp fun h k hk l hl => ?_)).isChain
    simp only [Option.map_map, Option.map_eq_some_iff] at hk hl
    obtain ⟨-, -, rfl⟩ := hk
    obtain ⟨-, -, rfl⟩ := hl
    exact key_lt h
  · obtain ⟨f, hf, k, hk, rfl⟩ := mem_entries hp
    exact .scalar (hs.fits f hf k hk)

lemma walk_takes {p : Walk Decoder α} {a : α} (hs : Orderly fs) (hl : fs.length < 0x100000000)
    (hp : Takes fs [] p a) (s : Bytes) :
    walk (UInt32.ofNat (entries fs).length) p (Value.encodePairs (entries fs) ++ s) = .ok (a, s) := by
  have hv := readValue_of_derives (Nat.zero_le maxTags) (hs.wellFormed hl).derives s
  have hw := faces_start (parse_encode_map (entries fs) s) hv
  obtain ⟨w, t, hr, h⟩ := hp _ _ s ⟨hs, hw, fun a ha => by cases ha⟩
  refine (bind_of_ok hr).trans ?_
  cases h.faces with
  | between hn hd =>
    cases hn
    cases hd
    rfl

def fields (p : Parameters) : List (UInt32 × Option Scalar) :=
  [(1, (p.vendorId.map Uuid.bytes).map .bytes), (2, (p.classId.map Uuid.bytes).map .bytes),
    (3, (p.imageDigest.map Digest.encode).map .bytes), (5, p.componentSlot.map key),
    (14, p.imageSize.map key), (18, p.content.map .bytes), (21, p.uri.map .text),
    (22, p.sourceComponent.map key), (24, (p.deviceId.map Uuid.bytes).map .bytes)]

/-- The contents and the name have a length that can be written, and the digest has its algorithm's. -/
structure Fits (p : Parameters) : Prop where
  content : ∀ b ∈ p.content, b.length < 0x100000000
  uri : ∀ t ∈ p.uri, t.length < 0x100000000
  digest : ∀ d ∈ p.imageDigest, d.value.length = d.algorithm.size

lemma fits_map {P : β → Prop} {g : α → β} {x : Option α} (h : ∀ a ∈ x, P (g a)) : ∀ k ∈ x.map g, P k := by
  rintro k hk
  obtain ⟨a, ha, rfl⟩ := Option.map_eq_some_iff.mp hk
  exact h a ha

lemma Fits.orderly {p : Parameters} (h : p.Fits) : Orderly p.fields := by
  have ha : (p.fields.map Prod.fst).Pairwise (· < ·) := by
    have hk : p.fields.map Prod.fst = [1, 2, 3, 5, 14, 18, 21, 22, 24] := rfl
    rw [hk]
    decide
  have hu (x : Option Uuid) : ∀ k ∈ (x.map Uuid.bytes).map Scalar.bytes, k.Fits := by
    refine fits_map (fits_map fun u _ => ?_)
    change u.bytes.length < 0x100000000
    rw [u.size]
    decide
  have hd : ∀ k ∈ (p.imageDigest.map Digest.encode).map Scalar.bytes, k.Fits :=
    fits_map (fits_map fun d hd => Digest.length_encode_lt (h.digest d hd))
  have hn (x : Option UInt32) : ∀ k ∈ x.map key, k.Fits := fits_map fun _ _ => trivial
  have hf : ∀ f ∈ p.fields, ∀ k ∈ f.2, k.Fits := by
    simp only [fields, List.forall_mem_cons]
    exact ⟨hu _, hu _, hd, hn _, hn _, fits_map h.content, fits_map h.uri, hn _, hu _, fun _ h => by cases h⟩
  exact ⟨List.pairwise_map.mp ha, hf⟩

lemma mapM_map {f : β → Decoder α} {g : α → β} {x : Option α} {b : Bytes}
    (h : ∀ a ∈ x, f (g a) b = .ok (a, b)) : (x.map g).mapM f b = .ok (x, b) := by
  cases x with
  | none => rfl
  | some a => exact Decoder.map_of_ok (h a rfl)

lemma parse_encode {p : Parameters} (h : p.Fits) (s : Bytes) :
    parse (.map (UInt32.ofNat (entries p.fields).length)) (Value.encodePairs (entries p.fields) ++ s) =
      .ok (p, s) := by
  have hb {x : Option Bytes} {n : UInt32} {fs : List (UInt32 × Option Scalar)} :
      Takes ((n, x.map .bytes) :: fs) fs (field n Item.toBytes) x := takes_field fun _ => rfl
  have hn {x : Option UInt32} {n : UInt32} {fs : List (UInt32 × Option Scalar)} :
      Takes ((n, x.map key) :: fs) fs (field n Item.toUInt32) x := takes_field fun _ => rfl
  have ht {x : Option Text} {n : UInt32} {fs : List (UInt32 × Option Scalar)} :
      Takes ((n, x.map .text) :: fs) fs (field n Item.toText) x := takes_field fun _ => rfl
  let found : Option Bytes × Option Bytes × Option Bytes × Option Bytes × Parameters :=
    (p.vendorId.map Uuid.bytes, p.classId.map Uuid.bytes, p.imageDigest.map Digest.encode,
      p.deviceId.map Uuid.bytes, { p with vendorId := none, classId := none, imageDigest := none, deviceId := none })
  have hu (u : Uuid) : uuid u.bytes s = .ok (u, s) := by
    simp only [uuid, Uuid.ofBytes?_bytes]
    rfl
  have hd (d : Digest) (hm : d ∈ p.imageDigest) : (liftM (Digest.ofBytes d.encode) : Decoder Digest) s = .ok (d, s) :=
    lift_eq_ok.mpr ⟨Digest.ofBytes_encode (h.digest d hm), rfl⟩
  refine (bind_of_ok (a := UInt32.ofNat (entries p.fields).length) rfl).trans ?_
  refine (bind_of_ok (walk_takes (a := found) h.orderly (show 9 < 0x100000000 by decide) ?_ s)).trans ?_
  · exact hb.bind <| hb.bind <| hb.bind <| hn.bind <| hn.bind <| hb.bind <| ht.bind <| hn.bind <|
      hb.bind <| .pure _
  · refine (bind_of_ok (mapM_map fun u _ => hu u)).trans ((bind_of_ok (mapM_map fun u _ => hu u)).trans ?_)
    exact (bind_of_ok (mapM_map fun u _ => hu u)).trans (bind_of_ok (mapM_map hd))

end Parameters

end Manifest

end Firmware
