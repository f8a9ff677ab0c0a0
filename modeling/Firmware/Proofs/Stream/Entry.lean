import Firmware.Proofs.Cbor.Grammar
import Firmware.Proofs.Flash.Programming
import Firmware.Stream.Cache

/-!
Entries of the payload cache. Whole entries are read back one after the other, and an entry whose
length is still erased is not well formed, wherever its writing was broken off.
-/

namespace Firmware

namespace Utf8

lemma ne_of_continuation {b : UInt8} (h : continuation b = true) : 0xff ≠ b := by
  rintro rfl
  exact absurd h (by decide)

lemma ne_of_second3 {a b : UInt8} (h : second3 a b = true) : 0xff ≠ b := by
  rintro rfl
  simp [second3, continuation] at h

lemma ne_of_second4 {a b : UInt8} (h : second4 a b = true) : 0xff ≠ b := by
  rintro rfl
  simp [second4, continuation] at h

lemma notMem_of_valid {b : Bytes} (h : valid b = true) : 0xff ∉ b := by
  fun_induction valid b with
  | case1 => exact List.not_mem_nil
  | case2 a s ha ih =>
    have hne : 0xff ≠ a := by
      rintro rfl
      exact absurd ha (by decide)
    simpa using ⟨hne, ih h⟩
  | case3 a ha hl b s ih =>
    have hne : 0xff ≠ a := by
      rintro rfl
      exact absurd hl (by decide)
    rw [Bool.and_eq_true] at h
    simpa using ⟨hne, ne_of_continuation h.1, ih h.2⟩
  | case5 a ha _ hl b c s ih =>
    have hne : 0xff ≠ a := by
      rintro rfl
      exact absurd hl (by decide)
    simp only [Bool.and_eq_true] at h
    simpa using ⟨hne, ne_of_second3 h.1.1, ne_of_continuation h.1.2, ih h.2⟩
  | case7 a ha _ _ hl b c d s ih =>
    have hne : 0xff ≠ a := by
      rintro rfl
      exact absurd hl (by decide)
    simp only [Bool.and_eq_true] at h
    simpa using ⟨hne, ne_of_second4 h.1.1.1, ne_of_continuation h.1.1.2, ne_of_continuation h.1.2, ih h.2⟩
  | case4 | case6 | case8 | case9 => cases h

end Utf8

namespace Cbor

lemma parse_text {n : UInt32} {s r : Bytes} {i : Item} :
    Item.parse (encodeHead 3 n ++ s) = .ok (i, r) ↔
      ∃ t, readText n.toNat s = .ok (t, r) ∧ i = .scalar (.text t) := by
  have hu : Item.untagged? (encodeHead 3 n ++ s) = (some <$> Item.ofHead 3 n : Reader (Option Item)) s :=
    Item.untagged?_head (by decide) (head_encodeHead (by decide : 3 < 8) n) s
  constructor
  · intro h
    obtain ⟨o, u, ho, hr⟩ := Decoder.bind_eq_ok.mp h
    obtain ⟨j, hj, rfl⟩ := Decoder.map_eq_ok.mp (hu.symm.trans ho)
    obtain ⟨t, z, ht, hz⟩ := Decoder.bind_eq_ok.mp hj
    cases hz
    cases hr
    exact ⟨t, ht, rfl⟩
  · rintro ⟨t, ht, rfl⟩
    have hp : Item.ofHead 3 n s = .ok (.scalar (.text t), r) := Decoder.bind_of_ok ht
    exact Decoder.bind_eq_ok.mpr ⟨_, _, hu.trans (Decoder.map_of_ok hp), rfl⟩

end Cbor

namespace Cache

open Cbor Flash

def key (name : Text) : Bytes := encodeHead 3 (UInt32.ofNat name.length) ++ name.bytes

def entry (e : Text × Bytes) : Bytes := key e.1 ++ longHead e.2.length ++ e.2

structure Proper (e : Text × Bytes) : Prop where
  name : e.1.length ≤ maxName
  payload : e.2.length < 0x100000000

variable {name : Text} {e : Text × Bytes}

lemma toNat_length (h : name.length ≤ maxName) :
    (UInt32.ofNat name.length).toNat = name.length := by
  simp only [maxName] at h
  simp only [UInt32.toNat_ofNat']
  omega

lemma parse_key (h : name.length ≤ maxName) (s : Bytes) :
    Item.parse (key name ++ s) = .ok (.scalar (.text name), s) := by
  have hn := toNat_length h
  rw [key, List.append_assoc, parse_text]
  exact ⟨name, readText_eq_ok.mpr ⟨hn.symm, rfl⟩, rfl⟩

lemma Proper.readEntry (h : Proper e) (s : Bytes) : readEntry (entry e ++ s) = .ok (e, s) := by
  have hl : (longHead e.2.length).length = 5 := rfl
  have hn : Bytes.toNatBe (longHead e.2.length).tail = e.2.length := by
    have hp := h.payload
    change Bytes.toNatBe (Bytes.be32 (UInt32.ofNat e.2.length)) = _
    rw [Bytes.toNatBe_be32, UInt32.toNat_ofNat']
    omega
  have hk := parse_key h.name (longHead e.2.length ++ (e.2 ++ s))
  have ha : entry e ++ s = key e.1 ++ (longHead e.2.length ++ (e.2 ++ s)) := by
    simp only [entry, List.append_assoc]
  rw [ha]
  refine Decoder.bind_eq_ok.mpr ⟨_, _, hk, Decoder.bind_eq_ok.mpr ⟨e.1, _, rfl, ?_⟩⟩
  refine Decoder.bind_eq_ok.mpr ⟨_, _, Reader.take_eq_ok.mpr ⟨hl, rfl⟩, ?_⟩
  refine Decoder.bind_eq_ok.mpr ⟨e.2, s, Reader.take_eq_ok.mpr ⟨hn.symm, rfl⟩, rfl⟩

def opening (name : Text) : Bytes := key name ++ longBytes :: Bytes.erased 4

lemma mem_erased {x : UInt8} {n : Nat} (h : x ∈ Bytes.erased n) : x = 0xff := List.eq_of_mem_replicate h

lemma take_erased_length {t x hd s : Bytes} {k : Nat} (ht : t <+: Bytes.erased 4 ++ x)
    (hs : t ++ Bytes.erased k = hd ++ s) (hl : hd.length = 4) : hd = Bytes.erased 4 := by
  have hd : hd = t.take 4 ++ (Bytes.erased k).take (4 - t.length) := by
    have h := congrArg (List.take 4) hs
    rwa [List.take_append, List.take_left' hl, eq_comm] at h
  refine List.eq_replicate_iff.mpr ⟨hl, fun y hy => ?_⟩
  rw [hd, List.mem_append] at hy
  rcases hy with hy | hy
  · have hp : t.take 4 <+: Bytes.erased 4 := by
      refine List.prefix_of_prefix_length_le ((List.take_prefix 4 t).trans ht)
        (List.prefix_append _ x) ?_
      simp only [List.length_take, Bytes.length_erased]
      omega
    exact mem_erased (hp.subset hy)
  · exact mem_erased (List.mem_of_mem_take hy)

lemma readText_torn {t r : Bytes} {n k : Nat} {u : Text} (ht : t.length < n) :
    readText n (t ++ Bytes.erased k) ≠ .ok (u, r) := by
  intro h
  obtain ⟨hn, hs⟩ := readText_eq_ok.mp h
  have hm := Utf8.notMem_of_valid u.valid
  rw [Text.length] at hn
  have hu : u.bytes = t ++ (Bytes.erased k).take (n - t.length) := by
    have h := congrArg (List.take n) hs
    rwa [List.take_append, List.take_of_length_le (Nat.le_of_lt ht), List.take_left' hn,
      eq_comm] at h
  have hl := congrArg List.length hu
  simp only [List.length_append, List.length_take, Bytes.length_erased, hn] at hl
  refine hm (hu ▸ List.mem_append_right t ?_)
  obtain ⟨m, hm⟩ : ∃ m, min (n - t.length) k = m + 1 := ⟨min (n - t.length) k - 1, by omega⟩
  simp only [Bytes.erased, List.take_replicate, hm]
  exact List.mem_cons_self

variable {t x : Bytes} {k : Nat}

lemma parse_torn {i : Item} {r : Bytes} (hn : name.length ≤ maxName) (ht : t <+: key name)
    (hl : t.length < (key name).length) (h0 : t ≠ []) : Item.parse (t ++ Bytes.erased k) ≠ .ok (i, r) := by
  intro h
  have hm := toNat_length hn
  have hb : (UInt32.ofNat name.length).toNat < 0x100 := by
    simp only [maxName] at hn
    omega
  have hp : encodeHead 3 (UInt32.ofNat name.length) <+: key name := List.prefix_append _ _
  by_cases hh : (encodeHead 3 (UInt32.ofNat name.length)).length ≤ t.length
  · obtain ⟨u, rfl⟩ := List.prefix_of_prefix_length_le hp ht hh
    rw [List.append_assoc, parse_text, hm] at h
    obtain ⟨v, hv, -⟩ := h
    refine readText_torn ?_ hv
    have hu : u.length < name.bytes.length := by
      simp only [key, List.length_append] at hl
      omega
    exact hu
  · -- Only the first of two bytes of the head is left, and the other reads as 255.
    have he : encodeHead 3 (UInt32.ofNat name.length) = [0x78, UInt8.ofNat name.length] := by
      have h1 := List.length_pos_iff.mpr h0
      rw [encodeHead, hm] at hh ⊢
      split at hh
      · simp only [List.length_singleton] at hh
        omega
      · rename_i hlt
        rw [if_neg hlt, if_pos (hm ▸ hb)]
        rfl
    have ht : t = [0x78] := by
      obtain ⟨y, t, rfl⟩ := List.exists_cons_of_ne_nil h0
      rw [he] at hh
      rw [key, he] at ht
      obtain ⟨rfl, ht⟩ := List.cons_prefix_cons.mp ht
      simp only [List.length_cons, List.length_nil] at hh
      rw [List.length_eq_zero_iff.mp (show t.length = 0 by omega)]
    subst ht
    cases k with
    | zero => cases h
    | succ k =>
      have hk : [0x78] ++ Bytes.erased (k + 1) = encodeHead 3 255 ++ ([] ++ Bytes.erased k) := rfl
      rw [hk, parse_text] at h
      obtain ⟨v, hv, -⟩ := h
      exact readText_torn (by decide) hv

lemma readEntry_torn {r : Bytes} (hn : name.length ≤ maxName) (ht : t <+: opening name ++ x)
    (h0 : t ≠ []) (hk : (t ++ Bytes.erased k).length < 0x100000000) :
    readEntry (t ++ Bytes.erased k) ≠ .ok (e, r) := by
  intro h
  obtain ⟨i, s, hi, h⟩ := Decoder.bind_eq_ok.mp h
  rw [opening, List.append_assoc] at ht
  by_cases hl : t.length < (key name).length
  · exact parse_torn hn (List.prefix_of_prefix_length_le ht (List.prefix_append _ _) (Nat.le_of_lt hl))
      hl h0 hi
  · obtain ⟨u, rfl⟩ := List.prefix_of_prefix_length_le (List.prefix_append _ _) ht (Nat.not_lt.mp hl)
    rw [List.prefix_append_right_inj] at ht
    rw [List.append_assoc, parse_key hn] at hi
    cases hi
    obtain ⟨v, s', hv, h⟩ := Decoder.bind_eq_ok.mp h
    cases hv
    obtain ⟨hd, s, hh, h⟩ := Decoder.bind_eq_ok.mp h
    obtain ⟨h5, hs⟩ := Reader.take_eq_ok.mp hh
    split at h
    · rename_i hlong
      obtain ⟨p, s', hp, h⟩ := Decoder.bind_eq_ok.mp h
      obtain ⟨hpl, rfl⟩ := Reader.take_eq_ok.mp hp
      obtain ⟨hd, rfl⟩ : ∃ d, hd = longBytes :: d := by
        cases hd with
        | nil => cases h5
        | cons y d => exact ⟨d, by rw [Option.some.inj hlong]⟩
      have h4 : hd.length = 4 := Nat.succ.inj h5
      cases u with
      | nil =>
        have hm : longBytes ∈ Bytes.erased k := by
          rw [List.nil_append] at hs
          exact hs ▸ List.mem_cons_self
        exact absurd (mem_erased hm) (by decide)
      | cons y u =>
        obtain ⟨rfl, hu⟩ := List.cons_prefix_cons.mp ht
        rw [List.cons_append, List.cons_append] at hs
        obtain ⟨-, hs⟩ := List.cons.inj hs
        have he := take_erased_length hu hs h4
        have hb : Bytes.toNatBe (Bytes.erased 4) = 0xffffffff := by decide
        have hlen := congrArg List.length hs
        rw [List.tail_cons, he, hb] at hpl
        simp only [List.length_append, List.length_cons] at hlen hk
        omega
    · cases h

lemma key_eq_cons (name : Text) : ∃ y b, key name = y :: b ∧ y ≠ mapEnd := by
  have hh := head_encodeHead (by decide : 3 < 8) (UInt32.ofNat name.length)
  generalize he : encodeHead (UInt8.ofNat 3) (UInt32.ofNat name.length) = h at hh
  cases hh with
  | @mk info b ha =>
    have hi := ha.lt.1
    refine ⟨_, b ++ name.bytes, congrArg (· ++ name.bytes) he, fun hm => ?_⟩
    have hm := congrArg UInt8.toNat hm
    simp only [UInt8.toNat_ofNat', mapEnd, UInt8.reduceToNat] at hm
    omega

lemma scanEntries_cons {y : UInt8} {s : Bytes} (hy : y ≠ mapEnd) (fuel offset : Nat) :
    scanEntries (fuel + 1) offset (y :: s) =
      match readEntry (y :: s) with
      | .ok (e, t) =>
        let (es, tail) := scanEntries fuel (offset + ((y :: s).length - t.length)) t
        (e :: es, tail)
      | .error _ => ([], .dirty offset) := by
  rw [scanEntries]
  exact if_neg hy

lemma Proper.scanEntries (h : Proper e) (fuel offset : Nat) (s : Bytes) :
    scanEntries (fuel + 1) offset (entry e ++ s) =
      (e :: (Cache.scanEntries fuel (offset + (entry e).length) s).1,
        (Cache.scanEntries fuel (offset + (entry e).length) s).2) := by
  obtain ⟨y, b, hk, hy⟩ := key_eq_cons e.1
  have he : entry e ++ s = y :: (b ++ longHead e.2.length ++ e.2 ++ s) := by
    simp only [entry, hk, List.cons_append, List.append_assoc]
  have hr := h.readEntry s
  have hl : (entry e ++ s).length - s.length = (entry e).length := by
    rw [List.length_append, Nat.add_sub_cancel]
  rw [he] at hr hl ⊢
  rw [scanEntries_cons hy, hr]
  simp only [hl]

lemma scanEntries_append {es : List (Text × Bytes)} (h : ∀ e ∈ es, Proper e)
    (fuel offset : Nat) (s : Bytes) :
    scanEntries (es.length + fuel) offset (es.flatMap entry ++ s) =
      (es ++ (scanEntries fuel (offset + (es.flatMap entry).length) s).1,
        (scanEntries fuel (offset + (es.flatMap entry).length) s).2) := by
  induction es generalizing offset with
  | nil => simp
  | cons e es ih =>
    obtain ⟨he, hes⟩ := List.forall_mem_cons.mp h
    have hf : (e :: es).length + fuel = es.length + fuel + 1 := by
      simp only [List.length_cons]
      omega
    have ho : offset + ((e :: es).flatMap entry).length =
        offset + (entry e).length + (es.flatMap entry).length := by
      simp only [List.flatMap_cons, List.length_append]
      omega
    rw [hf, ho, List.flatMap_cons, List.append_assoc, he.scanEntries, ih hes]
    rfl

lemma scanEntries_torn (hn : name.length ≤ maxName) (ht : t <+: opening name ++ x)
    (hk : (t ++ Bytes.erased k).length < 0x100000000) (fuel offset : Nat) :
    scanEntries (fuel + 1) offset (t ++ Bytes.erased k) =
      ([], if t = [] then .free offset else .dirty offset) := by
  by_cases h0 : t = []
  · subst h0
    rw [List.nil_append, if_pos rfl]
    cases k with
    | zero => rfl
    | succ k => rfl
  · obtain ⟨y, u, rfl⟩ := List.exists_cons_of_ne_nil h0
    obtain ⟨z, b, hz, hne⟩ := key_eq_cons name
    have hy : y = z := by
      rw [opening, hz] at ht
      exact (List.cons_prefix_cons.mp ht).1
    subst hy
    rw [if_neg h0, List.cons_append, scanEntries_cons hne, ← List.cons_append]
    cases hr : readEntry (y :: u ++ Bytes.erased k) with
    | ok a => exact absurd hr (readEntry_torn hn ht h0 hk)
    | error e => rfl

/-- The front of a partition: nothing at all, or the start of the map and whole entries. -/
inductive Body : List (Text × Bytes) → Bytes → Prop
  | fresh : Body [] []
  | started {es : List (Text × Bytes)} : (∀ e ∈ es, Proper e) → Body es (mapStart :: es.flatMap entry)

def Unfinished (start : Nat) (t : Bytes) : Prop :=
  ∃ name x, name.length ≤ maxName ∧ t <+: entryHead start name ++ x

inductive Trail : Bytes → Bytes → Tail → Prop
  | free {b : Bytes} : Trail b [] (.free b.length)
  | dirty {b t : Bytes} : b ≠ [] → t ≠ [] → Trail b t (.dirty b.length)
  | freeStart : Trail [] [mapStart] (.free 1)
  | dirtyStart {t : Bytes} : t ≠ [] → Trail [] (mapStart :: t) (.dirty 1)

lemma entryHead_eq (start : Nat) (name : Text) :
    entryHead start name = (if start = 0 then [mapStart] else []) ++ opening name := by
  simp only [entryHead, opening, key, List.append_assoc]

lemma entryHead_split (start : Nat) (name : Text) :
    entryHead start name =
      (if start = 0 then [mapStart] else []) ++ key name ++ [longBytes] ++ Bytes.erased 4 := by
  simp only [entryHead, key, List.append_assoc, List.singleton_append]

lemma Body.append {es es' : List (Text × Bytes)} {b : Bytes} (hb : Body es b) (h : ∀ e ∈ es', Proper e) :
    Body (es ++ es') (b ++ (if b.length = 0 then [mapStart] else []) ++ es'.flatMap entry) := by
  cases hb with
  | fresh => exact .started h
  | started hes =>
    have h0 : (mapStart :: es.flatMap entry).length ≠ 0 := Nat.succ_ne_zero _
    have he : mapStart :: es.flatMap entry ++
        (if (mapStart :: es.flatMap entry).length = 0 then [mapStart] else []) ++ es'.flatMap entry =
        mapStart :: (es ++ es').flatMap entry := by
      rw [if_neg h0, List.append_nil, List.cons_append, ← List.flatMap_append]
    rw [he]
    refine .started fun e hm => ?_
    rcases List.mem_append.mp hm with hm | hm
    · exact hes e hm
    · exact h e hm

lemma length_le_entries (es : List (Text × Bytes)) : es.length ≤ (es.flatMap entry).length := by
  induction es with
  | nil => exact Nat.le_refl 0
  | cons e es ih =>
    have hl : (longHead e.2.length).length = 5 := rfl
    simp only [List.length_cons, List.flatMap_cons, List.length_append, entry, hl]
    omega

variable {es : List (Text × Bytes)} {b : Bytes}

lemma scan_fresh (ht : Unfinished 0 t) (hk : (t ++ Bytes.erased k).length < 0x100000000) :
    ∃ tail, scan (t ++ Bytes.erased k) = ([], tail) ∧ Trail [] t tail := by
  obtain ⟨name, x, hn, ht⟩ := ht
  rw [entryHead_eq, if_pos rfl] at ht
  cases t with
  | nil =>
    refine ⟨.free 0, ?_, .free⟩
    cases k with
    | zero => rfl
    | succ k => rfl
  | cons y u =>
    obtain ⟨rfl, hu⟩ := List.cons_prefix_cons.mp ht
    have hk' : (u ++ Bytes.erased k).length < 0x100000000 := by
      simp only [List.cons_append, List.length_cons] at hk
      omega
    have hs := scanEntries_torn hn hu hk' (u ++ Bytes.erased k).length 1
    have hy : mapStart ≠ mapEnd := by decide
    rw [List.cons_append, scan, if_neg hy, if_pos rfl, hs]
    cases u with
    | nil => exact ⟨_, rfl, .freeStart⟩
    | cons z u => exact ⟨_, rfl, .dirtyStart (List.cons_ne_nil z u)⟩

lemma scan_body (hb : Body es b) (ht : Unfinished b.length t)
    (hk : (b ++ t ++ Bytes.erased k).length < 0x100000000) :
    ∃ tail, scan (b ++ t ++ Bytes.erased k) = (es, tail) ∧ Trail b t tail := by
  cases hb with
  | fresh => exact scan_fresh ht hk
  | started hes =>
    obtain ⟨name, x, hn, ht⟩ := ht
    rw [entryHead_eq, if_neg (by simp), List.nil_append] at ht
    have hy : mapStart ≠ mapEnd := by decide
    have hk' : (t ++ Bytes.erased k).length < 0x100000000 := by
      simp only [List.length_append] at hk ⊢
      omega
    have hfuel : ∃ n, (es.flatMap entry ++ t ++ Bytes.erased k).length + 1 = es.length + (n + 1) := by
      have hle := length_le_entries es
      refine ⟨(es.flatMap entry ++ t ++ Bytes.erased k).length - es.length, ?_⟩
      simp only [List.length_append] at hle ⊢
      omega
    obtain ⟨n, hf⟩ := hfuel
    have hs := scanEntries_append hes (n + 1) 1 (t ++ Bytes.erased k)
    rw [scanEntries_torn hn ht hk', ← hf, ← List.append_assoc] at hs
    rw [List.cons_append, List.cons_append, scan, if_neg hy, if_pos rfl, hs, List.append_nil]
    have hl : 1 + (es.flatMap entry).length = (mapStart :: es.flatMap entry).length := by
      rw [List.length_cons, Nat.add_comm]
    rw [hl]
    by_cases h0 : t = []
    · rw [if_pos h0, h0]
      exact ⟨_, rfl, .free⟩
    · rw [if_neg h0]
      exact ⟨_, rfl, .dirty (List.cons_ne_nil _ _) h0⟩

end Cache

end Firmware
