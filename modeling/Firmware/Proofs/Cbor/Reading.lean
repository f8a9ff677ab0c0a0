import Firmware.Proofs.Cbor.Grammar

namespace Firmware.Cbor

/-- What a byte string can be read as: an item, what stands behind the opening of an item, elements in
a row, or pairs in a row behind a key. -/
inductive Phrase where
  | item (v : Value)
  | parts (i : Item) (v : Value)
  | elements (vs : List Value)
  | pairs (previous : Option Scalar) (ps : List (Scalar × Value))

inductive Derives (tags : Nat) : Phrase → Bytes → Prop
  | item {i : Item} {v : Value} {t x y : Bytes} :
      Tags tags t → Opening i x → Derives tags (.parts i v) y → Derives tags (.item v) (t ++ (x ++ y))
  | scalar {s : Scalar} : Derives tags (.parts (.scalar s) (.scalar s)) []
  | array {n : UInt32} {vs : List Value} {y : Bytes} :
      vs.length = n.toNat → Derives tags (.elements vs) y → Derives tags (.parts (.array n) (.array vs)) y
  | map {n : UInt32} {ps : List (Scalar × Value)} {y : Bytes} :
      ps.length = n.toNat → Derives tags (.pairs none ps) y → Derives tags (.parts (.map n) (.map ps)) y
  | nil : Derives tags (.elements []) []
  | cons {v : Value} {vs : List Value} {x y : Bytes} :
      Derives tags (.item v) x → Derives tags (.elements vs) y → Derives tags (.elements (v :: vs)) (x ++ y)
  | last {previous : Option Scalar} : Derives tags (.pairs previous []) []
  | pair {previous : Option Scalar} {k : Scalar} {v : Value} {ps : List (Scalar × Value)} {x y z : Bytes} :
      k.isKey → (∀ p ∈ previous, p < k) → Derives tags (.item (.scalar k)) x → Derives tags (.item v) y →
      Derives tags (.pairs (some k) ps) z → Derives tags (.pairs previous ((k, v) :: ps)) (x ++ (y ++ z))

open Decoder

variable {tags : Nat} {b s x : Bytes} {k : Scalar} {v : Value}

lemma derives_scalar :
    Derives tags (.item (.scalar k)) x ↔ ∃ t y, x = t ++ y ∧ Tags tags t ∧ Opening (.scalar k) y := by
  constructor
  · intro h
    cases h with
    | @item i _ t y z ht ho hp =>
      cases hp with
      | scalar => exact ⟨t, y, by rw [List.append_nil], ht, ho⟩
  · rintro ⟨t, y, rfl, ht, ho⟩
    simpa using Derives.item ht ho .scalar

lemma Opening.length_pos {i : Item} (h : Opening i x) : 0 < x.length := by
  have hh {m n : Nat} {b : Bytes} (h : Head m n b) : 0 < b.length := by
    cases h
    exact Nat.succ_pos _
  cases h with
  | unsigned h | negative h | array h | map h => exact hh h
  | bytes h | text h =>
    have := hh h
    simp only [List.length_append]
    omega
  | no | yes | null => exact Nat.succ_pos _

lemma readKey_eq_ok {previous : Option Scalar} :
    readKey previous b = .ok (k, s) ↔
      ∃ x, b = x ++ s ∧ Derives maxTags (.item (.scalar k)) x ∧ k.isKey ∧ ∀ p ∈ previous, p < k := by
  have hlt : (previous.all (compare · k == .lt)) = true ↔ ∀ p ∈ previous, p < k := by
    cases previous with
    | none => simp
    | some p => simp only [Option.all_some, beq_iff_eq, Option.mem_some_iff, forall_eq']; exact Iff.rfl
  constructor
  · intro h
    obtain ⟨i, u, hi, hu⟩ := bind_eq_ok.mp h
    obtain ⟨t, y, hb, ht, ho⟩ := Item.parse_eq_ok.mp hi
    cases i with
    | scalar j =>
      simp only at hu
      split at hu
      · rename_i hj
        cases hu
        rw [Bool.and_eq_true, hlt] at hj
        exact ⟨t ++ y, by rw [hb, List.append_assoc], derives_scalar.mpr ⟨t, y, rfl, ht, ho⟩, hj⟩
      · cases hu
    | array n => cases hu
    | map n => cases hu
  · rintro ⟨x, rfl, hx, hk⟩
    obtain ⟨t, y, rfl, ht, ho⟩ := derives_scalar.mp hx
    refine bind_eq_ok.mpr ⟨.scalar k, s, Item.parse_eq_ok.mpr ⟨t, y, List.append_assoc t y s, ht, ho⟩, ?_⟩
    rw [← hlt, ← Bool.and_eq_true] at hk
    simp only [hk, ↓reduceIte]
    rfl

section Sound

lemma derives_of_foldElements {f : List Value → Item → Reader (List Value)}
    (hf : ∀ us i b ws s, f us i b = .ok (ws, s) →
      ∃ v y, ws = us ++ [v] ∧ b = y ++ s ∧ Derives maxTags (.parts i v) y)
    {n : Nat} {us ws : List Value} (h : foldElements f n us b = .ok (ws, s)) :
    ∃ vs y, ws = us ++ vs ∧ vs.length = n ∧ b = y ++ s ∧ Derives maxTags (.elements vs) y := by
  induction n generalizing us b with
  | zero =>
    cases h
    exact ⟨[], [], (List.append_nil _).symm, rfl, rfl, .nil⟩
  | succ n ih =>
    obtain ⟨i, c, hi, hc⟩ := bind_eq_ok.mp h
    obtain ⟨us', d, hd, hn⟩ := bind_eq_ok.mp hc
    obtain ⟨t, x, hb, ht, ho⟩ := Item.parse_eq_ok.mp hi
    obtain ⟨v, y, hv, hy, hp⟩ := hf us i c us' d hd
    obtain ⟨vs, z, hw, hl, hz, hs⟩ := ih hn
    refine ⟨v :: vs, _, ?_, congrArg (· + 1) hl, ?_, .cons (.item ht ho hp) hs⟩
    · simp [hw, hv]
    · simp [hb, hy, hz]

lemma derives_of_foldPairs {f : List (Scalar × Value) → Scalar → Item → Reader (List (Scalar × Value))}
    (hf : ∀ qs k i b ps s, f qs k i b = .ok (ps, s) →
      ∃ v y, ps = qs ++ [(k, v)] ∧ b = y ++ s ∧ Derives maxTags (.parts i v) y)
    {n : Nat} {previous : Option Scalar} {qs rs : List (Scalar × Value)}
    (h : foldPairs f n previous qs b = .ok (rs, s)) :
    ∃ ps y, rs = qs ++ ps ∧ ps.length = n ∧ b = y ++ s ∧ Derives maxTags (.pairs previous ps) y := by
  induction n generalizing previous qs b with
  | zero =>
    cases h
    exact ⟨[], [], (List.append_nil _).symm, rfl, rfl, .last⟩
  | succ n ih =>
    obtain ⟨k, c, hk, hc⟩ := bind_eq_ok.mp h
    obtain ⟨i, d, hi, hd⟩ := bind_eq_ok.mp hc
    obtain ⟨qs', e, he, hn⟩ := bind_eq_ok.mp hd
    obtain ⟨w, hw, hkey, hkk, hlt⟩ := readKey_eq_ok.mp hk
    obtain ⟨t, x, hx, ht, ho⟩ := Item.parse_eq_ok.mp hi
    obtain ⟨v, y, hv, hy, hp⟩ := hf qs k i d qs' e he
    obtain ⟨ps, z, hr, hl, hz, hs⟩ := ih hn
    refine ⟨(k, v) :: ps, _, ?_, congrArg (· + 1) hl, ?_, .pair hkk hlt hkey (.item ht ho hp) hs⟩
    · simp [hr, hv]
    · simp [hw, hx, hy, hz]

lemma Item.derives_of_completeTo {depth : Nat} {i : Item} (h : i.completeTo depth b = .ok (v, s)) :
    ∃ y, b = y ++ s ∧ Derives maxTags (.parts i v) y := by
  induction depth generalizing i b v s with
  | zero =>
    cases i with
    | scalar k =>
      cases h
      exact ⟨[], rfl, .scalar⟩
    | array n => cases h
    | map n => cases h
  | succ depth ih =>
    cases i with
    | scalar k =>
      cases h
      exact ⟨[], rfl, .scalar⟩
    | array n =>
      simp only [completeTo] at h
      obtain ⟨vs, hf, rfl⟩ := map_eq_ok.mp h
      obtain ⟨us, y, rfl, hl, hy, hd⟩ := derives_of_foldElements (fun us i b ws s hb => by
        obtain ⟨v, t, hv, ht⟩ := bind_eq_ok.mp hb
        cases ht
        obtain ⟨y, hy, hd⟩ := ih hv
        exact ⟨v, y, rfl, hy, hd⟩) hf
      exact ⟨y, hy, .array hl hd⟩
    | map n =>
      simp only [completeTo] at h
      obtain ⟨ps, hf, rfl⟩ := map_eq_ok.mp h
      obtain ⟨qs, y, rfl, hl, hy, hd⟩ := derives_of_foldPairs (fun us k i b ws s hb => by
        obtain ⟨v, t, hv, ht⟩ := bind_eq_ok.mp hb
        cases ht
        obtain ⟨y, hy, hd⟩ := ih hv
        exact ⟨v, y, rfl, hy, hd⟩) hf
      exact ⟨y, hy, .map hl hd⟩

end Sound

section Complete

/-- Reading gives what the phrase says and stops behind it, as soon as the depth can bear it. -/
def Reads (x : Bytes) : Phrase → Prop
  | .item v => ∀ d s, x.length ≤ d → (do (← Item.parse).completeTo d : Reader Value) (x ++ s) = .ok (v, s)
  | .parts i v => ∀ d s, x.length < d → i.completeTo d (x ++ s) = .ok (v, s)
  | .elements vs => ∀ d us s, x.length ≤ d →
      foldElements (m := Reader) (fun vs i => do return vs ++ [← i.completeTo d]) vs.length us (x ++ s) =
        .ok (us ++ vs, s)
  | .pairs previous ps => ∀ d qs s, x.length ≤ d →
      foldPairs (m := Reader) (fun ps k i => do return ps ++ [(k, ← i.completeTo d)]) ps.length previous
        qs (x ++ s) = .ok (qs ++ ps, s)

lemma Derives.reads {p : Phrase} (h : Derives maxTags p x) : Reads x p := by
  induction h with
  | @item i v t x y ht ho _ ih =>
    intro d s hd
    -- The opening takes a byte at least, and that pays for the level its parts are read at.
    have hx := ho.length_pos
    simp only [List.length_append] at hd
    exact bind_eq_ok.mpr ⟨i, y ++ s, Item.parse_eq_ok.mpr ⟨t, x, by simp, ht, ho⟩, ih d s (by omega)⟩
  | scalar =>
    intro d s _
    cases d <;> rfl
  | @array n vs y hn _ ih =>
    intro d s hd
    cases d with
    | zero => cases hd
    | succ d =>
      have hf := ih d [] s (Nat.le_of_lt_succ hd)
      rw [hn] at hf
      exact map_of_ok hf
  | @map n ps y hn _ ih =>
    intro d s hd
    cases d with
    | zero => cases hd
    | succ d =>
      have hf := ih d [] s (Nat.le_of_lt_succ hd)
      rw [hn] at hf
      exact map_of_ok hf
  | nil =>
    intro d us s _
    rw [List.append_nil]
    rfl
  | @cons v vs x y _ _ ihv ih =>
    intro d us s hd
    simp only [List.length_append] at hd
    obtain ⟨i, c, hi, hc⟩ := bind_eq_ok.mp (ihv d (y ++ s) (by omega))
    have hs := ih d (us ++ [v]) s (by omega)
    rw [List.append_assoc, List.singleton_append] at hs
    rw [List.append_assoc]
    exact bind_eq_ok.mpr ⟨i, c, hi, bind_eq_ok.mpr ⟨us ++ [v], y ++ s, bind_eq_ok.mpr ⟨v, y ++ s, hc, rfl⟩, hs⟩⟩
  | last =>
    intro d qs s _
    rw [List.append_nil]
    rfl
  | @pair previous k v ps x y z hk hlt hx _ _ _ ihv ih =>
    intro d qs s hd
    simp only [List.length_append] at hd
    have hr : readKey previous (x ++ (y ++ (z ++ s))) = .ok (k, y ++ (z ++ s)) :=
      readKey_eq_ok.mpr ⟨x, rfl, hx, hk, hlt⟩
    obtain ⟨i, c, hi, hc⟩ := bind_eq_ok.mp (ihv d (z ++ s) (by omega))
    have hs := ih d (qs ++ [(k, v)]) s (by omega)
    rw [List.append_assoc, List.singleton_append] at hs
    rw [List.append_assoc, List.append_assoc]
    refine bind_eq_ok.mpr ⟨k, _, hr, bind_eq_ok.mpr ⟨i, c, hi, bind_eq_ok.mpr ?_⟩⟩
    exact ⟨qs ++ [(k, v)], z ++ s, bind_eq_ok.mpr ⟨v, z ++ s, hc, rfl⟩, hs⟩

end Complete

section Depth

variable {α β ε : Type}

lemma Decoder.bind_congr {f f' : Decoder ε α} {g g' : α → Decoder ε β} {b : Bytes} (hf : f b = f' b)
    (hg : ∀ a t, f' b = .ok (a, t) → g a t = g' a t) : (f >>= g) b = (f' >>= g') b := by
  change (f b >>= fun p => g p.1 p.2) = (f' b >>= fun p => g' p.1 p.2)
  rw [hf]
  cases h : f' b with
  | error e => rfl
  | ok p => exact hg p.1 p.2 h

lemma Decoder.map_congr {f f' : Decoder ε α} {b : Bytes} (g : α → β) (h : f b = f' b) :
    (g <$> f) b = (g <$> f') b :=
  bind_congr (g := fun a => pure (g a)) h fun _ _ _ => rfl

lemma foldElements_congr {f g : β → Item → Reader β} {l : Nat}
    (h : ∀ a i s, s.length < l → f a i s = g a i s) (hg : ∀ a i, Steady (g a i)) (n : Nat) (a : β)
    (hb : b.length ≤ l) : foldElements f n a b = foldElements g n a b := by
  induction n generalizing a b with
  | zero => rfl
  | succ n ih =>
    refine bind_congr rfl fun i t hi => ?_
    have hl := Item.length_lt_of_parse hi
    refine bind_congr (h a i t (by omega)) fun c u hu => ih c ?_
    have hle := (hg a i t c u hu).1.length_le
    omega

lemma foldPairs_congr {f g : β → Scalar → Item → Reader β} {l : Nat}
    (h : ∀ a k i s, s.length < l → f a k i s = g a k i s) (hg : ∀ a k i, Steady (g a k i)) (n : Nat)
    (previous : Option Scalar) (a : β) (hb : b.length ≤ l) :
    foldPairs f n previous a b = foldPairs g n previous a b := by
  induction n generalizing previous a b with
  | zero => rfl
  | succ n ih =>
    refine bind_congr rfl fun k t hk => bind_congr rfl fun i u hi => ?_
    have hkl := (steady_readKey previous b k t hk).1.length_le
    have hl := Item.length_lt_of_parse hi
    refine bind_congr (h a k i u (by omega)) fun c w hw => ih (some k) c ?_
    have hle := (hg a k i u c w hw).1.length_le
    omega

lemma Item.completeTo_eq {d d' : Nat} (i : Item) (h : b.length < d) (h' : b.length < d') :
    i.completeTo d b = i.completeTo d' b := by
  induction d generalizing d' i b with
  | zero => cases h
  | succ d ih =>
    cases d' with
    | zero => cases h'
    | succ d' =>
      have hb : b.length ≤ min d d' := by omega
      cases i with
      | scalar k => rfl
      | array n =>
        simp only [completeTo]
        refine map_congr _ (foldElements_congr ?_ ?_ n.toNat [] hb)
        · exact fun us j s hs => bind_congr (ih j (by omega) (by omega)) fun _ _ _ => rfl
        · exact fun us j => .bind (steady_completeTo d' j) fun _ => .pure _
      | map n =>
        simp only [completeTo]
        refine map_congr _ (foldPairs_congr ?_ ?_ n.toNat none [] hb)
        · exact fun us k j s hs => bind_congr (ih j (by omega) (by omega)) fun _ _ _ => rfl
        · exact fun us k j => .bind (steady_completeTo d' j) fun _ => .pure _

end Depth

def readValue : Reader Value := do (← Item.parse).complete

lemma readValue_eq_ok :
    readValue b = .ok (v, s) ↔ ∃ x, b = x ++ s ∧ Derives maxTags (.item v) x := by
  constructor
  · intro h
    obtain ⟨i, c, hi, hc⟩ := bind_eq_ok.mp h
    obtain ⟨t, x, hb, ht, ho⟩ := Item.parse_eq_ok.mp hi
    obtain ⟨y, hy, hp⟩ := Item.derives_of_completeTo hc
    exact ⟨_, by simp [hb, hy], .item ht ho hp⟩
  · rintro ⟨x, rfl, h⟩
    obtain ⟨i, c, hi, hc⟩ := bind_eq_ok.mp (h.reads (x ++ s).length s (by simp))
    have hl := Item.length_lt_of_parse hi
    exact bind_eq_ok.mpr ⟨i, c, hi, (i.completeTo_eq (Nat.lt_succ_self _) hl).trans hc⟩

lemma spanned_eq_ok {α : Type} {r : Reader α} {a : α} :
    Reader.spanned r b = .ok ((x, a), s) ↔ r b = .ok (a, s) ∧ x = b.take (b.length - s.length) := by
  simp only [Reader.spanned]
  constructor
  · intro h
    obtain ⟨⟨c, t⟩, hc, ht⟩ := Except.bind_eq_ok.mp h
    cases ht
    exact ⟨hc, rfl⟩
  · rintro ⟨h, rfl⟩
    exact Except.bind_eq_ok.mpr ⟨(a, s), h, rfl⟩

lemma readRaw_eq_ok :
    readRaw b = .ok (x, s) ↔ b = x ++ s ∧ ∃ v, Derives maxTags (.item v) x := by
  have hr {u : Unit} : (do (← Item.parse).ignore : Reader Unit) b = .ok (u, s) ↔
      ∃ v, readValue b = .ok (v, s) := by
    constructor
    · intro h
      obtain ⟨i, c, hi, hc⟩ := bind_eq_ok.mp h
      obtain ⟨v, hv⟩ := Item.ignore_eq_ok.mp hc
      exact ⟨v, bind_eq_ok.mpr ⟨i, c, hi, hv⟩⟩
    · rintro ⟨v, h⟩
      obtain ⟨i, c, hi, hc⟩ := bind_eq_ok.mp h
      exact bind_eq_ok.mpr ⟨i, c, hi, Item.ignore_eq_ok.mpr ⟨v, hc⟩⟩
  have hx {y : Bytes} (h : b = y ++ s) : b.take (b.length - s.length) = y := by
    simp [h]
  constructor
  · intro h
    obtain ⟨⟨w, u⟩, t, hs, ht⟩ := bind_eq_ok.mp h
    obtain ⟨hu, rfl⟩ := spanned_eq_ok.mp hs
    cases ht
    obtain ⟨v, hv⟩ := hr.mp hu
    obtain ⟨y, hy, hd⟩ := readValue_eq_ok.mp hv
    rw [hx hy]
    exact ⟨hy, v, hd⟩
  · rintro ⟨hb, v, hd⟩
    have hv := (hr (u := ())).mpr ⟨v, readValue_eq_ok.mpr ⟨x, hb, hd⟩⟩
    exact bind_eq_ok.mpr ⟨(x, ()), s, spanned_eq_ok.mpr ⟨hv, (hx hb).symm⟩, rfl⟩

lemma itemLength_eq_ok {n : Nat} :
    itemLength b = .ok n ↔ n ≤ b.length ∧ ∃ v, Derives maxTags (.item v) (b.take n) := by
  simp only [itemLength]
  constructor
  · intro h
    obtain ⟨⟨x, s⟩, hx, hn⟩ := Except.bind_eq_ok.mp h
    obtain ⟨rfl, hd⟩ := readRaw_eq_ok.mp hx
    cases hn
    simpa using hd
  · rintro ⟨hn, hd⟩
    have hx := readRaw_eq_ok.mpr ⟨(List.take_append_drop n b).symm, hd⟩
    exact Except.bind_eq_ok.mpr ⟨_, hx, congrArg Except.ok (List.length_take_of_le hn)⟩

lemma Derives.unique {x y t : Bytes} {w : Value} (hx : Derives maxTags (.item v) x)
    (hy : Derives maxTags (.item w) y) (h : x ++ s = y ++ t) : x = y ∧ v = w := by
  have hv : readValue (x ++ s) = .ok (v, s) := readValue_eq_ok.mpr ⟨x, rfl, hx⟩
  have hw : readValue (x ++ s) = .ok (w, t) := readValue_eq_ok.mpr ⟨y, h, hy⟩
  cases hv.symm.trans hw
  exact ⟨List.append_cancel_right h, rfl⟩

/-- Exactly the grammar is accepted. No input starts with two items, and reading goes no deeper than
there are bytes. -/
theorem itemLength_grammar :
    (∀ (b : Bytes) n, itemLength b = .ok n ↔ n ≤ b.length ∧ ∃ v, Derives maxTags (.item v) (b.take n)) ∧
      (∀ (b : Bytes) n m v w, n ≤ b.length → m ≤ b.length → Derives maxTags (.item v) (b.take n) →
        Derives maxTags (.item w) (b.take m) → n = m ∧ v = w) ∧
      ∀ (i : Item) (b : Bytes) d, b.length < d → i.completeTo d b = i.complete b := by
  refine ⟨fun b n => itemLength_eq_ok, ?_, ?_⟩
  · intro b n m v w hn hm hv hw
    have h : b.take n ++ b.drop n = b.take m ++ b.drop m := by simp
    obtain ⟨hl, rfl⟩ := hv.unique hw h
    have hl := congrArg List.length hl
    rw [List.length_take_of_le hn, List.length_take_of_le hm] at hl
    exact ⟨hl, rfl⟩
  · intro i b d hd
    exact i.completeTo_eq hd (Nat.lt_succ_self _)

theorem itemLength_grammar_taggedMap :
    let b : Bytes := [0xc1, 0xa2, 0x01, 0x82, 0xf5, 0xf6, 0x61, 0x41, 0x20, 0xff]
    (∃ v, Derives maxTags (.item v) (b.take 9)) ∧
      (∀ m w, m ≤ b.length → Derives maxTags (.item w) (b.take m) → 9 = m) ∧
      (Item.map 2).completeTo 9 (b.drop 2) = (Item.map 2).complete (b.drop 2) := by
  intro b
  have hl : itemLength b = .ok 9 := by decide +kernel
  obtain ⟨h9, v, hv⟩ := (itemLength_grammar.1 b 9).mp hl
  refine ⟨⟨v, hv⟩, fun m w hm hw => ?_, ?_⟩
  · exact (itemLength_grammar.2.1 b 9 m v w h9 hm hv hw).1
  · exact itemLength_grammar.2.2 (.map 2) (b.drop 2) 9 (by decide)

end Firmware.Cbor
