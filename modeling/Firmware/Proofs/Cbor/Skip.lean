import Firmware.Proofs.Cbor.Extent

namespace Firmware.Cbor

open Decoder

variable {α β : Type}

namespace Walker

def skip (w : Walker) : Reader Unit := w.rest (m := Reader) (fun _ _ i => i.ignore) ()

variable {w w' v : Walker} {key : Scalar} {b b' c : Bytes} {o : Option Item}

def Passes (w : Walker) (b : Bytes) (v : Walker) (c : Bytes) : Prop :=
  ∀ s, v.skip c = .ok ((), s) → w.skip b = .ok ((), s)

lemma Passes.trans (h : Passes w b v c) (h' : Passes v c w' b') : Passes w b w' b' :=
  fun s hs => h s (h' s hs)

def Found (w : Walker) (b : Bytes) : Option Item → Walker → Bytes → Prop
  | none, w', b' => Passes w b w' b'
  | some i, w', b' => ∀ t, i.ignore b' = .ok ((), t) → Passes w b w' t

lemma Passes.found (h : Passes w b v c) (h' : Found v c o w' b') : Found w b o w' b' := by
  cases o with
  | none => exact h.trans h'
  | some i => exact fun t ht => h.trans (h' t ht)

variable {left : Nat} {p q : Option Scalar} {k : Scalar}

lemma passes_pair {i : Item} {t t' : Bytes} (hi : Item.parse b = .ok (i, t))
    (ht : i.ignore t = .ok ((), t')) : Passes ⟨left, p, some k, q⟩ b ⟨left, some k, none, q⟩ t' :=
  fun _ hs => bind_eq_ok.mpr ⟨i, t, hi, bind_eq_ok.mpr ⟨(), t', ht, hs⟩⟩

lemma passes_key {t : Bytes} (hk : readKey p b = .ok (k, t)) :
    Passes ⟨left + 1, p, none, q⟩ b ⟨left, p, some k, q⟩ t :=
  fun _ hs => bind_eq_ok.mpr ⟨k, t, hk, hs⟩

lemma seek_found (left : Nat) {b : Bytes} {k : Scalar} {p q : Option Scalar}
    (h : seek key left k b = .ok ((o, w'), b')) : Found ⟨left, p, some k, q⟩ b o w' b' := by
  unfold seek at h
  cases hk : compare k key with
  | eq =>
    simp only [hk] at h
    obtain ⟨i, t, hi, h⟩ := bind_eq_ok.mp h
    cases h
    exact fun t ht => passes_pair (p := p) hi ht
  | gt =>
    simp only [hk] at h
    cases h
    exact fun s hs => hs
  | lt =>
    simp only [hk] at h
    obtain ⟨i, t, hi, h⟩ := bind_eq_ok.mp h
    obtain ⟨u, t', ht, h⟩ := bind_eq_ok.mp h
    apply (passes_pair (q := q) hi ht).found
    cases left with
    | zero =>
      cases h
      exact fun s hs => hs
    | succ left =>
      obtain ⟨k', t'', hk', h⟩ := bind_eq_ok.mp h
      exact (passes_key hk').found (seek_found left h)

lemma find_found (h : w.find key b = .ok ((o, w'), b')) : Found w b o w' b' := by
  obtain ⟨left, p, a, q⟩ := w
  simp only [find] at h
  split at h
  · cases a with
    | some k => exact seek_found left h
    | none =>
      cases left with
      | zero =>
        cases h
        exact fun s hs => hs
      | succ left =>
        obtain ⟨k, t, hk, h⟩ := bind_eq_ok.mp h
        exact (passes_key hk).found (seek_found left h)
  · cases h

end Walker

section

variable {ε : Type} [MonadLiftT Reader (Decoder ε)]
  (hl : ∀ {α : Type} {r : Reader α} {b s : Bytes} {a : α},
    (liftM r : Decoder ε α) b = .ok (a, s) → r b = .ok (a, s))
  {body : β → Scalar → Item → Decoder ε β}
  (hb : ∀ {a a' : β} {k : Scalar} {i : Item} {b s : Bytes},
    body a k i b = .ok (a', s) → i.ignore b = .ok ((), s))
include hl hb

lemma foldPairs_skips {n : Nat} {previous : Option Scalar} {a a' : β} {b s : Bytes}
    (h : foldPairs body n previous a b = .ok (a', s)) :
    foldPairs (m := Reader) (fun _ _ i => i.ignore) n previous () b = .ok ((), s) := by
  induction n generalizing previous a b with
  | zero =>
    cases h
    rfl
  | succ n ih =>
    obtain ⟨k, t, hk, h⟩ := bind_eq_ok.mp h
    obtain ⟨i, t', hi, h⟩ := bind_eq_ok.mp h
    obtain ⟨c, t'', hc, h⟩ := bind_eq_ok.mp h
    exact bind_eq_ok.mpr ⟨k, t, hl hk, bind_eq_ok.mpr ⟨i, t', hl hi, bind_eq_ok.mpr
      ⟨(), t'', hb hc, ih h⟩⟩⟩

lemma Walker.rest_skips {w : Walker} {a a' : β} {b s : Bytes} (h : w.rest body a b = .ok (a', s)) :
    w.skip b = .ok ((), s) := by
  obtain ⟨left, p, ahead, q⟩ := w
  cases ahead with
  | none => exact foldPairs_skips hl hb h
  | some k =>
    obtain ⟨i, t, hi, h⟩ := bind_eq_ok.mp h
    obtain ⟨c, t', hc, h⟩ := bind_eq_ok.mp h
    have hs : (⟨left, some k, none, q⟩ : Walker).skip t' = .ok ((), s) := foldPairs_skips hl hb h
    exact passes_pair (hl hi) (hb hc) s hs

end

lemma foldPairs_complete {n d : Nat} {previous : Option Scalar} {b s : Bytes} {u v : Unit}
    (ps : List (Scalar × Value))
    (h : foldPairs (m := Reader) (fun _ _ i => i.ignore) n previous u b = .ok (v, s))
    (hd : b.length ≤ d) :
    ∃ qs, foldPairs (m := Reader) (fun ps k i => do return ps ++ [(k, ← i.completeTo d)]) n previous
      ps b = .ok (qs, s) := by
  induction n generalizing previous b u ps with
  | zero =>
    cases h
    exact ⟨ps, rfl⟩
  | succ n ih =>
    obtain ⟨k, t, hk, h⟩ := bind_eq_ok.mp h
    obtain ⟨i, t', hi, h⟩ := bind_eq_ok.mp h
    obtain ⟨w, t'', ht, h⟩ := bind_eq_ok.mp h
    have hkl := (steady_readKey previous b k t hk).1.length_le
    have hil := Item.length_lt_of_parse hi
    have htl := (Item.steady_ignore i t' w t'' ht).1.length_le
    obtain ⟨x, hx⟩ := Item.ignore_eq_ok.mp ht
    have hx := Item.below_completeTo (show t'.length + 1 ≤ d by omega) i t' x t'' hx
    obtain ⟨qs, hq⟩ := ih (ps ++ [(k, x)]) h (by omega)
    refine ⟨qs, bind_eq_ok.mpr ⟨k, t, hk, bind_eq_ok.mpr ⟨i, t', hi, bind_eq_ok.mpr ?_⟩⟩⟩
    exact ⟨_, t'', bind_eq_ok.mpr ⟨x, t'', hx, rfl⟩, hq⟩

lemma ignore_map_of_skip {n : UInt32} {b s : Bytes}
    (h : (Walker.start n.toNat).skip b = .ok ((), s)) : (Item.map n).ignore b = .ok ((), s) := by
  obtain ⟨qs, hq⟩ := foldPairs_complete [] h (Nat.le_refl _)
  refine Item.ignore_eq_ok.mpr ⟨.map qs, ?_⟩
  change (foldPairs (m := Reader) _ n.toNat none [] >>= fun ps => pure (Value.map ps)) b = _
  exact bind_eq_ok.mpr ⟨qs, s, hq, rfl⟩

lemma itemLength_append {b : Bytes} {i : Item} {c : Bytes} (h : Item.parse b = .ok (i, c))
    (hc : i.ignore c = .ok ((), [])) (t : Bytes) : itemLength (b ++ t) = .ok b.length := by
  have hp := (Item.steady_parse b i c h).2 t
  have hi := (Item.steady_ignore i c () [] hc).2 t
  have hr : (do (← Item.parse).ignore : Reader Unit) (b ++ t) = .ok ((), t) :=
    bind_eq_ok.mpr ⟨i, c ++ t, hp, hi⟩
  have hs : Reader.spanned (do (← Item.parse).ignore : Reader Unit) (b ++ t) =
      .ok ((b, ()), t) := by
    simp [Reader.spanned, hr]
  have hw : readRaw (b ++ t) = .ok (b, t) := bind_eq_ok.mpr ⟨(b, ()), t, hs, rfl⟩
  rw [itemLength, hw]
  rfl

namespace Walk

variable {m : Type → Type} {ε : Type} {f : Walk (Decoder ε) α} {g : α → Walk (Decoder ε) β}

lemma bind_eq_ok {w w' : Walker} {b s : Bytes} {c : β} :
    ((f >>= g) w : Decoder ε _) b = .ok ((c, w'), s) ↔
      ∃ a v t, f w b = .ok ((a, v), t) ∧ g a v t = .ok ((c, w'), s) := by
  change (f w >>= fun p => g p.1 p.2) b = _ ↔ _
  rw [Decoder.bind_eq_ok]
  exact ⟨fun ⟨⟨a, v⟩, t, h⟩ => ⟨a, v, t, h⟩, fun ⟨a, v, t, h⟩ => ⟨(a, v), t, h⟩⟩

end Walk

end Firmware.Cbor

namespace Firmware.Manifest

open Cbor Cbor.Decoder

variable {α : Type}

lemma liftReader_eq_ok {r : Reader α} {b s : Bytes} {a : α} :
    (liftM r : Decoder α) b = .ok (a, s) ↔ r b = .ok (a, s) :=
  Except.mapError_eq_ok

lemma liftItem_eq_ok {x : Except Cbor.Error α} {b s : Bytes} {a : α} :
    (liftM x : Decoder α) b = .ok (a, s) ↔ x = .ok a ∧ s = b := by
  constructor
  · intro h
    cases x with
    | ok a =>
      cases h
      exact ⟨rfl, rfl⟩
    | error e => cases h
  · rintro ⟨rfl, rfl⟩
    rfl

end Firmware.Manifest

namespace Firmware.Envelope

open Cbor Manifest

lemma toBytes_ignore {i : Item} {x b : Bytes} (h : i.toBytes = .ok x) : i.ignore b = .ok ((), b) := by
  cases i with
  | scalar s => rfl
  | array n => cases h
  | map n => cases h

lemma element_ignores {ps qs : List (Text × Bytes)} {k : Scalar} {i : Item} {b s : Bytes}
    (h : element ps k i b = .ok (qs, s)) : i.ignore b = .ok ((), s) := by
  simp only [element] at h
  split at h
  · obtain ⟨x, t, hl, ha⟩ := Decoder.bind_eq_ok.mp h
    obtain ⟨hx, ht⟩ := liftItem_eq_ok.mp hl
    simp only [append] at ha
    split at ha
    · cases ha
      rw [ht]
      exact toBytes_ignore hx
    · cases ha
  · obtain ⟨u, t, hu, h⟩ := Decoder.bind_eq_ok.mp h
    cases h
    exact liftReader_eq_ok.mp hu

lemma find_bytes {α : Type} {w w' : Walker} {key : Scalar} {f : Bytes → Walk Decoder α}
    {b s : Bytes} {a : α}
    (h : ((do f (← (← Walk.find key).toBytes) : Walk Decoder α) w : Decoder _) b =
      .ok ((a, w'), s)) : ∃ x v t, Walker.Passes w b v t ∧ f x v t = .ok ((a, w'), s) := by
  obtain ⟨i, v, t, hi, h⟩ := Walk.bind_eq_ok.mp h
  obtain ⟨x, v', t', hx, h⟩ := Walk.bind_eq_ok.mp h
  obtain ⟨o, u, c, ho, hi⟩ := Walk.bind_eq_ok.mp hi
  have ho := Walker.find_found (liftReader_eq_ok.mp ho)
  cases o with
  | none => cases hi
  | some j =>
    cases hi
    cases hj : i.toBytes with
    | error e =>
      rw [hj] at hx
      cases hx
    | ok y =>
      rw [hj] at hx
      cases hx
      exact ⟨x, v, t, ho t (toBytes_ignore hj), h⟩

lemma parseMap_item {b s : Bytes} {x : Bytes × Bytes × List (Text × Bytes)}
    (h : parseMap b = .ok (x, s)) : ∃ i c, Item.parse b = .ok (i, c) ∧ i.ignore c = .ok ((), s) := by
  obtain ⟨i, c, hi, h⟩ := Decoder.bind_eq_ok.mp h
  obtain ⟨n, d, hn, hw⟩ := Decoder.bind_eq_ok.mp h
  obtain ⟨hn', hd⟩ := liftItem_eq_ok.mp hn
  obtain ⟨⟨a, w⟩, t, ha, hr⟩ := Decoder.bind_eq_ok.mp hw
  obtain ⟨u, t', hu, hr⟩ := Decoder.bind_eq_ok.mp hr
  obtain ⟨auth, v, b₁, h₁, ha⟩ := find_bytes ha
  obtain ⟨manifest, v', b₂, h₂, ha⟩ := find_bytes ha
  obtain ⟨ps, v'', b₃, hp, ha⟩ := Walk.bind_eq_ok.mp ha
  obtain ⟨qs, b₄, hq, hp⟩ := Decoder.bind_eq_ok.mp hp
  cases hp
  cases ha
  cases hu
  cases hr
  refine ⟨i, c, liftReader_eq_ok.mp hi, ?_⟩
  have hs := h₁.trans h₂ _ (Walker.rest_skips liftReader_eq_ok.mp element_ignores hq)
  cases i with
  | map m =>
    cases hn'
    rw [← hd]
    exact ignore_map_of_skip hs
  | _ => cases hn'

lemma itemLength_of_parse {b : Bytes} {e : Envelope} (h : parse b = .ok e) (t : Bytes) :
    itemLength (b ++ t) = .ok b.length := by
  obtain ⟨x, hx, -⟩ := Except.bind_eq_ok.mp h
  have hm : parseMap b = .ok (x, []) := by
    simp only [Decoder.whole, Decoder.all] at hx
    split at hx
    · rename_i y hy
      cases hx
      exact hy
    · cases hx
    · cases hx
  obtain ⟨i, c, hi, hc⟩ := parseMap_item hm
  exact itemLength_append hi hc t

end Firmware.Envelope
