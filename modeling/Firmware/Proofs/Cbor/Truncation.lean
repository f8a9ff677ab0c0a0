import Firmware.Proofs.Cbor.Reading
import Firmware.Proofs.Cbor.Skip

/-!
Input that is cut off or runs on. Where an item ends, and what is wrong with it, is decided by the bytes
that have been read, and a reader that lacks bytes has found nothing wrong yet. No envelope is therefore
the beginning of another.
-/

namespace Firmware.Cbor

open Decoder

variable {α β : Type}

/-- What a reader finds wrong before it runs out of input is wrong whatever follows. -/
def Lasts (r : Reader α) : Prop :=
  ∀ b e, r b = .error e → e ≠ .truncated → ∀ t, r (b ++ t) = .error e

lemma Decoder.bind_eq_error {ε : Type} {f : Decoder ε α} {g : α → Decoder ε β} {b : Bytes} {e : ε} :
    (f >>= g) b = .error e ↔ f b = .error e ∨ ∃ a s, f b = .ok (a, s) ∧ g a s = .error e := by
  change (f b >>= fun p => g p.1 p.2) = _ ↔ _
  rw [Except.bind_eq_error, Prod.exists]

namespace Lasts

lemma pure (a : α) : Lasts (pure a : Reader α) := fun _ _ h => by cases h

lemma throw (e : Error) : Lasts (throw e : Reader α) := by
  intro b e' h _ t
  cases h
  rfl

lemma lift (x : Except Error α) : Lasts (liftM x : Reader α) := by
  cases x with
  | ok a => exact pure a
  | error e => exact throw e

lemma bind {f : Reader α} {g : α → Reader β} (hs : Steady f) (hf : Lasts f) (hg : ∀ a, Lasts (g a)) :
    Lasts (f >>= g) := by
  intro b e h he t
  rcases bind_eq_error.mp h with h | ⟨a, s, ha, h⟩
  · exact bind_eq_error.mpr (.inl (hf b e h he t))
  · exact bind_eq_error.mpr (.inr ⟨a, s ++ t, (hs b a s ha).2 t, hg a s e h he t⟩)

lemma map {f : Reader α} (hs : Steady f) (hf : Lasts f) (g : α → β) : Lasts (g <$> f) :=
  bind hs hf fun a => pure (g a)

lemma ite {p : Prop} [Decidable p] {f g : Reader α} (hf : Lasts f) (hg : Lasts g) :
    Lasts (if p then f else g) := by
  split
  · exact hf
  · exact hg

end Lasts

lemma Reader.lasts_byte : Lasts Reader.byte := by
  intro b e h he
  cases b with
  | nil =>
    cases h
    exact absurd rfl he
  | cons x b => cases h

lemma Reader.lasts_take (n : Nat) : Lasts (Reader.take n) := by
  intro b e h he
  simp only [Reader.take] at h
  split at h
  · cases h
  · cases h
    exact absurd rfl he

lemma lasts_readArgument (info : UInt8) : Lasts (readArgument info) := by
  have ha (low n : Nat) : Lasts (atLeast low n) := .ite (.throw _) (.pure _)
  simp only [readArgument]
  split
  · exact .bind Reader.steady_byte Reader.lasts_byte fun _ => ha _ _
  · exact .bind (Reader.steady_take 2) (Reader.lasts_take 2) fun _ => ha _ _
  · exact .bind (Reader.steady_take 4) (Reader.lasts_take 4) fun _ => ha _ _
  · exact .ite (.pure _) (.throw _)

lemma lasts_readText (n : Nat) : Lasts (readText n) := by
  -- A text is looked into when all of it is there.
  refine .bind (Reader.steady_take n) (Reader.lasts_take n) fun b => ?_
  cases Text.ofBytes? b with
  | some t => exact .pure t
  | none => exact .throw _

namespace Item

lemma lasts_ofHead (major : UInt8) (n : UInt32) : Lasts (ofHead major n) := by
  simp only [ofHead]
  split
  · exact .pure _
  · exact .pure _
  · exact .bind (Reader.steady_take _) (Reader.lasts_take _) fun _ => .pure _
  · exact .bind (steady_readText _) (lasts_readText _) fun _ => .pure _
  · exact .pure _
  · exact .pure _

lemma lasts_untagged? : Lasts untagged? := by
  refine .bind Reader.steady_byte Reader.lasts_byte fun x => .ite (.bind (.lift _) (.lift _) fun _ => .pure _) ?_
  refine .bind (steady_readArgument _) (lasts_readArgument _) fun n => .ite (.pure _) ?_
  exact .bind (steady_ofHead _ n) (lasts_ofHead _ n) fun _ => .pure _

lemma lasts_parseTagged (tags : Nat) : Lasts (parseTagged tags) := by
  induction tags with
  | zero =>
    refine .bind steady_untagged? lasts_untagged? fun o => ?_
    cases o with
    | some i => exact .pure i
    | none => exact .throw _
  | succ tags ih =>
    refine .bind steady_untagged? lasts_untagged? fun o => ?_
    cases o with
    | some i => exact .pure i
    | none => exact ih

lemma lasts_parse : Lasts parse := lasts_parseTagged maxTags

end Item

lemma lasts_foldElements {body : β → Item → Reader β} (hs : ∀ b i, Steady (body b i))
    (hb : ∀ b i, Lasts (body b i)) (n : Nat) (b : β) : Lasts (foldElements body n b) := by
  induction n generalizing b with
  | zero => exact .pure b
  | succ n ih =>
    exact .bind Item.steady_parse Item.lasts_parse fun i => .bind (hs b i) (hb b i) fun b => ih b

lemma lasts_readKey (previous : Option Scalar) : Lasts (readKey previous) := by
  refine .bind Item.steady_parse Item.lasts_parse fun i => ?_
  cases i with
  | scalar k => exact .ite (.pure k) (.throw _)
  | array n => exact .throw _
  | map n => exact .throw _

lemma lasts_foldPairs {body : β → Scalar → Item → Reader β} (hs : ∀ b k i, Steady (body b k i))
    (hb : ∀ b k i, Lasts (body b k i)) (n : Nat) (previous : Option Scalar) (b : β) :
    Lasts (foldPairs body n previous b) := by
  induction n generalizing previous b with
  | zero => exact .pure b
  | succ n ih =>
    exact .bind (steady_readKey previous) (lasts_readKey previous) fun k =>
      .bind Item.steady_parse Item.lasts_parse fun i => .bind (hs b k i) (hb b k i) fun b => ih (some k) b

namespace Item

lemma lasts_completeTo (depth : Nat) (i : Item) : Lasts (completeTo depth i) := by
  induction depth generalizing i with
  | zero =>
    cases i with
    | scalar s => exact .pure _
    | array n => exact .throw _
    | map n => exact .throw _
  | succ depth ih =>
    have hs (i : Item) : Steady (completeTo depth i) := steady_completeTo depth i
    cases i with
    | scalar s => exact .pure _
    | array n =>
      have hb (vs : List Value) (i : Item) : Steady (do return vs ++ [← completeTo depth i]) :=
        .bind (hs i) fun _ => .pure _
      exact .map (steady_foldElements hb _ _)
        (lasts_foldElements hb (fun _ i => .bind (hs i) (ih i) fun _ => .pure _) _ _) _
    | map n =>
      have hb (ps : List (Scalar × Value)) (k : Scalar) (i : Item) :
          Steady (do return ps ++ [(k, ← completeTo depth i)]) := .bind (hs i) fun _ => .pure _
      exact .map (steady_foldPairs hb _ _ _)
        (lasts_foldPairs hb (fun _ _ i => .bind (hs i) (ih i) fun _ => .pure _) _ _ _) _

lemma lasts_complete (i : Item) : Lasts i.complete := by
  intro b e h he t
  -- The depth is taken from the input, so that more input is read with more depth.
  have hl : b.length < (b ++ t).length + 1 := by
    rw [List.length_append]
    omega
  have hd : i.completeTo ((b ++ t).length + 1) b = .error e :=
    (i.completeTo_eq hl (Nat.lt_succ_self _)).trans h
  exact lasts_completeTo _ i b e hd he t

lemma lasts_ignore (i : Item) : Lasts i.ignore :=
  .map (steady_complete i) (lasts_complete i) _

end Item

lemma lasts_readRaw : Lasts readRaw := by
  have hr : Lasts (do (← Item.parse).ignore : Reader Unit) :=
    .bind Item.steady_parse Item.lasts_parse Item.lasts_ignore
  have hx {b : Bytes} {e : Error} : readRaw b = .error e ↔ (do (← Item.parse).ignore : Reader Unit) b = .error e := by
    constructor
    · intro h
      rcases bind_eq_error.mp h with h | ⟨a, s, -, h⟩
      · rcases Except.bind_eq_error.mp h with h | ⟨a, -, h⟩
        · exact h
        · cases h
      · cases h
    · exact fun h => bind_eq_error.mpr (.inl (Except.bind_eq_error.mpr (.inl h)))
  exact fun b e h he t => hx.mpr (hr b e (hx.mp h) he t)

section Lengths

variable {b p s : Bytes} {e : Error} {n : Nat}

lemma itemLength_append_error (h : itemLength b = .error e) (he : e ≠ .truncated) (s : Bytes) :
    itemLength (b ++ s) = .error e := by
  rcases Except.bind_eq_error.mp h with h | ⟨a, -, h⟩
  · exact Except.bind_eq_error.mpr (.inl (lasts_readRaw b e h he s))
  · cases h

lemma itemLength_take_append (h : itemLength b = .ok n) (s : Bytes) :
    itemLength (b.take n ++ s) = .ok n := by
  obtain ⟨hn, v, hv⟩ := itemLength_eq_ok.mp h
  have hl : (b.take n).length = n := List.length_take_of_le hn
  refine itemLength_eq_ok.mpr ⟨by rw [List.length_append]; omega, v, ?_⟩
  rwa [List.take_left' hl]

lemma itemLength_of_lt (h : itemLength b = .ok n) (hp : p <+: b.take n) (hne : p ≠ b.take n) :
    itemLength p = .error .truncated := by
  have ⟨q, hq⟩ := hp
  have hb : itemLength (p ++ q) = .ok n := by
    rw [hq]
    simpa using itemLength_take_append h []
  cases hl : itemLength p with
  | ok m =>
    obtain ⟨hm, -⟩ := itemLength_eq_ok.mp hl
    have hmn := itemLength_take_append hl (p.drop m ++ q)
    rw [← List.append_assoc, List.take_append_drop, hb] at hmn
    cases hmn
    -- The item would have to end within `p`, which is too short for it.
    have hn := List.length_take_le n b
    have hq := congrArg List.length hq
    rw [List.length_append] at hq
    exact absurd (List.IsPrefix.eq_of_length_le hp (by omega)) hne
  | error e =>
    by_contra he
    have hx := itemLength_append_error hl (fun ht => he (congrArg _ ht)) q
    rw [hb] at hx
    cases hx

end Lengths

/-- Whatever stands behind an item, it ends at the same place; without its last bytes it is truncated.
What is wrong but for missing bytes stays wrong whatever stands behind. So of two envelopes that are
accepted, neither is the beginning of the other. -/
theorem itemLength_stable :
    (∀ b n, itemLength b = .ok n → (∀ s, itemLength (b.take n ++ s) = .ok n) ∧
      ∀ p, p <+: b.take n → p ≠ b.take n → itemLength p = .error .truncated) ∧
    (∀ b e, itemLength b = .error e → e ≠ .truncated → ∀ s, itemLength (b ++ s) = .error e) ∧
    ∀ b c e f, Envelope.parse b = .ok e → Envelope.parse c = .ok f → b <+: c → b = c := by
  refine ⟨fun b n h => ⟨itemLength_take_append h, fun p => itemLength_of_lt h⟩, ?_, ?_⟩
  · exact fun b e h he s => itemLength_append_error h he s
  · rintro b c e f hb hc ⟨t, rfl⟩
    have hbt : itemLength (b ++ t) = .ok b.length := Envelope.itemLength_of_parse hb t
    have hct : itemLength (b ++ t ++ []) = .ok (b ++ t).length := Envelope.itemLength_of_parse hc []
    rw [List.append_nil, hbt] at hct
    have hl : b.length = (b ++ t).length := Except.ok.inj hct
    exact (List.prefix_append b t).eq_of_length hl

def shortEnvelope : Bytes :=
  let digest : Bytes := [0x82, 0x2f, 0x58, 0x20] ++ List.replicate 32 0
  [0xa2, 0x02, 0x58, 0x27, 0x81, 0x58, 0x24] ++ digest ++ [0x03, 0x45, 0xa2, 0x01, 0x01, 0x02, 0x07]

theorem itemLength_stable_taggedMap :
    let b : Bytes := [0xc1, 0xa1, 0x61, 0x41, 0x82, 0xf5, 0x18, 0x20, 0xff]
    let c : Bytes := [0x81, 0x61, 0xff]
    (itemLength b = .ok 8 ∧ ∀ p, p <+: b.take 8 → p ≠ b.take 8 → itemLength p = .error .truncated) ∧
      (itemLength c = .error .badEncoding ∧ ∀ s, itemLength (c ++ s) = .error .badEncoding) ∧
      ∃ e, Envelope.parse shortEnvelope = .ok e ∧
        ∀ t f, t ≠ [] → Envelope.parse (shortEnvelope ++ t) ≠ .ok f := by
  intro b c
  have hb : itemLength b = .ok 8 := by decide +kernel
  have hc : itemLength c = .error .badEncoding := by decide +kernel
  have he : (Envelope.parse shortEnvelope).isOk := by decide +kernel
  obtain ⟨e, he⟩ : ∃ e, Envelope.parse shortEnvelope = .ok e := by
    cases h : Envelope.parse shortEnvelope with
    | ok e => exact ⟨e, rfl⟩
    | error x => simp [h, Except.isOk, Except.toBool] at he
  refine ⟨⟨hb, (itemLength_stable.1 b 8 hb).2⟩,
    ⟨hc, itemLength_stable.2.1 c .badEncoding hc (by decide)⟩, e, he, fun t f ht hf => ht ?_⟩
  have heq := itemLength_stable.2.2 _ _ e f he hf (List.prefix_append shortEnvelope t)
  simpa using heq

end Firmware.Cbor
