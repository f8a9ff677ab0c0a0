import Firmware.Envelope
import Firmware.Proofs.Computation

namespace Firmware.Cbor

variable {ε α β : Type}

namespace Decoder

lemma bind_eq_ok {f : Decoder ε α} {g : α → Decoder ε β} {b s : Bytes} {c : β} :
    (f >>= g) b = .ok (c, s) ↔ ∃ a t, f b = .ok (a, t) ∧ g a t = .ok (c, s) := by
  change (f b >>= fun p => g p.1 p.2) = _ ↔ _
  rw [Except.bind_eq_ok]
  exact ⟨fun ⟨⟨a, t⟩, h⟩ => ⟨a, t, h⟩, fun ⟨a, t, h⟩ => ⟨(a, t), h⟩⟩

lemma lift_eq_ok {x : Except ε α} {b s : Bytes} {a : α} :
    (liftM x : Decoder ε α) b = .ok (a, s) ↔ x = .ok a ∧ s = b := by
  change (x >>= fun a => Except.ok (a, b)) = _ ↔ _
  rw [Except.bind_eq_ok]
  constructor
  · rintro ⟨a', hx, h⟩
    cases h
    exact ⟨hx, rfl⟩
  · rintro ⟨hx, rfl⟩
    exact ⟨a, hx, rfl⟩

lemma discard_eq_ok {f : Decoder ε α} {b s : Bytes} {u : Unit} :
    (discard f) b = .ok (u, s) ↔ ∃ a, f b = .ok (a, s) := by
  have h : (discard f) b = (f >>= fun _ => Pure.pure ()) b := rfl
  rw [h, bind_eq_ok]
  constructor
  · rintro ⟨a, t, ha, h⟩
    cases h
    exact ⟨a, ha⟩
  · rintro ⟨a, ha⟩
    exact ⟨a, s, ha, rfl⟩

/-- A decoder takes bytes from the front, and does not look behind what it takes. -/
def Steady (r : Decoder ε α) : Prop :=
  ∀ b a s, r b = .ok (a, s) → s <:+ b ∧ ∀ t, r (b ++ t) = .ok (a, s ++ t)

namespace Steady

lemma pure (a : α) : Steady (pure a : Decoder ε α) := by
  intro b a s h
  cases h
  exact ⟨List.suffix_refl b, fun t => rfl⟩

lemma throw (e : ε) : Steady (throw e : Decoder ε α) := by
  intro b a s h
  cases h

lemma lift (x : Except ε α) : Steady (liftM x : Decoder ε α) := by
  intro b a s h
  obtain ⟨hx, rfl⟩ := lift_eq_ok.mp h
  exact ⟨List.suffix_refl s, fun t => lift_eq_ok.mpr ⟨hx, rfl⟩⟩

lemma bind {f : Decoder ε α} {g : α → Decoder ε β} (hf : Steady f) (hg : ∀ a, Steady (g a)) :
    Steady (f >>= g) := by
  intro b c s h
  obtain ⟨a, u, ha, hc⟩ := bind_eq_ok.mp h
  obtain ⟨hu, ha⟩ := hf b a u ha
  obtain ⟨hs, hc⟩ := hg a u c s hc
  exact ⟨hs.trans hu, fun t => bind_eq_ok.mpr ⟨a, u ++ t, ha t, hc t⟩⟩

lemma map {f : Decoder ε α} (hf : Steady f) (g : α → β) : Steady (g <$> f) := by
  intro b c s h
  have h : (f >>= fun a => Pure.pure (g a)) b = .ok (c, s) := h
  exact bind hf (fun a => pure (g a)) b c s h

lemma ite {p : Prop} [Decidable p] {f g : Decoder ε α} (hf : Steady f) (hg : Steady g) :
    Steady (if p then f else g) := by
  split
  · exact hf
  · exact hg

end Steady

end Decoder

open Decoder

lemma Reader.steady_byte : Steady Reader.byte := by
  intro b a s h
  cases b with
  | nil => cases h
  | cons x b =>
    cases h
    exact ⟨List.suffix_cons a s, fun t => rfl⟩

lemma Reader.take_eq_ok {n : Nat} {b x s : Bytes} :
    Reader.take n b = .ok (x, s) ↔ x.length = n ∧ b = x ++ s := by
  simp only [Reader.take]
  constructor
  · intro h
    split at h
    · rename_i hn
      simp only [List.splitAt_eq] at h
      cases h
      exact ⟨List.length_take_of_le hn, (List.take_append_drop n b).symm⟩
    · cases h
  · rintro ⟨rfl, rfl⟩
    simp

lemma Reader.steady_take (n : Nat) : Steady (Reader.take n) := by
  intro b x s h
  obtain ⟨hn, rfl⟩ := Reader.take_eq_ok.mp h
  exact ⟨List.suffix_append x s, fun t => Reader.take_eq_ok.mpr ⟨hn, List.append_assoc x s t⟩⟩

lemma steady_readArgument (info : UInt8) : Steady (readArgument info) := by
  have ha (low n : Nat) : Steady (atLeast low n) := .ite (.throw _) (.pure _)
  simp only [readArgument]
  split
  · exact .bind Reader.steady_byte fun _ => ha _ _
  · exact .bind (Reader.steady_take 2) fun _ => ha _ _
  · exact .bind (Reader.steady_take 4) fun _ => ha _ _
  · exact .ite (.pure _) (.throw _)

lemma steady_readText (n : Nat) : Steady (readText n) := by
  refine .bind (Reader.steady_take n) fun b => ?_
  cases Text.ofBytes? b with
  | some t => exact .pure t
  | none => exact .throw _

namespace Item

lemma steady_ofHead (major : UInt8) (n : UInt32) : Steady (ofHead major n) := by
  simp only [ofHead]
  split
  · exact .pure _
  · exact .pure _
  · exact .bind (Reader.steady_take _) fun _ => .pure _
  · exact .bind (steady_readText _) fun _ => .pure _
  · exact .pure _
  · exact .pure _

lemma untagged?_eq : ∃ f, untagged? = Reader.byte >>= f ∧ ∀ x, Steady (f x) := by
  refine ⟨_, rfl, fun x => .ite (.bind (.lift _) fun _ => .pure _) ?_⟩
  refine .bind (steady_readArgument _) fun n => .ite (.pure _) ?_
  exact .bind (steady_ofHead _ n) fun _ => .pure _

lemma steady_untagged? : Steady untagged? := by
  obtain ⟨f, h, hf⟩ := untagged?_eq
  rw [h]
  exact .bind Reader.steady_byte hf

lemma length_lt_of_untagged? {b s : Bytes} {o : Option Item} (h : untagged? b = .ok (o, s)) :
    s.length < b.length := by
  obtain ⟨f, hu, hf⟩ := untagged?_eq
  rw [hu] at h
  obtain ⟨x, t, hx, h⟩ := bind_eq_ok.mp h
  have hs := (hf x t o s h).1.length_le
  cases b with
  | nil => cases hx
  | cons y b =>
    cases hx
    simp only [List.length_cons]
    omega

lemma steady_parseTagged (tags : Nat) : Steady (parseTagged tags) := by
  induction tags with
  | zero =>
    refine .bind steady_untagged? fun o => ?_
    cases o with
    | some i => exact .pure i
    | none => exact .throw _
  | succ tags ih =>
    refine .bind steady_untagged? fun o => ?_
    cases o with
    | some i => exact .pure i
    | none => exact ih

lemma steady_parse : Steady parse := steady_parseTagged maxTags

lemma length_lt_of_parseTagged {tags : Nat} {b s : Bytes} {i : Item}
    (h : parseTagged tags b = .ok (i, s)) : s.length < b.length := by
  induction tags generalizing b with
  | zero =>
    obtain ⟨o, t, ho, h⟩ := bind_eq_ok.mp h
    have ht := length_lt_of_untagged? ho
    cases o with
    | some j =>
      cases h
      exact ht
    | none => cases h
  | succ tags ih =>
    obtain ⟨o, t, ho, h⟩ := bind_eq_ok.mp h
    have ht := length_lt_of_untagged? ho
    cases o with
    | some j =>
      cases h
      exact ht
    | none => exact Nat.lt_trans (ih h) ht

lemma length_lt_of_parse {b s : Bytes} {i : Item} (h : parse b = .ok (i, s)) :
    s.length < b.length :=
  length_lt_of_parseTagged h

end Item

lemma steady_foldElements {body : β → Item → Reader β} (hb : ∀ b i, Steady (body b i)) (n : Nat)
    (b : β) : Steady (foldElements body n b) := by
  induction n generalizing b with
  | zero => exact .pure b
  | succ n ih => exact .bind Item.steady_parse fun i => .bind (hb b i) fun b => ih b

lemma steady_readKey (previous : Option Scalar) : Steady (readKey previous) := by
  refine .bind Item.steady_parse fun i => ?_
  cases i with
  | scalar k => exact .ite (.pure k) (.throw _)
  | array n => exact .throw _
  | map n => exact .throw _

lemma steady_foldPairs {body : β → Scalar → Item → Reader β} (hb : ∀ b k i, Steady (body b k i))
    (n : Nat) (previous : Option Scalar) (b : β) : Steady (foldPairs body n previous b) := by
  induction n generalizing previous b with
  | zero => exact .pure b
  | succ n ih =>
    exact .bind (steady_readKey previous) fun k => .bind Item.steady_parse fun i =>
      .bind (hb b k i) fun b => ih (some k) b

namespace Item

lemma steady_completeTo (depth : Nat) (i : Item) : Steady (completeTo depth i) := by
  induction depth generalizing i with
  | zero =>
    cases i with
    | scalar s => exact .pure _
    | array n => exact .throw _
    | map n => exact .throw _
  | succ depth ih =>
    cases i with
    | scalar s => exact .pure _
    | array n => exact .map (steady_foldElements (fun _ i => .bind (ih i) fun _ => .pure _) _ _) _
    | map n => exact .map (steady_foldPairs (fun _ _ i => .bind (ih i) fun _ => .pure _) _ _ _) _

end Item

def Below (f g : Decoder ε α) : Prop := ∀ b a s, f b = .ok (a, s) → g b = .ok (a, s)

namespace Below

lemma refl (f : Decoder ε α) : Below f f := fun _ _ _ h => h

lemma throw (e : ε) (g : Decoder ε α) : Below (throw e) g := fun _ _ _ h => by cases h

lemma bind {f f' : Decoder ε α} {g g' : α → Decoder ε β} (hf : Below f f')
    (hg : ∀ a, Below (g a) (g' a)) : Below (f >>= g) (f' >>= g') := by
  intro b c s h
  obtain ⟨a, t, ha, hc⟩ := bind_eq_ok.mp h
  exact bind_eq_ok.mpr ⟨a, t, hf b a t ha, hg a t c s hc⟩

lemma map {f f' : Decoder ε α} (hf : Below f f') (g : α → β) : Below (g <$> f) (g <$> f') :=
  bind hf fun a => refl (Pure.pure (g a))

end Below

lemma below_foldElements {f g : β → Item → Reader β} (h : ∀ b i, Below (f b i) (g b i)) (n : Nat)
    (b : β) : Below (foldElements f n b) (foldElements g n b) := by
  induction n generalizing b with
  | zero => exact .refl _
  | succ n ih => exact .bind (.refl _) fun i => .bind (h b i) ih

lemma below_foldPairs {f g : β → Scalar → Item → Reader β} (h : ∀ b k i, Below (f b k i) (g b k i))
    (n : Nat) (previous : Option Scalar) (b : β) :
    Below (foldPairs f n previous b) (foldPairs g n previous b) := by
  induction n generalizing previous b with
  | zero => exact .refl _
  | succ n ih =>
    exact .bind (.refl _) fun k => .bind (.refl _) fun i => .bind (h b k i) fun b => ih (some k) b

namespace Item

lemma below_completeTo_succ (depth : Nat) (i : Item) :
    Below (completeTo depth i) (completeTo (depth + 1) i) := by
  induction depth generalizing i with
  | zero =>
    cases i with
    | scalar s => exact .refl _
    | array n => exact .throw _ _
    | map n => exact .throw _ _
  | succ depth ih =>
    cases i with
    | scalar s => exact .refl _
    | array n => exact .map (below_foldElements (fun _ i => .bind (ih i) fun _ => .refl _) _ _) _
    | map n => exact .map (below_foldPairs (fun _ _ i => .bind (ih i) fun _ => .refl _) _ _ _) _

lemma below_completeTo {depth depth' : Nat} (h : depth ≤ depth') (i : Item) :
    Below (completeTo depth i) (completeTo depth' i) := by
  induction h with
  | refl => exact .refl _
  | step h ih => exact fun b v s hv => below_completeTo_succ _ i b v s (ih b v s hv)

lemma steady_complete (i : Item) : Steady i.complete := by
  intro b v s h
  obtain ⟨hs, hv⟩ := steady_completeTo _ i b v s h
  exact ⟨hs, fun t => below_completeTo (by simp) i _ _ _ (hv t)⟩

lemma ignore_eq_ok {i : Item} {b s : Bytes} {u : Unit} :
    i.ignore b = .ok (u, s) ↔ ∃ v, completeTo (b.length + 1) i b = .ok (v, s) := by
  rw [ignore, discard_eq_ok]
  exact Iff.rfl

lemma steady_ignore (i : Item) : Steady i.ignore := .map (steady_complete i) _

end Item

end Firmware.Cbor
