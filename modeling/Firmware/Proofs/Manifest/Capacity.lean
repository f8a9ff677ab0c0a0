import Firmware.Envelope
import Firmware.Proofs.Cbor.Extent
import Firmware.Proofs.Computation

namespace Firmware

namespace Manifest

open Cbor

variable {α β : Type} {P : α → Prop}

def Gives (P : α → Prop) (d : Decoder α) : Prop := ∀ ⦃s a t⦄, d s = .ok (a, t) → P a

namespace Gives

lemma any (d : Decoder α) : Gives (fun _ => True) d := fun _ _ _ _ => trivial

lemma pure {a : α} (h : P a) : Gives P (pure a : Decoder α) := by
  intro s b t hb
  cases hb
  exact h

lemma throw (e : Error) : Gives P (throw e : Decoder α) := by
  intro s a t h
  cases h

lemma bind {Q : β → Prop} {d : Decoder β} {f : β → Decoder α} (hd : Gives Q d)
    (hf : ∀ b, Q b → Gives P (f b)) : Gives P (d >>= f) := by
  intro s a t h
  obtain ⟨b, u, hb, ha⟩ := Decoder.bind_eq_ok.mp h
  exact hf b (hd hb) ha

lemma foldElements {body : α → Item → Decoder α} (hb : ∀ a i, P a → Gives P (body a i)) (n : Nat) {a : α}
    (h : P a) : Gives P (foldElements body n a) := by
  induction n generalizing a with
  | zero => exact pure h
  | succ n ih =>
    exact bind (any _) fun i _ => bind (hb a i h) fun b hb => ih hb

lemma append {capacity : Nat} (xs : List α) (x : α) :
    Gives (fun ys => ys.length ≤ capacity) (append capacity xs x) := by
  simp only [Manifest.append]
  split
  · apply pure
    rw [List.length_append]
    assumption
  · exact throw _

end Gives

def Yields (P : α → Prop) (p : Walk Decoder α) : Prop := ∀ w, Gives (fun x => P x.1) (p w)

namespace Yields

lemma any (p : Walk Decoder α) : Yields (fun _ => True) p := fun _ => .any _

lemma pure {a : α} (h : P a) : Yields P (pure a : Walk Decoder α) := fun _ => .pure h

lemma bind {Q : β → Prop} {p : Walk Decoder β} {q : β → Walk Decoder α} (hp : Yields Q p)
    (hq : ∀ b, Q b → Yields P (q b)) : Yields P (p >>= q) := fun w =>
  .bind (hp w) fun x hx => hq x.1 hx x.2

lemma check {p : Prop} [Decidable p] {e : Error} {q : PUnit → Walk Decoder α} (hq : Yields P (q ⟨⟩)) :
    Yields P (if p then q ⟨⟩ else MonadExcept.throw e >>= q) := by
  split
  · exact hq
  · exact .bind (Q := fun _ => False) (fun _ _ _ _ h => by cases h) fun _ h => h.elim

lemma lift {d : Decoder α} (h : Gives P d) : Yields P (liftM d : Walk Decoder α) := fun w =>
  Gives.bind (P := fun x : α × Walker => P x.1) h fun a ha => Gives.pure (a := (a, w)) ha

lemma walk {n : UInt32} {p : Walk Decoder α} (h : Yields P p) : Gives P (walk n p) :=
  .bind (h _) fun _ hx => .bind (.any _) fun _ _ => .pure hx

end Yields

lemma components_give (n : Nat) : Gives (fun ids => ids.length ≤ maxComponents)
    (foldElements (fun ids i => do append maxComponents ids (← ComponentId.parse i)) n [] :
      Decoder (List ComponentId)) :=
  .foldElements (fun ids _ _ => .bind (.any _) fun id _ => .append ids id) n (Nat.zero_le _)

lemma parseCommon_gives :
    Gives (fun x : List ComponentId × Option Bytes => x.1.length ≤ maxComponents) parseCommon := by
  refine .bind (.any _) fun i _ => .bind (.any _) fun n _ => Yields.walk (.bind (.any _) fun o _ => ?_)
  have hf (ids : List ComponentId) (h : ids.length ≤ maxComponents) : Yields (fun x => x.1.length ≤ maxComponents)
      (do return (ids, ← Parameters.field 4 Item.toBytes) : Walk Decoder (List ComponentId × Option Bytes)) :=
    .bind (.any _) fun _ _ => .pure h
  cases o with
  | none => exact hf [] (Nat.zero_le _)
  | some i => exact .bind (.lift (.bind (.any _) fun n _ => components_give _)) hf

lemma whole_gives {d : Decoder α} (h : Gives P d) {s : Bytes} {a : α} (ha : d.whole s = .ok a) : P a := by
  simp only [Decoder.whole, Cbor.Decoder.all] at ha
  split at ha
  · rename_i hd
    cases ha
    exact h hd
  · cases ha
  · cases ha

lemma parseMap_gives : Gives (fun m => m.components.length ≤ maxComponents) parseMap := by
  refine .bind (.any _) fun i _ => .bind (.any _) fun n _ => Yields.walk (.bind (.any _) fun i _ => ?_)
  refine .bind (.any _) fun version _ => .check (.bind (.any _) fun i _ => .bind (.any _) fun number _ => ?_)
  refine .bind (.any _) fun o _ => ?_
  cases o with
  | none =>
    have hn : Yields (fun x => x.1.length ≤ maxComponents)
        (pure ([], none) : Walk Decoder (List ComponentId × Option Bytes)) := .pure (Nat.zero_le _)
    refine .bind hn fun x hx => .bind (.any _) fun o _ => ?_
    cases o with
    | none | some i => exact .bind (.any _) fun _ _ => .bind (.any _) fun _ _ => .pure hx
  | some i =>
    have hs (b : Bytes) : Gives (fun x => x.1.length ≤ maxComponents) (liftM (parseCommon.whole b) : Decoder _) :=
      fun _ _ _ hx => whole_gives parseCommon_gives (Decoder.lift_eq_ok.mp hx).1
    refine .bind (.any _) fun b _ => .bind (.lift (hs b)) fun x hx => .bind (.any _) fun o _ => ?_
    cases o with
    | none | some i => exact .bind (.any _) fun _ _ => .bind (.any _) fun _ _ => .pure hx

end Manifest

open Manifest in
lemma Envelope.components_of_parse {b : Bytes} {e : Envelope} (h : parse b = .ok e) :
    e.manifest.components.length ≤ maxComponents := by
  obtain ⟨x, -, h⟩ := Except.bind_eq_ok.mp h
  obtain ⟨y, -, h⟩ := Except.bind_eq_ok.mp h
  cases y with
  | none => cases h
  | some y =>
    obtain ⟨d, -, h⟩ := Except.bind_eq_ok.mp h
    obtain ⟨m, hm, h⟩ := Except.bind_eq_ok.mp h
    cases h
    have hp : Gives (fun m => m.components.length ≤ maxComponents) Manifest.parse :=
      .bind parseMap_gives fun m hm => .bind (.any _) fun _ _ => .pure hm
    exact whole_gives hp hm

end Firmware
