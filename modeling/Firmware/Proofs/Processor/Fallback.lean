import Firmware.Proofs.Processor.Agreement
import Firmware.Proofs.Processor.Blindness

namespace Firmware.Processor.Run

open Flash Manifest

variable {π H δ η τ : Type}

def setting (r : Run π H δ η τ) : List (Member H) × List Nat := (r.members, r.selected)

section Alternatives

variable {nested f g : Bytes → Act π H δ η τ Unit} {as : List (Option Bytes)} {b : Bytes}
variable {r s : Run π H δ η τ}

lemma tryEach_cons_failed {c : Condition} (h : nested b r = .error (.conditionFailed c) s) (e : Error) :
    tryEach nested e (some b :: as) r =
      tryEach nested (.conditionFailed c) as { s with members := r.members, selected := r.selected } := by
  rw [tryEach]
  dsimp only
  rw [h]

lemma tryEach_cons_failure (a : Option Bytes) (e e' : Error) :
    tryEach nested e (a :: as) = tryEach nested e' (a :: as) := by
  cases a <;> rfl

lemma tryEach_congr (h : ∀ b s, Tries g as r b s → f b s = g b s) (e : Error) :
    tryEach f e as r = tryEach g e as r := by
  induction as generalizing r e with
  | nil => rfl
  | cons a as ih =>
    cases a with
    | none => rfl
    | some b =>
      have hb := h b r .here
      simp only [tryEach]
      rw [hb]
      cases hs : g b r with
      | ok u s => rfl
      | error x s =>
        cases x with
        | conditionFailed c => exact ih (fun b' t ht => h b' t (.next hs ht)) _
        | _ => rfl

lemma Tries.setting_eq (h : Tries nested as r b s) : s.setting = r.setting := by
  induction h with
  | here => rfl
  | next _ _ ih => exact ih

lemma Tries.last (h : Tries nested as r b s)
    (hb : ∀ c t, nested b s ≠ .error (.conditionFailed c) t) (e : Error) :
    tryEach nested e as r = nested b s := by
  induction h generalizing e with
  | here =>
    -- By `hb`, the match is in its last case.
    simp only [tryEach]
  | next hs _ ih =>
    rw [tryEach_cons_failed hs]
    exact ih hb _

end Alternatives

lemma keepSelection_ok {f : Act π H δ η τ Unit} {r t : Run π H δ η τ}
    (h : keepSelection f r = .ok () t) : t.selected = r.selected ∧ ∃ u, f r = .ok () u ∧ t.members = u.members := by
  obtain ⟨_, u, hu, ht⟩ := EStateM.bind_eq_ok (f := f) h
  cases ht
  exact ⟨rfl, u, hu, rfl⟩

variable [Platform π H] [Flash δ] [Hash.Engine η] [Source τ]

section Validating

variable {k : Pass} (hk : k.mode = .validate) (hπ : Impartial π)
include hk hπ

lemma config_runSequence (levels : Nat) (b : Bytes) (r : Run π H δ η τ) :
    (stateAfter (runSequence k levels b r)).processor.vars.config = r.processor.vars.config := by
  have hr : Twins r.processor.vars.config r r := ⟨rfl, rfl, rfl, rfl⟩
  exact (respects_validation (blind_twins hπ _) hk levels b hr).stateAfter.config

lemma coupled_tryEach {levels : Nat} {b : Bytes} {as : List (Option Bytes)} (has : as ≠ [])
    {c : Condition} {r s : Run π H δ η τ}
    (h : runSequence k levels b (noteCommand (.tryEach (some b :: as)) r) = .error (.conditionFailed c) s) :
    Coupled (Twins r.processor.vars.config)
      (runCommand k (runSequence k levels) (.tryEach (some b :: as)) r)
      (runCommand k (runSequence k levels) (.tryEach as) r) := by
  have hs := config_runSequence hk hπ levels b (noteCommand (.tryEach (some b :: as)) r)
  rw [h] at hs
  obtain ⟨a, as, rfl⟩ := List.exists_cons_of_ne_nil has
  change Coupled _ (tryEach (runSequence k levels) _ _ (noteCommand _ r))
    (tryEach (runSequence k levels) _ _ (noteCommand _ r))
  -- What the failed alternative leaves is a twin of what it has found.
  rw [tryEach_cons_failed h, tryEach_cons_failure a (.conditionFailed .abort) (.conditionFailed c)]
  refine respects_tryEach (blind_twins hπ _) (respects_validation (blind_twins hπ _) hk levels) _ _ ?_
  exact ⟨rfl, rfl, hs, rfl⟩

end Validating

/-- Alternatives start with the parameters and the selection that the first one found, whatever the mode and
however deep the condition was that an alternative failed. Where commands validate, an alternative that
fails a condition makes no difference as long as there is another one. Any other error ends the search. And
of a sequence inside of another one, the parameters stay and the selection does not. -/
theorem failed_alternatives_forgotten (k : Pass) (levels : Nat) (r : Run π H δ η τ) :
    let nested : Bytes → Act π H δ η τ Unit := runSequence k levels
    let begun (as : List (Option Bytes)) : Run π H δ η τ := noteCommand (.tryEach as) r
    (∀ as b s, Tries nested as (begun as) b s → s.setting = r.setting) ∧
    (∀ as f, (∀ b s, s.setting = r.setting → f b s = nested b s) →
      runCommand k f (.tryEach as) r = runCommand k nested (.tryEach as) r) ∧
    (k.mode = .validate → Impartial π → ∀ a rest c s, rest ≠ [] →
      nested a (begun (some a :: rest)) = .error (.conditionFailed c) s →
      let x := runCommand k nested (.tryEach (some a :: rest)) r
      let y := runCommand k nested (.tryEach rest) r
      answer x = answer y ∧ (stateAfter x).setting = (stateAfter y).setting) ∧
    (∀ as b s e t, Tries nested as (begun as) b s → nested b s = .error e t → ¬e.IsCondition →
      runCommand k nested (.tryEach as) r = .error e t) ∧
    (∀ b t, runCommand k nested (.runSequence b) r = .ok () t → t.selected = r.selected ∧
      ∃ u, nested b (noteCommand (.runSequence b) r) = .ok () u ∧ t.members = u.members) := by
  intro nested begun
  refine ⟨fun as b s h => h.setting_eq, fun as f hf => ?_, fun hk hπ a rest c s hr hs => ?_,
    fun as b s e t h ht he => ?_, fun b t ht => keepSelection_ok ht⟩
  · change tryEach f _ as (begun as) = tryEach nested _ as (begun as)
    exact tryEach_congr (fun b s (h : Tries nested as (begun as) b s) => hf b s h.setting_eq) _
  · have h := coupled_tryEach hk hπ hr hs
    have ht := h.stateAfter
    exact ⟨h.answer, Prod.ext ht.members.symm ht.selected.symm⟩
  · have hn (c : Condition) (u : Run π H δ η τ) : nested b s ≠ .error (.conditionFailed c) u := by
      intro hc
      rw [ht] at hc
      cases hc
      exact he trivial
    exact (h.last hn _).trans ht

lemma impartial_guard : Impartial Guard := fun _ _ _ _ => rfl

/-- The first alternative turns to another component, sets what to write and aborts. The second one finds
nothing to write. -/
theorem failed_alternatives_forgotten_nothingWritten :
    let k := passOf (invokeUnless 0) .zero .validate
    let m : Member Unit := ⟨⟨.memory, []⟩, .component (), {}⟩
    let r : Run Guard Unit Ram (Hash.Digester zeros) Payloads :=
      { start guarded with members := [m, m], selected := [0] }
    let nested : Bytes → Act Guard Unit Ram (Hash.Digester zeros) Payloads Unit := runSequence k 1
    let watched (b : Bytes) : Act Guard Unit Ram (Hash.Digester zeros) Payloads Unit := fun s =>
      if s.selected = [0] then nested b s else .error .denied s
    let sets : Bytes := [0x84, 0x0c, 0x01, 0x14, 0xa1, 0x12, 0x41, 0x07]
    let aborts : Bytes := [0x86, 0x0c, 0x01, 0x14, 0xa1, 0x12, 0x41, 0x07, 0x0e, 0x00]
    let writes : Bytes := [0x82, 0x12, 0x0f]
    let c : Command := .tryEach [some aborts, some writes]
    let u := { stateAfter (nested aborts (noteCommand c r)) with members := [m, m], selected := [0] }
    let x := runCommand k nested c r
    let y := runCommand k nested (.tryEach [some writes]) r
    Tries nested [some aborts, some writes] (noteCommand c r) writes u ∧ u.setting = r.setting ∧
      runCommand k watched c r = x ∧
      k.mode = .validate ∧ Impartial Guard ∧
      answer (nested aborts (noteCommand c r)) = .error (.conditionFailed .abort) ∧
      answer x = answer y ∧ (stateAfter x).setting = (stateAfter y).setting ∧
      answer x = .error .missingParameter ∧
      ∃ t, runCommand k nested (.runSequence sets) r = .ok () t ∧ t.selected = r.selected := by
  intro k m r nested watched sets aborts writes c u x y
  obtain ⟨hsetting, honly, hforgotten, hends, hnested⟩ := failed_alternatives_forgotten k 1 r
  have ha : answer (nested aborts (noteCommand c r)) = .error (.conditionFailed .abort) := by decide +kernel
  have hs := answer_eq_error ha
  have ht : Tries nested [some aborts, some writes] (noteCommand c r) writes u := .next hs .here
  have hw : answer (nested writes u) = .error .missingParameter := by decide +kernel
  have hf (b : Bytes) (s : Run Guard Unit Ram (Hash.Digester zeros) Payloads) (h : s.setting = r.setting) :
      watched b s = nested b s := by
    have hr : s.selected = [0] := congrArg Prod.snd h
    exact if_pos hr
  have hv : k.mode = .validate := rfl
  obtain ⟨hx, hy⟩ := hforgotten hv impartial_guard aborts [some writes] .abort _ (List.cons_ne_nil _ _) hs
  have hm := hends _ _ _ _ _ ht (answer_eq_error hw) id
  have hr : answer (runCommand k nested (.runSequence sets) r) = .ok () := by decide +kernel
  exact ⟨ht, hsetting _ _ _ ht, honly _ watched hf, hv, impartial_guard, ha, hx, hy,
    congrArg answer hm, _, answer_eq_ok hr, (hnested _ _ (answer_eq_ok hr)).1⟩

end Firmware.Processor.Run
