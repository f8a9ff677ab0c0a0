import Firmware.Proofs.Storage.Confinement
import Firmware.Proofs.Storage.Values
import Mathlib.Data.List.Induction

/-!
What a variable that has been set says about the backup. A device may fail for a while, so that the main
copy is written and the backup is not. A later attempt that has nothing to write does not look at the backup.
-/

namespace Firmware.Storage.Store

open Flash Ram Hash Layout

variable {H : Hash.Algorithm → Bytes → Bytes} {l : Layout} {s t : Store Ram (Digester H)} {x : Bytes}

/-- An attempt to set a variable, and the changes of the device that fail meanwhile. -/
structure Attempt where
  index : Nat
  value : UInt8
  faults : Nat → Bool

namespace Attempt

def run (l : Layout) (a : Attempt) (s : Store Ram (Digester H)) :
    EStateM.Result Failure (Store Ram (Digester H)) Unit :=
  setVariable l a.index a.value { s with device := { s.device with faulty := a.faults } }

def runs (l : Layout) (as : List Attempt) (s : Store Ram (Digester H)) : Store Ram (Digester H) :=
  as.foldl (fun s a => stateAfter (a.run l s)) s

def Changes (l : Layout) (a : Attempt) (s : Store Ram (Digester H)) : Prop :=
  (stateAfter (a.run l s)).device.contents ≠ s.device.contents

/-- Of these attempts, the last that changed the device has failed. -/
inductive Unfinished (l : Layout) (s : Store Ram (Digester H)) : List Attempt → Prop
  | failed {as : List Attempt} {a : Attempt} : a.Changes l (runs l as s) →
      answer (a.run l (runs l as s)) ≠ .ok () → Unfinished l s (as ++ [a])
  | idle {as : List Attempt} {a : Attempt} : ¬ a.Changes l (runs l as s) →
      Unfinished l s as → Unfinished l s (as ++ [a])

lemma runs_concat (as : List Attempt) (a : Attempt) :
    runs l (as ++ [a]) s = stateAfter (a.run l (runs l as s)) := by
  rw [runs, List.foldl_append]
  rfl

lemma shaped_run (a : Attempt) (s : Store Ram (Digester H)) :
    s.device.Shaped (stateAfter (a.run l s)).device := by
  have ha := alike_of_reach (follows_setVariable l a.index a.value
    { s with device := { s.device with faulty := a.faults } })
  exact ⟨ha.writeUnit, ha.eraseUnit, ha.ready, ha.length⟩

lemma run_eq_ok (hd : ∀ x, x.length = l.variableCount.toNat → (H .sha256 x).length = digestLen)
    {a : Attempt} (h : l.Valid s.device) (ha : a.run l s = .ok () t) :
    a.index < l.variableCount.toNat ∧ ∃ x, l.copy H l.variableArea t.device = some x ∧
      x.getD a.index 0xff = a.value ∧
      (t.device.contents = s.device.contents ∨ l.copy H l.variableBackup t.device = some x) := by
  obtain ⟨i, v, f⟩ := a
  let s' : Store Ram (Digester H) := { s with device := { s.device with faulty := f } }
  have h' : l.Valid s'.device := h.of_shaped ⟨rfl, rfl, rfl, rfl⟩
  change setVariable l i v s' = .ok () t at ha
  cases hm : l.copy H l.variableArea s'.device with
  | none =>
    obtain ⟨_, _, he, -⟩ := setVariable_refused h' hm i v
    rw [he] at ha
    cases ha
  | some x =>
    obtain ⟨e, he⟩ := setVariable_run h' hm i v
    rw [he] at ha
    split at ha
    · rename_i hi
      refine ⟨hi, ?_⟩
      have hx := length_of_copy h'.checked_area h'.area_fits hm
      split at ha
      · rename_i hv
        cases ha
        exact ⟨x, hm, hv, .inl rfl⟩
      · obtain ⟨-, hc⟩ := commit_eq_ok hd (s := ⟨s'.device, e⟩) h' (by rw [List.length_set, hx]) ha
        refine ⟨x.set i v, hc.main, ?_, .inr hc.backup⟩
        simp [List.getD_eq_getElem?_getD, hx, hi]
    · cases ha

end Attempt

open Attempt

/-- What the copies are like between attempts: they agree, or the last attempt that changed them failed, or
they differ since the start but have one digest. -/
structure Tracked (l : Layout) (s : Store Ram (Digester H)) (as : List Attempt) : Prop where
  valid : l.Valid (runs l as s).device
  backup : ∀ x, l.copy H l.variableArea (runs l as s).device = some x →
    l.copy H l.variableBackup (runs l as s).device = some x ∨ Unfinished l s as ∨
      (runs l as s).device.contents = s.device.contents ∧
        ∃ y, y ≠ x ∧ l.copy H l.variableBackup (runs l as s).device = some y ∧ H .sha256 y = H .sha256 x

section

variable (hd : ∀ x, x.length = l.variableCount.toNat → (H .sha256 x).length = digestLen)
include hd

lemma tracked_init {s₀ : Store Ram (Digester H)} {rep : Repair} (hi : init l s₀ = .ok rep s) : Tracked l s [] := by
  obtain ⟨hv, hr⟩ := init_eq_ok hi
  obtain ⟨ha, x, -, hm, y, hb, he⟩ := repair_eq_ok hd hv hr
  refine ⟨hv.of_shaped ha.toShaped, fun x' hx => ?_⟩
  obtain rfl : x = x' := Option.some.inj (hm.symm.trans hx)
  by_cases hy : y = x
  · exact .inl (hy ▸ hb)
  · exact .inr (.inr ⟨rfl, y, hy, hb, he⟩)

lemma tracked_concat {as : List Attempt} {a : Attempt} (h : Tracked l s as) : Tracked l s (as ++ [a]) := by
  have hr := runs_concat (l := l) (s := s) as a
  refine ⟨hr ▸ h.valid.of_shaped (shaped_run a _), fun x hx => ?_⟩
  by_cases hn : a.Changes l (runs l as s)
  · cases ha : a.run l (runs l as s) with
    | error e t => exact .inr (.inl (.failed hn (by simp [ha])))
    | ok u t =>
      obtain ⟨-, y, hm, -, hy⟩ := run_eq_ok hd h.valid ha
      rw [Attempt.Changes, ha] at hn
      rw [hr, ha] at hx ⊢
      obtain rfl : y = x := Option.some.inj (hm.symm.trans hx)
      exact .inl (hy.resolve_left hn)
  · have hc : (runs l (as ++ [a]) s).device.contents = (runs l as s).device.contents := hr ▸ not_not.mp hn
    have he (r : Region) : l.copy H r (runs l (as ++ [a]) s).device = l.copy H r (runs l as s).device := by
      rw [copy, copy, image, image, hc]
    rw [he] at hx
    rw [he, hc]
    rcases h.backup x hx with hb | hb | hb
    · exact .inl hb
    · exact .inr (.inl (.idle hn hb))
    · exact .inr (.inr hb)

lemma tracked_runs {s₀ : Store Ram (Digester H)} {rep : Repair} (hi : init l s₀ = .ok rep s)
    (as : List Attempt) : Tracked l s as := by
  induction as using List.reverseRecOn with
  | nil => exact tracked_init hd hi
  | append_singleton as a ih => exact tracked_concat hd ih

end

/-- After a start and any attempts, a variable that has been set is in a valid main copy. The backup is the same,
unless the attempt had nothing to write: then it is as the last attempt that changed the device left it
when that one failed, or as the start found it when the copies have one digest. -/
theorem setVariable_mirrors (hd : ∀ x, x.length = l.variableCount.toNat → (H .sha256 x).length = digestLen)
    {s₀ : Store Ram (Digester H)} {rep : Repair} (hi : init l s₀ = .ok rep s) (as : List Attempt) (a : Attempt)
    (ha : a.run l (runs l as s) = .ok () t) :
    a.index < l.variableCount.toNat ∧ ∃ x, l.copy H l.variableArea t.device = some x ∧
      x.getD a.index 0xff = a.value ∧
      (l.copy H l.variableBackup t.device = some x ∨
        t.device.contents = (runs l as s).device.contents ∧
          (Unfinished l s as ∨ t.device.contents = s.device.contents ∧
            ∃ y, y ≠ x ∧ l.copy H l.variableBackup t.device = some y ∧ H .sha256 y = H .sha256 x)) := by
  have h := tracked_runs hd hi as
  obtain ⟨hn, x, hm, hx, hb⟩ := run_eq_ok hd h.valid ha
  refine ⟨hn, x, hm, hx, ?_⟩
  rcases hb with hc | hb
  · have he (r : Region) : l.copy H r t.device = l.copy H r (runs l as s).device := by
      rw [copy, copy, image, image, hc]
    rw [he] at hm
    rw [he, hc]
    rcases h.backup x hm with hb | hb | hb
    · exact .inl hb
    · exact .inr ⟨rfl, .inl hb⟩
    · exact .inr ⟨rfl, .inr hb⟩
  · exact .inl hb

theorem setVariable_mirrors_afterFault :
    let s₀ : Store Ram (Digester zeroPadded) := ⟨Ram.ofBytes (Bytes.erased 160) 4 40, Digester.idle⟩
    let s := stateAfter (init oneVariable s₀)
    let as : List Attempt := [⟨0, 7, fun k => k = 16⟩]
    let a : Attempt := ⟨0, 9, fun _ => false⟩
    let t := stateAfter (a.run oneVariable (runs oneVariable as s))
    init oneVariable s₀ = .ok .reinitialized s ∧ a.run oneVariable (runs oneVariable as s) = .ok () t ∧
      ∃ x, oneVariable.copy zeroPadded oneVariable.variableArea t.device = some x ∧ x.getD 0 0xff = 9 ∧
        (oneVariable.copy zeroPadded oneVariable.variableBackup t.device = some x ∨
          t.device.contents = (runs oneVariable as s).device.contents ∧
            (Unfinished oneVariable s as ∨ t.device.contents = s.device.contents ∧
              ∃ y, y ≠ x ∧ oneVariable.copy zeroPadded oneVariable.variableBackup t.device = some y ∧
                zeroPadded .sha256 y = zeroPadded .sha256 x)) := by
  intro s₀ s as a t
  have hi : init oneVariable s₀ = .ok .reinitialized s := answer_eq_ok (by decide +kernel)
  have ha : a.run oneVariable (runs oneVariable as s) = .ok () t := answer_eq_ok (by decide +kernel)
  exact ⟨hi, ha, (setVariable_mirrors separates_zeroPadded.length hi as a ha).2⟩

/-- The device fails once while it writes the backup, and then the same value is set again: this succeeds,
and there is no backup. -/
theorem setVariable_again_unmirrored :
    let s₀ : Store Ram (Digester zeroPadded) := ⟨Ram.ofBytes (Bytes.erased 160) 4 40, Digester.idle⟩
    let s := stateAfter (init oneVariable s₀)
    let as : List Attempt := [⟨0, 7, fun k => k = 16⟩]
    let a : Attempt := ⟨0, 7, fun _ => false⟩
    let t := stateAfter (a.run oneVariable (runs oneVariable as s))
    answer (init oneVariable s₀) = .ok .reinitialized ∧ answer (a.run oneVariable (runs oneVariable as s)) = .ok () ∧
      oneVariable.copy zeroPadded oneVariable.variableArea t.device = some [7] ∧
      oneVariable.copy zeroPadded oneVariable.variableBackup t.device = none := by
  decide +kernel

end Firmware.Storage.Store
