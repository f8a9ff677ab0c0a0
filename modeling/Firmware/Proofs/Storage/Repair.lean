import Firmware.Proofs.Storage.Operations
import Firmware.Proofs.Storage.Values

namespace Firmware.Storage.Store

open Flash Ram Hash Layout

variable {H : Hash.Algorithm → Bytes → Bytes} {l : Layout} {s : Store Ram (Digester H)} {x : Bytes}

lemma repair_succeeds (hd : ∀ x, x.length = l.variableCount.toNat → (H .sha256 x).length = digestLen)
    (h : Working l s.device) : ∃ rep t, repair l s = .ok rep t := by
  obtain ⟨e, he⟩ := repair_run h.valid
  rw [he]
  cases hm : l.copy H l.variableArea s.device with
  | some x =>
    dsimp only
    split
    · exact ⟨_, _, rfl⟩
    · have hx := length_of_copy h.valid.checked_area h.area hm
      obtain ⟨d, hw, -⟩ := writeCopy_healthy (s := ⟨s.device, e⟩) hd h h.valid.checked_backup h.backup hx
      exact ⟨.backupRefreshed, ⟨d, e⟩, by rw [EStateM.bind_of_ok _ _ _ hw, EStateM.pure_run]⟩
  | none =>
    cases hb : l.copy H l.variableBackup s.device with
    | some x =>
      have hx := length_of_copy h.valid.checked_backup h.backup hb
      obtain ⟨d, hw, -⟩ := writeCopy_healthy (s := ⟨s.device, e⟩) hd h h.valid.checked_area h.area hx
      exact ⟨.mainRestored, ⟨d, e⟩, by dsimp only; rw [EStateM.bind_of_ok _ _ _ hw, EStateM.pure_run]⟩
    | none =>
      obtain ⟨t, hc, -⟩ := commit_healthy (s := ⟨s.device, e⟩) hd h (Bytes.length_erased _)
      exact ⟨.reinitialized, t, by dsimp only; rw [EStateM.bind_of_ok _ _ _ hc, EStateM.pure_run]⟩

lemma repair_mirrored (h : l.Valid s.device) (hx : l.Mirrored H x s.device) :
    ∃ t, repair l s = .ok .intact t ∧ t.device = s.device := by
  obtain ⟨e, he⟩ := repair_run h
  rw [hx.main, hx.backup] at he
  exact ⟨⟨s.device, e⟩, by simpa using he, rfl⟩

/-- A start succeeds, leaves the variables that counted in both copies, or erased ones without any, and
changes nothing else. So all variables read as before, and a second start has nothing to write. -/
theorem init_mirrors {s₀ : Store Ram (Digester H)}
    (hd : ∀ x, x.length = l.variableCount.toNat → (H .sha256 x).length = digestLen)
    (hH : ∀ x y, x.length = l.variableCount.toNat → y.length = l.variableCount.toNat →
      H .sha256 x = H .sha256 y → x = y)
    (hu : s₀.device.writeUnit ∣ s₀.device.eraseUnit) (hf : ∀ k, s₀.device.faulty k = false)
    (hv : l.validate s₀.device = .ok ()) :
    ∃ rep s x, init l s₀ = .ok rep s ∧ l.Mirrored H x s.device ∧
      x = ((l.copy H l.variableArea s₀.device).or (l.copy H l.variableBackup s₀.device)).getD
        (Bytes.erased l.variableCount.toNat) ∧
      (∀ i < l.variableCount.toNat, answer (getVariable l i s) = .ok (x.getD i 0xff)) ∧
      ((l.copy H l.variableArea s₀.device ≠ none ∨ l.copy H l.variableBackup s₀.device ≠ none) →
        ∀ i, answer (getVariable l i s) = answer (getVariable l i s₀)) ∧
      Confined [l.variableArea, l.variableBackup] s₀.device s.device ∧
      ∀ e : Digester H, ∃ t, init l ⟨s.device, e⟩ = .ok .intact t ∧ t.device = s.device := by
  have hv := validate_eq_ok.mp hv
  have h₀ : Working l s₀.device := ⟨⟨hv, hu⟩, hf⟩
  obtain ⟨rep, s, hr⟩ := repair_succeeds hd h₀
  have hi : init l s₀ = .ok rep s := (init_of_fit h₀.toFit).trans hr
  obtain ⟨ha, x, hx, hm⟩ := repair_ok hd hH hv hr
  have h : Working l s.device := h₀.of_alike ha
  have hs (i : Nat) := (getVariable_answer h.valid i).trans (stored_of_copy hm.main i)
  refine ⟨rep, s, x, hi, hm, hx, fun i hn => (hs i).trans (if_pos hn), fun hc i => ?_,
    confined_of_reach (x := .values) (follows_init.of_ok hi), fun e => ?_⟩
  · obtain ⟨y, hy⟩ : ∃ y, l.current H s₀.device = some y := by
      rw [← Option.ne_none_iff_exists', current, ne_eq, Option.or_eq_none_iff]
      exact not_and_or.mpr hc
    rw [hs, getVariable_run hv hy, hx, hy, Option.getD_some]
  · rw [init_of_fit (s := ⟨s.device, e⟩) h.toFit]
    exact repair_mirrored (s := ⟨s.device, e⟩) h.valid hm

theorem init_mirrors_backupOnly :
    let b := Bytes.erased 40 ++ List.replicate 40 0 ++ filled (recordOf zeroPadded [7]) 40 ++ Bytes.erased 40
    let s₀ : Store Ram (Digester zeroPadded) := ⟨Ram.ofBytes b 4 40, Digester.idle⟩
    oneVariable.validate s₀.device = .ok () ∧
      ∃ rep s x, init oneVariable s₀ = .ok rep s ∧ oneVariable.Mirrored zeroPadded x s.device ∧ x = [7] ∧
        answer (getVariable oneVariable 0 s) = .ok 7 ∧
        (∀ i, answer (getVariable oneVariable i s) = answer (getVariable oneVariable i s₀)) ∧
        ∀ e : Digester zeroPadded, ∃ t, init oneVariable ⟨s.device, e⟩ = .ok .intact t ∧ t.device = s.device := by
  intro b s₀
  have hv : oneVariable.validate s₀.device = .ok () := by decide +kernel
  have hm : oneVariable.copy zeroPadded oneVariable.variableArea s₀.device = none := by decide +kernel
  have hb : oneVariable.copy zeroPadded oneVariable.variableBackup s₀.device = some [7] := by decide +kernel
  obtain ⟨rep, s, x, hi, hx, he, hg, hs, -, ht⟩ := init_mirrors separates_zeroPadded.length
    separates_zeroPadded.injective (by decide) (fun _ => rfl) hv
  rw [hm, hb] at he
  cases he
  exact ⟨hv, rep, s, [7], hi, hx, rfl, hg 0 (by decide), hs (.inr (by simp [hb])), ht⟩

end Firmware.Storage.Store
