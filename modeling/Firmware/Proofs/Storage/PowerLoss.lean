import Firmware.Proofs.Storage.VariableArea

namespace Firmware.Storage.Store

open Flash Ram Hash Layout

variable {H : Hash.Algorithm → Bytes → Bytes} {l : Layout} {s t : Store Ram (Digester H)} {x y : Bytes}

structure Fit (l : Layout) (d : Ram) : Prop where
  valid : l.Valid d
  units : d.writeUnit ∣ d.eraseUnit

lemma Fit.of_shaped {d d' : Ram} (h : Fit l d) (hs : d.Shaped d') : Fit l d' :=
  ⟨h.valid.of_shaped hs, by rw [hs.writeUnit, hs.eraseUnit]; exact h.units⟩

lemma Fit.area {d : Ram} (h : Fit l d) : l.variableRecordLen ≤ l.variableArea.size := h.valid.area_fits

lemma Fit.backup {d : Ram} (h : Fit l d) : l.variableRecordLen ≤ l.variableBackup.size := h.valid.backup_fits

lemma length_of_copy {r : Region} {d : Ram} (hr : Record.Checked r d)
    (hf : l.variableRecordLen ≤ r.size) (h : l.copy H r d = some x) :
    x.length = l.variableCount.toNat := by
  apply length_of_copyIn _ h
  rw [image, length_slice_of_le hr.inside]
  exact hf

lemma length_of_current (h : l.Valid s.device) (hc : l.current H s.device = some x) :
    x.length = l.variableCount.toNat := by
  rw [current, Option.or_eq_some_iff] at hc
  rcases hc with hc | ⟨-, hc⟩
  · exact length_of_copy h.checked_area h.area_fits hc
  · exact length_of_copy h.checked_backup h.backup_fits hc

lemma repair_run (h : l.Valid s.device) :
    ∃ e, repair l s =
      match l.copy H l.variableArea s.device, l.copy H l.variableBackup s.device with
      | some x, y =>
        if y.any (H .sha256 · = H .sha256 x) then .ok .intact ⟨s.device, e⟩
        else (do
          writeCopy l.variableBackup ⟨x, H .sha256 x⟩
          return .backupRefreshed : EStateM Failure (Store Ram (Digester H)) Repair) ⟨s.device, e⟩
      | none, some y =>
        (do
          writeCopy l.variableArea ⟨y, H .sha256 y⟩
          return .mainRestored : EStateM Failure (Store Ram (Digester H)) Repair) ⟨s.device, e⟩
      | none, none =>
        (do
          commit l (Bytes.erased l.variableCount.toNat)
          return .reinitialized : EStateM Failure (Store Ram (Digester H)) Repair) ⟨s.device, e⟩ := by
  obtain ⟨e, he⟩ := readCopy_run h.checked_area h.area_fits
  obtain ⟨f, hf⟩ := readCopy_run (s := ⟨s.device, e⟩) h.checked_backup h.backup_fits
  refine ⟨f, ?_⟩
  rw [repair, EStateM.bind_of_ok _ _ _ he, EStateM.bind_of_ok _ _ _ hf]
  cases l.copy H l.variableArea s.device with
  | none => cases l.copy H l.variableBackup s.device <;> rfl
  | some x =>
    cases l.copy H l.variableBackup s.device with
    | none => rfl
    | some y =>
      by_cases hd : H .sha256 y = H .sha256 x <;> simp [hd]

lemma repair_current (hH : Separates H l.variableCount.toNat) (h : Fit l s.device)
    (hc : l.current H s.device = some x) :
    ∃ t, s.device.Alike t.device ∧ l.current H t.device = some x ∧
      ((∃ rep, repair l s = .ok rep t) ∨
        ∃ e, repair l s = .error e t ∧ ∃ k, s.device.faulty k = true) := by
  have hx := length_of_current h.valid hc
  obtain ⟨e, he⟩ := repair_run h.valid
  rw [he]
  rw [current, Option.or_eq_some_iff] at hc
  rcases hc with hm | ⟨hm, hb⟩
  · rw [hm]
    dsimp only
    split
    · exact ⟨⟨s.device, e⟩, refl_of Alike _, by rw [current, hm, Option.some_or], .inl ⟨_, rfl⟩⟩
    · obtain ⟨d, ha, ho, hd⟩ := writeCopy_cases (s := ⟨s.device, e⟩) hH hx h.backup
        h.valid.checked_backup h.units
      have hn : l.current H d = some x := by
        rw [current, ho _ h.valid.area_apart_backup.symm, hm, Option.some_or]
      rw [EStateM.bind_run]
      rcases hd with ⟨hw, -⟩ | ⟨f, hw, hk, -⟩
      · exact ⟨⟨d, e⟩, ha, hn, .inl ⟨_, by rw [hw]; rfl⟩⟩
      · exact ⟨⟨d, e⟩, ha, hn, .inr ⟨f, by rw [hw], hk⟩⟩
  · rw [hm, hb]
    dsimp only
    obtain ⟨d, ha, ho, hd⟩ := writeCopy_cases (s := ⟨s.device, e⟩) hH hx h.area
      h.valid.checked_area h.units
    have hn : l.copy H l.variableBackup d = some x := by rw [ho _ h.valid.area_apart_backup, hb]
    rw [EStateM.bind_run]
    rcases hd with ⟨hw, hi⟩ | ⟨f, hw, hk, hi⟩
    · exact ⟨⟨d, e⟩, ha, by rw [current, hi, Option.some_or], .inl ⟨_, by rw [hw]; rfl⟩⟩
    · refine ⟨⟨d, e⟩, ha, ?_, .inr ⟨f, by rw [hw], hk⟩⟩
      change l.copy H l.variableArea d = l.copy H l.variableArea s.device ∨ _ at hi
      rw [hm] at hi
      rcases hi with hi | hi | hi <;> simp [current, hi, hn]

lemma contiguous_run (x : Bytes) (s : Store Ram (Digester H)) :
    onEngine (Engine.contiguous .sha256 x digestLen) s =
      .ok (H .sha256 x) ⟨s.device, Digester.idle⟩ := rfl

lemma commit_run (x : Bytes) (s : Store Ram (Digester H)) :
    commit l x s =
      (do
        writeCopy l.variableArea ⟨x, H .sha256 x⟩
        writeCopy l.variableBackup ⟨x, H .sha256 x⟩ : EStateM Failure (Store Ram (Digester H)) Unit)
        ⟨s.device, Digester.idle⟩ := by
  have ha : (onEngine (Engine.contiguous .sha256 x digestLen)).adaptExcept Hash.Error.failure s =
      .ok (H .sha256 x) ⟨s.device, Digester.idle⟩ := by
    rw [EStateM.adaptExcept_run, contiguous_run]
  rw [commit, EStateM.bind_of_ok _ _ _ ha]

lemma commit_cases (hH : Separates H l.variableCount.toNat) (h : Fit l s.device)
    (hx : x.length = l.variableCount.toNat) :
    ∃ t, s.device.Alike t.device ∧
      ((commit l x s = .ok () t ∧ l.copy H l.variableArea t.device = some x ∧
          l.copy H l.variableBackup t.device = some x) ∨
        ∃ e, commit l x s = .error e t ∧ (l.copy H l.variableArea t.device = some x ∨
          (l.copy H l.variableArea t.device = l.copy H l.variableArea s.device ∨
            l.copy H l.variableArea t.device = none) ∧
          l.copy H l.variableBackup t.device = l.copy H l.variableBackup s.device)) := by
  rw [commit_run, EStateM.bind_run]
  obtain ⟨d, ha, ho, ⟨hw, hi⟩ | ⟨e, hw, -, hi⟩⟩ := writeCopy_cases (s := ⟨s.device, Digester.idle⟩)
    hH hx h.area h.valid.checked_area h.units
  · have hf : Fit l d := h.of_shaped ha.toShaped
    obtain ⟨d', ha', ho', hd'⟩ := writeCopy_cases (s := ⟨d, Digester.idle⟩) hH hx hf.backup
      hf.valid.checked_backup hf.units
    have hm : l.copy H l.variableArea d' = some x := by
      rw [ho' _ h.valid.area_apart_backup.symm]
      exact hi
    rw [hw]
    refine ⟨⟨d', Digester.idle⟩, trans_of Alike ha ha', ?_⟩
    rcases hd' with ⟨hw', hi'⟩ | ⟨e, hw', -, -⟩
    · exact .inl ⟨hw', hm, hi'⟩
    · exact .inr ⟨e, hw', .inl hm⟩
  · rw [hw]
    refine ⟨⟨d, Digester.idle⟩, ha, .inr ⟨e, rfl, ?_⟩⟩
    have hb := ho _ h.valid.area_apart_backup
    rcases hi with hi | hi | hi
    · exact .inr ⟨.inl hi, hb⟩
    · exact .inr ⟨.inr hi, hb⟩
    · exact .inl hi

section Succeeded

variable (hd : ∀ x, x.length = l.variableCount.toNat → (H .sha256 x).length = digestLen)
include hd

lemma commit_eq_ok (h : l.Valid s.device) (hx : x.length = l.variableCount.toNat)
    (hc : commit l x s = .ok () t) : s.device.Alike t.device ∧ l.Mirrored H x t.device := by
  rw [commit_run] at hc
  obtain ⟨_, u, hm, hb⟩ := EStateM.bind_eq_ok hc
  obtain ⟨hu, hi, -⟩ := writeCopy_eq_ok (hd x hx) hx hm
  obtain ⟨ht, hj, ho⟩ := writeCopy_eq_ok (hd x hx) hx hb
  exact ⟨trans_of Alike hu ht, (ho _ h.area_apart_backup.symm).trans hi, hj⟩

lemma repair_eq_ok (h : l.Valid s.device) {rep : Repair} (hr : repair l s = .ok rep t) :
    s.device.Alike t.device ∧ ∃ x, x = (l.current H s.device).getD (Bytes.erased l.variableCount.toNat) ∧
      l.copy H l.variableArea t.device = some x ∧
      ∃ y, l.copy H l.variableBackup t.device = some y ∧ H .sha256 y = H .sha256 x := by
  obtain ⟨e, he⟩ := repair_run h
  rw [he] at hr
  rw [current]
  cases hm : l.copy H l.variableArea s.device with
  | some x =>
    have hx := length_of_copy h.checked_area h.area_fits hm
    rw [hm] at hr
    dsimp only at hr
    split at hr
    · rename_i hd
      cases hr
      cases hb : l.copy H l.variableBackup s.device with
      | none => simp [hb] at hd
      | some y => exact ⟨refl_of Alike _, x, rfl, hm, y, rfl, by simpa [hb] using hd⟩
    · obtain ⟨_, u, hw, hu⟩ := EStateM.bind_eq_ok hr
      cases hu
      obtain ⟨ha, hi, ho⟩ := writeCopy_eq_ok (hd x hx) hx hw
      exact ⟨ha, x, rfl, (ho _ h.area_apart_backup.symm).trans hm, x, hi, rfl⟩
  | none =>
    rw [hm] at hr
    cases hb : l.copy H l.variableBackup s.device with
    | some x =>
      have hx := length_of_copy h.checked_backup h.backup_fits hb
      rw [hb] at hr
      obtain ⟨_, u, hw, hu⟩ := EStateM.bind_eq_ok hr
      cases hu
      obtain ⟨ha, hi, ho⟩ := writeCopy_eq_ok (hd x hx) hx hw
      exact ⟨ha, x, rfl, hi, x, (ho _ h.area_apart_backup).trans hb, rfl⟩
    | none =>
      rw [hb] at hr
      obtain ⟨_, u, hw, hu⟩ := EStateM.bind_eq_ok hr
      cases hu
      obtain ⟨ha, hi, hj⟩ := commit_eq_ok hd (s := ⟨s.device, e⟩) h (Bytes.length_erased _) hw
      exact ⟨ha, _, rfl, hi, _, hj, rfl⟩

end Succeeded

lemma repair_ok (hd : ∀ x, x.length = l.variableCount.toNat → (H .sha256 x).length = digestLen)
    (hH : ∀ x y, x.length = l.variableCount.toNat → y.length = l.variableCount.toNat →
      H .sha256 x = H .sha256 y → x = y) (h : l.Valid s.device) {rep : Repair} (hr : repair l s = .ok rep t) :
    s.device.Alike t.device ∧ ∃ x, x = (l.current H s.device).getD (Bytes.erased l.variableCount.toNat) ∧
      l.Mirrored H x t.device := by
  obtain ⟨ha, x, hx, hm, y, hb, hy⟩ := repair_eq_ok hd h hr
  have ht : l.Valid t.device := h.of_shaped ha.toShaped
  have he := hH _ _ (length_of_copy ht.checked_backup ht.backup_fits hb)
    (length_of_copy ht.checked_area ht.area_fits hm) hy
  exact ⟨ha, x, hx, hm, he ▸ hb⟩

lemma init_run (s : Store Ram (Digester H)) :
    init l s =
      if s.device.ready = true then
        match l.validate s.device with
        | .ok _ => repair l s
        | .error e => .error e s
      else .error .notReady s := by
  rw [init, EStateM.bind_run, EStateM.get_run]
  dsimp only [isReady]
  split
  · rw [EStateM.bind_run, EStateM.get_run]
    dsimp only
    rw [EStateM.bind_run]
    cases l.validate s.device <;> rfl
  · rfl

lemma init_of_fit (h : Fit l s.device) : init l s = repair l s := by
  have hr : s.device.ready = true := h.valid.checked_area.ready
  rw [init_run, if_pos hr, validate_eq_ok.mpr h.valid]

/-- The device after starts that are each cut off by a fault after some number of changes. -/
def interrupted (l : Layout) : List (Nat × Digester H) → Ram → Ram
  | [], d => d
  | (n, e) :: cuts, d => interrupted l cuts (stateAfter (init l ⟨d.failAfter n, e⟩)).device

lemma interrupted_current (hH : Separates H l.variableCount.toNat) (cuts : List (Nat × Digester H))
    {d : Ram} (h : Fit l d) (hc : l.current H d = some x) :
    Fit l (interrupted l cuts d) ∧ l.current H (interrupted l cuts d) = some x := by
  induction cuts generalizing d with
  | nil => exact ⟨h, hc⟩
  | cons c cuts ih =>
    obtain ⟨n, e⟩ := c
    have hf : Fit l (d.failAfter n) := h.of_shaped ⟨rfl, rfl, rfl, rfl⟩
    obtain ⟨t, ha, ht, hr⟩ := repair_current (s := ⟨d.failAfter n, e⟩) hH hf hc
    have hd : stateAfter (init l ⟨d.failAfter n, e⟩) = t := by
      rw [init_of_fit hf]
      rcases hr with ⟨rep, hr⟩ | ⟨e, hr, -⟩ <;> rw [hr] <;> rfl
    rw [interrupted, hd]
    exact ih (hf.of_shaped ha.toShaped) ht

lemma getVariable_run (h : l.Valid s.device) (hc : l.current H s.device = some x) (i : Nat) :
    answer (getVariable l i s) =
      if i < l.variableCount.toNat then .ok (x.getD i 0xff) else .error .outOfBounds := by
  obtain ⟨e, he⟩ := readCopy_run h.checked_area h.area_fits
  obtain ⟨f, hf⟩ := readCopy_run (s := ⟨s.device, e⟩) h.checked_backup h.backup_fits
  rw [current, Option.or_eq_some_iff] at hc
  rw [getVariable, EStateM.bind_run, checkIndex]
  by_cases hi : i < l.variableCount.toNat
  · simp only [hi, ↓reduceIte, EStateM.lift_run]
    rw [EStateM.bind_of_ok _ _ _ he]
    rcases hc with hm | ⟨hm, hb⟩
    · rw [hm]
      rfl
    · rw [hm]
      dsimp only [Option.map]
      rw [EStateM.bind_of_ok _ _ _ hf, hb]
      rfl
  · simp [hi]

lemma setVariable_run (h : l.Valid s.device) (hm : l.copy H l.variableArea s.device = some x) (i : Nat)
    (v : UInt8) :
    ∃ e, setVariable l i v s =
      if i < l.variableCount.toNat then
        if x.getD i 0xff = v then .ok () ⟨s.device, e⟩ else commit l (x.set i v) ⟨s.device, e⟩
      else .error .outOfBounds s := by
  obtain ⟨e, he⟩ := readCopy_run h.checked_area h.area_fits
  refine ⟨e, ?_⟩
  rw [setVariable, EStateM.bind_run, checkIndex]
  by_cases hi : i < l.variableCount.toNat
  · simp only [hi, ↓reduceIte, EStateM.lift_run]
    rw [EStateM.bind_of_ok _ _ _ he, hm]
    dsimp only [Option.map]
    split <;> rfl
  · simp [hi]

lemma setVariable_current (hH : Separates H l.variableCount.toNat) (h : Fit l s.device)
    (hm : l.copy H l.variableArea s.device = some x)
    (hb : l.copy H l.variableBackup s.device = some x) (i : Nat) (v : UInt8) :
    ∃ t, stateAfter (setVariable l i v s) = t ∧ s.device.Alike t.device ∧
      ((l.current H t.device = some x ∧ answer (setVariable l i v s) ≠ .ok ()) ∨
        i < l.variableCount.toNat ∧ l.current H t.device = some (x.set i v)) := by
  have hx := length_of_copy h.valid.checked_area h.area hm
  obtain ⟨e, hs⟩ := setVariable_run h.valid hm i v
  rw [hs]
  split
  · rename_i hi
    split
    · rename_i hv
      have hg : x.set i v = x := by
        have hl : i < x.length := hx ▸ hi
        rw [← hv, List.getD_eq_getElem?_getD, List.getElem?_eq_getElem hl, Option.getD_some,
          List.set_getElem_self]
      exact ⟨⟨s.device, e⟩, rfl, refl_of Alike _, .inr ⟨hi, by
        rw [hg, current, hm, Option.some_or]⟩⟩
    · obtain ⟨t, ha, ⟨hc, hn, -⟩ | ⟨f, hc, hn⟩⟩ := commit_cases (s := ⟨s.device, e⟩)
        (x := x.set i v) hH h (by rw [List.length_set, hx])
      · exact ⟨t, by rw [hc]; rfl, ha, .inr ⟨hi, by rw [current, hn, Option.some_or]⟩⟩
      · refine ⟨t, by rw [hc]; rfl, ha, ?_⟩
        rcases hn with hn | ⟨hn, ho⟩
        · exact .inr ⟨hi, by rw [current, hn, Option.some_or]⟩
        · rw [hm] at hn
          rw [hb] at ho
          rcases hn with hn | hn <;> exact .inl ⟨by simp [current, hn, ho], by simp [hc]⟩
  · exact ⟨s, rfl, refl_of Alike _, .inl ⟨by rw [current, hm, Option.some_or], by simp⟩⟩

lemma init_eq_ok {rep : Repair} (h : init l s = .ok rep t) :
    l.Valid s.device ∧ repair l s = .ok rep t := by
  rw [init_run] at h
  repeat' split at h
  · exact ⟨validate_eq_ok.mp ‹_›, h⟩
  all_goals cases h

lemma init_interrupted (hH : Separates H l.variableCount.toNat) {d : Ram} (h : Fit l d)
    (hc : l.current H d = some x) (cuts : List (Nat × Digester H)) (e : Digester H) :
    ∃ rep t, init l ⟨(interrupted l cuts d).healthy, e⟩ = .ok rep t ∧
      ∀ j, answer (getVariable l j t) =
        if j < l.variableCount.toNat then .ok (x.getD j 0xff) else .error .outOfBounds := by
  obtain ⟨hf, hx⟩ := interrupted_current hH cuts h hc
  have hh : Fit l (interrupted l cuts d).healthy := hf.of_shaped ⟨rfl, rfl, rfl, rfl⟩
  obtain ⟨t, ha, ht, ⟨rep, hr⟩ | ⟨f, -, k, hk⟩⟩ := repair_current
    (s := ⟨(interrupted l cuts d).healthy, e⟩) hH hh hx
  · exact ⟨rep, t, by rw [init_of_fit hh, hr], getVariable_run (hh.of_shaped ha.toShaped).valid ht⟩
  · cases hk

/-- Setting a variable either fails and changes nothing, or it changes that variable only, and all
variables can be read, wherever power is lost on the way. -/
theorem setVariable_atomic (hH : Separates H l.variableCount.toNat) {s₀ : Store Ram (Digester H)}
    {rep : Repair} (hu : s₀.device.writeUnit ∣ s₀.device.eraseUnit) (hi : init l s₀ = .ok rep s)
    (i : Nat) (v : UInt8) (n : Nat) (cuts : List (Nat × Digester H)) (e : Digester H) :
    let r := setVariable l i v { s with device := s.device.failAfter n }
    ∃ rep' t, init l ⟨(interrupted l cuts (stateAfter r).device).healthy, e⟩ = .ok rep' t ∧
      (∀ j < l.variableCount.toNat, ∃ x, answer (getVariable l j t) = .ok x) ∧
      ((answer r ≠ .ok () ∧
          ∀ j, answer (getVariable l j t) = answer (getVariable l j s)) ∨
        ∀ j, answer (getVariable l j t) =
          if j = i then .ok v else answer (getVariable l j s)) := by
  intro r
  obtain ⟨hv, hr⟩ := init_eq_ok hi
  have h₀ : Fit l s₀.device := ⟨hv, hu⟩
  obtain ⟨ha, x, -, hm, hb⟩ := repair_ok hH.length hH.injective hv hr
  have hs : Fit l s.device := h₀.of_shaped ha.toShaped
  have hf : Fit l (s.device.failAfter n) := hs.of_shaped ⟨rfl, rfl, rfl, rfl⟩
  have hc : l.current H s.device = some x := by rw [current, hm, Option.some_or]
  have hx := length_of_current hs.valid hc
  obtain ⟨u, hu, hua, hd⟩ := setVariable_current (s := { s with device := s.device.failAfter n })
    hH hf hm hb i v
  have hru : stateAfter r = u := hu
  have huf : Fit l u.device := hf.of_shaped hua.toShaped
  rw [hru]
  rcases hd with ⟨hy, hn⟩ | ⟨hin, hy⟩
  · obtain ⟨rep', t, hi, hj⟩ := init_interrupted hH huf hy cuts e
    refine ⟨rep', t, hi, fun j h => ⟨_, (hj j).trans (if_pos h)⟩, .inl ⟨hn, fun j => ?_⟩⟩
    rw [hj, getVariable_run hs.valid hc]
  · obtain ⟨rep', t, hi, hj⟩ := init_interrupted hH huf hy cuts e
    refine ⟨rep', t, hi, fun j h => ⟨_, (hj j).trans (if_pos h)⟩, .inr fun j => ?_⟩
    rw [hj, getVariable_run hs.valid hc]
    by_cases he : j = i
    · subst he
      have hl : j < x.length := hx ▸ hin
      simp [hin, hl, List.getD_eq_getElem?_getD]
    · simp [he, List.getD_eq_getElem?_getD, List.getElem?_set_ne (Ne.symm he)]

def oneVariable : Layout where
  manifests := []
  flags := ⟨0, 40⟩
  reports := []
  variableArea := ⟨40, 40⟩
  variableBackup := ⟨80, 40⟩
  variableCount := 1
  candidate := ⟨120, 40⟩

def zeroPadded (_ : Hash.Algorithm) (x : Bytes) : Bytes :=
  x ++ List.replicate (digestLen - x.length) 0

lemma separates_zeroPadded : Separates zeroPadded oneVariable.variableCount.toNat where
  length x hx := by
    have hx : x.length = 1 := hx
    simp only [zeroPadded, List.length_append, List.length_replicate, hx]
    rfl
  injective x y hx hy h := by
    rw [zeroPadded, zeroPadded, hx, hy] at h
    exact List.append_cancel_right h
  ne_erased x hx h := by
    have hx : x.length = 1 := hx
    have hl := congrArg (·[1]?) h
    rw [zeroPadded, hx] at hl
    simp [hx, Bytes.erased, digestLen, Algorithm.size, Algorithm.bits] at hl

theorem setVariable_atomic_oneVariable :
    let e : Digester zeroPadded := Digester.idle
    let s₀ := ⟨Ram.ofBytes (Bytes.erased 160) 4 40, e⟩
    let s := stateAfter (init oneVariable s₀)
    let r := setVariable oneVariable 0 7 { s with device := s.device.failAfter 5 }
    Separates zeroPadded oneVariable.variableCount.toNat ∧
      s₀.device.writeUnit ∣ s₀.device.eraseUnit ∧
      init oneVariable s₀ = .ok .reinitialized s ∧
      ∃ rep t, init oneVariable ⟨(interrupted oneVariable [(2, e)] (stateAfter r).device).healthy, e⟩ =
          .ok rep t ∧
        (∀ j < oneVariable.variableCount.toNat, ∃ x, answer (getVariable oneVariable j t) = .ok x) ∧
        ((answer r ≠ .ok () ∧
            ∀ j, answer (getVariable oneVariable j t) = answer (getVariable oneVariable j s)) ∨
          ∀ j, answer (getVariable oneVariable j t) =
            if j = 0 then .ok 7 else answer (getVariable oneVariable j s)) := by
  intro e s₀ s r
  have hu : s₀.device.writeUnit ∣ s₀.device.eraseUnit := by decide
  have hi : init oneVariable s₀ = .ok .reinitialized s := answer_eq_ok (by decide +kernel)
  exact ⟨separates_zeroPadded, hu, hi,
    setVariable_atomic separates_zeroPadded hu hi 0 7 5 [(2, e)] e⟩

end Firmware.Storage.Store
