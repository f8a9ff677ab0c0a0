import Firmware.Proofs.Processor.Commands
import Mathlib.Data.List.Forall2

namespace Firmware.Processor

open Flash Manifest Storage

variable {π H δ η τ α : Type} [Platform π H] [Flash δ]

lemma ask_eq_ok {c : Call H} {p q : Processor π H δ η τ} {a : c.Reply} (h : ask c p = .ok a q) :
    Account [.call c (.ok a)] p q := by
  have ha := Account.ask c p
  rwa [← answer_ask, h] at ha

lemma ask_eq_error {c : Call H} {p q : Processor π H δ η τ} {e : Failure} (h : ask c p = .error e q) :
    Account [.call c (.error e)] p q := by
  have ha := Account.ask c p
  rwa [← answer_ask, h] at ha

lemma Does.account {p q : Processor π H δ η τ} (h : Does (fun _ _ => False) p q) :
    Account [] p q := by
  obtain ⟨es, ha, hn⟩ := h
  cases es with
  | nil => exact ha
  | cons e es => exact (hn e List.mem_cons_self).elim

namespace Run

variable {r s : Run π H δ η τ}

omit [Platform π H] [Flash δ] in
lemma within_eq_ok {cause : Failure → Error} {f : EStateM Failure (Processor π H δ η τ) α}
    {a : α} (h : within cause f r = .ok a s) :
    ∃ q, f r.processor = .ok a q ∧ s = r.putProcessor q := by
  obtain ⟨q, hf, hs⟩ := onPart_eq_ok h
  exact ⟨q, EStateM.adaptExcept_eq_ok hf, hs⟩

lemma quiet_eq_ok {f : Act π H δ η τ α} (hf : Follows (Along (Does fun _ _ => False)) f)
    {a : α} (h : f r = .ok a s) : Account [] r.processor s.processor :=
  Does.account (hf.of_ok h)

lemma forM_eq_ok {γ : Type} {xs : List γ} {f : γ → Act π H δ η τ Unit} {event : γ → Event H}
    (hf : ∀ x r s, f x r = .ok () s → Account [event x] r.processor s.processor)
    (h : xs.forM f r = .ok () s) :
    Account (xs.map event) r.processor s.processor := by
  induction xs generalizing r with
  | nil =>
    cases h
    exact .refl _
  | cons x xs ih =>
    obtain ⟨u, t, hx, hs⟩ := EStateM.bind_eq_ok h
    exact (hf x r t hx).trans (ih hs)

omit [Platform π H] [Flash δ] in
lemma need_eq_ok {o : Option α} {a : α} (h : (need o : Act π H δ η τ α) r = .ok a s) :
    o = some a ∧ s = r := by
  cases o with
  | none => cases h
  | some b =>
    cases h
    exact ⟨rfl, rfl⟩

omit [Platform π H] [Flash δ] in
lemma member_eq_ok {i : Nat} {m : Member H} (h : (member i : Act π H δ η τ (Member H)) r = .ok m s) :
    r.members[i]? = some m ∧ s = r := by
  have h : (member i >>= pure) r = .ok m s := by rwa [bind_pure]
  rw [member_bind_run] at h
  cases hi : r.members[i]? with
  | none =>
    rw [hi] at h
    cases h
  | some x =>
    rw [hi] at h
    cases h
    exact ⟨rfl, rfl⟩

omit [Platform π H] [Flash δ] in
lemma handle_eq_ok {m : Member H} {h : H} (hh : (handle m : Act π H δ η τ H) r = .ok h s) :
    m.target = .component h ∧ s = r := by
  simp only [handle] at hh
  cases ht : m.target with
  | component k =>
    rw [ht] at hh
    cases hh
    exact ⟨rfl, rfl⟩
  | «variable» id =>
    rw [ht] at hh
    cases hh

omit [Platform π H] [Flash δ] in
lemma pair_eq_ok {i : Nat} {m : Member H} {target source : H}
    (h : (pair i m : Act π H δ η τ (H × H)) r = .ok (target, source) s) :
    m.target = .component target ∧ (∃ j x, m.parameters.sourceComponent = some j ∧
      r.members[j.toNat]? = some x ∧ x.target = .component source) ∧ s = r := by
  obtain ⟨j, r₁, h₁, hp⟩ := EStateM.bind_eq_ok h
  obtain ⟨hj, rfl⟩ := need_eq_ok h₁
  split at hp
  · cases hp
  · obtain ⟨x, r₂, h₂, hp₂⟩ := EStateM.bind_eq_ok hp
    obtain ⟨hx, rfl⟩ := member_eq_ok h₂
    obtain ⟨t, r₃, h₃, hp₃⟩ := EStateM.bind_eq_ok hp₂
    obtain ⟨ht, rfl⟩ := handle_eq_ok h₃
    obtain ⟨u, r₄, h₄, hp₄⟩ := EStateM.bind_eq_ok hp₃
    obtain ⟨hs, rfl⟩ := handle_eq_ok h₄
    cases hp₄
    exact ⟨ht, ⟨j, x, hj, hx, hs⟩, rfl⟩

lemma call_eq_ok {cause : Failure → Error} {c : Call H} {a : c.Reply}
    (h : within cause (Processor.ask c) r = .ok a s) :
    ∃ q, Account [.call c (.ok a)] r.processor q ∧ s = r.putProcessor q := by
  obtain ⟨q, hq, hs⟩ := within_eq_ok h
  exact ⟨q, ask_eq_ok hq, hs⟩

lemma sink_eq_ok {h : H} {c : SinkCall} (hs : sink h c r = .ok () s) :
    ∃ q, Account [.call (.openSink h) (.ok ()), .call (.sink h c) (.ok ())] r.processor q ∧
      s = r.putProcessor q := by
  obtain ⟨_, t, ht, hs⟩ := EStateM.bind_eq_ok hs
  obtain ⟨p, hp, rfl⟩ := call_eq_ok ht
  obtain ⟨q, hq, rfl⟩ := call_eq_ok hs
  exact ⟨q, hp.trans hq, rfl⟩

lemma forM_accounts {γ : Type} {xs : List γ} {f : γ → Act π H δ η τ Unit}
    {I : Run π H δ η τ → Prop} {Q : γ → List (Event H) → Prop}
    (hf : ∀ x t u, I t → f x t = .ok () u →
      I u ∧ ∃ es, Account es t.processor u.processor ∧ Q x es)
    (hr : I r) (h : xs.forM f r = .ok () s) :
    ∃ ess, Account ess.flatten r.processor s.processor ∧ List.Forall₂ Q xs ess := by
  induction xs generalizing r with
  | nil =>
    cases h
    exact ⟨[], .refl _, .nil⟩
  | cons x xs ih =>
    obtain ⟨_, t, hx, hs⟩ := EStateM.bind_eq_ok h
    obtain ⟨ht, es, ha, hq⟩ := hf x r t hr hx
    obtain ⟨ess, hess, hqs⟩ := ih ht hs
    exact ⟨es :: ess, ha.trans hess, .cons hq hqs⟩

lemma forSelected_eq_ok {f : Nat → Member H → Act π H δ η τ Unit}
    {Q : Nat → Member H → List (Event H) → Prop}
    (hf : ∀ i m t u, t.members = r.members → f i m t = .ok () u →
      u.members = r.members ∧ ∃ es, Account es t.processor u.processor ∧ Q i m es)
    (h : forSelected (fun i => do f i (← member i)) r = .ok () s) :
    ∃ ess, Account ess.flatten r.processor s.processor ∧
      List.Forall₂ (fun i es => ∃ m, r.members[i]? = some m ∧ Q i m es) r.selected ess := by
  obtain ⟨_, t, ht, hs⟩ := EStateM.bind_eq_ok h
  cases ht
  refine forM_accounts (I := fun t => t.members = r.members) (fun i t u ht hu => ?_) rfl hs
  obtain ⟨m, v, hm, hv⟩ := EStateM.bind_eq_ok hu
  obtain ⟨hi, rfl⟩ := member_eq_ok hm
  obtain ⟨hu', es, ha, hq⟩ := hf i m _ u ht hv
  exact ⟨hu', es, ha, m, ht ▸ hi, hq⟩

end Run

end Firmware.Processor
