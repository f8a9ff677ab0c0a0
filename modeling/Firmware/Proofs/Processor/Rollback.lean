import Firmware.Proofs.Processor.Gate

namespace Firmware.Processor

open Flash Manifest Storage

variable {π H δ η τ α : Type} [Platform π H]

def Outside (l : Layout) : Event H → Prop
  | .device e =>
    ∃ r ∈ l.flags :: l.variableArea :: l.variableBackup :: l.reports, e.mutation.Inside r
  | _ => True

omit [Platform π H] in
lemma Outside.of_preliminary {l : Layout} {exempt : List Region} (h : exempt ⊆ l.flags :: l.reports)
    {e : Event H} (he : Preliminary exempt e) : Outside l e := by
  cases e with
  | device e =>
    obtain ⟨r, hr, hi⟩ := he
    refine ⟨r, ?_, hi⟩
    rcases List.mem_cons.mp (h hr) with rfl | hr
    · exact List.mem_cons_self
    · exact List.mem_cons_of_mem _ (List.mem_cons_of_mem _ (List.mem_cons_of_mem _ hr))
  | _ => trivial

omit [Platform π H] in
lemma Outside.of_permitted {l : Layout} {m : Mode} {e : Event H} (he : Permitted m l e) :
    Outside l e := by
  cases e with
  | device e =>
    rcases he.2 with hi | hi
    · exact ⟨_, List.mem_cons_of_mem _ List.mem_cons_self, hi⟩
    · exact ⟨_, List.mem_cons_of_mem _ (List.mem_cons_of_mem _ List.mem_cons_self), hi⟩
  | _ => trivial

namespace Run

variable [Flash δ]

lemma acts_withoutSources {P : Layout → Event H → Prop} {f : Act π H δ η τ α}
    (hf : Follows (Acts P) f) : Follows (Acts P) (withoutSources f) := by
  intro r
  have ha (p : Processor π H δ η τ) (ts : List τ) : Does P p { p with sources := ts } :=
    ⟨[], .aside rfl rfl rfl rfl rfl rfl, fun _ h => by cases h⟩
  rw [Acts, stateAfter_withoutSources]
  exact trans_of (Does P) (ha r.processor [])
    (trans_of (Does P) (hf (r.putProcessor { r.processor with sources := [] })) (ha _ _))

variable [Hash.Engine η]

lemma acts_accept_outside (b : Bytes) (a : Arena) :
    Follows (Acts Outside) (accept b a : Act π H δ η τ (Envelope × Uuid)) :=
  (acts_accept b a []).mono fun _ _ => Does.mono fun _ => .of_preliminary (List.nil_subset _)

variable [Source τ]

lemma acts_pass_outside (k : Pass) (kinds : List SequenceKind) :
    Follows (Acts Outside) (pass k kinds : Act π H δ η τ Unit) :=
  (acts_pass k kinds).mono fun _ _ => Does.mono fun _ => .of_permitted

lemma acts_checkUpdate (b : Bytes) (a : Arena) :
    Follows (Acts Outside) (checkUpdate b a : Act π H δ η τ Unit) :=
  .bind (acts_accept_outside b a) fun _ => acts_pass_outside _ _

lemma acts_boot {P : Layout → Event H → Prop} (hp : ∀ l e, Preliminary [] e → P l e)
    (hm : ∀ m l e, Permitted m l e → P l e) (c : Uuid) (a : Arena) :
    Follows (Acts P) (boot c a : Act π H δ η τ Unit) := by
  have hk (k : Pass) : Follows (Acts P) (pass k bootKinds : Act π H δ η τ Unit) :=
    (acts_pass k bootKinds).mono fun _ _ => Does.mono (hm k.mode _)
  refine .bind (along_modify fun _ => rfl) fun _ => .bind (along_slot c) fun s => ?_
  refine .bind (.bind .get fun _ => .lift _) fun b => .bind (along_decode b) fun e => .check ?_
  refine .bind (along_enter _) fun _ => .bind ?_ fun _ => .bind (hk _) fun _ => .bind (hk _) fun _ =>
    along_enter _
  exact (acts_authenticate e c _ _ []).mono fun _ _ => Does.mono (hp _)

lemma update_cases (b : Bytes) (a : Arena) (r : Run π H δ η τ) :
    Acts Outside r (stateAfter (update b a r)) ∧ answer (update b a r) ≠ .ok () ∨
      ∃ e c s p t u, Accepted b a e c s r.processor p ∧ Does Outside r.processor u.processor ∧
        pass (passOf e c .execute) updateKinds t = .ok () u ∧
        (stateAfter (update b a r)).processor =
          stateAfter (onDevice (installEnvelope u.processor.layout c b) u.processor) ∧
        answer (update b a r) =
          (answer (onDevice (installEnvelope u.processor.layout c b) u.processor)).mapError .platform := by
  have ha := acts_accept_outside b a r
  rw [update, EStateM.bind_run]
  cases hx : accept b a r with
  | error e r₁ =>
    rw [hx] at ha
    exact .inl ⟨ha, fun h => by cases h⟩
  | ok x r₁ =>
    obtain ⟨e, c⟩ := x
    rw [hx] at ha
    obtain ⟨s, hs⟩ := accept_eq_ok hx
    dsimp only
    rw [EStateM.bind_run]
    have hv := acts_pass_outside (passOf e c .validate) updateKinds r₁
    cases hy : pass (passOf e c .validate) updateKinds r₁ with
    | error e r₂ =>
      rw [hy] at hv
      exact .inl ⟨trans_of (Acts Outside) ha hv, fun h => by cases h⟩
    | ok u r₂ =>
      rw [hy] at hv
      have hv := trans_of (Acts Outside) ha hv
      dsimp only
      rw [EStateM.bind_run]
      have hp := acts_pass_outside (passOf e c .execute) updateKinds r₂
      cases hz : pass (passOf e c .execute) updateKinds r₂ with
      | error e r₃ =>
        rw [hz] at hp
        exact .inl ⟨trans_of (Acts Outside) hv hp, fun h => by cases h⟩
      | ok u r₃ =>
        rw [hz] at hp
        refine .inr ⟨e, c, s, r₁.processor, r₂, r₃, hs, trans_of (Acts Outside) hv hp, hz, ?_⟩
        simp only [enter, EStateM.bind_run, EStateM.modify_run, within, onPart,
          EStateM.adaptExcept_run, EStateM.get_run]
        cases onDevice (installEnvelope r₃.processor.layout c b) r₃.processor with
        | ok u q => exact ⟨rfl, rfl⟩
        | error x q => exact ⟨rfl, rfl⟩

end Run

section

variable [Flash δ]

lemma outside_reporting (f : Run.Act π H δ η τ Unit) (p : Processor π H δ η τ) :
    Does Outside (stateAfter (f (.start p))).processor (stateAfter (reporting f p)) := by
  rw [stateAfter_reporting]
  generalize hs : (stateAfter (f (.start p))).finish (answer (f (.start p))) = s
  have hf : Does Outside (stateAfter (f (.start p))).processor s.processor := hs ▸ Run.acts_finish _ _
  refine trans_of (Does Outside) hf ((Run.acts_saveReport s).mono fun e he => ?_)
  exact .of_preliminary (fun r hr => List.mem_cons_of_mem _ (mem_reports hr)) he

omit [Platform π H] in
lemma answer_reporting {f : Run.Act π H δ η τ Unit} {p : Processor π H δ η τ}
    (h : answer (reporting f p) = .ok ()) : answer (f (.start p)) = .ok () := by
  unfold reporting at h
  dsimp only at h
  cases ha : answer (f (.start p)) with
  | ok u => rfl
  | error e =>
    rw [ha] at h
    cases h

variable [Hash.Engine η] [Source τ]

lemma outside_checkUpdate (b : Bytes) (a : Arena) (p : Processor π H δ η τ) :
    Does Outside p (stateAfter (checkUpdate b a p)) := by
  rw [stateAfter_checkUpdate]
  exact Run.acts_withoutSources (Run.acts_checkUpdate b a) (.start p)

lemma outside_boot (c : Uuid) (a : Arena) (p : Processor π H δ η τ) :
    Does Outside p (stateAfter (boot c a p)) := by
  refine trans_of (Does Outside) ?_ (outside_reporting _ p)
  have h : Run.Acts Outside (.start p)
    (stateAfter (Run.withoutSources (Run.boot c a) (.start p))) :=
    Run.acts_withoutSources (Run.acts_boot (fun _ _ => .of_preliminary (List.nil_subset _))
      (fun _ _ _ => .of_permitted) c a) (.start p)
  revert h
  cases Run.withoutSources (Run.boot c a) (.start p) with
  | ok u r => exact id
  | error e r =>
    refine fun h => trans_of (Does Outside) h ((Run.acts_requestRecovery r).mono fun e he => ?_)
    exact .of_preliminary (List.cons_subset_cons _ (List.nil_subset _)) he

end

structure Supports (l : Layout) (d : Ram) : Prop where
  valid : l.Valid d
  units : d.writeUnit ∣ d.eraseUnit
  faultless : ∀ k, d.faulty k = false

open Ram

lemma Supports.of_alike {l : Layout} {d d' : Ram} (h : Supports l d) (ha : d.Alike d') :
    Supports l d' where
  valid := h.valid.of_shaped ha.toShaped
  units := by
    rw [ha.writeUnit, ha.eraseUnit]
    exact h.units
  faultless k := by
    rw [ha.faulty]
    exact h.faultless k

variable {p q : Processor π H Ram η τ} {c : Uuid} {s : Slot}

lemma alike_of_does {P : Layout → Event H → Prop} (h : Does P p q) :
    p.store.device.Alike q.store.device := by
  obtain ⟨es, ha, -⟩ := h
  exact alike_of_reach (ha.device (fun _ => True) fun _ _ => trivial)

lemma valid_of_does {P : Layout → Event H → Prop} (h : Does P p q)
    (hp : p.layout.Valid p.store.device) : q.layout.Valid q.store.device :=
  h.layout ▸ hp.of_shaped (alike_of_does h).toShaped

lemma supports_of_does {P : Layout → Event H → Prop} (h : Does P p q)
    (hp : Supports p.layout p.store.device) : Supports q.layout q.store.device :=
  h.layout ▸ hp.of_alike (alike_of_does h)

lemma image_of_does {f : Layout → List Region} {x : Region}
    (h : Does (fun l e => ∀ x, e = .device x → ∃ r ∈ f l, x.mutation.Inside r) p q)
    (ha : ∀ r ∈ f p.layout, r.Apart x) : image x q.store.device = image x p.store.device := by
  obtain ⟨es, hes, hP⟩ := h
  have hr := hes.device (fun m => ∃ r ∈ f p.layout, m.Inside r) fun x hx => hP _ hx x rfl
  apply slice_of_reach hr
  rintro m ⟨r, hr, hm⟩
  exact hm.spares_region (ha r hr)

lemma image_of_outside (h : Does Outside p q) (hp : p.layout.Valid p.store.device)
    (hs : s ∈ p.layout.manifests) :
    image s.region q.store.device = image s.region p.store.device := by
  refine image_of_does (f := fun l => l.flags :: l.variableArea :: l.variableBackup :: l.reports)
    (h.mono ?_) fun r hr => ?_
  · rintro e he x rfl
    exact he
  · obtain ⟨⟨-, hrep⟩, hrest, -⟩ := hp.parts_apart
    simp only [List.mem_cons] at hr
    rcases hr with rfl | rfl | rfl | hr
    · exact (hrest s hs _ (by simp)).symm
    · exact (hrest s hs _ (by simp)).symm
    · exact (hrest s hs _ (by simp)).symm
    · exact (hrep s hs r hr).symm

omit [Platform π H] in
lemma onDevice_eq {f : EStateM Failure (Journaled Ram) α} {g : EStateM Failure Ram α}
    (h : Mirrors Journaled.device f g) (p : Processor π H Ram η τ) :
    answer (onDevice f p) = answer (g p.store.device) ∧
      (stateAfter (onDevice f p)).store.device = stateAfter (g p.store.device) := by
  have hg := h ⟨p.store.device, []⟩
  simp only at hg
  rw [hg]
  simp only [onDevice, onStore, Store.onDevice, onPart]
  cases f ⟨p.store.device, []⟩ <;> exact ⟨rfl, rfl⟩

omit [Platform π H] in
lemma checked_slot {l : Layout} {d : Ram} (h : l.Valid d) (hs : l.slot c = .ok s) :
    Record.Checked s.region d :=
  h.checked s.region (by simp [Layout.regions, List.mem_map_of_mem (slot_mem hs).1])

omit [Platform π H] in
lemma Supports.checked {l : Layout} {d : Ram} (h : Supports l d) (hs : l.slot c = .ok s) :
    Record.Checked s.region d :=
  checked_slot h.valid hs

omit [Platform π H] in
lemma install_cases {b : Bytes} (hp : p.layout.Valid p.store.device)
    (hu : p.store.device.writeUnit ∣ p.store.device.eraseUnit) (hs : p.layout.slot c = .ok s)
    (hb : b ≠ []) :
    let x := onDevice (installEnvelope p.layout c b) p
    (∃ e, answer x = .error e ∧
        image s.region (stateAfter x).store.device = image s.region p.store.device) ∨
      (∃ e, answer x = .error e ∧ Torn s.region (Record.bytes .binary [b]) (stateAfter x).store.device ∧
        ∃ k, p.store.device.faulty k = true) ∨
      answer x = .ok () ∧ image s.region (stateAfter x).store.device =
        filled (Record.bytes .binary [b]) s.region.size := by
  have hm : Mirrors Journaled.device (installEnvelope p.layout c b : EStateM _ (Journaled Ram) Unit)
      (Record.save s.region b) := by
    simp only [installEnvelope]
    rw [hs]
    exact Record.mirrors_write s.region .binary [b]
  obtain ⟨ha, hd⟩ := onDevice_eq hm p
  intro x
  rw [ha, hd]
  rcases save_cases (checked_slot hp hs) hu hb with ⟨e, d, he, hi⟩ | ⟨e, d, he, ht⟩ | ⟨d, he, hi⟩
  · rw [he]
    exact .inl ⟨e, rfl, hi⟩
  · rw [he]
    exact .inr (.inl ⟨e, rfl, ht⟩)
  · rw [he]
    exact .inr (.inr ⟨rfl, hi⟩)

structure Forward (c : Uuid) (s : Slot) (p q : Processor π H Ram η τ) : Prop where
  layout : q.layout = p.layout
  supports : Supports q.layout q.store.device
  number : ∀ (a a' : Arena) (n : UInt32), installedNumber p.layout c a p.store.device = some n →
    ∃ m, installedNumber p.layout c a' q.store.device = some m ∧ n ≤ m

omit [Platform π H] in
lemma Forward.of_image (hp : Supports p.layout p.store.device) (hs : p.layout.slot c = .ok s)
    (hl : q.layout = p.layout) (hq : Supports p.layout q.store.device)
    (hi : image s.region q.store.device = image s.region p.store.device) : Forward c s p q where
  layout := hl
  supports := hl ▸ hq
  number a a' n hn :=
    ⟨n, installedNumber_congr hs (hp.checked hs) (hq.checked hs) hi a a' ▸ hn, UInt32.le_refl n⟩

omit [Platform π H] in
lemma Forward.trans {r : Processor π H Ram η τ} (h : Forward c s p q) (h' : Forward c s q r) :
    Forward c s p r where
  layout := h'.layout.trans h.layout
  supports := h'.supports
  number a a' n hn := by
    obtain ⟨m, hm, hnm⟩ := h.number a a n hn
    obtain ⟨k, hk, hmk⟩ := h'.number a a' m (h.layout ▸ hm)
    exact ⟨k, h.layout ▸ hk, UInt32.le_trans hnm hmk⟩

lemma Forward.of_outside (h : Does Outside p q) (hp : Supports p.layout p.store.device)
    (hs : p.layout.slot c = .ok s) : Forward c s p q :=
  .of_image hp hs h.layout (h.layout ▸ supports_of_does h hp) (image_of_outside h hp.valid (slot_mem hs).1)

lemma does_install {b : Bytes} (hs : p.layout.slot c = .ok s) :
    Does (fun _ e => ∀ x, e = .device x → ∃ r ∈ [s.region], x.mutation.Inside r) p
      (stateAfter (onDevice (installEnvelope p.layout c b) p)) := by
  have hf : Follows (Reach (·.Inside s.region))
      (installEnvelope p.layout c b : EStateM _ (Journaled Ram) Unit) := by
    simp only [installEnvelope]
    rw [hs]
    exact Record.follows_save s.region b
  apply does_onDevice p hf
  rintro e he x ⟨rfl⟩
  exact ⟨s.region, List.mem_singleton_self _, he⟩

variable [Hash.Engine η]

/-- The platform leaves sequence numbers to the rules of the class. -/
def LeavesSequences (π : Type) {H : Type} [Platform π H] : Prop :=
  ∀ (c : Uuid) (p : Policy) (n : UInt32) (m : Option UInt32) (s : π),
    answer (Platform.perform (.authorizeSequence c p n m) s) = Call.sequenceByDefault p n m

lemma Run.Accepted.newer {b : Bytes} {a : Arena} {e : Envelope} (h : Run.Accepted b a e c s p q)
    (hπ : LeavesSequences π) (hd : s.policy.downgradePrevention = true) {n : UInt32}
    (hn : installedNumber p.layout c a p.store.device = some n) : n < e.manifest.sequenceNumber := by
  obtain ⟨u, hu⟩ := h.account.calls.reply (List.mem_append_right _ (List.mem_singleton_self _))
  rw [hπ, hn, Call.sequenceByDefault] at hu
  by_contra hlt
  have hle : e.manifest.sequenceNumber ≤ n := UInt32.not_lt.mp hlt
  simp [hd, hle] at hu

variable [Source τ]

lemma update_slot (hπ : LeavesSequences π) (hp : Supports p.layout p.store.device)
    (hs : p.layout.slot c = .ok s) (hd : s.policy.downgradePrevention = true) (b : Bytes) (a : Arena) :
    (stateAfter (update b a p)).layout = p.layout ∧
      Supports p.layout (stateAfter (update b a p)).store.device ∧
      (image s.region (stateAfter (update b a p)).store.device = image s.region p.store.device ∧
          (∀ e, Envelope.parse b = .ok e → e.manifest.classId? = some c →
            answer (update b a p) ≠ .ok ()) ∨
        ∃ e, Envelope.parse b = .ok e ∧
          image s.region (stateAfter (update b a p)).store.device =
            filled (Record.bytes .binary [b]) s.region.size ∧
          ∀ n, installedNumber p.layout c a p.store.device = some n →
            n < e.manifest.sequenceNumber) := by
  have hm := (slot_mem hs).1
  have hr := outside_reporting (Run.update b a) p
  have ho {r : Processor π H Ram η τ} (h : Does Outside p r) :
      r.layout = p.layout ∧ Supports p.layout r.store.device ∧
        image s.region r.store.device = image s.region p.store.device := by
    have hl := h.layout
    exact ⟨hl, hl ▸ supports_of_does h hp, image_of_outside h hp.valid hm⟩
  rcases Run.update_cases b a (.start p) with ⟨h, hn⟩ | ⟨e, c', s', p', t, u, hacc, hq, -, heq, hok⟩
  · obtain ⟨hl, hsup, hi⟩ := ho (trans_of (Does Outside) h hr)
    exact ⟨hl, hsup, .inl ⟨hi, fun _ _ _ ha => hn (answer_reporting ha)⟩⟩
  · rw [heq] at hr
    generalize u.processor = q at hr hq hok
    obtain ⟨ql, qs, qi⟩ := ho hq
    have hs' : q.layout.slot c' = .ok s' := ql ▸ hacc.slot
    have hin := does_install (b := b) hs'
    generalize hq₁ : stateAfter (onDevice (installEnvelope q.layout c' b) q) = q₁ at hr hin
    have hl₁ : q₁.layout = p.layout := hin.layout.trans ql
    have hs₁ := supports_of_does hin (ql ▸ qs)
    have hi : image s.region (stateAfter (update b a p)).store.device =
        image s.region q₁.store.device := image_of_outside hr hs₁.valid (hl₁ ▸ hm)
    refine ⟨hr.layout.trans hl₁, hl₁ ▸ hr.layout ▸ supports_of_does hr hs₁, ?_⟩
    rw [hi]
    by_cases hc : c' = c
    · subst hc
      cases hacc.slot.symm.trans hs
      have hb : b ≠ [] := by
        rintro rfl
        cases hacc.parsed
      have qs : Supports q.layout q.store.device := ql ▸ qs
      rcases install_cases qs.valid qs.units hs' hb with ⟨x, ha, himg⟩ | ⟨_, -, -, k, hk⟩ | ⟨-, himg⟩
      · rw [hq₁] at himg
        refine .inl ⟨himg.trans qi, fun _ _ _ h => ?_⟩
        have hok := hok.symm.trans (answer_reporting h)
        rw [ha] at hok
        cases hok
      · rw [qs.faultless k] at hk
        cases hk
      · rw [hq₁] at himg
        exact .inr ⟨e, hacc.parsed, himg, fun n hn => hacc.newer hπ hd hn⟩
    · have hne : s' ≠ s := by
        rintro rfl
        exact hc ((slot_mem hs).2 ▸ (slot_mem hacc.slot).2.symm)
      have hap := hp.valid.slot_apart_slot (slot_mem hacc.slot).1 hm hne
      have himg : image s.region q₁.store.device = image s.region q.store.device :=
        image_of_does (f := fun _ => [s'.region]) hin (by simpa using hap)
      refine .inl ⟨himg.trans qi, fun e' he' hc' => ?_⟩
      cases hacc.parsed.symm.trans he'
      exact absurd (Option.some.inj (hacc.classId.symm.trans hc')) hc

inductive Request (τ : Type) where
  | update (sources : List τ) (b : Bytes) (a : Arena)
  | check (b : Bytes) (a : Arena)
  | boot (c : Uuid) (a : Arena)

def serve (p : Processor π H Ram η τ) : Request τ → Processor π H Ram η τ
  | .update sources b a => stateAfter (update b a { p with sources })
  | .check b a => stateAfter (checkUpdate b a p)
  | .boot c a => stateAfter (boot c a p)

lemma Forward.of_update (hπ : LeavesSequences π) (hp : Supports p.layout p.store.device)
    (hs : p.layout.slot c = .ok s) (hd : s.policy.downgradePrevention = true) (b : Bytes) (a : Arena) :
    Forward c s p (stateAfter (update b a p)) := by
  obtain ⟨hl, hq, ⟨hi, -⟩ | ⟨e, he, hi, hlt⟩⟩ := update_slot hπ hp hs hd b a
  · exact .of_image hp hs hl hq hi
  · refine ⟨hl, hl ▸ hq, fun a₁ a₂ n hn => ?_⟩
    have hn : installedNumber p.layout c a p.store.device = some n :=
      installedNumber_congr hs (hp.checked hs) (hp.checked hs) rfl a₁ a ▸ hn
    exact ⟨_, installedNumber_of_image hs (hq.checked hs) hi he a₂, UInt32.le_of_lt (hlt n hn)⟩

lemma forward_serve (hπ : LeavesSequences π) (hp : Supports p.layout p.store.device)
    (hs : p.layout.slot c = .ok s) (hd : s.policy.downgradePrevention = true) (r : Request τ) :
    Forward c s p (serve p r) := by
  cases r with
  | update sources b a =>
    have hf : Forward c s p { p with sources } := .of_image hp hs rfl hp rfl
    have hu := Forward.of_update (p := { p with sources }) hπ hp hs hd b a
    exact hf.trans hu
  | check b a => exact .of_outside (outside_checkUpdate b a p) hp hs
  | boot c' a => exact .of_outside (outside_boot c' a p) hp hs

lemma forward_run (hπ : LeavesSequences π) (hp : Supports p.layout p.store.device)
    (hs : p.layout.slot c = .ok s) (hd : s.policy.downgradePrevention = true)
    (rs : List (Request τ)) : Forward c s p (rs.foldl serve p) := by
  induction rs generalizing p with
  | nil => exact .of_image hp hs rfl hp rfl
  | cons r rs ih =>
    have hr := forward_serve hπ hp hs hd r
    exact hr.trans (ih hr.supports (hr.layout ▸ hs))

/-- However long a processor has been at work, no call lets the installed sequence number of a class
under downgrade prevention shrink or vanish, and an update that changes the slot of the class, or
succeeds for it, leaves there the number of its envelope, which is greater than the one before. -/
theorem installedNumber_rises (hπ : LeavesSequences π)
    (hl : p.layout.validate p.store.device = .ok ())
    (hu : p.store.device.writeUnit ∣ p.store.device.eraseUnit)
    (hf : ∀ k, p.store.device.faulty k = false) (hs : p.layout.slot c = .ok s)
    (hd : s.policy.downgradePrevention = true) (before after : List (Request τ)) (a a' : Arena) :
    let q := before.foldl serve p
    (∀ n, installedNumber p.layout c a q.store.device = some n →
      ∃ m, installedNumber p.layout c a' (after.foldl serve q).store.device = some m ∧ n ≤ m) ∧
    ∀ (sources : List τ) (b : Bytes) (x : Arena),
      let u := update b x { q with sources }
      (image s.region (stateAfter u).store.device ≠ image s.region q.store.device ∨
          (answer u = .ok () ∧ ∃ e, Envelope.parse b = .ok e ∧ e.manifest.classId? = some c)) →
        ∃ e, Envelope.parse b = .ok e ∧
          installedNumber p.layout c a' (stateAfter u).store.device =
            some e.manifest.sequenceNumber ∧
          ∀ n, installedNumber p.layout c a q.store.device = some n →
            n < e.manifest.sequenceNumber := by
  intro q
  have hp : Supports p.layout p.store.device := ⟨Layout.validate_eq_ok.mp hl, hu, hf⟩
  have hq := forward_run hπ hp hs hd before
  have hsq : q.layout.slot c = .ok s := hq.layout ▸ hs
  constructor
  · have hr := (forward_run hπ hq.supports hsq hd after).number a a'
    rwa [hq.layout] at hr
  · intro sources b x u hc
    obtain ⟨hlu, hsu, ⟨hi, hn⟩ | ⟨e, he, hi, hlt⟩⟩ :=
      update_slot (p := { q with sources }) hπ hq.supports hsq hd b x
    · rcases hc with hc | ⟨ha, e, he, hc⟩
      · exact absurd hi hc
      · exact absurd ha (hn e he hc)
    · refine ⟨e, he, ?_, fun n hn => hlt n ?_⟩
      · exact hq.layout ▸ installedNumber_of_image hsq (hsu.checked hsq) hi he a'
      · rw [← hn, ← hq.layout]
        exact installedNumber_congr hsq (hq.supports.checked hsq) (hq.supports.checked hsq) rfl a x

lemma leavesSequences_indifferent : LeavesSequences Indifferent := by
  intro c p n m s
  change answer ((liftM (Call.sequenceByDefault p n m) : EStateM Failure Indifferent Unit) s) = _
  cases Call.sequenceByDefault p n m <;> rfl

theorem installedNumber_rises_blank :
    let x := Arena.ofSize 256
    let before : List (Request Payloads) := [.update [] (plainEnvelope 7) x]
    let after : List (Request Payloads) :=
      [.boot .zero x, .update [] (plainEnvelope 5) x, .check (plainEnvelope 6) x]
    LeavesSequences Indifferent ∧ blank.layout.validate blank.store.device = .ok () ∧
      blank.store.device.writeUnit ∣ blank.store.device.eraseUnit ∧
      (∀ k, blank.store.device.faulty k = false) ∧ blank.layout.slot .zero = .ok zeroClass ∧
      zeroClass.policy.downgradePrevention = true ∧
      installedNumber blank.layout .zero x (before.foldl serve blank).store.device = some 7 ∧
      ∃ m, installedNumber blank.layout .zero x
        (after.foldl serve (before.foldl serve blank)).store.device = some m ∧ 7 ≤ m := by
  intro x before after
  have hl : blank.layout.validate blank.store.device = .ok () := by decide +kernel
  have hu : blank.store.device.writeUnit ∣ blank.store.device.eraseUnit := by decide
  have hf : ∀ k, blank.store.device.faulty k = false := fun _ => rfl
  have hs : blank.layout.slot .zero = .ok zeroClass := by decide +kernel
  have hn : installedNumber blank.layout .zero x (before.foldl serve blank).store.device =
      some 7 := by decide +kernel
  obtain ⟨hr, -⟩ :=
    installedNumber_rises (p := blank) leavesSequences_indifferent hl hu hf hs rfl before after x x
  exact ⟨leavesSequences_indifferent, hl, hu, hf, hs, rfl, hn, hr 7 hn⟩

end Firmware.Processor
