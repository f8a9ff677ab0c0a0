import Firmware.Proofs.Processor.Rollback

/-!
What a failed update leaves. Until all sequences have executed, the installed envelopes are as they
were. From then on a fault of the device may tear the one slot that is written, or strike the report
when the envelope is already in its place.
-/

namespace Firmware.Processor

open Flash Manifest Storage Ram

variable {π H η τ α : Type} [Platform π H]

section

variable {δ : Type} [Flash δ] {p : Processor π H δ η τ} {e : Error}

omit [Platform π H] in
lemma reporting_eq_error {f : Run.Act π H δ η τ Unit} (h : answer (reporting f p) = .error e) :
    answer (f (.start p)) = .error e ∨ answer (f (.start p)) = .ok () ∧
      answer (Run.saveReport ((stateAfter (f (.start p))).finish (.ok ()))) = .error e := by
  unfold reporting at h
  dsimp only at h
  cases ha : answer (f (.start p)) with
  | error x =>
    rw [ha] at h
    exact .inl h
  | ok u =>
    refine .inr ⟨rfl, ?_⟩
    rw [ha] at h
    dsimp only at h
    cases hs : Run.saveReport ((stateAfter (f (.start p))).finish (.ok ())) with
    | ok u s =>
      rw [hs] at h
      cases h
    | error x s =>
      rw [hs] at h
      exact h

end

variable [Hash.Engine η] [Source τ] {p : Processor π H Ram η τ} {b : Bytes} {a : Arena} {e : Error}

/-- An update has executed all sequences of the envelope for slot `s` when it fails: a fault strikes
while the envelope is installed, and a prefix of its record is left, or it is installed and its report
is not saved. -/
def FailsInCommit (b : Bytes) (a : Arena) (p : Processor π H Ram η τ) (s : Slot) (e : Error) : Prop :=
  let q := stateAfter (update b a p)
  let saved := Run.saveReport ((stateAfter (Run.update b a (.start p))).finish (.ok ()))
  ∃ env c t u, Envelope.parse b = .ok env ∧ env.manifest.classId? = some c ∧ p.layout.slot c = .ok s ∧
    Run.pass (Run.passOf env c .execute) Run.updateKinds t = .ok () u ∧ Does Outside p u.processor ∧
    ((∃ f, answer (onDevice (installEnvelope p.layout c b) u.processor) = .error f ∧ e = .platform f ∧
        Torn s.region (Record.bytes .binary [b]) q.store.device ∧ ∃ k, p.store.device.faulty k = true) ∨
      answer (onDevice (installEnvelope p.layout c b) u.processor) = .ok () ∧
        image s.region q.store.device = filled (Record.bytes .binary [b]) s.region.size ∧
        answer saved = .error e)

omit [Hash.Engine η] [Source τ] in
lemma image_of_commit {q u : Processor π H Ram η τ} {c : Uuid} {s : Slot}
    (hv : p.layout.Valid p.store.device) (hs : p.layout.slot c = .ok s) (hu : Does Outside p u)
    (hq : Does Outside (stateAfter (onDevice (installEnvelope u.layout c b) u)) q) :
    image s.region q.store.device =
        image s.region (stateAfter (onDevice (installEnvelope u.layout c b) u)).store.device ∧
      ∀ t ∈ p.layout.manifests, t ≠ s → image t.region q.store.device = image t.region p.store.device := by
  have hl : u.layout = p.layout := hu.layout
  have hin := does_install (b := b) (hl ▸ hs : u.layout.slot c = .ok s)
  have hvi := valid_of_does hin (valid_of_does hu hv)
  have hi (t : Slot) (ht : t ∈ p.layout.manifests) : image t.region q.store.device =
      image t.region (stateAfter (onDevice (installEnvelope u.layout c b) u)).store.device :=
    image_of_outside hq hvi (hin.layout.trans hl ▸ ht)
  refine ⟨hi s (slot_mem hs).1, fun t ht hn => ?_⟩
  have hap := hv.slot_apart_slot (slot_mem hs).1 ht hn.symm
  rw [hi t ht, image_of_does (f := fun _ => [s.region]) hin (by simpa using hap)]
  exact image_of_outside hu hv ht

/-- When an update fails, all installed envelopes are as they were, or all but the one of its class, if
it fails in its commit. The write unit has to divide the erase unit: otherwise a slot may have no room for the
last unit of a record that it has room for, and the commit is refused without a fault, once it has erased. -/
theorem update_eq_error (hl : p.layout.validate p.store.device = .ok ())
    (hu : p.store.device.writeUnit ∣ p.store.device.eraseUnit) (h : answer (update b a p) = .error e) :
    let q := stateAfter (update b a p)
    (∀ s ∈ p.layout.manifests, image s.region q.store.device = image s.region p.store.device) ∨
      ∃ s, FailsInCommit b a p s e ∧ ∀ t ∈ p.layout.manifests, t ≠ s →
        image t.region q.store.device = image t.region p.store.device := by
  intro q
  have hv := Layout.validate_eq_ok.mp hl
  have hr := outside_reporting (Run.update b a) p
  have he := reporting_eq_error h
  rcases Run.update_cases b a (.start p) with ⟨ho, -⟩ | ⟨env, c, s, p', t, u, hacc, ho, hx, heq, hans⟩
  · exact .inl fun s hs => image_of_outside (trans_of (Does Outside) ho hr) hv hs
  generalize hw : u.processor = w at ho heq hans
  have ho : Does Outside p w := ho
  have hs : p.layout.slot c = .ok s := hacc.slot
  have hal : p.store.device.Alike w.store.device := alike_of_does ho
  obtain ⟨hi, hothers⟩ := image_of_commit (q := q) hv hs ho (heq ▸ hr)
  have hb : b ≠ [] := by
    rintro rfl
    cases hacc.parsed
  rw [ho.layout] at hi hans
  rcases install_cases (b := b) (valid_of_does ho hv) (hal.writeUnit ▸ hal.eraseUnit ▸ hu)
    (ho.layout ▸ hs) hb with ⟨f, hf, hc⟩ | ⟨f, hf, ⟨x, hpre, hc⟩, k, hk⟩ | ⟨hf, hc⟩
  all_goals
    rw [ho.layout] at hf hc
    rw [hf] at hans
    rw [hans] at he
  · refine .inl fun t ht => ?_
    by_cases hn : t = s
    · rw [hn, hi, hc]
      exact image_of_outside ho hv (slot_mem hs).1
    · exact hothers t ht hn
  · obtain he | ⟨he, -⟩ := he
    · cases he
      refine .inr ⟨s, ⟨env, c, t, u, hacc.parsed, hacc.classId, hs, hx, hw ▸ ho, .inl ?_⟩, hothers⟩
      exact ⟨f, hw ▸ hf, rfl, ⟨x, hpre, hi.trans hc⟩, k, hal.faulty ▸ hk⟩
    · cases he
  · obtain he | ⟨-, he⟩ := he
    · cases he
    · refine .inr ⟨s, ⟨env, c, t, u, hacc.parsed, hacc.classId, hs, hx, hw ▸ ho, .inr ?_⟩, hothers⟩
      exact ⟨hw ▸ hf, hi.trans hc, he⟩

def failing : Processor Indifferent Unit Ram (Hash.Digester zeros) Payloads :=
  let p := stateAfter (update (plainEnvelope 7) (.ofSize 256) blank)
  { p with store := ⟨p.store.device.failAfter 1, p.store.engine⟩ }

/-- The slot is erased before a record is written to it. -/
theorem update_failing_erases :
    answer (update (plainEnvelope 8) (.ofSize 256) failing) = .error (.platform .io) ∧
      image zeroClass.region (stateAfter (update (plainEnvelope 8) (.ofSize 256) failing)).store.device ≠
        image zeroClass.region failing.store.device := by
  decide +kernel

theorem update_eq_error_failing :
    failing.layout.validate failing.store.device = .ok () ∧
      failing.store.device.writeUnit ∣ failing.store.device.eraseUnit ∧
      answer (update (plainEnvelope 8) (.ofSize 256) failing) = .error (.platform .io) ∧
      let q := stateAfter (update (plainEnvelope 8) (.ofSize 256) failing)
      (∀ s ∈ failing.layout.manifests,
          image s.region q.store.device = image s.region failing.store.device) ∨
        ∃ s, FailsInCommit (plainEnvelope 8) (.ofSize 256) failing s (.platform .io) ∧
          ∀ t ∈ failing.layout.manifests, t ≠ s →
            image t.region q.store.device = image t.region failing.store.device := by
  have hl : failing.layout.validate failing.store.device = .ok () := by decide +kernel
  have hu : failing.store.device.writeUnit ∣ failing.store.device.eraseUnit := by decide +kernel
  have he : answer (update (plainEnvelope 8) (.ofSize 256) failing) = .error (.platform .io) := by
    decide +kernel
  exact ⟨hl, hu, he, update_eq_error hl hu he⟩

end Firmware.Processor
