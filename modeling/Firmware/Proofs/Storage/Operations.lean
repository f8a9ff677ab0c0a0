import Firmware.Proofs.Storage.Confinement
import Firmware.Proofs.Storage.Layout

namespace Firmware.Storage

open Flash

variable {δ η α : Type} [Flash δ] [Hash.Engine η]

inductive Register where
  | envelope (c : Uuid)
  | report (i : Nat)
  | flags
  | candidate
  | values
deriving DecidableEq

/-- The regions of a register. One that the layout does not know has none. -/
def Layout.home (l : Layout) : Register → List Region
  | .envelope c => ((l.slot c).map Slot.region).toOption.toList
  | .report i => (l.report i).toOption.toList
  | .flags => [l.flags]
  | .candidate => [l.candidate]
  | .values => [l.variableArea, l.variableBackup]

inductive Change where
  | installEnvelope (c : Uuid) (envelope : Bytes)
  | clearEnvelope (c : Uuid)
  | saveReport (i : Nat) (report : Bytes)
  | clearReport (i : Nat)
  | setFlag (f : Flag)
  | clearFlag (f : Flag)
  | setCandidate (rs : List Region)
  | clearCandidate
  | setVariable (i : Nat) (value : UInt8)

namespace Change

def register : Change → Register
  | installEnvelope c _ | clearEnvelope c => .envelope c
  | saveReport i _ | clearReport i => .report i
  | setFlag _ | clearFlag _ => .flags
  | setCandidate _ | clearCandidate => .candidate
  | setVariable .. => .values

def run (l : Layout) : Change → EStateM Failure (Store δ η) Unit
  | installEnvelope c b => Store.onDevice (Storage.installEnvelope l c b)
  | clearEnvelope c => Store.onDevice (Storage.clearEnvelope l c)
  | saveReport i b => Store.onDevice (Storage.saveReport l i b)
  | clearReport i => Store.onDevice (Storage.clearReport l i)
  | setFlag f => Store.onDevice (Storage.setFlag l f)
  | clearFlag f => Store.onDevice (Storage.clearFlag l f)
  | setCandidate rs => Store.onDevice (Storage.setCandidate l rs)
  | clearCandidate => Store.onDevice (Storage.clearCandidate l)
  | setVariable i v => Store.setVariable l i v

end Change

inductive Query where
  | envelope (c : Uuid)
  | report (i : Nat)
  | flag (f : Flag)
  | candidate
  | value (i : Nat)

namespace Query

abbrev Answer : Query → Type
  | envelope _ | report _ => Bytes
  | flag _ => Unit
  | candidate => List Region
  | value _ => UInt8

def onArena (f : δ → EStateM Failure Arena α) : EStateM Failure (Store δ η × Arena) α := do
  onPart Prod.snd (fun s a => (s.1, a)) (f (← get).1.device)

def run (l : Layout) : (q : Query) → EStateM Failure (Store δ η × Arena) q.Answer
  | envelope c => onArena (installedEnvelope l c)
  | report i => onArena (readReport l i)
  | flag f => onArena fun d => checkFlag l f d
  | candidate => onArena (Storage.candidate l)
  | value i => onPart Prod.fst (fun s t => (t, s.2)) (Store.getVariable l i)

omit [Flash δ] [Hash.Engine η] in
lemma answer_onArena (f : δ → EStateM Failure Arena α) (s : Store δ η × Arena) :
    answer (onArena f s) = answer (f s.1.device s.2) := by
  rw [onArena, EStateM.bind_run, EStateM.get_run]
  exact answer_onPart ..

end Query

namespace Layout

variable {l : Layout} {x y : Register} {r q : Region}

lemma report_eq_ok {i : Nat} (h : l.report i = .ok r) : l.reports[i]? = some r := by
  simp only [report] at h
  split at h
  · cases h
    assumption
  · cases h

lemma mem_home_envelope {c : Uuid} :
    r ∈ l.home (.envelope c) ↔ ∃ s, l.slot c = .ok s ∧ s.region = r := by
  rw [home]
  cases l.slot c <;> simp [Except.map, Except.toOption, eq_comm]

lemma mem_home_report {i : Nat} : r ∈ l.home (.report i) ↔ l.report i = .ok r := by
  rw [home]
  cases l.report i <;> simp [Except.toOption, eq_comm]

def plan (l : Layout) : List (Register × Region) :=
  l.manifests.map (fun s => (.envelope s.classId, s.region)) ++
    l.reports.zipIdx.map (fun r => (.report r.2, r.1)) ++
    [(.flags, l.flags), (.values, l.variableArea), (.values, l.variableBackup),
      (.candidate, l.candidate)]

lemma plan_regions (l : Layout) : l.plan.map Prod.snd = l.regions := by
  have hr : l.reports.zipIdx.map (Prod.snd ∘ fun r => (Register.report r.2, r.1)) = l.reports :=
    List.zipIdx_map_fst 0 l.reports
  simp only [plan, regions, List.map_append, List.map_map, hr]
  rfl

lemma mem_plan (h : r ∈ l.home x) : (x, r) ∈ l.plan := by
  simp only [plan, List.mem_append, List.mem_map, List.mem_cons, Prod.mk.injEq]
  cases x with
  | envelope c =>
    obtain ⟨s, hs, rfl⟩ := mem_home_envelope.mp h
    obtain ⟨hm, hc⟩ := slot_mem hs
    exact .inl (.inl ⟨s, hm, congrArg _ hc, rfl⟩)
  | report i =>
    have hr := report_eq_ok (mem_home_report.mp h)
    exact .inl (.inr ⟨(r, i), List.mem_zipIdx_iff_getElem?.mpr hr, rfl, rfl⟩)
  | flags | candidate | values =>
    simp only [home, List.mem_cons, List.not_mem_nil, or_false] at h
    simp [h]

lemma mem_regions_of_home (h : r ∈ l.home x) : r ∈ l.regions :=
  l.plan_regions ▸ List.mem_map_of_mem (mem_plan h)

lemma Valid.plan_apart {d : δ} (h : l.Valid d) (hn : x ≠ y) (hr : (x, r) ∈ l.plan) (hq : (y, q) ∈ l.plan) :
    r.Apart q := by
  have : Std.Symm fun a b : Register × Region => a.2.Apart b.2 := ⟨fun _ _ => Region.Apart.symm⟩
  have hp := List.pairwise_map.mp (l.plan_regions ▸ h.apart)
  exact hp.forall hr hq fun he => hn (congrArg Prod.fst he)

lemma Valid.home_apart {d : δ} (h : l.Valid d) (hn : x ≠ y) (hr : r ∈ l.home x) (hq : q ∈ l.home y) :
    r.Apart q :=
  h.plan_apart hn (mem_plan hr) (mem_plan hq)

lemma envelope_mem_plan {s : Slot} (hs : s ∈ l.manifests) : (.envelope s.classId, s.region) ∈ l.plan := by
  simp only [plan, List.mem_append, List.mem_map]
  exact .inl (.inl ⟨s, hs, rfl⟩)

end Layout

section Confinement

variable {l : Layout}

def Layout.At (l : Layout) (x : Register) (m : Mutation) : Prop := ∃ r ∈ l.home x, m.Inside r

lemma Layout.at_values {m : Mutation} : l.At .values m ↔ l.InVariables m := by
  simp [At, home, InVariables]

lemma follows_at {x : Register} {r : Region} (hr : r ∈ l.home x) {f : EStateM Failure δ α}
    (hf : Follows (Reach (·.Inside r)) f) : Follows (Reach (l.At x)) f :=
  hf.mono fun _ _ => .mono fun _ hm => ⟨r, hr, hm⟩

lemma follows_onSlot {c : Uuid} {f : Region → EStateM Failure δ Unit}
    (hf : ∀ r, Follows (Reach (·.Inside r)) (f r)) :
    Follows (Reach (l.At (.envelope c))) (do f (← l.slot c).region : EStateM Failure δ Unit) := by
  intro d
  rw [EStateM.bind_run]
  cases hs : l.slot c with
  | error e => exact refl_of (Reach _) d
  | ok s => exact follows_at (Layout.mem_home_envelope.mpr ⟨s, hs, rfl⟩) (hf s.region) d

lemma follows_onReport {i : Nat} {f : Region → EStateM Failure δ Unit}
    (hf : ∀ r, Follows (Reach (·.Inside r)) (f r)) :
    Follows (Reach (l.At (.report i))) (do f (← l.report i) : EStateM Failure δ Unit) := by
  intro d
  rw [EStateM.bind_run]
  cases hr : l.report i with
  | error e => exact refl_of (Reach _) d
  | ok r => exact follows_at (Layout.mem_home_report.mpr hr) (hf r) d

lemma follows_clearFlag (f : Flag) :
    Follows (Reach (·.Inside l.flags)) (clearFlag l f : EStateM Failure δ Unit) :=
  .bind .get fun _ => .bind (.lift _) fun _ => .ite (follows_writeFlag l _) (.pure _)

lemma follows_setCandidate (rs : List Region) :
    Follows (Reach (·.Inside l.candidate)) (setCandidate l rs : EStateM Failure δ Unit) := by
  have hw : Follows (Reach (·.Inside l.candidate)) (Record.write l.candidate .binary
      [Bytes.le32 (UInt32.ofNat rs.length), rs.flatMap Region.encode] : EStateM Failure δ Unit) :=
    Record.follows_write l.candidate .binary _
  have hc : Follows (Reach (·.Inside l.candidate)) (do
      unless rs.length ≤ maxCandidateRegions do throw .size
      Record.write l.candidate .binary
        [Bytes.le32 (UInt32.ofNat rs.length), rs.flatMap Region.encode] : EStateM Failure δ Unit) :=
    .check hw
  exact .ite (.throw _) hc

lemma Change.follows_run (o : Change) :
    Follows (Store.Alters (l.At o.register)) (o.run l : EStateM Failure (Store δ η) Unit) := by
  cases o with
  | installEnvelope c b =>
    exact Store.follows_onDevice (follows_onSlot fun r => Record.follows_save r b)
  | clearEnvelope c => exact Store.follows_onDevice (follows_onSlot Record.follows_clear)
  | saveReport i b => exact Store.follows_onDevice (follows_onReport fun r => Record.follows_save r b)
  | clearReport i => exact Store.follows_onDevice (follows_onReport Record.follows_clear)
  | setFlag f =>
    exact Store.follows_onDevice (follows_at (List.mem_singleton_self _) (follows_setFlag l f))
  | clearFlag f =>
    exact Store.follows_onDevice (follows_at (List.mem_singleton_self _) (follows_clearFlag f))
  | setCandidate rs =>
    exact Store.follows_onDevice (follows_at (List.mem_singleton_self _) (follows_setCandidate rs))
  | clearCandidate =>
    exact Store.follows_onDevice (follows_at (List.mem_singleton_self _)
      (Record.follows_clear l.candidate))
  | setVariable i v =>
    exact (Store.follows_setVariable l i v).mono fun _ _ => .mono fun _ => Layout.at_values.mpr

lemma Query.follows_run (q : Query) :
    Follows (fun s t => t.1.device = s.1.device)
      (q.run l : EStateM Failure (Store δ η × Arena) q.Answer) := by
  have hr {α : Type} (f : δ → EStateM Failure Arena α) :
      Follows (fun s t => t.1.device = s.1.device)
        (onArena f : EStateM Failure (Store δ η × Arena) α) := fun s => by
    rw [onArena, EStateM.bind_run, EStateM.get_run, stateAfter_onPart]
  cases q with
  | envelope c => exact hr _
  | report i => exact hr _
  | flag f => exact hr fun d => liftM (checkFlag l f d)
  | candidate => exact hr _
  | value i =>
    exact .onPart (Store.follows_getVariable (Q := fun _ => False) l i) fun _ _ h => h.eq

lemma Store.follows_repair :
    Follows (Alters (l.At .values)) (repair l : EStateM Failure (Store δ η) Repair) := by
  have hc (r : Region) (hr : r ∈ l.home .values) (c : Image) :
      Follows (Alters (l.At .values)) (writeCopy r c : EStateM Failure (Store δ η) Unit) :=
    follows_writeCopy r c fun m hm => ⟨r, hr, hm⟩
  have ha : l.variableArea ∈ l.home .values := List.mem_cons_self
  have hb : l.variableBackup ∈ l.home .values := List.mem_cons_of_mem _ (List.mem_singleton_self _)
  refine .bind (follows_readCopy l _) fun main => .bind (follows_readCopy l _) fun backup => ?_
  cases main with
  | some main => exact .ite (.pure _) (.bind (hc _ hb main) fun _ => .pure _)
  | none =>
    cases backup with
    | some backup => exact .bind (hc _ ha backup) fun _ => .pure _
    | none =>
      refine .bind ?_ fun _ => .pure _
      exact (follows_commit l _).mono fun _ _ => .mono fun _ => Layout.at_values.mpr

lemma Store.follows_init :
    Follows (Alters (l.At .values)) (init l : EStateM Failure (Store δ η) Repair) :=
  .bind .get fun _ => .check (.bind .get fun _ => .bind (.lift _) fun _ => follows_repair)

lemma Store.init_accepts {s t : Store δ η} {rep : Repair} (h : init l s = .ok rep t) :
    l.validate s.device = .ok () := by
  rw [init, EStateM.bind_run, EStateM.get_run] at h
  dsimp only at h
  split at h
  · obtain ⟨u, s', hs, h⟩ := EStateM.bind_eq_ok h
    cases hs
    obtain ⟨u, s', hv, h⟩ := EStateM.bind_eq_ok h
    exact (EStateM.lift_eq_ok hv).1
  · cases h

end Confinement

section Bytes

variable {l : Layout}

/-- Only bytes of some regions have changed. -/
structure Confined (rs : List Region) (d d' : Ram) : Prop where
  length : d'.contents.length = d.contents.length
  bytes : ∀ i, (∀ r ∈ rs, i < r.start ∨ r.stop ≤ i) → d'.contents[i]? = d.contents[i]?

lemma confined_of_inside {rs : List Region} {P : Mutation → Prop} {d d' : Ram} (h : Reach P d d')
    (hP : ∀ m, P m → ∃ r ∈ rs, m.Inside r) : Confined rs d d' where
  length := (Ram.alike_of_reach h).length
  bytes i hi := by
    have hs : slice d'.contents i 1 = slice d.contents i 1 := by
      refine Ram.slice_of_reach h fun m hm => ?_
      obtain ⟨r, hr, hm⟩ := hP m hm
      exact hm.spares ((hi r hr).symm.imp_right id)
    have h0 := congrArg (·[0]?) hs
    simpa only [getElem?_slice, Nat.zero_lt_one, ↓reduceIte, Nat.add_zero] using h0

lemma confined_of_reach {x : Register} {d d' : Ram} (h : Reach (l.At x) d d') :
    Confined (l.home x) d d' :=
  confined_of_inside h fun _ => id

/-- Whatever the device and its faults, an operation changes the home of its register only, and a read
changes nothing. In an accepted layout the homes are inside the device and share no byte. -/
theorem operations_confined (l : Layout) (s : Store Ram η) :
    Confined (l.home .values) s.device (stateAfter (Store.init l s)).device ∧
    (∀ o : Change, Confined (l.home o.register) s.device (stateAfter (o.run l s)).device) ∧
    (∀ (q : Query) a, (stateAfter (q.run l (s, a))).1.device = s.device) ∧
    (∀ rep t, Store.init l s = .ok rep t → l.validate s.device = .ok ()) ∧
    (l.validate s.device = .ok () →
      (∀ x, ∀ r ∈ l.home x, r.stop ≤ s.device.contents.length) ∧
      l.variableArea.Apart l.variableBackup ∧
      ∀ x y, x ≠ y → ∀ r ∈ l.home x, ∀ q ∈ l.home y, r.Apart q) := by
  refine ⟨confined_of_reach (Store.follows_init s), fun o => confined_of_reach (o.follows_run s),
    fun q a => q.follows_run (s, a), fun rep t => Store.init_accepts, fun hv => ?_⟩
  have h := Layout.validate_eq_ok.mp hv
  refine ⟨fun x r hr => (h.checked r (Layout.mem_regions_of_home hr)).inside, h.area_apart_backup, ?_⟩
  exact fun x y hn r hr q hq => h.home_apart hn hr hq

def twoClasses : Layout where
  manifests :=
    [⟨Uuid.zero, .appRoot, ⟨0, 20⟩, ⟨true, true, .disabled⟩⟩,
      ⟨⟨List.replicate 16 1, rfl⟩, .appLocal1, ⟨20, 20⟩, ⟨true, true, .disabled⟩⟩]
  flags := ⟨60, 10⟩
  reports := [⟨40, 20⟩]
  variableArea := ⟨70, 40⟩
  variableBackup := ⟨110, 40⟩
  variableCount := 1
  candidate := ⟨150, 20⟩

theorem operations_confined_twoClasses :
    let s : Store Ram (Hash.Digester fun _ x => x ++ Bytes.erased 31) :=
      ⟨(Ram.ofBytes (List.replicate 170 0) 2 10).failAfter 1, Hash.Digester.idle⟩
    let t := stateAfter ((Change.saveReport 0 [1, 2, 3]).run twoClasses s)
    twoClasses.validate s.device = .ok () ∧ t.device.contents ≠ s.device.contents ∧
      Confined [⟨40, 20⟩] s.device t.device ∧ Region.Apart ⟨40, 20⟩ ⟨20, 20⟩ := by
  intro s t
  have hv : twoClasses.validate s.device = .ok () := by decide +kernel
  obtain ⟨-, hc, -, -, ha⟩ := operations_confined twoClasses s
  exact ⟨hv, by decide +kernel, hc (.saveReport 0 [1, 2, 3]),
    (ha hv).2.2 (.report 0) (.envelope ⟨List.replicate 16 1, rfl⟩) (by decide) ⟨40, 20⟩ (by decide)
      ⟨20, 20⟩ (by decide)⟩

end Bytes

end Firmware.Storage
