import Firmware.Proofs.Manifest.Capacity
import Firmware.Proofs.Processor.Balance

namespace Firmware.Processor

open Flash Manifest Storage Relation

namespace Run

variable {π H δ η τ α : Type} [Platform π H]

section Reading

def wanted (chunk : Nat) (size : Option UInt32) (offset : Nat) : Nat :=
  match size with
  | some n => min chunk (n.toNat - offset)
  | none => chunk

variable (chunk : Nat) (h : H) (write : Bytes → Act π H δ η τ Unit) (size : Option UInt32)

inductive Advances : Nat × Run π H δ η τ → Nat × Run π H δ η τ → Prop
  | round {offset r b s t} : ask (.read h offset (wanted chunk size offset)) r = .ok b s →
      0 < b.length → b.length ≤ wanted chunk size offset → write b s = .ok () t →
      Advances (offset, r) (offset + b.length, t)

inductive Breaks : Nat × Run π H δ η τ → EStateM.Result Error (Run π H δ η τ) Nat → Prop
  | full {offset r} : wanted chunk size offset = 0 → Breaks (offset, r) (.ok offset r)
  | ended {offset r s} : wanted chunk size offset ≠ 0 →
      ask (.read h offset (wanted chunk size offset)) r = .ok [] s → Breaks (offset, r) (.ok offset s)
  | overlong {offset r b s} : wanted chunk size offset ≠ 0 →
      ask (.read h offset (wanted chunk size offset)) r = .ok b s → wanted chunk size offset < b.length →
      Breaks (offset, r) (.error (.platform .internal) s)
  | unread {offset r e s} : wanted chunk size offset ≠ 0 →
      ask (.read h offset (wanted chunk size offset)) r = .error e s → Breaks (offset, r) (.error e s)
  | unwritten {offset r b s e t} : ask (.read h offset (wanted chunk size offset)) r = .ok b s →
      0 < b.length → b.length ≤ wanted chunk size offset → write b s = .error e t →
      Breaks (offset, r) (.error e t)

def Finishes (r : Run π H δ η τ) (offset : Nat) (x : EStateM.Result Error (Run π H δ η τ) Nat) : Prop :=
  ∃ y, ReflTransGen (Advances chunk h write size) (offset, r) y ∧ Breaks chunk h write size y x

variable {chunk h write size}

lemma finishes_pump {limit offset : Nat} {r : Run π H δ η τ}
    (hl : ∀ y, ReflTransGen (Advances chunk h write size) (offset, r) y →
      wanted chunk size y.1 = min chunk (limit - y.1)) :
    Finishes chunk h write size r offset (pump chunk h write limit offset r) := by
  -- On what is left up to the limit. Whatever is reached after a round is reached from before it as well.
  induction hk : limit - offset using Nat.strongRecOn generalizing offset r with
  | _ k ih =>
    have hw := hl _ .refl
    rw [pump, ← hw]
    split
    · rename_i h0
      exact ⟨_, .refl, .full h0⟩
    rename_i h0
    rw [EStateM.bind_run]
    cases hr : ask (.read h offset (wanted chunk size offset)) r with
    | error e s => exact ⟨_, .refl, .unread h0 hr⟩
    | ok b s =>
      dsimp only
      split
      · rename_i hb
        split
        · rename_i h1
          rw [EStateM.bind_run]
          cases hs : write b s with
          | error e t => exact ⟨_, .refl, .unwritten hr h1 hb hs⟩
          | ok u t =>
            have hn : Advances chunk h write size (offset, r) (offset + b.length, t) := .round hr h1 hb hs
            have hd : limit - (offset + b.length) < k := by omega
            obtain ⟨y, hy, hx⟩ := ih _ hd (fun y hy => hl y (.head hn hy)) rfl
            exact ⟨y, .head hn hy, hx⟩
        · rename_i h1
          have hb : b = [] := List.length_eq_zero_iff.mp (Nat.eq_zero_of_not_pos h1)
          exact ⟨_, .refl, .ended h0 (hb ▸ hr)⟩
      · rename_i hb
        exact ⟨_, .refl, .overlong h0 hr (Nat.lt_of_not_le hb)⟩

/-- Reading stays between the start of a component and `size`, with at most `maxCopyChunk` bytes at once. It
ends if a size is given or the component ends where an offset of 32 bits can tell. -/
structure ReadsInBounds (h : H) (size : Option UInt32) (write : Bytes → Act π H δ η τ Unit) (chunk : Nat)
    (r : Run π H δ η τ) : Prop where
  offset : ∀ y, ReflTransGen (Advances chunk h write size) (0, r) y → ∀ n ∈ size, y.1 ≤ n.toNat
  slice : ∀ y, ReflTransGen (Advances chunk h write size) (0, r) y → wanted chunk size y.1 ≤ maxCopyChunk
  ends : (size = none → ∀ y, ReflTransGen (Advances chunk h write size) (0, r) y → y.1 < UInt32.size) →
    Finishes chunk h write size r 0 (readThrough h size write r)

lemma Advances.le {y z : Nat × Run π H δ η τ} (hz : Advances chunk h write size y z) {n : UInt32}
    (hn : n ∈ size) (hy : y.1 ≤ n.toNat) : z.1 ≤ n.toNat := by
  cases hz with
  | round hr h0 hb hs =>
    rw [Option.mem_def.mp hn, wanted] at hb
    dsimp only at hy ⊢
    omega

lemma wanted_le (chunk : Nat) (size : Option UInt32) (offset : Nat) : wanted chunk size offset ≤ chunk := by
  cases size with
  | none => exact Nat.le_refl _
  | some n => exact Nat.min_le_left _ _

lemma reads_in_bounds (h : H) (size : Option UInt32) (write : Bytes → Act π H δ η τ Unit)
    (r : Run π H δ η τ) :
    ReadsInBounds h size write (min (max 1 r.processor.options.copyChunk) maxCopyChunk) r where
  offset y hy n hn := by
    induction hy with
    | refl => exact Nat.zero_le _
    | tail _ hz ih => exact hz.le hn ih
  slice y _ := Nat.le_trans (wanted_le _ _ _) (Nat.min_le_right _ _)
  ends hf := by
    apply finishes_pump
    intro y hy
    cases size with
    | some n => rfl
    | none =>
      have hlt : y.1 < 4294967296 := hf rfl y hy
      simp only [wanted, Option.map_none, Option.getD_none, maxLength, maxCopyChunk]
      omega

end Reading

section Components

/-- There is room for the components, and none but them is selected. A component has its target and its
parameters together. -/
structure Confined (r : Run π H δ η τ) : Prop where
  room : r.members.length ≤ maxComponents
  selected : ∀ i ∈ r.selected, i < r.members.length

inductive Adds (id : ComponentId) (r : Run π H δ η τ) : EStateM.Result Error (Run π H δ η τ) Unit → Prop
  | added {s t} : s.members = r.members ++ [⟨id, t, {}⟩] → s.selected = r.selected → Adds id r (.ok () s)
  | refused {e s} : s.members = r.members → s.selected = r.selected → Adds id r (.error e s)

lemma adds_acquire (c : Uuid) (id : ComponentId) (r : Run π H δ η τ) : Adds id r (acquire c id r) := by
  obtain ⟨n, h⟩ | h | h := acquire_cases (π := π) c id
  · rw [h, admission, within_bind_run]
    cases Processor.ask (.authorizeComponent c id) r.processor with
    | error e p => exact .refused rfl rfl
    | ok u p => exact .added rfl rfl
  · rw [h, admission, within_bind_run]
    cases Processor.ask (.authorizeComponent c id) r.processor with
    | error e p | ok u p => exact .refused rfl rfl
  · rw [h, admission, within_bind_run]
    cases Processor.ask (.authorizeComponent c id) r.processor with
    | error e p => exact .refused rfl rfl
    | ok u p =>
      dsimp only
      rw [ask, within_bind_run]
      cases Processor.ask (.acquire id) (r.putProcessor p).processor with
      | error e q => exact .refused rfl rfl
      | ok h q => exact .added rfl rfl

lemma acquire_prefix (c : Uuid) (ids : List ComponentId) (r : Run π H δ η τ) :
    ∃ before, before <+: ids ∧
      (stateAfter (ids.forM (acquire c) r)).members.map Member.id = r.members.map Member.id ++ before ∧
      (stateAfter (ids.forM (acquire c) r)).selected = r.selected ∧
      (answer (ids.forM (acquire c) r) = .ok () → before = ids) := by
  induction ids generalizing r with
  | nil => exact ⟨[], List.nil_prefix, (List.append_nil _).symm, rfl, fun _ => rfl⟩
  | cons id ids ih =>
    have ha := adds_acquire c id r
    have hb : (id :: ids).forM (acquire c) r =
        (acquire c id >>= fun _ => ids.forM (acquire c) : Act π H δ η τ Unit) r := rfl
    rw [hb, EStateM.bind_run]
    cases hs : acquire c id r with
    | error e s =>
      rw [hs] at ha
      cases ha with
      | refused hm hs =>
        refine ⟨[], List.nil_prefix, ?_, hs, fun h => by cases h⟩
        rw [List.append_nil]
        exact congrArg _ hm
    | ok u s =>
      rw [hs] at ha
      cases ha with
      | added hm hs =>
        obtain ⟨before, hp, hi, hl, hok⟩ := ih s
        refine ⟨id :: before, List.cons_prefix_cons.mpr ⟨rfl, hp⟩, ?_, hl.trans hs, fun h => ?_⟩
        · rw [hi, hm, List.map_append, List.append_assoc]
          rfl
        · rw [hok h]

variable [Flash δ] [Hash.Engine η] [Source τ]

def Complete (ids : List ComponentId) (r : Run π H δ η τ) : Prop :=
  r.members.map Member.id = ids ∧ ∀ i ∈ r.selected, i < ids.length

omit [Platform π H] [Flash δ] [Hash.Engine η] [Source τ] in
lemma Complete.confined {ids : List ComponentId} {r : Run π H δ η τ} (h : Complete ids r)
    (hn : ids.length ≤ maxComponents) : Confined r := by
  obtain ⟨hi, hs⟩ := h
  have hl : r.members.length = ids.length := by rw [← hi, List.length_map]
  exact ⟨hl ▸ hn, fun i h => hl ▸ hs i h⟩

lemma keeps_complete (k : Pass) (ids : List ComponentId) :
    Keeps k (Complete ids : Run π H δ η τ → Prop) where
  log _ := id
  report _ := id
  select {r ys} hy hr := by
    refine ⟨hr.1, fun i hi => ?_⟩
    rw [← hr.1, List.length_map]
    exact hy i hi
  reselect hr hs := ⟨hs.1, hr.2⟩
  restore hr _ := hr
  each {c f} h i r hr := by
    obtain ⟨hm, hs⟩ := follows_each h i r
    have hi := congrArg (List.map Prod.fst) hm
    rw [List.map_map, List.map_map] at hi
    exact ⟨Eq.trans hi hr.1, hs ▸ hr.2⟩

omit [Flash δ] [Hash.Engine η] [Source τ] in
lemma complete_of_acquire {k : Pass} {r s : Run π H δ η τ}
    (h : k.manifest.components.forM (acquire k.classId) (k.begin r) = .ok () s) :
    Complete k.manifest.components s := by
  obtain ⟨before, -, hi, hs, hb⟩ := acquire_prefix k.classId k.manifest.components (k.begin r)
  rw [h] at hi hs hb
  obtain rfl := hb rfl
  refine ⟨hi, fun i hi => ?_⟩
  rw [stateAfter_ok] at hs
  rw [hs] at hi
  cases hi

end Components

section Levels

omit [Platform π H] in
lemma Tries.mem {nested : Bytes → Act π H δ η τ Unit} {as : List (Option Bytes)} {r s : Run π H δ η τ}
    {b : Bytes} (h : Tries nested as r b s) : some b ∈ as := by
  induction h with
  | here => exact List.mem_cons_self
  | next _ _ ih => exact List.mem_cons_of_mem _ ih

omit [Platform π H] in
lemma Enters.mem {nested : Bytes → Act π H δ η τ Unit} {c : Command} {r s : Run π H δ η τ} {b : Bytes}
    (h : Enters nested c r b s) : b ∈ Sequence.nested c := by
  cases h with
  | runSequence => exact List.mem_singleton_self b
  | tryEach h => exact List.mem_filterMap.mpr ⟨some b, h.mem, rfl⟩

variable [Flash δ] [Hash.Engine η] [Source τ]

lemma Runs.reached {k : Pass} {kinds : List SequenceKind} {r s : Run π H δ η τ} {levels : Nat} {b : Bytes}
    (h : Runs k kinds r levels b s) : Sequence.Reached k.manifest.outermost levels b := by
  induction h with
  | shared _ _ _ hb => exact .outermost (List.mem_append_left _ (Option.mem_toList.mpr hb))
  | own _ _ hb _ => exact .outermost (mem_outermost hb)
  | nested _ hc he ih =>
    obtain ⟨q, cs, ds, hq, hcs, -⟩ := hc
    exact .nested ih hq (hcs ▸ List.mem_append_right cs List.mem_cons_self) he.mem

lemma Runs.levels_le {k : Pass} {kinds : List SequenceKind} {r s : Run π H δ η τ} {levels : Nat} {b : Bytes}
    (h : Runs k kinds r levels b s) : levels ≤ Sequence.maxNesting := by
  induction h with
  | shared | own => exact Nat.le_refl _
  | nested _ _ _ ih => exact Nat.le_of_succ_le ih

end Levels

section Indices

omit [Platform π H] in
lemma select_in_bounds (is : List UInt32) (r : Run π H δ η τ) :
    (∀ i ∈ is, i.toNat < r.members.length) ∨ select (.list is) r = .error .badComponent r := by
  by_cases h : ∀ i ∈ is, i.toNat < r.members.length
  · exact .inl h
  · have hb : ¬(is.all fun i => i.toNat < r.members.length) = true := by
      rw [List.all_eq_true]
      exact fun hb => h fun i hi => of_decide_eq_true (hb i hi)
    refine .inr ?_
    simp only [select, EStateM.bind_run, EStateM.get_run]
    rw [if_neg hb]
    rfl

omit [Platform π H] in
lemma pair_in_bounds (i : Nat) {m : Member H} (r : Run π H δ η τ) {j : UInt32}
    (hj : m.parameters.sourceComponent = some j) :
    j.toNat < r.members.length ∧ j.toNat ≠ i ∨ pair i m r = .error .badComponent r := by
  have hn : (need m.parameters.sourceComponent : Act π H δ η τ UInt32) r = .ok j r := by
    rw [hj]
    rfl
  by_cases hi : j.toNat = i
  · refine .inr ((EStateM.bind_of_ok _ _ _ hn).trans ?_)
    rw [if_pos hi]
    rfl
  by_cases hl : j.toNat < r.members.length
  · exact .inl ⟨hl, hi⟩
  · have hb : r.members[j.toNat]? = none := List.getElem?_eq_none (Nat.le_of_not_lt hl)
    refine .inr ((EStateM.bind_of_ok _ _ _ hn).trans ?_)
    rw [if_neg hi]
    refine (member_bind_run _ _ r).trans ?_
    rw [hb]

end Indices

variable [Flash δ] [Hash.Engine η] [Source τ]

/-- From acquiring components to its end, a pass has no more components than there is room for, selects and
turns to none but those, and leaves a level for every sequence that it begins. -/
structure InBounds (k : Pass) (kinds : List SequenceKind) (r : Run π H δ η τ) : Prop where
  acquired : ∀ ids, ids <+: k.manifest.components →
    Confined (stateAfter (ids.forM (acquire k.classId) (k.begin r)))
  begun : ∀ {levels b s}, Runs k kinds r levels b s →
    Confined s ∧ 0 < levels ∧ levels ≤ Sequence.maxNesting
  come : ∀ {levels b s c t}, Runs k kinds r (levels + 1) b s → Comes k levels b s c t → Confined t
  turned : ∀ {c f i u}, Turns k kinds r c f i u →
    Confined u ∧ i < u.members.length ∧ u.members.map Member.id = k.manifest.components ∧
      Confined (stateAfter (f i u))
  ended : Confined (stateAfter (k.body kinds (k.begin r)))

section Passes

variable {k : Pass} {kinds : List SequenceKind} {r s : Run π H δ η τ}

lemma Turns.lt {c : Command} {f : Nat → Act π H δ η τ Unit} {i : Nat} {u : Run π H δ η τ}
    (h : Turns k kinds r c f i u) : i < k.manifest.components.length := by
  obtain ⟨levels, b, s, t, before, after, hr, hc, -, hi, -⟩ := h
  have hk : Keeps k (Complete k.manifest.components : Run π H δ η τ → Prop) := keeps_complete k _
  have ht := hk.comes hc (hk.runs (fun _ => complete_of_acquire) hr)
  apply ht.2
  rw [hi]
  exact List.mem_append_right before List.mem_cons_self

lemma Runs.levels_pos (hs : ∀ b ∈ k.manifest.outermost, Sequence.check b = .ok ()) {levels : Nat} {b : Bytes}
    (h : Runs k kinds r levels b s) : 0 < levels := by
  have hc := h.reached.checkTo hs
  cases levels with
  | zero => cases hc
  | succ levels => exact Nat.succ_pos levels

variable (hn : k.manifest.components.length ≤ maxComponents)
include hn

omit [Flash δ] [Hash.Engine η] [Source τ] in
lemma confined_acquire {ids : List ComponentId} (hi : ids <+: k.manifest.components) (r : Run π H δ η τ) :
    Confined (stateAfter (ids.forM (acquire k.classId) (k.begin r))) := by
  obtain ⟨before, hb, hm, hs, -⟩ := acquire_prefix k.classId ids (k.begin r)
  have hm : (stateAfter (ids.forM (acquire k.classId) (k.begin r))).members.map Member.id = before := hm
  have hl := congrArg List.length hm
  rw [List.length_map] at hl
  constructor
  · rw [hl]
    exact Nat.le_trans (hb.trans hi).length_le hn
  · intro i hi
    rw [hs] at hi
    cases hi

lemma confined_body (kinds : List SequenceKind) (r : Run π H δ η τ) :
    Confined (stateAfter (k.body kinds (k.begin r))) := by
  cases h : k.manifest.components.forM (acquire k.classId) (k.begin r) with
  | ok u s =>
    have hb : k.body kinds (k.begin r) = runKinds k kinds s := EStateM.bind_of_ok _ _ _ h
    have hc := (keeps_complete k _).maintains_runKinds kinds s (complete_of_acquire h)
    rw [hb]
    exact hc.confined hn
  | error e s =>
    have hb : k.body kinds (k.begin r) = .error e s := by
      rw [Pass.body, EStateM.bind_run, h]
    have hc := confined_acquire hn (List.prefix_refl _) r
    rw [h] at hc
    rwa [hb]

lemma in_bounds (hs : ∀ b ∈ k.manifest.outermost, Sequence.check b = .ok ()) (kinds : List SequenceKind)
    (r : Run π H δ η τ) : InBounds k kinds r := by
  have hk : Keeps k (Complete k.manifest.components : Run π H δ η τ → Prop) := keeps_complete k _
  constructor
  case acquired => exact fun _ hi => confined_acquire hn hi r
  case begun =>
    intro levels b s h
    exact ⟨(hk.runs (fun _ => complete_of_acquire) h).confined hn, h.levels_pos hs, h.levels_le⟩
  case come =>
    intro levels b s c t h hc
    exact (hk.comes hc (hk.runs (fun _ => complete_of_acquire) h)).confined hn
  case turned =>
    intro c f i u h
    have hu := hk.turns (fun _ => complete_of_acquire) h
    have hi := h.lt
    rw [← hu.1, List.length_map] at hi
    exact ⟨hu.confined hn, hi, hu.1, (hk.each h.each_eq i u hu).confined hn⟩
  case ended => exact confined_body hn kinds r

end Passes

/-- No pass over an envelope that was decoded gets out of bounds, whatever the platform replies: an index is
used if there is a component of it and refused otherwise, and components are read in chunks up to their end. -/
theorem pass_in_bounds {b : Bytes} {e : Envelope} (he : Envelope.parse b = .ok e) (c : Uuid) (m : Mode)
    (kinds : List SequenceKind) (r : Run π H δ η τ) :
    InBounds (passOf e c m) kinds r ∧
      (∀ is (t : Run π H δ η τ),
        (∀ i ∈ is, i.toNat < t.members.length) ∨ select (.list is) t = .error .badComponent t) ∧
      (∀ i x (t : Run π H δ η τ) j, x.parameters.sourceComponent = some j →
        j.toNat < t.members.length ∧ j.toNat ≠ i ∨ pair i x t = .error .badComponent t) ∧
      ∀ h size write (t : Run π H δ η τ),
        ReadsInBounds h size write (min (max 1 t.processor.options.copyChunk) maxCopyChunk) t :=
  ⟨in_bounds (Envelope.components_of_parse he) (Envelope.checked_of_parse he) kinds r, select_in_bounds,
    fun i _ t _ hj => pair_in_bounds i t hj, reads_in_bounds⟩

end Run

inductive Reel where
  | reel

instance : Platform Reel Unit where
  perform
    | .authorizeComponent .. | .acquire .. | .checkOperation .. => pure ()
    | .read _ offset want => pure (List.replicate (min want (300 - offset)) 0)
    | c => liftM c.byDefault

def reeled : Processor Reel Unit Ram (Hash.Digester zeros) Payloads :=
  ⟨blank.layout, blank.options, .reel, blank.store, blank.vars, blank.digests, [], []⟩

open Run in
lemma reel_le {write : Bytes → Act Reel Unit Ram (Hash.Digester zeros) Payloads Unit}
    {r : Run Reel Unit Ram (Hash.Digester zeros) Payloads} {y} (h : ReflTransGen (Advances 64 () write none) (0, r) y) :
    y.1 ≤ 300 := by
  induction h with
  | refl => exact Nat.zero_le _
  | tail _ hz ih =>
    cases hz with
    | @round offset r b s t hr h0 hb hs =>
      have hl : b = List.replicate (min 64 (300 - offset)) 0 := (Except.ok.inj (congrArg answer hr)).symm
      rw [hl, List.length_replicate]
      dsimp only at ih ⊢
      omega

open Run in
theorem pass_in_bounds_matching :
    ∃ e, Envelope.parse (installing matching) = .ok e ∧
      let k := passOf e .zero .execute
      InBounds k [.install] (.start reeled) ∧
        ∃ f u, Turns k [.install] (.start reeled) (.condition .imageMatch) f 0 u ∧ 0 < u.members.length ∧
          ∀ write, Finishes 64 () write none u 0 (readThrough () none write u) := by
  have he : (Envelope.parse (installing matching)).map (fun e => (e.manifest, e.payloads)) =
      .ok (installs matching, []) := by decide +kernel
  obtain ⟨e, he, hm⟩ := Except.map_eq_ok.mp he
  obtain ⟨hm, hp⟩ := Prod.mk.inj hm
  obtain ⟨hi, -, -, hr⟩ := pass_in_bounds he .zero .execute [.install] (.start reeled)
  let k : Pass := ⟨.execute, .zero, installs matching, []⟩
  have hk : passOf e .zero .execute = k := by rw [passOf, hm, hp]
  rw [hk] at hi
  refine ⟨e, he, ?_⟩
  rw [hk]
  let acquired := k.upTo [] (k.begin (.start reeled))
  have ha : answer acquired = .ok () := by decide +kernel
  have hn : [SequenceKind.install] = [] ++ .install :: [] := rfl
  have hs : Runs k [.install] (.start reeled) Sequence.maxNesting matching
      (Pass.enter .install (stateAfter acquired)) := .own hn (answer_eq_ok ha) rfl rfl
  obtain ⟨q, hq, hcs⟩ := decode_matching
  let overridden := [Command.overrideParameters { imageDigest := some matched }].forM
    (runCommand k (runSequence k 3)) (Pass.enter .install (stateAfter acquired))
  have ho : answer overridden = .ok () := by decide +kernel
  let u := noteCommand (.condition .imageMatch) (stateAfter overridden)
  have ht : Turns k [.install] (.start reeled) (.condition .imageMatch) _ 0 u :=
    ⟨3, matching, _, _, [], [], hs, ⟨q, _, [], hq, hcs, answer_eq_ok ho⟩, rfl, by decide +kernel, rfl⟩
  refine ⟨hi, _, u, ht, (hi.turned ht).2.1, fun write => ?_⟩
  have hc : min (max 1 u.processor.options.copyChunk) maxCopyChunk = 64 := by decide +kernel
  have hu := hr () none write u
  rw [hc] at hu
  exact hu.ends fun _ y hy => Nat.lt_of_le_of_lt (reel_le hy) (by decide)

end Firmware.Processor
