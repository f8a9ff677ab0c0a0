import Firmware.Proofs.Manifest.Sequences
import Firmware.Proofs.Processor.Decisions
import Firmware.Proofs.Processor.Gate

namespace Firmware

namespace Manifest

namespace Sequence

/-- The sequences that run when those in `outermost` do, each with the levels that are left for it. -/
inductive Reached (outermost : List Bytes) : Nat → Bytes → Prop
  | outermost {s : Bytes} : s ∈ outermost → Reached outermost maxNesting s
  | nested {levels : Nat} {s t : Bytes} {q : Sequence} {c : Command} :
      Reached outermost (levels + 1) s → decode s = .ok q → c ∈ q.commands → t ∈ nested c →
      Reached outermost levels t

lemma Reached.checkTo {outermost : List Bytes} (h : ∀ s ∈ outermost, check s = .ok ()) {levels : Nat}
    {s : Bytes} (hs : Reached outermost levels s) : Sequence.checkTo levels s = .ok () := by
  induction hs with
  | outermost hs => exact h _ hs
  | nested _ hd hc ht ih =>
    obtain ⟨cs, hcs, hn⟩ := checkTo_succ.mp ih
    cases hd.symm.trans hcs
    exact hn _ hc _ ht

end Sequence

def outermost (m : Manifest) : List Bytes := m.shared.toList ++ m.sequences.map (·.2)

lemma mem_outermost {m : Manifest} {k : SequenceKind} {s : Bytes} (h : m.sequence? k = some s) :
    s ∈ m.outermost := by
  obtain ⟨l, l', hl, -⟩ := List.lookup_eq_some_iff.mp h
  refine List.mem_append_right _ (List.mem_map.mpr ⟨(k, s), ?_, rfl⟩)
  rw [hl]
  simp

lemma checked_of_parse {m : Manifest} {b c : Bytes} (h : parse b = .ok (m, c)) :
    ∀ s ∈ m.outermost, Sequence.check s = .ok () := by
  have hf {xs : List Bytes} {b : Bytes} {u : Unit}
      (h : (xs.forM fun s => (liftM (Sequence.check s) : Decoder Unit)) b = .ok (u, c)) :
      ∀ s ∈ xs, Sequence.check s = .ok () := by
    induction xs generalizing b with
    | nil => simp
    | cons x xs ih =>
      obtain ⟨v, t, hx, hs⟩ := Cbor.Decoder.bind_eq_ok.mp h
      exact List.forall_mem_cons.mpr ⟨(Cbor.Decoder.lift_eq_ok.mp hx).1, ih hs⟩
  obtain ⟨n, t, -, h⟩ := Cbor.Decoder.bind_eq_ok.mp h
  obtain ⟨u, d, hu, h⟩ := Cbor.Decoder.bind_eq_ok.mp h
  cases h
  exact hf hu

end Manifest

lemma Envelope.checked_of_parse {b : Bytes} {e : Envelope} (h : parse b = .ok e) :
    ∀ s ∈ e.manifest.outermost, Manifest.Sequence.check s = .ok () := by
  obtain ⟨x, -, h⟩ := Except.bind_eq_ok.mp h
  obtain ⟨y, -, h⟩ := Except.bind_eq_ok.mp h
  cases y with
  | none => cases h
  | some y =>
    obtain ⟨d, -, h⟩ := Except.bind_eq_ok.mp h
    obtain ⟨m, hm, h⟩ := Except.bind_eq_ok.mp h
    cases h
    simp only [Manifest.Decoder.whole, Cbor.Decoder.all] at hm
    split at hm
    · rename_i hp
      cases hm
      exact Manifest.checked_of_parse hp
    · cases hm
    · cases hm

namespace Processor

open Flash Manifest Storage

/-- What goes wrong although a manifest is well formed. -/
def Error.InRun : Error → Prop
  | manifest _ => False
  | _ => True

lemma Error.IsFault.inRun {e : Error} (h : e.IsFault) : e.InRun := by
  cases e with
  | manifest x => cases h
  | _ => trivial

namespace Run

variable {π H δ η τ α : Type} [Platform π H] [Flash δ]

omit [Platform π H] [Flash δ] in
lemma raises_within {cause : Failure → Error} (hc : ∀ e, (cause e).InRun)
    (f : EStateM Failure (Processor π H δ η τ) α) : Raises Error.InRun (within cause f) :=
  .onPart (.adaptExcept hc)

omit [Platform π H] [Flash δ] in
lemma raises_need (o : Option α) : Raises Error.InRun (need o : Act π H δ η τ α) := by
  cases o with
  | none => exact .throw trivial
  | some a => exact .pure a

omit [Platform π H] [Flash δ] in
lemma raises_member (i : Nat) : Raises Error.InRun (member i : Act π H δ η τ (Member H)) := by
  refine .bind .get fun r => ?_
  cases r.members[i]? with
  | none => exact .throw trivial
  | some m => exact .pure m

omit [Platform π H] [Flash δ] in
lemma raises_handle (m : Member H) : Raises Error.InRun (handle m : Act π H δ η τ H) := by
  simp only [handle]
  cases m.target with
  | component h => exact .pure h
  | «variable» id => exact .throw trivial

omit [Platform π H] [Flash δ] in
lemma raises_pair (i : Nat) (m : Member H) : Raises Error.InRun (pair i m : Act π H δ η τ (H × H)) := by
  have hs (j : UInt32) : Raises Error.InRun (do
      let source ← member j.toNat
      return (← handle m, ← handle source) : Act π H δ η τ (H × H)) :=
    .bind (raises_member _) fun source => .bind (raises_handle m) fun _ =>
      .bind (raises_handle source) fun _ => .pure _
  exact .bind (raises_need _) fun j => .ite (.bind (.throw trivial) fun _ => hs j) (hs j)

omit [Flash δ] in
lemma raises_ask (c : Call H) : Raises Error.InRun (ask c : Act π H δ η τ c.Reply) :=
  raises_within (fun _ => by trivial) _

omit [Flash δ] in
lemma raises_authorize (h : H) (op : Operation) :
    Raises Error.InRun (authorize h op : Act π H δ η τ Unit) :=
  raises_within (fun _ => by trivial) _

omit [Platform π H] [Flash δ] in
lemma raises_access (id : UInt32) : Raises Error.InRun (access id : Act π H δ η τ Access) :=
  raises_within (fun _ => by trivial) _

omit [Platform π H] [Flash δ] in
lemma raises_select (i : Index) : Raises Error.InRun (select i : Act π H δ η τ Unit) := by
  cases i with
  | all => exact .modify _
  | list is => exact .bind .get fun _ => .check trivial (.modify _)

omit [Platform π H] [Flash δ] in
lemma raises_forSelected {f : Nat → Act π H δ η τ Unit} (hf : ∀ i, Raises Error.InRun (f i)) :
    Raises Error.InRun (forSelected f) :=
  .bind .get fun _ => .forM fun i _ => hf i

omit [Platform π H] [Flash δ] in
lemma raises_tryEach {nested : Bytes → Act π H δ η τ Unit} (failure : Error) (hf : failure.InRun)
    {as : List (Option Bytes)} (hn : ∀ s ∈ as.filterMap id, Raises Error.InRun (nested s)) :
    Raises Error.InRun (tryEach nested failure as) := by
  induction as generalizing failure with
  | nil => exact .throw hf
  | cons a as ih =>
    cases a with
    | none => exact .pure _
    | some s =>
      intro r e t he
      obtain ⟨hs, hn⟩ := List.forall_mem_cons.mp hn
      rw [tryEach] at he
      dsimp only at he
      split at he
      · exact ih (.conditionFailed _) trivial hn _ _ _ he
      · exact hs r e t he

omit [Platform π H] [Flash δ] in
lemma raises_keepSelection {f : Act π H δ η τ Unit} (hf : Raises Error.InRun f) :
    Raises Error.InRun (keepSelection f) :=
  .bind .get fun _ => .bind hf fun _ => .modify _

lemma Effect.raises {f : Act π H δ η τ α} (hf : Effect f) : Raises Error.InRun f :=
  fun r e s h => (hf.faults r e s h).inRun

variable [Hash.Engine η] (mode : Mode)

omit [Platform π H] in
lemma raises_variableHolds (c : Condition) (id : UInt32) (p : Parameters) :
    Raises Error.InRun (variableHolds mode c id p : Act π H δ η τ Bool) := by
  refine .check trivial (.bind (raises_need _) fun content => .bind (raises_access id) fun a => .check trivial ?_)
  cases mode with
  | validate => exact .pure _
  | execute => exact .bind (raises_within (fun _ => by trivial) _) fun _ => .pure _

lemma raises_componentHolds (c : Condition) (h : H) (p : Parameters) :
    Raises Error.InRun (componentHolds mode c h p : Act π H δ η τ Bool) := by
  cases c with
  | vendorIdentifier | classIdentifier | deviceIdentifier | componentSlot =>
    exact .bind (raises_need _) fun _ => raises_ask _
  | checkContent =>
    refine .bind (raises_need _) fun content => .bind (raises_authorize h .read) fun _ => ?_
    cases mode with
    | validate => exact .pure _
    | execute => exact (Effect.hasContent h content).raises
  | imageMatch =>
    refine .bind (raises_need _) fun d => .bind (raises_authorize h .read) fun _ => ?_
    cases mode with
    | validate => exact .pure _
    | execute => exact (Effect.imageMatches h d p.imageSize).raises
  | abort => exact .pure _

lemma raises_condition (c : Condition) (m : Member H) :
    Raises Error.InRun (do conclude c (← holds mode c m) : Act π H δ η τ Unit) := by
  have hh : Raises Error.InRun (holds mode c m : Act π H δ η τ Bool) := by
    simp only [holds]
    cases m.target with
    | component h => exact raises_componentHolds mode c h _
    | «variable» id => exact raises_variableHolds mode c id _
  exact .bind hh fun b => .bind (.modify _) fun _ => .ite (.pure _) (.throw trivial)

lemma raises_write (m : Member H) : Raises Error.InRun (write mode m : Act π H δ η τ Unit) := by
  refine .bind (raises_need _) fun content => ?_
  cases m.target with
  | component h =>
    refine .bind (raises_authorize h .write) fun _ => ?_
    cases mode with
    | validate => exact .pure _
    | execute =>
      exact .bind (raises_ask _) fun _ => .bind (raises_ask _) fun _ => .bind (raises_ask _) fun _ =>
        raises_ask _
  | «variable» id =>
    refine .check trivial (.bind (raises_access id) fun a => .check trivial ?_)
    cases mode with
    | validate => exact .pure _
    | execute => exact raises_within (fun _ => by trivial) _

lemma raises_fetch [Source τ] (ps : Payloads) (m : Member H) :
    Raises Error.InRun (fetch mode ps m : Act π H δ η τ Unit) := by
  refine .bind (raises_need _) fun uri => .bind (raises_handle m) fun h =>
    .bind (raises_authorize h .fetch) fun _ => ?_
  cases mode with
  | validate => exact .pure _
  | execute =>
    exact (Effect.withDigest ((Effect.sink h .erase).bind fun _ =>
      (Effect.streamInto ps m.id.type uri h).bind fun _ => (Effect.ask rfl).bind fun _ =>
        Effect.checkDigest) _).raises

lemma raises_copy (i : Nat) (m : Member H) : Raises Error.InRun (copy mode i m : Act π H δ η τ Unit) := by
  refine .bind (raises_pair i m) fun (target, source) => .bind (raises_authorize source .read) fun _ =>
    .bind (raises_authorize target .copy) fun _ => ?_
  cases mode with
  | validate => exact .pure _
  | execute =>
    have hf : Effect (do sink target .flush; checkDigest : Act π H δ η τ Unit) :=
      (Effect.sink target .flush).bind fun _ => Effect.checkDigest
    refine (Effect.withDigest ((Effect.sink target .erase).bind fun _ =>
      (Effect.readThrough source _ fun b => ?_).bind fun n => ?_) _).raises
    · exact (Effect.sink target _).bind fun _ => Effect.platform (steps_hash _)
    · exact Effect.ite ((Effect.throw (e := .platform .size) trivial).bind fun _ => hf) hf

omit [Flash δ] [Hash.Engine η] in
lemma raises_swap (i : Nat) (m : Member H) : Raises Error.InRun (swap mode i m : Act π H δ η τ Unit) := by
  refine .bind (raises_pair i m) fun (target, source) => .bind (raises_authorize target .swap) fun _ =>
    .bind (raises_authorize source .swap) fun _ => ?_
  cases mode with
  | validate => exact .pure _
  | execute => exact raises_ask _

omit [Flash δ] [Hash.Engine η] in
lemma raises_invoke (m : Member H) : Raises Error.InRun (invoke mode m : Act π H δ η τ Unit) := by
  refine .bind (raises_handle m) fun h => .bind (raises_authorize h .invoke) fun _ => ?_
  cases mode with
  | validate => exact .pure _
  | execute => exact raises_ask _

variable [Source τ] (k : Pass)

lemma raises_runCommand {nested : Bytes → Act π H δ η τ Unit} {c : Command}
    (hn : ∀ s ∈ Sequence.nested c, Raises Error.InRun (nested s)) :
    Raises Error.InRun (runCommand k nested c) := by
  have hs {f : Nat → Member H → Act π H δ η τ Unit} (hf : ∀ i m, Raises Error.InRun (f i m)) :
      Raises Error.InRun (forSelected fun i => do f i (← member i)) :=
    raises_forSelected fun i => .bind (raises_member i) fun m => hf i m
  refine .bind (.modify _) fun _ => ?_
  cases c with
  | condition d =>
    cases d with
    | abort => exact .throw trivial
    | _ => exact hs fun _ m => raises_condition k.mode _ m
  | setComponentIndex i => exact raises_select i
  | overrideParameters p => exact raises_forSelected fun _ => .modify _
  | tryEach as => exact raises_tryEach (.conditionFailed .abort) trivial hn
  | runSequence s => exact raises_keepSelection (hn s (List.mem_singleton_self s))
  | write => exact hs fun _ m => raises_write k.mode m
  | fetch => exact hs fun _ m => raises_fetch k.mode _ m
  | copy => exact hs fun i m => raises_copy k.mode i m
  | swap => exact hs fun i m => raises_swap k.mode i m
  | invoke => exact hs fun _ m => raises_invoke k.mode m

lemma raises_runSequence {levels : Nat} {s : Bytes} (h : Sequence.checkTo levels s = .ok ()) :
    Raises Error.InRun (runSequence k levels s : Act π H δ η τ Unit) := by
  induction levels generalizing s with
  | zero => cases h
  | succ levels ih =>
    obtain ⟨cs, hd, hc⟩ := Sequence.checkTo_succ.mp h
    rw [runSequence, hd]
    change Raises _ (cs.forM (runCommand k (runSequence k levels)) >>= fun _ => pure ())
    exact .bind (.forM fun c hm => raises_runCommand k fun t ht => ih (hc c hm t ht)) fun _ => .pure _

variable (hk : ∀ s ∈ k.manifest.outermost, Sequence.check s = .ok ())
include hk

lemma raises_runKind (kind : SequenceKind) :
    Raises Error.InRun (runKind k kind : Act π H δ η τ Unit) := by
  have hr {s : Bytes} (hs : s ∈ k.manifest.outermost) :
      Raises Error.InRun (runSequence k Sequence.maxNesting s : Act π H δ η τ Unit) :=
    raises_runSequence k (hk s hs)
  simp only [runKind]
  cases hs : k.manifest.sequence? kind with
  | none => exact .pure _
  | some s =>
    have hm := hr (mem_outermost hs)
    refine .bind (.modify _) fun _ => .bind (.modify _) fun _ => ?_
    cases hc : k.manifest.shared with
    | none => exact hm
    | some c => exact .bind (hr (List.mem_append_left _ (by simp [hc]))) fun _ => hm

lemma raises_runKinds (kinds : List SequenceKind) :
    Raises Error.InRun (runKinds k kinds : Act π H δ η τ Unit) :=
  .bind (.forM fun kind _ => raises_runKind k hk kind) fun _ => .modify _

lemma raises_pass (kinds : List SequenceKind) :
    Raises Error.InRun (pass k kinds : Act π H δ η τ Unit) := by
  have ha (id : ComponentId) : Raises Error.InRun (acquire k.classId id : Act π H δ η τ Unit) := by
    have hq : Raises Error.InRun (admission k.classId id : Act π H δ η τ Unit) :=
      raises_within (fun _ => by trivial) _
    have hm (x : Target H) : Raises Error.InRun (add id x : Act π H δ η τ Unit) := .modify _
    obtain ⟨n, h⟩ | h | h := acquire_cases (π := π) k.classId id
    · rw [h]
      exact .bind hq fun _ => hm _
    · rw [h]
      exact .bind hq fun _ => .throw trivial
    · rw [h]
      exact .bind hq fun _ => .bind (raises_ask _) fun _ => hm _
  have hb : Raises Error.InRun (k.body kinds : Act π H δ η τ Unit) :=
    .bind (.forM fun id _ => ha id) fun _ => raises_runKinds k hk kinds
  intro r e t h
  rw [pass_run] at h
  split at h
  · cases h
  · rename_i hr
    cases h
    exact hb _ _ _ hr

end Run

/-- What was found well formed when an envelope was decoded is found well formed again, and running it
fails for no reason of its encoding, however far sequences are nested and whichever alternatives run. -/
theorem sequences_decode {π H δ η τ : Type} [Platform π H] [Flash δ] [Hash.Engine η] [Source τ] {b : Bytes}
    {e : Envelope} (h : Envelope.parse b = .ok e) :
    (∀ s ∈ e.manifest.outermost, Sequence.check s = .ok ()) ∧
      (∀ (k : Run.Pass) levels s, Sequence.Reached e.manifest.outermost levels s →
        ∀ (r : Run π H δ η τ) x, answer (Run.runSequence k levels s r) ≠ .error (.manifest x)) ∧
      ∀ k : Run.Pass, k.manifest = e.manifest → ∀ kinds (r : Run π H δ η τ) x,
        answer (Run.runKinds k kinds r) ≠ .error (.manifest x) ∧
          answer (Run.pass k kinds r) ≠ .error (.manifest x) := by
  have hc := Envelope.checked_of_parse h
  have hn {f : Run.Act π H δ η τ Unit} (hf : Raises Error.InRun f) (r : Run π H δ η τ)
      (x : Manifest.Error) : answer (f r) ≠ .error (.manifest x) := by
    intro hx
    cases hr : f r with
    | ok u t => simp [hr] at hx
    | error y t =>
      rw [hr, answer_error] at hx
      cases hx
      exact hf r _ t hr
  refine ⟨hc, fun k levels s hs => hn (Run.raises_runSequence k (hs.checkTo hc)), fun k hk kinds r x => ?_⟩
  rw [← hk] at hc
  exact ⟨hn (Run.raises_runKinds k hc kinds) r x, hn (Run.raises_pass k hc kinds) r x⟩

/-- Aborts in a sequence that the first of two alternatives runs. -/
def alternatives : Bytes := [0x82, 0x0f, 0x82, 0x47, 0x82, 0x18, 0x20, 0x43, 0x82, 0x0e, 0x00, 0xf6]

def alternativesEnvelope : Bytes :=
  let digest : Bytes := [0x82, 0x2f, 0x58, 0x20] ++ zeros .sha256 []
  let auth : Bytes := [0x81, 0x58, 0x24] ++ digest
  let manifest : Bytes := [0xa3, 0x01, 0x01, 0x02, 0x07, 0x11, 0x4c] ++ alternatives
  [0xa2, 0x02, 0x58, 0x27] ++ auth ++ [0x03, UInt8.ofNat (0x40 + manifest.length)] ++ manifest

theorem sequences_decode_alternatives :
    ∃ e, Envelope.parse alternativesEnvelope = .ok e ∧ Sequence.check alternatives = .ok () ∧
      Sequence.Reached e.manifest.outermost 2 [0x82, 0x0e, 0x00] ∧
      ∀ x, answer (Run.runSequence (Run.passOf e .zero .execute) 2 [0x82, 0x0e, 0x00] (.start blank)) ≠
          .error (.manifest x) ∧
        answer (Run.runKinds (Run.passOf e .zero .execute) [.install] (.start blank)) ≠
          .error (.manifest x) := by
  have ho : (Envelope.parse alternativesEnvelope).map (·.manifest.outermost) = .ok [alternatives] := by
    decide +kernel
  have ha : (Sequence.decode alternatives).map (·.commands) =
      .ok [.tryEach [some [0x82, 0x18, 0x20, 0x43, 0x82, 0x0e, 0x00], none]] := by
    decide +kernel
  have hr : (Sequence.decode [0x82, 0x18, 0x20, 0x43, 0x82, 0x0e, 0x00]).map (·.commands) =
      .ok [.runSequence [0x82, 0x0e, 0x00]] := by
    decide +kernel
  obtain ⟨e, he, hm⟩ := Except.map_eq_ok.mp ho
  obtain ⟨q, hq, hc⟩ := Except.map_eq_ok.mp ha
  obtain ⟨q', hq', hc'⟩ := Except.map_eq_ok.mp hr
  have h4 : alternatives ∈ e.manifest.outermost := by simp [hm]
  have h3 : Sequence.Reached e.manifest.outermost 3 [0x82, 0x18, 0x20, 0x43, 0x82, 0x0e, 0x00] :=
    .nested (.outermost h4) hq (hc ▸ List.mem_singleton_self _) (List.mem_singleton_self _)
  have h2 : Sequence.Reached e.manifest.outermost 2 [0x82, 0x0e, 0x00] :=
    .nested h3 hq' (hc' ▸ List.mem_singleton_self _) (List.mem_singleton_self _)
  obtain ⟨hs, hn, hk⟩ := sequences_decode (π := Indifferent) (δ := Ram) (η := Hash.Digester zeros)
    (τ := Payloads) he
  refine ⟨e, he, hs _ h4, h2, fun x => ⟨?_, ?_⟩⟩
  · exact hn _ 2 _ h2 (.start blank) x
  · exact (hk (Run.passOf e .zero .execute) rfl [.install] (.start blank) x).1

end Processor

end Firmware
