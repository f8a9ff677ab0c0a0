import Firmware.Proofs.Processor.Authentication
import Firmware.Proofs.Processor.Course

/-!
What runs do not look at. Commands that validate see which components are selected, what parameters these
have, where variables are and what the platform answers, so that runs with the same of all that validate
alike. And what does not touch the engines for digests and the sources of payloads does the same whatever
these are.
-/

namespace Firmware.Processor

open Flash Manifest Storage

variable {π H δ η τ α : Type}

def Call.isQuestion : Call H → Bool
  | .checkVendor .. | .checkClass .. | .checkDevice .. | .checkSlot .. | .checkOperation .. => true
  | _ => false

/-- The platform answers questions by their arguments only. -/
def Impartial (π : Type) {H : Type} [Platform π H] : Prop :=
  ∀ c : Call H, c.isQuestion → ∀ s t : π, answer (Platform.perform c s) = answer (Platform.perform c t)

namespace Run

/-- Commands that validate cannot tell runs apart that `S` relates. -/
structure Blind [Platform π H] (S : Run π H δ η τ → Run π H δ η τ → Prop) : Prop where
  members : ∀ ⦃r s⦄, S r s → s.members = r.members
  selected : ∀ ⦃r s⦄, S r s → s.selected = r.selected
  config : ∀ ⦃r s⦄, S r s → s.processor.vars.config = r.processor.vars.config
  log : ∀ ⦃r s⦄ (e : Event H), S r s →
    S (r.putProcessor (r.processor.log e)) (s.putProcessor (s.processor.log e))
  revise : ∀ ⦃r s⦄ ms is, S r s →
    S { r with members := ms, selected := is } { s with members := ms, selected := is }
  ask : ∀ (c : Call H) (cause : Failure → Error), c.isQuestion →
    Respects S (within cause (Processor.ask c) : Act π H δ η τ c.Reply)

variable [Platform π H] {S : Run π H δ η τ → Run π H δ η τ → Prop} (hS : Blind S)

omit [Platform π H] in
lemma respects_need (o : Option α) : Respects S (need o : Act π H δ η τ α) := by
  cases o with
  | none => exact .throw _
  | some a => exact .pure a

omit [Platform π H] in
lemma respects_handle (m : Member H) : Respects S (handle m : Act π H δ η τ H) := by
  simp only [handle]
  cases m.target with
  | component h => exact .pure h
  | «variable» id => exact .throw _

section Components

include hS

lemma respects_log (e : Event H) : Respects S (log e : Act π H δ η τ Unit) := .modify fun _ _ => hS.log e

lemma respects_member (i : Nat) : Respects S (member i : Act π H δ η τ (Member H)) := by
  refine .get_bind (fun r s h => by rw [hS.members h]) fun r => ?_
  cases r.members[i]? with
  | none => exact .throw _
  | some m => exact .pure m

lemma respects_pair (i : Nat) (m : Member H) : Respects S (pair i m : Act π H δ η τ (H × H)) := by
  have hs (j : UInt32) : Respects S (do
      let source ← member j.toNat
      return (← handle m, ← handle source) : Act π H δ η τ (H × H)) :=
    .bind (respects_member hS _) fun source => .bind (respects_handle m) fun _ =>
      .bind (respects_handle source) fun _ => .pure _
  exact .bind (respects_need _) fun j => .ite (.bind (.throw _) fun _ => hs j) (hs j)

lemma respects_access (id : UInt32) : Respects S (access id : Act π H δ η τ Access) := by
  intro r s h
  rw [← bind_pure (access id), access_bind_run, access_bind_run, Variables.access_congr (hS.config h)]
  cases r.processor.vars.access id with
  | ok a => exact .ok h
  | error e => exact .error h

lemma respects_reselect (is : List Nat) :
    Respects S (modify fun r => { r with selected := is } : Act π H δ η τ PUnit) := by
  refine .modify fun r s h => ?_
  rw [hS.members h]
  exact hS.revise r.members is h

lemma respects_select (i : Index) : Respects S (select i : Act π H δ η τ Unit) := by
  cases i with
  | all =>
    refine .modify fun r s h => ?_
    rw [hS.members h]
    exact hS.revise r.members _ h
  | list is => exact .get_bind (fun r s h => by rw [hS.members h]) fun r => .check (respects_reselect hS _)

lemma respects_override (p : Parameters) (i : Nat) :
    Respects S (override p i : Act π H δ η τ Unit) := by
  refine .modify fun r s h => ?_
  rw [hS.members h, hS.selected h]
  exact hS.revise _ r.selected h

lemma respects_forSelected {f : Nat → Act π H δ η τ Unit} (hf : ∀ i, Respects S (f i)) :
    Respects S (forSelected f) :=
  .get_bind (fun r s h => by rw [hS.selected h]) fun _ => .forM fun i _ => hf i

lemma respects_keepSelection {f : Act π H δ η τ Unit} (hf : Respects S f) :
    Respects S (keepSelection f) :=
  .get_bind (fun r s h => by rw [hS.selected h]) fun _ => .bind hf fun _ => respects_reselect hS _

lemma respects_tryEach {nested : Bytes → Act π H δ η τ Unit} (hn : ∀ b, Respects S (nested b))
    (failure : Error) (as : List (Option Bytes)) : Respects S (tryEach nested failure as) := by
  induction as generalizing failure with
  | nil => exact .throw _
  | cons a as ih =>
    cases a with
    | none => exact .pure _
    | some b =>
      intro r s h
      have hb := hn b h
      simp only [tryEach]
      generalize nested b r = x at hb ⊢
      generalize nested b s = y at hb ⊢
      cases hb with
      | ok h => exact .ok h
      | @error e t u h' =>
        cases e with
        | conditionFailed c =>
          apply ih
          rw [hS.members h, hS.selected h]
          exact hS.revise r.members r.selected h'
        | _ => exact .error h'

end Components

section Commands

variable [Flash δ] [Hash.Engine η]
include hS

omit [Flash δ] [Hash.Engine η] in
lemma respects_authorize (h : H) (op : Operation) : Respects S (authorize h op : Act π H δ η τ Unit) :=
  hS.ask (.checkOperation h op) _ rfl

lemma respects_holds (c : Condition) (m : Member H) :
    Respects S (holds .validate c m : Act π H δ η τ Bool) := by
  simp only [holds]
  cases m.target with
  | component h =>
    cases c with
    | vendorIdentifier => exact .bind (respects_need _) fun x => hS.ask (.checkVendor h x) _ rfl
    | classIdentifier => exact .bind (respects_need _) fun x => hS.ask (.checkClass h x) _ rfl
    | deviceIdentifier => exact .bind (respects_need _) fun x => hS.ask (.checkDevice x) _ rfl
    | componentSlot => exact .bind (respects_need _) fun x => hS.ask (.checkSlot h x) _ rfl
    | checkContent | imageMatch =>
      exact .bind (respects_need _) fun _ => .bind (respects_authorize hS h .read) fun _ => .pure _
    | abort => exact .pure _
  | «variable» id =>
    exact .check (.bind (respects_need _) fun _ => .bind (respects_access hS id) fun _ => .check (.pure _))

lemma respects_write (m : Member H) : Respects S (write .validate m : Act π H δ η τ Unit) := by
  refine .bind (respects_need _) fun content => ?_
  cases m.target with
  | component h => exact .bind (respects_authorize hS h .write) fun _ => .pure _
  | «variable» id => exact .check (.bind (respects_access hS id) fun _ => .check (.pure _))

variable [Source τ] {k : Pass} (hk : k.mode = .validate)
include hk

lemma respects_each {c : Command} {f : Nat → Act π H δ η τ Unit} (h : k.each c = some f) (i : Nat) :
    Respects S (f i) := by
  have hm {g : Member H → Act π H δ η τ Unit} (hg : ∀ m, Respects S (g m)) :
      Respects S (do g (← member i)) := .bind (respects_member hS i) hg
  have ha (h : H) (op : Operation) {g : Act π H δ η τ Unit} (hg : Respects S g) :
      Respects S (do authorize h op; g) := .bind (respects_authorize hS h op) fun _ => hg
  simp only [Pass.each, hk] at h
  cases c with
  | condition d =>
    cases d with
    | abort => cases h
    | _ =>
      cases h
      exact hm fun m => .bind (respects_holds hS _ m) fun b =>
        .bind (respects_log hS _) fun _ => .ite (.pure _) (.throw _)
  | overrideParameters p =>
    cases h
    exact respects_override hS p i
  | write =>
    cases h
    exact hm (respects_write hS)
  | fetch =>
    cases h
    exact hm fun m => .bind (respects_need _) fun _ => .bind (respects_handle m) fun h =>
      ha h .fetch (.pure _)
  | copy =>
    cases h
    exact hm fun m => .bind (respects_pair hS i m) fun (t, s) => ha s .read (ha t .copy (.pure _))
  | swap =>
    cases h
    exact hm fun m => .bind (respects_pair hS i m) fun (t, s) => ha t .swap (ha s .swap (.pure _))
  | invoke =>
    cases h
    exact hm fun m => .bind (respects_handle m) fun h => ha h .invoke (.pure _)
  | setComponentIndex _ | tryEach _ | runSequence _ => cases h

omit hk in
lemma respects_runCommand (he : ∀ ⦃c f⦄, k.each c = some f → ∀ i, Respects S (f i))
    {nested : Bytes → Act π H δ η τ Unit} (hn : ∀ b, Respects S (nested b)) (c : Command) :
    Respects S (runCommand k nested c) := by
  cases h : (k.each c : Option (Nat → Act π H δ η τ Unit)) with
  | some f =>
    rw [runCommand_each h]
    exact .bind (respects_log hS _) fun _ => respects_forSelected hS (he h)
  | none =>
    refine .bind (respects_log hS _) fun _ => ?_
    cases c with
    | setComponentIndex i => exact respects_select hS i
    | tryEach as => exact respects_tryEach hS hn _ as
    | runSequence b => exact respects_keepSelection hS (hn b)
    | condition d =>
      cases d with
      | abort => exact .throw _
      | _ => cases h
    | _ => cases h

omit hk in
lemma respects_runSequence (he : ∀ ⦃c f⦄, k.each c = some f → ∀ i, Respects S (f i)) (levels : Nat)
    (b : Bytes) : Respects S (runSequence k levels b : Act π H δ η τ Unit) := by
  induction levels generalizing b with
  | zero => exact .throw _
  | succ levels ih =>
    refine .bind (.lift _) fun q => .bind (.forM fun c _ => respects_runCommand hS he ih c) fun _ => ?_
    cases q.failure with
    | none => exact .pure _
    | some e => exact .throw _

lemma respects_validation (levels : Nat) (b : Bytes) :
    Respects S (runSequence k levels b : Act π H δ η τ Unit) :=
  respects_runSequence hS (fun _ _ => respects_each hS hk) levels b

end Commands

structure Twins (v : VariableConfig) (r s : Run π H δ η τ) : Prop where
  members : s.members = r.members
  selected : s.selected = r.selected
  config : r.processor.vars.config = v
  config' : s.processor.vars.config = v

lemma blind_twins (hπ : Impartial π) (v : VariableConfig) :
    Blind (Twins v : Run π H δ η τ → Run π H δ η τ → Prop) where
  members _ _ h := h.members
  selected _ _ h := h.selected
  config _ _ h := h.config'.trans h.config.symm
  log _ _ _ h := ⟨h.members, h.selected, h.config, h.config'⟩
  revise _ _ _ _ h := ⟨rfl, rfl, h.config, h.config'⟩
  ask c cause hc := by
    intro r s h
    have ha : answer (Processor.ask c r.processor) = answer (Processor.ask c s.processor) := by
      rw [answer_ask, answer_ask, hπ c hc]
    have hv (p : Processor π H δ η τ) : (stateAfter (Processor.ask c p)).vars = p.vars := by
      rw [stateAfter_ask]
    have hr := congrArg Variables.config (hv r.processor)
    have hs := congrArg Variables.config (hv s.processor)
    simp only [within, onPart, EStateM.adaptExcept_run]
    generalize Processor.ask c r.processor = x at ha hr ⊢
    generalize Processor.ask c s.processor = y at ha hs ⊢
    have ht : Twins v (r.putProcessor (stateAfter x)) (s.putProcessor (stateAfter y)) :=
      ⟨h.members, h.selected, hr.trans h.config, hs.trans h.config'⟩
    cases x <;> cases y <;> cases ha
    · exact .ok ht
    · exact .error ht

structure Unaware [Hash.Engine η] (S : Run π H δ η τ → Run π H δ η τ → Prop) : Prop extends Blind S where
  layout : ∀ ⦃r s⦄, S r s → s.processor.layout = r.processor.layout
  store : ∀ ⦃r s⦄, S r s → s.processor.store = r.processor.store
  report : ∀ ⦃r s⦄ (f : Report → Report), S r s →
    S { r with report := f r.report } { s with report := f s.report }
  call : ∀ (c : Call H) (cause : Failure → Error),
    Respects S (within cause (Processor.ask c) : Act π H δ η τ c.Reply)
  manifestMatches : ∀ e, Respects S (manifestMatches e : Act π H δ η τ Bool)

namespace Unaware

variable [Hash.Engine η] (hU : Unaware S)
include hU

lemma revised (f : Report → Report) :
    Respects S (modify fun r => { r with report := f r.report } : Act π H δ η τ PUnit) :=
  .modify fun _ _ => hU.report f

lemma acquire (classId : Uuid) (id : ComponentId) :
    Respects S (acquire classId id : Act π H δ η τ Unit) := by
  have hq : Respects S (admission classId id : Act π H δ η τ Unit) := hU.call _ _
  have hm (x : Target H) : Respects S (add id x : Act π H δ η τ Unit) := by
    refine .modify fun r s h => ?_
    rw [hU.members h, hU.selected h]
    exact hU.revise _ r.selected h
  obtain ⟨n, h⟩ | h | h := acquire_cases (π := π) classId id
  · rw [h]
    exact .bind hq fun _ => hm _
  · rw [h]
    exact .bind hq fun _ => .throw _
  · rw [h]
    exact .bind hq fun _ => .bind (hU.call _ _) fun _ => hm _

lemma releaseAll {r s : Run π H δ η τ} (h : S r s) : S (releaseAll r) (releaseAll s) := by
  have hm (m : Member H) {r s : Run π H δ η τ} (h : S r s) : S (releaseMember m r) (releaseMember m s) := by
    simp only [releaseMember]
    cases m.target with
    | component x =>
      have hs := (hU.call (.release x) .platform h).stateAfter
      rwa [within, stateAfter_onPart, stateAfter_onPart, stateAfter_adaptExcept, stateAfter_adaptExcept] at hs
    | «variable» id => exact h
  simp only [Run.releaseAll]
  rw [hU.members h]
  generalize r.members = ms
  induction ms generalizing r s with
  | nil => exact h
  | cons m ms ih => exact ih (hm m h)

section Passes

variable [Flash δ] [Source τ] {k : Pass}
  (he : ∀ ⦃c f⦄, k.each c = some f → ∀ i, Respects S (f i : Act π H δ η τ Unit))
include he

lemma runKind (kind : SequenceKind) : Respects S (runKind k kind : Act π H δ η τ Unit) := by
  simp only [Run.runKind]
  cases k.manifest.sequence? kind with
  | none => exact .pure _
  | some b =>
    refine .bind (respects_log hU.toBlind _) fun _ => .bind (.modify fun r s h => ?_) fun _ => ?_
    · have hr := hU.report (fun x => { x with state := .running kind, sequence := some kind }) h
      rw [hU.members h]
      exact hU.revise r.members ((List.range r.members.length).take 1) hr
    · cases k.manifest.shared with
      | none => exact respects_runSequence hU.toBlind he _ b
      | some shared =>
        exact .bind (respects_runSequence hU.toBlind he _ shared) fun _ =>
          respects_runSequence hU.toBlind he _ b

lemma body (kinds : List SequenceKind) : Respects S (k.body kinds : Act π H δ η τ Unit) :=
  .bind (.forM fun id _ => hU.acquire _ id) fun _ =>
    .bind (.forM fun kind _ => hU.runKind he kind) fun _ => hU.revised fun x => { x with sequence := none }

lemma pass (kinds : List SequenceKind) : Respects S (pass k kinds : Act π H δ η τ Unit) := by
  intro r s h
  have hb : S (k.begin r) (k.begin s) :=
    hU.revise [] [] (hU.report (fun x => { x with mode := k.mode }) (hU.log (.passBegins k.mode) h))
  have hx := hU.body he kinds hb
  rw [pass_run, pass_run]
  generalize k.body kinds (k.begin r) = x at hx ⊢
  generalize k.body kinds (k.begin s) = y at hx ⊢
  cases hx with
  | ok h => exact respects_log hU.toBlind _ (hU.releaseAll h)
  | error h => exact .error (hU.releaseAll h)

end Passes

lemma slot (c : Uuid) : Respects S (slot c : Act π H δ η τ Slot) := by
  intro r s h
  rw [slot_run, slot_run, hU.layout h]
  cases r.processor.layout.slot c with
  | ok x => exact .ok h
  | error e => exact .error h

lemma decode (b : Bytes) : Respects S (decode b : Act π H δ η τ Envelope) :=
  .bind (.lift _) fun e =>
    .bind (hU.revised fun x => { x with sequenceNumber := e.manifest.sequenceNumber }) fun _ => .pure _

lemma enter (s : State) : Respects S (enter s : Act π H δ η τ Unit) := hU.revised fun x => { x with state := s }

lemma identify (c : Uuid) : Respects S
    (modify fun r => { r with report := { r.report with classId := c } } : Act π H δ η τ PUnit) :=
  hU.revised fun x => { x with classId := c }

lemma authenticate (e : Envelope) (c : Uuid) (p : Policy) (t : Trigger) :
    Respects S (authenticate e c p t : Act π H δ η τ Unit) := by
  have hs : Respects S (e.signatures.forM fun s =>
      within (fun _ => .unauthenticated) (Processor.ask (.authenticate c s e.digestBytes)) :
      Act π H δ η τ Unit) := .forM fun _ _ => hU.call _ _
  exact .bind (hU.manifestMatches e) fun _ => .check (.ite (.bind (hU.call _ _) fun _ => hs) hs)

variable [Flash δ]

lemma installedSequence (c : Uuid) (a : Arena) :
    Respects S (installedSequence c a : Act π H δ η τ (Option UInt32)) := by
  refine .get_bind (fun r s h => by dsimp only; rw [hU.layout h, hU.store h]) fun r => ?_
  dsimp only
  split
  · exact .pure _
  · exact .pure _
  · exact .throw _

lemma accept (b : Bytes) (a : Arena) : Respects S (accept b a : Act π H δ η τ (Envelope × Uuid)) := by
  refine .bind (hU.decode b) fun e => ?_
  cases e.manifest.classId? with
  | none => exact .throw _
  | some c =>
    exact .bind (hU.identify c) fun _ => .bind (hU.enter _) fun _ => .bind (hU.slot c) fun s =>
      .bind (hU.authenticate e c _ _) fun _ => .bind (hU.enter _) fun _ =>
        .bind (hU.installedSequence c a) fun _ => .bind (hU.call _ _) fun _ => .pure _

lemma acceptInstalled (c : Uuid) (a : Arena) :
    Respects S (acceptInstalled c a : Act π H δ η τ Envelope) := by
  have hi : Respects S (installed c a : Act π H δ η τ Bytes) :=
    .get_bind (fun r s h => by dsimp only; rw [hU.layout h, hU.store h]) fun r => .lift _
  exact .bind (hU.identify c) fun _ => .bind (hU.slot c) fun s => .bind hi fun b =>
    .bind (hU.decode b) fun e => .check (.bind (hU.enter _) fun _ =>
      .bind (hU.authenticate e c _ _) fun _ => .pure _)

end Unaware

end Run

def equip (digests : DigestPool η → DigestPool η) (sources : List τ → List τ) (p : Processor π H δ η τ) :
    Processor π H δ η τ :=
  { p with digests := digests p.digests, sources := sources p.sources }

section Equipment

variable {φ : DigestPool η → DigestPool η} {ψ : List τ → List τ}

lemma commutes_observed {ε : Type} {e : Except ε α → Event H} {f : EStateM ε (Processor π H δ η τ) α}
    (hf : Commutes (equip φ ψ) f) : Commutes (equip φ ψ) (observed e f) := by
  intro p
  simp only [observed, hf p]
  cases f p <;> rfl

lemma commutes_ask [Platform π H] (c : Call H) :
    Commutes (equip φ ψ) (ask c : EStateM Failure (Processor π H δ η τ) c.Reply) :=
  commutes_observed (.onPart_of_eq (φ := equip φ ψ) (fun _ => rfl) (fun _ _ => rfl) _)

lemma commutes_onStore (f : EStateM Failure (Store (Journaled δ) η) α) :
    Commutes (equip φ ψ) (onStore f : EStateM Failure (Processor π H δ η τ) α) :=
  .onPart_of_eq (φ := equip φ ψ) (fun _ => rfl) (fun _ _ => rfl) f

lemma commutes_readVariable [Flash δ] [Hash.Engine η] (id : UInt32) :
    Commutes (equip φ ψ) (readVariable id : EStateM Failure (Processor π H δ η τ) UInt32) :=
  commutes_observed (.get_bind (fun _ => rfl) fun _ => commutes_onStore _)

lemma commutes_setVariable [Flash δ] [Hash.Engine η] (id value : UInt32) :
    Commutes (equip φ ψ) (setVariable id value : EStateM Failure (Processor π H δ η τ) Unit) :=
  commutes_observed (.get_bind (fun _ => rfl) fun _ => .bind (commutes_onStore _) fun _ =>
    .modify fun _ => rfl)

namespace Run

def equip (digests : DigestPool η → DigestPool η) (sources : List τ → List τ) (r : Run π H δ η τ) :
    Run π H δ η τ :=
  r.putProcessor (r.processor.equip digests sources)

lemma commutes_within {cause : Failure → Error} {f : EStateM Failure (Processor π H δ η τ) α}
    (hf : Commutes (Processor.equip φ ψ) f) : Commutes (equip φ ψ) (within cause f) :=
  .onPart (fun _ => rfl) (fun _ _ => rfl) (.adaptExcept hf)

lemma commutes_call [Platform π H] (c : Call H) (cause : Failure → Error) :
    Commutes (equip φ ψ) (within cause (Processor.ask c) : Act π H δ η τ c.Reply) :=
  commutes_within (commutes_ask c)

lemma commutes_log (e : Event H) : Commutes (equip φ ψ) (log e : Act π H δ η τ Unit) := .modify fun _ => rfl

lemma commutes_hash [Hash.Engine η] (c : SinkCall) :
    Commutes (equip φ ψ) (hash c : EStateM Failure (Run π H δ η τ) Unit) := by
  intro r
  have hd : (equip φ ψ r).digest = r.digest := rfl
  simp only [hash, hd]
  cases r.digest with
  | none => rfl
  | some s => exact Commutes.onPart_of_eq (φ := equip φ ψ) (fun _ => rfl) (fun _ _ => rfl) _ r

lemma commutes_digestMatches [Hash.Engine η] :
    Commutes (equip φ ψ) (digestMatches : Act π H δ η τ Bool) := by
  intro r
  have hd : (equip φ ψ r).digest = r.digest := rfl
  simp only [digestMatches, hd]
  cases r.digest with
  | none => rfl
  | some s => exact Commutes.onPart_of_eq (φ := equip φ ψ) (fun _ => rfl) (fun _ _ => rfl) _ r

end Run

end Equipment

end Firmware.Processor
