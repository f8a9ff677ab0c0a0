import Firmware.Proofs.Processor.Agreement
import Firmware.Proofs.Processor.Engines

namespace Firmware.Processor

open Flash Manifest Storage

variable {π H δ η τ α : Type}

namespace Event

def Plain : Event H → Prop
  | .passBegins _ | .passEnds _ | .call (.acquire _) _ | .call (.release _) _ => False
  | _ => True

def IsAcquisition : Event H → Prop
  | .call (.acquire _) _ => True
  | _ => False

def acquired? : Event H → Option H
  | .call (.acquire _) (.ok h) => some h
  | _ => none

def Releases (h : H) (e : Event H) : Prop := ∃ x, e = .call (.release h) x

lemma Plain.acquired? {e : Event H} (he : e.Plain) : e.acquired? = none := by
  cases e with
  | call c r =>
    cases c with
    | acquire id => exact he.elim
    | _ => rfl
  | _ => rfl

lemma Plain.of_preliminary {e : Event H} {exempt : List Region} (he : Preliminary exempt e) : e.Plain := by
  cases e with
  | call c r =>
    cases c with
    | acquire id | release h => exact he
    | _ => trivial
  | passBegins m | passEnds m => exact he
  | _ => trivial

end Event

/-- What a pass does: what it acquires it releases, once and in the same order, and makes no call any
more. -/
def Balanced (m : Mode) (es : List (Event H)) : Prop :=
  ∃ body freed, (∀ e ∈ body, e.Plain ∨ e.IsAcquisition) ∧
    List.Forall₂ Event.Releases (body.filterMap Event.acquired?) freed ∧
    (es = .passBegins m :: (body ++ freed) ∨ es = .passBegins m :: (body ++ freed) ++ [.passEnds m])

/-- All that is acquired and released is acquired and released by passes. -/
inductive Settled : List (Event H) → Prop
  | nil : Settled []
  | plain {e es} : e.Plain → Settled es → Settled (e :: es)
  | pass {m es fs} : Balanced m es → Settled fs → Settled (es ++ fs)

lemma Settled.append {es fs : List (Event H)} (h : Settled es) (h' : Settled fs) : Settled (es ++ fs) := by
  induction h with
  | nil => exact h'
  | plain he _ ih => exact .plain he ih
  | pass hb _ ih => exact List.append_assoc _ _ _ ▸ .pass hb ih

lemma settled_of_plain {es : List (Event H)} (h : ∀ e ∈ es, e.Plain) : Settled es := by
  induction es with
  | nil => exact .nil
  | cons e es ih =>
    rw [List.forall_mem_cons] at h
    exact .plain h.1 (ih h.2)

variable [Platform π H] [Flash δ]

def Settles (p q : Processor π H δ η τ) : Prop := ∃ es, Account es p q ∧ Settled es

instance : IsPreorder (Processor π H δ η τ) Settles where
  refl p := ⟨[], .refl p, .nil⟩
  trans _ _ _ := by
    rintro ⟨es, h, hs⟩ ⟨fs, h', hs'⟩
    exact ⟨es ++ fs, h.trans h', hs.append hs'⟩

lemma settles_of_does {p q : Processor π H δ η τ} (h : Does (fun _ => Event.Plain) p q) : Settles p q := by
  obtain ⟨es, ha, hP⟩ := h
  exact ⟨es, ha, settled_of_plain hP⟩

lemma settles_of_aside {p q : Processor π H δ η τ} (h : Account [] p q) : Settles p q := ⟨[], h, .nil⟩

lemma settles_ask {c : Call H} (hc : ∀ x, (Event.call c x).Plain) :
    Follows Settles (ask c : EStateM Failure (Processor π H δ η τ) c.Reply) :=
  (does_ask c fun _ => hc).mono fun _ _ => settles_of_does

lemma settles_authorization (c : Call H) (h : c.IsAuthorization) :
    Follows Settles (ask c : EStateM Failure (Processor π H δ η τ) c.Reply) :=
  settles_ask fun _ => by cases c <;> trivial

lemma allows_plain [Hash.Engine η] (mode : Mode) :
    Allows mode (Does fun _ => Event.Plain : Processor π H δ η τ → Processor π H δ η τ → Prop) where
  log {e} he _ p := by
    refine ⟨_, .log p fun c r h => ?_, fun x hx => ?_⟩
    · rw [h] at he
      exact he
    · rw [List.mem_singleton.mp hx]
      cases e <;> trivial
  ask {c} hc _ := does_ask c fun _ _ => by
    cases c with
    | acquire id | release h => exact hc trivial
    | _ => trivial
  lends := lends_does
  sources _ _ _ := ⟨[], .aside rfl rfl rfl rfl rfl rfl, fun _ h => by cases h⟩
  readVariable _ _ := does_readVariable fun _ _ => trivial
  setVariable _ _ _ := does_setVariable (fun _ _ => trivial) fun _ _ _ => trivial

namespace Run

section Passes

def handle? : Target H → Option H
  | .component h => some h
  | .variable _ => none

def handles (r : Run π H δ η τ) : List H := (r.members.map Member.place).filterMap fun x => handle? x.2

def Gathers (r s : Run π H δ η τ) : Prop :=
  ∃ es, Account es r.processor s.processor ∧ (∀ e ∈ es, e.Plain ∨ e.IsAcquisition) ∧
    s.handles = r.handles ++ es.filterMap Event.acquired?

instance : IsPreorder (Run π H δ η τ) Gathers where
  refl r := ⟨[], .refl _, fun _ h => absurd h List.not_mem_nil, (List.append_nil _).symm⟩
  trans r s t := by
    rintro ⟨es, h, hP, hs⟩ ⟨fs, h', hP', hs'⟩
    refine ⟨es ++ fs, h.trans h', fun e he => (List.mem_append.mp he).elim (hP e) (hP' e), ?_⟩
    rw [hs', hs, List.append_assoc, List.filterMap_append]

lemma gathers_of_does {r s : Run π H δ η τ} (h : Does (fun _ => Event.Plain) r.processor s.processor)
    (hh : s.handles = r.handles) : Gathers r s := by
  obtain ⟨es, ha, hP⟩ := h
  refine ⟨es, ha, fun e he => .inl (hP e he), ?_⟩
  have hn : es.filterMap Event.acquired? = [] := List.filterMap_eq_nil_iff.mpr fun e he => (hP e he).acquired?
  rw [hh, hn, List.append_nil]

lemma gathers_component (id : ComponentId) :
    Follows Gathers (do
      let h ← ask (.acquire id)
      add id (.component h) : Act π H δ η τ Unit) := by
  intro r
  rw [ask, within_bind_run]
  cases hr : Processor.ask (.acquire id) r.processor with
  | ok h q =>
    refine ⟨_, ask_eq_ok hr, fun e he => ?_, ?_⟩
    · rw [List.mem_singleton.mp he]
      exact .inr trivial
    · change ((r.members ++ [_]).map Member.place).filterMap _ = _
      rw [List.map_append, List.filterMap_append]
      rfl
  | error e q =>
    refine ⟨_, ask_eq_error hr, fun e he => ?_, (List.append_nil _).symm⟩
    rw [List.mem_singleton.mp he]
    exact .inr trivial

lemma gathers_variable (id : ComponentId) (n : UInt32) :
    Follows Gathers (add id (.variable n) : Act π H δ η τ Unit) := by
  intro r
  refine gathers_of_does (refl_of (Does _) r.processor) ?_
  change ((r.members ++ [_]).map Member.place).filterMap _ = _
  rw [List.map_append, List.filterMap_append]
  exact List.append_nil _

lemma gathers_acquire (classId : Uuid) (id : ComponentId) :
    Follows Gathers (acquire classId id : Act π H δ η τ Unit) := by
  have hp : Follows (Does fun _ => Event.Plain)
      (Processor.ask (.authorizeComponent classId id) : EStateM Failure (Processor π H δ η τ) _) :=
    does_ask _ fun _ _ => trivial
  have hq : Follows Gathers (admission classId id : Act π H δ η τ Unit) :=
    .onPart (.adaptExcept hp) fun _ _ h => gathers_of_does h rfl
  obtain ⟨n, h⟩ | h | h := acquire_cases (π := π) classId id
  · rw [h]
    exact .bind hq fun _ => gathers_variable id n
  · rw [h]
    exact .bind hq fun _ => .throw _
  · rw [h]
    exact .bind hq fun _ => gathers_component id

variable [Hash.Engine η] [Source τ] (k : Pass) (kinds : List SequenceKind)

lemma gathers_runKinds : Follows Gathers (runKinds k kinds : Act π H δ η τ Unit) := by
  intro r
  have hg := Goes.along (goes_runKinds (k := k) (governed_of_allows (allows_plain k.mode)) kinds) r
  apply gathers_of_does hg
  exact congrArg (List.filterMap fun x => handle? x.2) ((keeps_places k r).maintains_runKinds kinds r rfl)

lemma gathers_body : Follows Gathers (k.body kinds : Act π H δ η τ Unit) :=
  .bind (.forM fun id _ => gathers_acquire _ id) fun _ => gathers_runKinds k kinds

omit [Hash.Engine η] [Source τ] in
lemma releaseAll_account (r : Run π H δ η τ) :
    ∃ es, Account es r.processor (releaseAll r).processor ∧ List.Forall₂ Event.Releases r.handles es := by
  simp only [releaseAll, handles]
  generalize r.members = ms
  induction ms generalizing r with
  | nil => exact ⟨[], .refl _, .nil⟩
  | cons m ms ih =>
    obtain ⟨es, ha, hs⟩ := ih (releaseMember m r)
    rw [List.map_cons, List.filterMap_cons, List.foldl_cons]
    cases ht : m.target with
    | component h =>
      have hm : (releaseMember m r).processor = stateAfter (Processor.ask (.release h) r.processor) := by
        rw [releaseMember, ht]
        rfl
      simp only [Member.place, ht, handle?]
      exact ⟨_, (Account.ask (.release h) r.processor).trans (hm ▸ ha), .cons ⟨_, rfl⟩ hs⟩
    | «variable» id =>
      have hm : (releaseMember m r).processor = r.processor := by
        rw [releaseMember, ht]
      simp only [Member.place, ht, handle?]
      exact ⟨es, hm ▸ ha, hs⟩

lemma balanced_pass (r : Run π H δ η τ) :
    ∃ es, Account es r.processor (stateAfter (pass k kinds r)).processor ∧ Balanced k.mode es := by
  have hl (m : Event H) (hm : ∀ c r, m ≠ .call c r) (q : Processor π H δ η τ) := Account.log q hm
  obtain ⟨body, ha, hb, hh⟩ := gathers_body k kinds (k.begin r)
  have ha := (hl (.passBegins k.mode) (fun _ _ h => by cases h) r.processor).trans ha
  change _ = [] ++ _ at hh
  rw [List.nil_append] at hh
  rw [pass_run]
  cases hs : k.body kinds (k.begin r) with
  | ok u s =>
    rw [hs] at ha hh
    obtain ⟨freed, hf, hr⟩ := releaseAll_account s
    rw [stateAfter_ok] at hh
    have he := hl (.passEnds k.mode) (fun _ _ h => by cases h) (releaseAll s).processor
    exact ⟨_, (ha.trans hf).trans he, body, freed, hb, hh ▸ hr, .inr rfl⟩
  | error e s =>
    rw [hs] at ha hh
    obtain ⟨freed, hf, hr⟩ := releaseAll_account s
    rw [stateAfter_error] at hh
    exact ⟨_, ha.trans hf, body, freed, hb, hh ▸ hr, .inl rfl⟩

end Passes

lemma lends_settles : Lends (Settles : Processor π H δ η τ → Processor π H δ η τ → Prop) := fun _ _ =>
  settles_of_aside (.aside rfl rfl rfl rfl rfl rfl)

lemma settles_withoutSources {f : Act π H δ η τ α} (hf : Follows (Along Settles) f) :
    Follows (Along Settles) (withoutSources f) := by
  intro r
  have ha (p : Processor π H δ η τ) (sources : List τ) : Settles p { p with sources } :=
    settles_of_aside (.aside rfl rfl rfl rfl rfl rfl)
  rw [Along, stateAfter_withoutSources]
  exact trans_of Settles (ha r.processor [])
    (trans_of Settles (hf (r.putProcessor { r.processor with sources := [] })) (ha _ _))

variable [Hash.Engine η] [Source τ]

lemma settles_pass (k : Pass) (kinds : List SequenceKind) :
    Follows (Along Settles) (pass k kinds : Act π H δ η τ Unit) := by
  intro r
  obtain ⟨es, ha, hb⟩ := balanced_pass k kinds r
  refine ⟨es, ha, ?_⟩
  simpa only [List.append_nil] using Settled.pass hb .nil

lemma settles_checkUpdate (b : Bytes) (a : Arena) :
    Follows (Along Settles) (Run.checkUpdate b a : Act π H δ η τ Unit) :=
  .bind (along_accept lends_settles settles_authorization b a) fun _ => settles_pass _ _

end Run

structure Even (p q : Processor π H δ η τ) : Prop where
  settles : Settles p q
  engines : q.digests.present = p.digests.present

omit [Platform π H] [Flash δ] in
lemma present_of_respects {f : EStateM Error (Processor π H δ η τ) Unit}
    (hf : ∀ {slots spares}, 0 < slots.count true ∨ spares = [] → Respects (Spared slots spares) f)
    (p : Processor π H δ η τ) : (stateAfter (f p)).digests.present = p.digests.present :=
  (hf (.inr rfl) (t := p.withSpares []) ⟨rfl, rfl⟩).stateAfter.present

variable [Hash.Engine η] [Source τ]

lemma even_checkUpdate (b : Bytes) (a : Arena) (p : Processor π H δ η τ) :
    Even p (stateAfter (checkUpdate b a p)) := by
  refine ⟨?_, present_of_respects (fun hs => Spared.checkUpdate hs b a) p⟩
  rw [stateAfter_checkUpdate]
  exact Run.settles_withoutSources (Run.settles_checkUpdate b a) (.start p)

def installing (install : Bytes) : Bytes :=
  let wrap := fun (b : Bytes) => Cbor.encodeHead 2 (UInt32.ofNat b.length) ++ b
  let type := fun (t : ComponentType) => wrap (Cbor.encodeHead 3 (UInt32.ofNat t.name.length) ++ Bytes.ofString t.name)
  let common : Bytes := [0xa1, 0x02, 0x81, 0x81] ++ type .memory
  let component : Bytes := [0x82] ++ type .installedManifest ++ wrap Uuid.zero.bytes
  let manifest : Bytes := [0xa5, 0x01, 0x01, 0x02, 0x01, 0x03] ++ wrap common ++ [0x05] ++ component ++
    [0x11] ++ wrap install
  [0xa2, 0x02] ++ wrap ([0x81] ++ wrap ([0x82, 0x2f] ++ wrap (zeros .sha256 []))) ++ [0x03] ++ wrap manifest

def installs (install : Bytes) : Manifest where
  sequenceNumber := 1
  components := [⟨.memory, []⟩]
  shared := none
  componentId := some ⟨.installedManifest, [Uuid.zero.bytes]⟩
  sequences := [(.install, install)]

def matching : Bytes :=
  [0x84, 0x14, 0xa1, 0x03, 0x58, 0x24, 0x82, 0x2f, 0x58, 0x20] ++ zeros .sha256 [] ++ [0x03, 0x0f]

def matched : Digest := ⟨.sha256, zeros .sha256 []⟩

lemma decode_matching : ∃ q, Sequence.decode matching = .ok q ∧
    q.commands = [.overrideParameters { imageDigest := some matched }, .condition .imageMatch] := by
  have hq : (Sequence.decode matching).map (·.commands) =
      .ok [.overrideParameters { imageDigest := some matched }, .condition .imageMatch] := by decide +kernel
  exact Except.map_eq_ok.mp hq

end Firmware.Processor
