import Firmware.Proofs.Processor.Account
import Firmware.Proofs.Storage.Confinement

/-!
What commands do. A command moves the processor along every relation that its calls move it along,
and it leaves components and their selection alone. What it may do to a component may depend on the
authorization that comes first.
-/

namespace Firmware.Variables

variable {ν : Type} {v w : Variables} {id value : UInt32}

lemma access_congr (h : v.config = w.config) (id : UInt32) : v.access id = w.access id := by
  simp only [access, home, h]

lemma config_of_set {s : ByteStore ν} {x y : ν} (h : v.set s id value x = .ok w y) :
    w.config = v.config := by
  obtain ⟨a, z, -, h⟩ := EStateM.bind_eq_ok h
  cases a with
  | platform i | session i =>
    cases h
    rfl
  | nonVolatile i =>
    dsimp only at h
    split at h
    · obtain ⟨_, _, -, h⟩ := EStateM.bind_eq_ok h
      cases h
      rfl
    · cases h

end Firmware.Variables

namespace Firmware.Processor

open Flash Manifest Storage

variable {π H δ η τ α β : Type} [Platform π H] [Flash δ] {P : Layout → Event H → Prop}

/-- Commands log, ask the platform for what the mode permits, and when they execute they change the
variables. They neither authenticate nor save reports. -/
def Permitted (m : Mode) (l : Layout) : Event H → Prop
  | .call (.authenticate ..) _ | .call (.authorizeUnsigned ..) _
  | .call (.authorizeSequence ..) _ | .reported _ => False
  | .call (.checkContent ..) _ | .call (.openSink ..) _ | .call (.sink ..) _ | .call (.read ..) _
  | .call (.swap ..) _ | .call (.invoke ..) _ | .note _ | .variableRead .. | .variableSet .. =>
    m = .execute
  | .device e => m = .execute ∧ l.InVariables e.mutation
  | .passBegins m' | .passEnds m' => m' = m
  | _ => True

section Variables

variable [Hash.Engine η]

lemma does_readVariable {id : UInt32} (hP : ∀ l x, P l (.variableRead id x)) :
    Follows (Does P) (readVariable id : EStateM Failure (Processor π H δ η τ) UInt32) := by
  refine does_observed (.get_bind fun p => ?_) (fun x c r h => by cases h) fun x l => hP l x
  exact does_onStore (Q := fun _ => False) p (Store.follows_get p.layout p.vars id)
    fun _ h => h.elim

omit [Platform π H] in
lemma setVariable_run (id value : UInt32) (p : Processor π H δ η τ) :
    setVariable id value p =
      match onStore (p.vars.set (Store.bytes p.layout) id value) p with
      | .ok v q => .ok () { q with vars := v, trace := q.trace ++ [.variableSet id value (.ok ())] }
      | .error e q => .error e (q.log (.variableSet id value (.error e))) := by
  simp only [setVariable, observed, EStateM.bind_run, EStateM.get_run]
  cases onStore (p.vars.set (Store.bytes p.layout) id value) p <;> rfl

lemma does_setVariable {id value : UInt32} (hP : ∀ l x, P l (.variableSet id value x))
    (hd : ∀ (l : Layout) (e : Entry), l.InVariables e.mutation → P l (.device e)) :
    Follows (Does P) (setVariable id value : EStateM Failure (Processor π H δ η τ) Unit) := by
  intro p
  have hs := does_onStore (P := P) p (Store.follows_set p.layout p.vars id value) (hd p.layout)
  rw [setVariable_run]
  revert hs
  cases onStore (p.vars.set (Store.bytes p.layout) id value) p with
  | ok v q =>
    intro hs
    exact trans_of (Does _) hs ⟨_, .setVariables q v id value, fun _ he =>
      List.mem_singleton.mp he ▸ hP _ _⟩
  | error e q =>
    intro hs
    refine trans_of (Does _) hs ⟨_, Account.log q fun _ _ h => (by cases h), fun _ he => ?_⟩
    exact List.mem_singleton.mp he ▸ hP _ _

omit [Platform π H] in
lemma vars_readVariable (id : UInt32) (q : Processor π H δ η τ) :
    (stateAfter (readVariable id q)).vars = q.vars := by
  simp only [readVariable, observed, EStateM.bind_run, EStateM.get_run]
  have hv := vars_onStore (q.vars.get (Store.bytes q.layout) id) q
  revert hv
  cases onStore (q.vars.get (Store.bytes q.layout) id) q <;> exact fun hv => hv

omit [Platform π H] in
lemma config_of_setVariable (id value : UInt32) (q : Processor π H δ η τ) :
    (stateAfter (setVariable id value q)).vars.config = q.vars.config := by
  rw [setVariable_run]
  have hv := vars_onStore (q.vars.set (Store.bytes q.layout) id value) q
  cases hs : onStore (q.vars.set (Store.bytes q.layout) id value) q with
  | ok v t =>
    obtain ⟨w, hw, -⟩ := onPart_eq_ok hs
    exact Variables.config_of_set hw
  | error e t =>
    rw [hs] at hv
    exact congrArg Variables.config hv

end Variables

namespace Run

def Acts (P : Layout → Event H → Prop) (r s : Run π H δ η τ) : Prop := Does P r.processor s.processor

instance : IsPreorder (Run π H δ η τ) (Acts P) where
  refl r := refl_of (Does P) r.processor
  trans _ _ _ := trans_of (Does P)

/-- The processor moves along `T`, whatever becomes of the rest of the run. -/
def Along (T : Processor π H δ η τ → Processor π H δ η τ → Prop) (r s : Run π H δ η τ) : Prop :=
  T r.processor s.processor

omit [Platform π H] [Flash δ] in
lemma along_within {T : Processor π H δ η τ → Processor π H δ η τ → Prop} {cause : Failure → Error}
    {f : EStateM Failure (Processor π H δ η τ) α} (hf : Follows T f) :
    Follows (Along T) (within cause f) :=
  .onPart (.adaptExcept hf) fun _ _ h => h

omit [Platform π H] [Flash δ] in
lemma within_bind_run (cause : Failure → Error) (f : EStateM Failure (Processor π H δ η τ) α)
    (g : α → Act π H δ η τ β) (r : Run π H δ η τ) :
    (within cause f >>= g) r =
      match f r.processor with
      | .ok a q => g a (r.putProcessor q)
      | .error e q => .error (cause e) (r.putProcessor q) := by
  rw [EStateM.bind_run]
  simp only [within, onPart, EStateM.adaptExcept_run]
  cases f r.processor <;> rfl

omit [Platform π H] [Flash δ] in
lemma member_bind_run (i : Nat) (g : Member H → Act π H δ η τ α) (r : Run π H δ η τ) :
    (member i >>= g) r =
      match r.members[i]? with
      | some m => g m r
      | none => .error .badComponent r := by
  simp only [member, EStateM.bind_run, EStateM.get_run]
  cases r.members[i]? <;> rfl

omit [Platform π H] [Flash δ] in
lemma access_bind_run (id : UInt32) (g : Access → Act π H δ η τ α) (r : Run π H δ η τ) :
    (access id >>= g) r =
      match r.processor.vars.access id with
      | .ok a => g a r
      | .error e => .error (.platform e) r := by
  rw [access, within_bind_run]
  simp only [EStateM.bind_run, EStateM.get_run, EStateM.lift_run]
  cases r.processor.vars.access id <;> rfl

lemma acts_log {e : Event H} (hc : ∀ c r, e ≠ .call c r) (hP : ∀ l, P l e) :
    Follows (Acts P) (log e : Act π H δ η τ Unit) :=
  fun _ => ⟨[e], Account.log _ hc, fun _ he => List.mem_singleton.mp he ▸ hP _⟩

section

variable {R : Run π H δ η τ → Run π H δ η τ → Prop} [IsPreorder (Run π H δ η τ) R] {h : H}

omit [Platform π H] [Flash δ] in
lemma follows_need (o : Option α) : Follows R (need o : Act π H δ η τ α) := by
  cases o with
  | none => exact .throw _
  | some a => exact .pure a

omit [Flash δ] in
lemma follows_pump (chunk : Nat) (hr : ∀ offset want, Follows R (ask (.read h offset want)))
    {write : Bytes → Act π H δ η τ Unit} (hw : ∀ b, Follows R (write b)) (limit offset : Nat) :
    Follows R (pump chunk h write limit offset) := by
  induction hn : limit - offset using Nat.strongRecOn generalizing offset with
  | _ n ih =>
    rw [pump]
    split
    · exact .pure _
    · refine .bind (hr _ _) fun b => ?_
      split
      · split
        · exact .bind (hw b) fun _ => ih _ (by omega) _ rfl
        · exact .pure _
      · exact .throw _

omit [Flash δ] in
lemma follows_readThrough (hr : ∀ offset want, Follows R (ask (.read h offset want)))
    (size : Option UInt32) {write : Bytes → Act π H δ η τ Unit} (hw : ∀ b, Follows R (write b)) :
    Follows R (readThrough h size write) :=
  .bind .get fun _ => follows_pump _ hr hw _ _

omit [Flash δ] in
lemma follows_startsWith (hr : ∀ offset want, Follows R (ask (.read h offset want))) (offset : Nat)
    (content : Bytes) :
    Follows R
      (startsWith (fun offset want => ask (.read h offset want)) offset content :
        Act π H δ η τ Bool) := by
  induction hn : content.length using Nat.strongRecOn generalizing offset content with
  | _ n ih =>
    rw [startsWith]
    split
    · exact .pure _
    · refine .bind (hr _ _) fun b => ?_
      split
      · split
        · refine ih _ ?_ _ _ rfl
          rw [List.length_drop]
          omega
        · exact .pure _
      · exact .pure _

omit [Flash δ] in
lemma follows_hasContent {content : Bytes} (hc : Follows R (ask (.checkContent h content)))
    (hr : ∀ offset want, Follows R (ask (.read h offset want))) :
    Follows R (hasContent ask h content : Act π H δ η τ Bool) := by
  refine .bind hc fun b => ?_
  cases b with
  | some b => exact .pure b
  | none => exact follows_startsWith hr 0 content

omit [Platform π H] [Flash δ] in
lemma follows_run {perform : SinkCall → EStateM Failure (Run π H δ η τ) Unit}
    {observe : Note → Run π H δ η τ → Run π H δ η τ} (hp : ∀ c, Follows R (perform c))
    (ho : ∀ n r, R r (observe n r)) (f : Feed α) (r : Run π H δ η τ) :
    R r (f.run perform observe r).2 := by
  induction f generalizing r with
  | done a => exact refl_of R r
  | note n next ih => exact trans_of R (ho n r) (ih _)
  | call c next ih =>
    rw [Feed.run]
    cases hr : perform c r with
    | ok u s => exact trans_of R ((hp c).of_ok hr) (ih _ s)
    | error e s => exact trans_of R ((hp c).of_error hr) (ih _ s)

end

def Uses (K : H → Prop) (r : Run π H δ η τ) : Prop :=
  ∀ m ∈ r.members, ∀ h, m.target = .component h → K h

/-- The processor moves along `T`, and the components, their selection and the report stay as they are. -/
def Steps (K : H → Prop) (T : Processor π H δ η τ → Processor π H δ η τ → Prop)
    (r s : Run π H δ η τ) : Prop :=
  Uses K r → T r.processor s.processor ∧ s.members = r.members ∧ s.selected = r.selected ∧ s.report = r.report

variable {K : H → Prop} {T T' T'' : Processor π H δ η τ → Processor π H δ η τ → Prop}
variable [IsPreorder (Processor π H δ η τ) T]

instance : IsPreorder (Run π H δ η τ) (Along T) where
  refl r := refl_of T r.processor
  trans _ _ _ := trans_of T

omit [Platform π H] [Flash δ] in
lemma along_modify {f : Run π H δ η τ → Run π H δ η τ} (h : ∀ r, (f r).processor = r.processor) :
    Follows (Along T) (modify f : Act π H δ η τ PUnit) := by
  intro r
  change T r.processor (f r).processor
  exact h r ▸ refl_of T r.processor

omit [Platform π H] [Flash δ] [IsPreorder (Processor π H δ η τ) T] in
lemma Uses.of_members {r s : Run π H δ η τ} (h : Uses K r) (hm : s.members = r.members) :
    Uses K s := by
  rw [Uses, hm]
  exact h

instance : IsPreorder (Run π H δ η τ) (Steps K T) where
  refl r _ := ⟨refl_of T r.processor, rfl, rfl, rfl⟩
  trans r s t h h' hK := by
    obtain ⟨hT, hm, hs, hr⟩ := h hK
    obtain ⟨hT', hm', hs', hr'⟩ := h' (hK.of_members hm)
    exact ⟨trans_of T hT hT', hm'.trans hm, hs'.trans hs, hr'.trans hr⟩

omit [Platform π H] [Flash δ] [IsPreorder (Processor π H δ η τ) T] in
lemma Steps.along {f : Act π H δ η τ α} (h : Follows (Steps (fun _ => True) T) f) :
    Follows (Along T) f :=
  h.mono fun _ _ h => (h fun _ _ _ _ => trivial).1

omit [Platform π H] [Flash δ] [IsPreorder (Processor π H δ η τ) T] in
lemma steps_of_along {f : Act π H δ η τ α} (hf : Follows (Steps K T) f) (h : Follows (Along T') f) :
    Follows (Steps K T') f := fun r hK => ⟨h r, (hf r hK).2⟩

omit [Platform π H] [Flash δ] in
lemma steps_aside {r s : Run π H δ η τ} (hp : s.processor = r.processor)
    (hm : s.members = r.members) (hs : s.selected = r.selected) (hr : s.report = r.report) : Steps K T r s :=
  fun _ => ⟨hp ▸ refl_of T r.processor, hm, hs, hr⟩

omit [Platform π H] [Flash δ] [IsPreorder (Processor π H δ η τ) T] in
lemma steps_within {cause : Failure → Error} {f : EStateM Failure (Processor π H δ η τ) α}
    (hf : Follows T f) : Follows (Steps K T) (within cause f) :=
  .onPart (.adaptExcept hf) fun _ _ h _ => ⟨h, rfl, rfl, rfl⟩

omit [Flash δ] [IsPreorder (Processor π H δ η τ) T] in
lemma steps_ask {c : Call H} (hc : Follows T (Processor.ask c)) :
    Follows (Steps K T) (ask c : Act π H δ η τ c.Reply) :=
  steps_within hc

omit [Platform π H] [Flash δ] in
lemma steps_member {i : Nat} {g : Member H → Act π H δ η τ α}
    (hg : ∀ m : Member H, (∀ h, m.target = .component h → K h) → Follows (Steps K T) (g m)) :
    Follows (Steps K T) (member i >>= g) := by
  intro r hK
  rw [member_bind_run]
  cases hi : r.members[i]? with
  | none => exact steps_aside (K := K) rfl rfl rfl rfl hK
  | some m => exact hg m (hK m (List.mem_of_getElem? hi)) r hK

omit [Platform π H] [Flash δ] in
lemma steps_handle {m : Member H} {g : H → Act π H δ η τ α}
    (hg : ∀ h, m.target = .component h → Follows (Steps K T) (g h)) :
    Follows (Steps K T) (handle m >>= g) := by
  simp only [handle]
  cases ht : m.target with
  | component h => exact hg h ht
  | «variable» id => exact fun r => refl_of (Steps K T) r

omit [Platform π H] [Flash δ] in
lemma steps_pair {i : Nat} {m : Member H} {g : H × H → Act π H δ η τ α}
    (hm : ∀ h, m.target = .component h → K h)
    (hg : ∀ target source, K target → K source → Follows (Steps K T) (g (target, source))) :
    Follows (Steps K T) (pair i m >>= g) := by
  have hj (j : UInt32) : Follows (Steps K T) (do
      let source ← member j.toNat
      let t ← handle m
      let s ← handle source
      g (t, s) : Act π H δ η τ α) :=
    steps_member fun x hx => steps_handle fun t ht => steps_handle fun s hs =>
      hg t s (hm t ht) (hx s hs)
  simp only [pair, bind_assoc]
  refine .bind (follows_need _) fun j => ?_
  split
  · exact fun r => refl_of (Steps K T) r
  · simpa only [bind_assoc, pure_bind] using hj j

omit [Platform π H] [Flash δ] in
lemma steps_access (id : UInt32) : Follows (Steps K T) (access id : Act π H δ η τ Access) :=
  steps_within (.bind .get fun _ => .lift _)

section Digests

variable [Hash.Engine η]

def Lends (T : Processor π H δ η τ → Processor π H δ η τ → Prop) : Prop :=
  ∀ p digests, T p { p with digests }

variable (hd : Lends T)
include hd

omit [Platform π H] [Flash δ] in
lemma steps_closeDigest (r : Run π H δ η τ) : Steps K T r (closeDigest r) := by
  simp only [closeDigest]
  split
  · exact fun _ => ⟨hd _ _, rfl, rfl, rfl⟩
  · exact refl_of (Steps K T) r

omit [Platform π H] [Flash δ] in
lemma steps_openDigest (d : Digest) :
    Follows (Steps K T) (openDigest d : EStateM Failure (Run π H δ η τ) Unit) := by
  refine .bind (.onPart (S := fun _ _ => True) (fun _ => trivial) fun r _ _ _ => ?_) fun _ =>
    fun r => steps_aside rfl rfl rfl rfl
  exact ⟨hd _ _, rfl, rfl, rfl⟩

omit hd [Platform π H] [Flash δ] [IsPreorder (Processor π H δ η τ) T] in
lemma withDigest_none (f : Act π H δ η τ α) (r : Run π H δ η τ) :
    stateAfter (withDigest none f r) = closeDigest (stateAfter (f r)) := by
  unfold withDigest
  dsimp only
  cases f r <;> rfl

omit [Platform π H] [Flash δ] in
lemma steps_withDigest {d : Option Digest} {f : Act π H δ η τ α} (hf : Follows (Steps K T) f) :
    Follows (Steps K T) (withDigest d f) := by
  have hc : Follows (Steps K T) (withDigest none f) := by
    intro r
    rw [withDigest_none]
    exact trans_of (Steps K T) (hf r) (steps_closeDigest hd _)
  cases d with
  | none => exact hc
  | some d =>
    have hd' : withDigest (some d) f =
        ((openDigest d).adaptExcept .platform >>= fun _ => withDigest none f) := rfl
    rw [hd']
    exact .bind (.adaptExcept (steps_openDigest hd d)) fun _ => hc

omit hd [Platform π H] [Flash δ] in
lemma steps_hash (c : SinkCall) :
    Follows (Steps K T) (hash c : EStateM Failure (Run π H δ η τ) Unit) := by
  intro r
  simp only [hash]
  split
  · rw [stateAfter_onPart]
    exact steps_aside rfl rfl rfl rfl
  · exact refl_of (Steps K T) r

omit hd [Platform π H] [Flash δ] in
lemma steps_digestMatches : Follows (Steps K T) (digestMatches : Act π H δ η τ Bool) := by
  intro r
  simp only [digestMatches]
  split
  · rw [stateAfter_onPart]
    exact steps_aside rfl rfl rfl rfl
  · exact refl_of (Steps K T) r

omit hd [Platform π H] [Flash δ] in
lemma steps_checkDigest : Follows (Steps K T) (checkDigest : Act π H δ η τ Unit) :=
  .bind steps_digestMatches fun _ => .ite (.pure _) (.throw _)

end Digests

section Effects

structure Sinks (T : Processor π H δ η τ → Processor π H δ η τ → Prop) (h : H) : Prop where
  opens : Follows T (Processor.ask (.openSink h))
  calls : ∀ c, Follows T (Processor.ask (.sink h c))

def Reads (T : Processor π H δ η τ → Processor π H δ η τ → Prop) (h : H) : Prop :=
  ∀ offset want, Follows T (Processor.ask (.read h offset want))

variable {h : H}

omit [Flash δ] [IsPreorder (Processor π H δ η τ) T] in
lemma Reads.steps (hr : Reads T h) (offset want : Nat) :
    Follows (Steps K T) (ask (.read h offset want) : Act π H δ η τ Bytes) :=
  steps_ask (hr offset want)

omit [Flash δ] in
lemma steps_sink (hs : Sinks T h) (c : SinkCall) :
    Follows (Steps K T) (sink h c : Act π H δ η τ Unit) :=
  .bind (steps_ask hs.opens) fun _ => steps_ask (hs.calls c)

variable [Hash.Engine η]

omit [Flash δ] in
lemma steps_imageMatches (hd : Lends T) (hr : Reads T h) (d : Digest) (size : Option UInt32) :
    Follows (Steps K T) (imageMatches h d size : Act π H δ η τ Bool) := by
  refine steps_withDigest hd
    (.bind (follows_readThrough hr.steps size fun b => .adaptExcept (steps_hash _)) fun n => ?_)
  exact .ite (.pure _) steps_digestMatches

omit [Flash δ] in
lemma steps_tee (hs : Sinks T h) (c : SinkCall) :
    Follows (Steps K T) (tee h c : EStateM Failure (Run π H δ η τ) Unit) :=
  .bind (.onPart (hs.calls c) fun _ _ h _ => ⟨h, rfl, rfl, rfl⟩) fun _ => steps_hash c

variable [Source τ]

structure Streams (T : Processor π H δ η τ → Processor π H δ η τ → Prop) : Prop where
  note : ∀ n p, T p (p.log (.note n))
  sources : ∀ p sources, T p { p with sources }

omit [Flash δ] in
lemma follows_streamInto {R : Run π H δ η τ → Run π H δ η τ → Prop} [IsPreorder (Run π H δ η τ) R]
    (ht : ∀ c, Follows R (tee h c))
    (hn : ∀ n r, R r (r.putProcessor (r.processor.log (.note n))))
    (hs : ∀ sources r, R r (r.putProcessor { r.processor with sources }))
    (ps : Payloads) (type : ComponentType) (uri : Text) :
    Follows R (streamInto ps type uri h : Act π H δ η τ Unit) := by
  intro r
  have hr := follows_run ht hn
    (payloadFeed ps type uri r.processor.options.stream r.processor.sources) r
  rw [streamInto]
  dsimp only
  generalize (payloadFeed ps type uri r.processor.options.stream r.processor.sources).run (tee h)
    (fun n r => r.putProcessor (r.processor.log (.note n))) r = x at hr ⊢
  obtain ⟨⟨_ | u, sources⟩, s⟩ := x
  all_goals exact trans_of R hr (hs sources s)

omit [Flash δ] in
lemma steps_streamInto (hs : Sinks T h) (hn : Streams T) (ps : Payloads) (type : ComponentType)
    (uri : Text) : Follows (Steps K T) (streamInto ps type uri h : Act π H δ η τ Unit) :=
  follows_streamInto (steps_tee hs) (fun n r _ => ⟨hn.note n r.processor, rfl, rfl, rfl⟩)
    (fun sources r _ => ⟨hn.sources r.processor sources, rfl, rfl, rfl⟩) ps type uri

end Effects

end Run

namespace Call

def handles : Call H → List H
  | .checkVendor h _ | .checkClass h _ | .checkSlot h _ | .checkContent h _ | .checkOperation h _
  | .release h | .openSink h | .sink h _ | .read h .. | .invoke h => [h]
  | .swap target source => [target, source]
  | _ => []

def IsQuestion : Call H → Prop
  | .checkVendor .. | .checkClass .. | .checkDevice .. | .checkSlot .. => True
  | _ => False

def IsResource : Call H → Prop
  | .acquire .. | .release .. => True
  | _ => False

end Call

def sinkOperation? : Command → Option Operation
  | .write => some .write
  | .fetch => some .fetch
  | .copy => some .copy
  | _ => none

namespace Run

variable {K : H → Prop} {T : List (H × Operation) → Processor π H δ η τ → Processor π H δ η τ → Prop}
variable {mode : Mode} {c : Command} [Hash.Engine η]

/-- Within command `c`, the processor moves along `T G` once the operations in `G` are authorized. -/
structure Guarded (mode : Mode) (c : Command) (K : H → Prop)
    (T : List (H × Operation) → Processor π H δ η τ → Processor π H δ η τ → Prop) : Prop where
  authorize : ∀ {G h op}, K h → ∀ {α : Type} {g : Act π H δ η τ α},
    Follows (Steps K (T ((h, op) :: G))) g → Follows (Steps K (T G)) (do Run.authorize h op; g)
  question : ∀ {G} {q : Call H}, q.IsQuestion → (∀ h ∈ q.handles, K h) → Follows (T G) (Processor.ask q)
  lends : ∀ {G}, Lends (T G)
  contents : mode = .execute → ∀ {G h}, (h, .read) ∈ G →
    Reads (T G) h ∧ ∀ b, Follows (T G) (Processor.ask (.checkContent h b))
  sinks : mode = .execute → ∀ {G h op}, sinkOperation? c = some op → (h, op) ∈ G → Sinks (T G) h
  streams : mode = .execute → ∀ {G}, Streams (T G)
  swap : mode = .execute → ∀ {G t s}, (t, .swap) ∈ G → (s, .swap) ∈ G →
    Follows (T G) (Processor.ask (.swap t s))
  invoke : mode = .execute → ∀ {G h}, (h, .invoke) ∈ G → Follows (T G) (Processor.ask (.invoke h))
  condition : ∀ {d}, c = .condition d → ∀ id p,
    Follows (Steps K (T [])) (variableHolds mode d id p : Act π H δ η τ Bool)
  outcome : ∀ {d}, c = .condition d → ∀ b p, T [] p (p.log (.condition d b))
  write : c = .write → ∀ id b,
    Follows (Steps K (T [])) (writeVariable mode id b : Act π H δ η τ Unit)

variable [∀ G, IsPreorder (Processor π H δ η τ) (T G)] {x : Member H}

lemma steps_componentHolds {d : Condition} (hT : Guarded mode (.condition d) K T) {h : H} (hh : K h)
    (p : Parameters) : Follows (Steps K (T [])) (componentHolds mode d h p : Act π H δ η τ Bool) := by
  have hq {q : Call H} (hq : q.IsQuestion) (hK : ∀ h ∈ q.handles, K h) :
      Follows (Steps K (T [])) (ask q : Act π H δ η τ q.Reply) := steps_ask (hT.question hq hK)
  cases d with
  | vendorIdentifier => exact .bind (follows_need _) fun _ => hq trivial (by simpa [Call.handles])
  | classIdentifier => exact .bind (follows_need _) fun _ => hq trivial (by simpa [Call.handles])
  | deviceIdentifier => exact .bind (follows_need _) fun _ => hq trivial (by simp [Call.handles])
  | componentSlot => exact .bind (follows_need _) fun _ => hq trivial (by simpa [Call.handles])
  | checkContent =>
    refine .bind (follows_need _) fun content => hT.authorize hh ?_
    cases mode with
    | validate => exact .pure _
    | execute =>
      obtain ⟨hr, hc⟩ := hT.contents rfl (List.mem_singleton_self (h, Operation.read))
      exact follows_hasContent (steps_ask (hc content)) hr.steps
  | imageMatch =>
    refine .bind (follows_need _) fun digest => hT.authorize hh ?_
    cases mode with
    | validate => exact .pure _
    | execute =>
      obtain ⟨hr, -⟩ := hT.contents rfl (List.mem_singleton_self (h, Operation.read))
      exact steps_imageMatches hT.lends hr digest _
  | abort => exact .pure _

variable (hx : ∀ h, x.target = .component h → K h)
include hx

lemma steps_holds {d : Condition} (hT : Guarded mode (.condition d) K T) :
    Follows (Steps K (T [])) (holds mode d x : Act π H δ η τ Bool) := by
  simp only [holds]
  cases ht : x.target with
  | component h => exact steps_componentHolds hT (hx h ht) _
  | «variable» id => exact hT.condition rfl id _

lemma steps_condition {d : Condition} (hT : Guarded mode (.condition d) K T) :
    Follows (Steps K (T [])) (do conclude d (← holds mode d x) : Act π H δ η τ Unit) :=
  .bind (steps_holds hx hT) fun b => .bind (fun r _ => ⟨hT.outcome rfl b r.processor, rfl, rfl, rfl⟩)
    fun _ => .ite (.pure _) (.throw _)

lemma steps_write (hT : Guarded mode .write K T) :
    Follows (Steps K (T [])) (write mode x : Act π H δ η τ Unit) := by
  refine .bind (follows_need _) fun content => ?_
  cases ht : x.target with
  | component h =>
    refine hT.authorize (hx h ht) ?_
    cases mode with
    | validate => exact .pure _
    | execute =>
      have hs := hT.sinks rfl rfl (List.mem_singleton_self (h, Operation.write))
      exact .bind (steps_ask hs.opens) fun _ => .bind (steps_ask (hs.calls _)) fun _ =>
        .bind (steps_ask (hs.calls _)) fun _ => steps_ask (hs.calls _)
  | «variable» id => exact hT.write rfl id content

lemma steps_copy (hT : Guarded mode .copy K T) (i : Nat) :
    Follows (Steps K (T [])) (copy mode i x : Act π H δ η τ Unit) := by
  refine steps_pair hx fun t s ht hs => hT.authorize hs (hT.authorize ht ?_)
  cases mode with
  | validate => exact .pure _
  | execute =>
    have hw := hT.sinks rfl rfl (List.mem_cons_self (a := (t, Operation.copy)) (l := [(s, .read)]))
    obtain ⟨hr, -⟩ := hT.contents rfl (List.mem_cons_of_mem (t, Operation.copy)
      (List.mem_singleton_self (s, Operation.read)))
    refine steps_withDigest hT.lends (.bind (steps_sink hw _) fun _ =>
      .bind (follows_readThrough hr.steps _ fun b => .bind (steps_sink hw _) fun _ =>
        .adaptExcept (steps_hash _)) fun n => ?_)
    have hf : Follows (Steps K (T [(t, .copy), (s, .read)]))
        (do sink t .flush; checkDigest : Act π H δ η τ Unit) :=
      .bind (steps_sink hw _) fun _ => steps_checkDigest
    exact .ite (.bind (.throw _) fun _ => hf) hf

lemma steps_swap (hT : Guarded mode c K T) (i : Nat) :
    Follows (Steps K (T [])) (swap mode i x : Act π H δ η τ Unit) := by
  refine steps_pair hx fun t s ht hs => hT.authorize ht (hT.authorize hs ?_)
  cases mode with
  | validate => exact .pure _
  | execute => exact steps_ask (hT.swap rfl (by simp) (by simp))

lemma steps_invoke (hT : Guarded mode c K T) :
    Follows (Steps K (T [])) (invoke mode x : Act π H δ η τ Unit) := by
  refine steps_handle fun h hh => hT.authorize (hx h hh) ?_
  cases mode with
  | validate => exact .pure _
  | execute => exact steps_ask (hT.invoke rfl (by simp))

lemma steps_fetch [Source τ] (hT : Guarded mode .fetch K T) (ps : Payloads) :
    Follows (Steps K (T [])) (fetch mode ps x : Act π H δ η τ Unit) := by
  refine .bind (follows_need _) fun uri => steps_handle fun h hh => hT.authorize (hx h hh) ?_
  cases mode with
  | validate => exact .pure _
  | execute =>
    have hs := hT.sinks rfl rfl (List.mem_singleton_self (h, Operation.fetch))
    exact steps_withDigest hT.lends (.bind (steps_sink hs _) fun _ =>
      .bind (steps_streamInto hs (hT.streams rfl) ps _ uri) fun _ =>
        .bind (steps_ask (hs.calls _)) fun _ => steps_checkDigest)

end Run

def Event.IsRemark : Event H → Prop
  | .sequence _ | .command _ | .condition .. | .note _ => True
  | _ => False

lemma Event.IsRemark.ne_call {e : Event H} (he : e.IsRemark) (c : Call H) (r : Except Failure c.Reply) :
    e ≠ .call c r := by
  rintro rfl
  exact he

section Allowances

variable [Hash.Engine η] (mode : Mode) (T : Processor π H δ η τ → Processor π H δ η τ → Prop)

structure Concedes : Prop where
  log : ∀ {e : Event H}, e.IsRemark → (∀ l, Permitted mode l e) → ∀ p, T p (p.log e)
  ask : ∀ {c : Call H}, ¬c.IsResource → (∀ l r, Permitted mode l (.call c r)) → Follows T (Processor.ask c)
  lends : Run.Lends T
  sources : mode = .execute → ∀ p sources, T p { p with sources }
  readVariable : mode = .execute → ∀ id, Follows T (readVariable id)

structure Allows : Prop extends Concedes mode T where
  setVariable : mode = .execute → ∀ id value, Follows T (setVariable id value)

structure Permits : Prop extends Allows mode T where
  resource : ∀ {c : Call H}, c.IsResource → Follows T (Processor.ask c)
  bounds : ∀ e ∈ [.passBegins mode, .passEnds mode], ∀ p, T p (p.log e)

variable {mode T} [IsPreorder (Processor π H δ η τ) T] {K : H → Prop} {c : Command}

lemma Concedes.guarded (hT : Concedes mode T)
    (hw : c = .write → ∀ id b, Follows (Run.Steps K T) (Run.writeVariable mode id b : Run.Act π H δ η τ Unit)) :
    Run.Guarded mode c K fun _ => T where
  authorize _ _ _ hg := .bind (Run.steps_within (hT.ask id fun _ _ => trivial)) fun _ => hg
  question {_ q} hq _ := hT.ask (by cases q <;> simp_all [Call.IsQuestion, Call.IsResource])
    fun _ _ => by cases q <;> trivial
  lends := hT.lends
  contents hm _ h _ := ⟨fun _ _ => hT.ask id fun _ _ => hm, fun _ => hT.ask id fun _ _ => hm⟩
  sinks hm _ h _ _ _ := ⟨hT.ask id fun _ _ => hm, fun _ => hT.ask id fun _ _ => hm⟩
  streams hm _ := ⟨fun n p => hT.log (e := .note n) trivial (fun _ => hm) p, hT.sources hm⟩
  swap hm _ _ _ _ _ := hT.ask id fun _ _ => hm
  invoke hm _ _ _ := hT.ask id fun _ _ => hm
  condition _ id p := by
    refine .check (.bind (Run.follows_need _) fun content => .bind (Run.steps_access id) fun a => .check ?_)
    cases mode with
    | validate => exact .pure _
    | execute => exact .bind (Run.steps_within (hT.readVariable rfl id)) fun _ => .pure _
  outcome _ b p := hT.log (e := .condition _ b) trivial (fun _ => trivial) p
  write := hw

lemma Allows.guarded (hT : Allows mode T) (c : Command) : Run.Guarded mode c K fun _ => T := by
  refine hT.toConcedes.guarded fun _ id b => .check (.bind (Run.steps_access id) fun a => .check ?_)
  cases mode with
  | validate => exact .pure _
  | execute => exact Run.steps_within (hT.setVariable rfl id _)

end Allowances

lemma lends_does : Run.Lends (Does P : Processor π H δ η τ → Processor π H δ η τ → Prop) :=
  fun _ _ => ⟨[], .aside rfl rfl rfl rfl rfl rfl, fun _ h => by cases h⟩

lemma permits_does [Hash.Engine η] (mode : Mode) :
    Permits mode (Does (Permitted mode) : Processor π H δ η τ → Processor π H δ η τ → Prop) where
  log he hP p := ⟨_, .log p he.ne_call, fun _ he => List.mem_singleton.mp he ▸ hP _⟩
  ask _ hP := does_ask _ hP
  lends := lends_does
  sources _ _ _ := ⟨[], .aside rfl rfl rfl rfl rfl rfl, fun _ h => by cases h⟩
  readVariable hm _ := does_readVariable fun _ _ => hm
  setVariable hm _ _ := does_setVariable (fun _ _ => hm) fun _ _ h => ⟨hm, h⟩
  resource {c} hc := does_ask _ fun _ _ => by cases c <;> trivial
  bounds e he p := by
    simp only [List.mem_cons, List.not_mem_nil, or_false] at he
    rcases he with rfl | rfl
    all_goals exact ⟨_, .log p (fun _ _ h => by cases h), fun _ he => List.mem_singleton.mp he ▸ rfl⟩

end Firmware.Processor
