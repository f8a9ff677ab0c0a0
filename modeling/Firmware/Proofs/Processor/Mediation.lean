import Firmware.Proofs.Processor.Gate

namespace Firmware.Processor

open Flash Manifest Storage

variable {π H δ η τ α : Type}

namespace Event

def handles : Event H → List H
  | .call c _ => c.handles
  | _ => []

/-- What changes or discloses a component or a variable. -/
def IsEffect : Event H → Prop
  | .call (.checkContent ..) _ | .call (.openSink ..) _ | .call (.sink ..) _ | .call (.read ..) _
  | .call (.swap ..) _ | .call (.invoke ..) _ | .variableRead .. | .variableSet .. => True
  | _ => False

def Bounds : Event H → Prop
  | .passBegins _ | .passEnds _ => True
  | _ => False

def Idle (e : Event H) : Prop := ¬e.Bounds ∧ e.handles = [] ∧ ¬e.IsEffect

end Event

def Acquired (es : List (Event H)) (h : H) : Prop :=
  ∃ classId id, [.call (.authorizeComponent classId id) (.ok ()), .call (.acquire id) (.ok h)] <:+: es

def Granted (es : List (Event H)) (h : H) (op : Operation) : Prop :=
  .call (.checkOperation h op) (.ok ()) ∈ es

/-- Command `c` may have an effect, by the operations that are granted and by the access that there is to
variables. -/
def Warranted (v : Variables) (c : Command) (granted : H → Operation → Prop) : Event H → Prop
  | .call (.openSink h) _ | .call (.sink h _) _ => ∃ op, sinkOperation? c = some op ∧ granted h op
  | .call (.checkContent h _) _ | .call (.read h ..) _ => granted h .read
  | .call (.swap target source) _ => granted target .swap ∧ granted source .swap
  | .call (.invoke h) _ => granted h .invoke
  | .variableRead id _ => (∃ d, c = .condition d) ∧ ∃ a, v.access id = .ok a ∧ a.read = true
  | .variableSet id _ _ => c = .write ∧ ∃ a, v.access id = .ok a ∧ a.write = true
  | _ => True

/-- What comes before an event in its pass makes up for it. -/
structure Due (v : Variables) (m : Mode) (pass : List (Event H)) (e : Event H) : Prop where
  acquired : ∀ h ∈ e.handles, Acquired pass h
  warranted : e.IsEffect → m = .execute ∧ ∃ earlier c during, pass = earlier ++ .command c :: during ∧
    (∀ c', .command c' ∉ during) ∧ Warranted v c (Granted during) e

def Mediated (v : Variables) (before : List (Event H)) (e : Event H) : Prop :=
  ∃ fs m pass, before = fs ++ .passBegins m :: pass ∧ (∀ x ∈ pass, ¬x.Bounds) ∧ Due v m pass e

def AllMediated (v : Variables) (es : List (Event H)) : Prop :=
  ∀ pre e post, es = pre ++ e :: post → (e.handles ≠ [] ∨ e.IsEffect) → Mediated v pre e

variable {v : Variables} {m : Mode} {c : Command} {es fs : List (Event H)} {e : Event H}

lemma Acquired.mono {h : H} (ha : Acquired es h) (hs : es <+: fs) : Acquired fs h := by
  obtain ⟨classId, id, hi⟩ := ha
  exact ⟨classId, id, hi.trans hs.isInfix⟩

lemma Warranted.mono {granted granted' : H → Operation → Prop} (hg : ∀ h op, granted h op → granted' h op)
    (h : Warranted v c granted e) : Warranted v c granted' e := by
  cases e with
  | call d x =>
    cases d with
    | openSink h' | sink h' d =>
      obtain ⟨op, ho, hh⟩ := h
      exact ⟨op, ho, hg _ _ hh⟩
    | checkContent h' b | read h' o w => exact hg _ _ h
    | swap t s => exact ⟨hg _ _ h.1, hg _ _ h.2⟩
    | invoke h' => exact hg _ _ h
    | _ => trivial
  | _ => exact h

lemma AllMediated.nil : AllMediated v ([] : List (Event H)) := by
  rintro (_ | _) e post h <;> cases h

lemma AllMediated.append (h : AllMediated v es)
    (h' : ∀ pre e post, fs = pre ++ e :: post → (e.handles ≠ [] ∨ e.IsEffect) →
      Mediated v (es ++ pre) e) : AllMediated v (es ++ fs) := by
  intro pre e post hs he
  rcases List.append_eq_append_iff.mp hs with ⟨as, rfl, hf⟩ | ⟨bs, rfl, hf⟩
  · exact h' as e post hf he
  · cases bs with
    | nil =>
      rw [List.append_nil] at h
      simpa using h' [] e post (by simpa using hf.symm) he
    | cons b bs =>
      cases hf
      exact h pre e bs rfl he

lemma AllMediated.append_idle (h : AllMediated v es) (hi : ∀ e ∈ fs, e.handles = [] ∧ ¬e.IsEffect) :
    AllMediated v (es ++ fs) := by
  refine h.append fun pre e post hs he => ?_
  obtain ⟨hh, hn⟩ := hi e (by simp [hs])
  exact absurd he (by simp [hh, hn])

section Platform

variable [Platform π H] [Flash δ]
variable {p q r : Processor π H δ η τ} {acq pass during : List (Event H)} {K : H → Prop}
variable {G : List (H × Operation)}

/-- All that happens on the way from `p` to `q` is in the trace, and every effect is mediated. -/
def Mediates (p q : Processor π H δ η τ) : Prop :=
  ∃ es, Account es p q ∧ AllMediated p.vars es ∧ q.vars.config = p.vars.config

lemma Mediates.of_does (h : Mediates p q) (hd : Does (fun _ e => e.handles = [] ∧ ¬e.IsEffect) q r)
    (hc : r.vars.config = q.vars.config) : Mediates p r := by
  obtain ⟨es, ha, hm, hv⟩ := h
  obtain ⟨fs, hf, hi⟩ := hd
  exact ⟨es ++ fs, ha.trans hf, hm.append_idle hi, hc.trans hv⟩

/-- In a pass of `q` that began after `p`, `pass` has happened so far. -/
structure Inside (p : Processor π H δ η τ) (m : Mode) (pass : List (Event H))
    (q : Processor π H δ η τ) : Prop where
  account : ∃ before, Account (before ++ .passBegins m :: pass) p q ∧
    AllMediated p.vars (before ++ .passBegins m :: pass)
  unbounded : ∀ e ∈ pass, ¬e.Bounds
  config : q.vars.config = p.vars.config

lemma Inside.append (h : Inside p m pass q) (ha : Account es q r)
    (hc : r.vars.config = q.vars.config) (hb : ∀ e ∈ es, ¬e.Bounds)
    (hd : ∀ pre e post, es = pre ++ e :: post → Due p.vars m (pass ++ pre) e) :
    Inside p m (pass ++ es) r := by
  obtain ⟨⟨before, hp, hm⟩, hu, hv⟩ := h
  have hs : before ++ .passBegins m :: (pass ++ es) = (before ++ .passBegins m :: pass) ++ es := by
    simp
  refine ⟨⟨before, hs ▸ hp.trans ha, hs ▸ hm.append fun pre e post he _ => ?_⟩, ?_, hc.trans hv⟩
  · refine ⟨before, m, pass ++ pre, by simp, fun x hx => ?_, hd pre e post he⟩
    rcases List.mem_append.mp hx with hx | hx
    · exact hu x hx
    · exact hb x (by simp [he, hx])
  · intro e he
    exact (List.mem_append.mp he).elim (hu e) (hb e)

lemma Inside.append_idle (h : Inside p m pass q) (ha : Account es q r)
    (hc : r.vars.config = q.vars.config) (hi : ∀ e ∈ es, e.Idle) : Inside p m (pass ++ es) r := by
  refine h.append ha hc (fun e he => (hi e he).1) fun pre e post hs => ?_
  obtain ⟨-, hh, hn⟩ := hi e (by simp [hs])
  exact ⟨by simp [hh], fun he => absurd he hn⟩

def Between (p : Processor π H δ η τ) (m : Mode) (acq : List (Event H)) (q : Processor π H δ η τ) :
    Prop :=
  ∃ pass, Inside p m pass q ∧ acq <+: pass

/-- Within command `c` of such a pass, with `during` done for it. -/
def Serves (p : Processor π H δ η τ) (m : Mode) (acq : List (Event H)) (c : Command)
    (during : List (Event H)) (q : Processor π H δ η τ) : Prop :=
  ∃ earlier, Inside p m (earlier ++ .command c :: during) q ∧ acq <+: earlier ∧
    ∀ c', .command c' ∉ during

def During (p : Processor π H δ η τ) (m : Mode) (acq : List (Event H)) (c : Command)
    (G : List (H × Operation)) (q : Processor π H δ η τ) : Prop :=
  ∃ during, Serves p m acq c during q ∧ ∀ x ∈ G, Acquired acq x.1 ∧ Granted during x.1 x.2

def Admits (v : Variables) (m : Mode) (K : H → Prop) (c : Command) (G : List (H × Operation))
    (e : Event H) : Prop :=
  ¬e.Bounds ∧ (∀ c', e ≠ .command c') ∧ (∀ h ∈ e.handles, K h) ∧
    (e.IsEffect → m = .execute ∧ Warranted v c (fun h op => (h, op) ∈ G) e)

lemma Serves.append (h : Serves p m acq c during q) (hG : ∀ x ∈ G, Granted during x.1 x.2)
    (ha : Account es q r) (hc : r.vars.config = q.vars.config)
    (he : ∀ e ∈ es, Admits p.vars m (Acquired acq) c G e) :
    Serves p m acq c (during ++ es) r := by
  obtain ⟨earlier, hi, hp, hn⟩ := h
  refine ⟨earlier, ?_, hp, fun c' hc' => ?_⟩
  · have hs : earlier ++ .command c :: (during ++ es) = (earlier ++ .command c :: during) ++ es := by
      simp
    rw [hs]
    refine hi.append ha hc (fun e h => (he e h).1) fun pre e post hpre => ?_
    obtain ⟨-, -, hK, hw⟩ := he e (by simp [hpre])
    refine ⟨fun h hh => (hK h hh).mono (hp.trans ?_), fun heff => ?_⟩
    · rw [List.append_assoc]
      exact List.prefix_append _ _
    · obtain ⟨hm, hw⟩ := hw heff
      refine ⟨hm, earlier, c, during ++ pre, by simp, fun c' hc' => ?_, hw.mono fun h op hg => ?_⟩
      · rcases List.mem_append.mp hc' with hc' | hc'
        · exact hn c' hc'
        · exact (he _ (by simp [hpre, hc'])).2.1 c' rfl
      · exact List.mem_append_left _ (hG (h, op) hg)
  · rcases List.mem_append.mp hc' with hc' | hc'
    · exact hn c' hc'
    · exact (he _ hc').2.1 c' rfl

lemma During.of_does (h : During p m acq c G q)
    (hd : Does (fun _ => Admits p.vars m (Acquired acq) c G) q r)
    (hc : r.vars.config = q.vars.config) : During p m acq c G r := by
  obtain ⟨during, hs, hG⟩ := h
  obtain ⟨es, ha, he⟩ := hd
  exact ⟨during ++ es, hs.append (fun x hx => (hG x hx).2) ha hc he, fun x hx =>
    ⟨(hG x hx).1, List.mem_append_left _ (hG x hx).2⟩⟩

lemma During.between (h : During p m acq c G q) : Between p m acq q := by
  obtain ⟨during, ⟨earlier, hi, hp, -⟩, -⟩ := h
  exact ⟨_, hi, hp.trans (List.prefix_append _ _)⟩

lemma Between.command (h : Between p m acq q) (c : Command) :
    During p m acq c [] (q.log (.command c)) := by
  obtain ⟨pass, hi, hp⟩ := h
  have hl : Account [.command c] q (q.log (.command c)) := .log q fun _ _ h => (by cases h)
  have hi := hi.append_idle hl rfl fun e he => by
    rw [List.mem_singleton.mp he]
    exact ⟨id, rfl, id⟩
  exact ⟨[], ⟨pass, hi, hp, by simp⟩, by simp⟩

omit [Platform π H] [Flash δ] in
lemma Admits.call {d : Call H} {x : Except Failure d.Reply} (hK : ∀ h ∈ d.handles, K h)
    (hw : (Event.call d x).IsEffect → m = .execute ∧ Warranted v c (fun h op => (h, op) ∈ G) (.call d x)) :
    Admits v m K c G (.call d x) :=
  ⟨id, fun _ h => (by cases h), hK, hw⟩

lemma During.config (h : During p m acq c G q) : q.vars.config = p.vars.config := by
  obtain ⟨during, ⟨earlier, hi, -⟩, -⟩ := h
  exact hi.config

lemma During.acquired (h : During p m acq c G q) : ∀ x ∈ G, Acquired acq x.1 := by
  obtain ⟨during, -, hG⟩ := h
  exact fun x hx => (hG x hx).1

lemma During.mono {G' : List (H × Operation)} (h : During p m acq c G q) (hG : G' ⊆ G) :
    During p m acq c G' q := by
  obtain ⟨during, hs, hg⟩ := h
  exact ⟨during, hs, fun x hx => hg x (hG hx)⟩

lemma During.grant {h : H} {op : Operation} (hd : During p m acq c G q) (hh : Acquired acq h)
    (ha : ask (.checkOperation h op) q = .ok () r) : During p m acq c ((h, op) :: G) r := by
  obtain ⟨during, hs, hG⟩ := hd
  have hr := stateAfter_ask (.checkOperation h op) q
  rw [ha, stateAfter_ok] at hr
  have hc : Admits p.vars m (Acquired acq) c G (.call (.checkOperation h op) (.ok ())) :=
    .call (by simpa [Call.handles] using hh) False.elim
  refine ⟨_, hs.append (fun x hx => (hG x hx).2) (ask_eq_ok ha) (by rw [hr]) fun e he => ?_, ?_⟩
  · exact List.mem_singleton.mp he ▸ hc
  · exact List.forall_mem_cons.mpr ⟨⟨hh, List.mem_append_right _ (List.mem_singleton_self _)⟩,
      fun x hx => ⟨(hG x hx).1, List.mem_append_left _ (hG x hx).2⟩⟩

lemma maintains_ask {d : Call H} (hd : (∀ x ∈ G, Acquired acq x.1) →
    ∀ x, Admits p.vars m (Acquired acq) c G (.call d x)) :
    Follows (Maintains (During p m acq c G))
      (ask d : EStateM Failure (Processor π H δ η τ) d.Reply) := fun q h =>
  h.of_does (does_ask d (fun _ => hd h.acquired) q) (by rw [stateAfter_ask])

lemma steps_authorize {h : H} {op : Operation} (hh : Acquired acq h) {g : Run.Act π H δ η τ α}
    (hg : Follows (Run.Steps K (Maintains (During p m acq c ((h, op) :: G)))) g) :
    Follows (Run.Steps K (Maintains (During p m acq c G))) (do Run.authorize h op; g) := by
  intro r hK
  have hq : Maintains (During p m acq c G) r.processor
      (stateAfter (ask (.checkOperation h op) r.processor)) :=
    maintains_ask (fun _ _ => .call (by simpa [Call.handles] using hh) False.elim) r.processor
  rw [Run.authorize, Run.within_bind_run]
  cases ha : ask (.checkOperation h op) r.processor with
  | error e q =>
    rw [ha] at hq
    exact ⟨hq, rfl, rfl, rfl⟩
  | ok u q =>
    obtain ⟨hT, hm⟩ := hg (r.putProcessor q) hK
    exact ⟨fun hd => (hT (hd.grant hh ha)).mono (List.subset_cons_self _ _), hm⟩

lemma maintains_readVariable [Hash.Engine η] {id : UInt32} {d : Condition} {a : Access}
    (hm : m = .execute) (ha : p.vars.access id = .ok a) (hr : a.read = true) :
    Follows (Maintains (During p m acq (.condition d) G))
      (readVariable id : EStateM Failure (Processor π H δ η τ) UInt32) := by
  refine fun q h => h.of_does (does_readVariable (fun _ x => ?_) q) (congrArg Variables.config (vars_readVariable id q))
  exact ⟨not_false, fun _ h => (by cases h), by simp [Event.handles], fun _ => ⟨hm, ⟨d, rfl⟩, a, ha, hr⟩⟩

lemma maintains_setVariable [Hash.Engine η] {id value : UInt32} {a : Access} (hm : m = .execute)
    (ha : p.vars.access id = .ok a) (hw : a.write = true) :
    Follows (Maintains (During p m acq .write G))
      (setVariable id value : EStateM Failure (Processor π H δ η τ) Unit) := by
  refine fun q h => h.of_does (does_setVariable (fun _ x => ?_) (fun _ e _ => ?_) q)
    (config_of_setVariable id value q)
  · exact ⟨not_false, fun _ h => (by cases h), by simp [Event.handles], fun _ => ⟨hm, rfl, a, ha, hw⟩⟩
  · exact ⟨not_false, fun _ h => (by cases h), by simp [Event.handles], False.elim⟩

lemma along_access {id : UInt32} {g : Access → Run.Act π H δ η τ α}
    (hg : ∀ a, p.vars.access id = .ok a → Follows (Run.Along (Maintains (During p m acq c G))) (g a)) :
    Follows (Run.Along (Maintains (During p m acq c G))) (Run.access id >>= g) := by
  intro r h
  have ha := Variables.access_congr h.config id
  rw [Run.access_bind_run]
  cases hx : r.processor.vars.access id with
  | ok a => exact hg a (ha ▸ hx) r h
  | error e => exact h

lemma maintains_effect {d : Call H} (hm : m = .execute) (hh : ∀ h ∈ d.handles, ∃ op, (h, op) ∈ G)
    (hw : ∀ x, Warranted p.vars c (fun h op => (h, op) ∈ G) (.call d x)) :
    Follows (Maintains (During p m acq c G))
      (ask d : EStateM Failure (Processor π H δ η τ) d.Reply) := by
  refine maintains_ask fun hK x => .call (fun h hx => ?_) fun _ => ⟨hm, hw x⟩
  obtain ⟨op, ho⟩ := hh h hx
  exact hK _ ho

lemma maintains_effect_on {h : H} {op : Operation} {d : Call H} (hm : m = .execute) (hG : (h, op) ∈ G)
    (hd : d.handles = [h]) (hw : ∀ x, Warranted p.vars c (fun h op => (h, op) ∈ G) (.call d x)) :
    Follows (Maintains (During p m acq c G))
      (ask d : EStateM Failure (Processor π H δ η τ) d.Reply) := by
  refine maintains_effect hm ?_ hw
  rw [hd]
  exact List.forall_mem_singleton.mpr ⟨op, hG⟩

lemma maintains_log {e : Event H} (hc : ∀ d r, e ≠ .call d r)
    (he : Admits p.vars m (Acquired acq) c G e) (q : Processor π H δ η τ) :
    Maintains (During p m acq c G) q (q.log e) := fun h =>
  h.of_does ⟨_, .log q hc, fun _ hx => List.mem_singleton.mp hx ▸ he⟩ rfl

section Governed

variable [Hash.Engine η]

lemma steps_variableHolds (d : Condition) (id : UInt32) (ps : Parameters) :
    Follows (Run.Steps K (Maintains (During p m acq (.condition d) [])))
      (Run.variableHolds m d id ps : Run.Act π H δ η τ Bool) := by
  refine Run.steps_of_along ((permits_does m).toAllows.guarded (.condition d) |>.condition rfl id ps) ?_
  refine .check (.bind (Run.follows_need _) fun content => along_access fun a ha => ?_)
  cases hr : a.read with
  | false => exact .throw _
  | true =>
    cases m with
    | validate => exact .pure _
    | execute => exact .bind (Run.along_within (maintains_readVariable rfl ha hr)) fun _ => .pure _

lemma steps_writeVariable (id : UInt32) (b : Bytes) :
    Follows (Run.Steps K (Maintains (During p m acq .write [])))
      (Run.writeVariable m id b : Run.Act π H δ η τ Unit) := by
  refine Run.steps_of_along ((permits_does m).toAllows.guarded .write |>.write rfl id b) ?_
  refine .check (along_access fun a ha => ?_)
  cases hw : a.write with
  | false => exact .throw _
  | true =>
    cases m with
    | validate => exact .pure _
    | execute => exact Run.along_within (maintains_setVariable rfl ha hw)

lemma guarded_during (p : Processor π H δ η τ) (m : Mode) (acq : List (Event H)) (c : Command) :
    Run.Guarded m c (Acquired acq) fun G => Maintains (During p m acq c G) where
  authorize hh _ _ hg := steps_authorize hh hg
  question {_ q} hq hh := maintains_ask fun _ _ => .call hh fun he => by
    cases q <;> cases he <;> cases hq
  lends q digests h := h.of_does (lends_does q digests) rfl
  contents hm _ _ hG :=
    ⟨fun _ _ => maintains_effect_on hm hG rfl fun _ => hG, fun _ => maintains_effect_on hm hG rfl fun _ => hG⟩
  sinks hm _ _ op ho hG := ⟨maintains_effect_on hm hG rfl fun _ => ⟨op, ho, hG⟩,
    fun _ => maintains_effect_on hm hG rfl fun _ => ⟨op, ho, hG⟩⟩
  streams _ _ := ⟨fun n => maintains_log (e := .note n) (fun _ _ h => by cases h)
      ⟨not_false, fun _ h => (by cases h), by simp [Event.handles], False.elim⟩,
    fun q ts h => h.of_does ⟨[], .aside rfl rfl rfl rfl rfl rfl, fun _ h => by cases h⟩ rfl⟩
  swap hm _ _ _ ht hs := maintains_effect hm
    (List.forall_mem_cons.mpr ⟨⟨_, ht⟩, List.forall_mem_singleton.mpr ⟨_, hs⟩⟩) fun _ => ⟨ht, hs⟩
  invoke hm _ _ hG := maintains_effect_on hm hG rfl fun _ => hG
  condition hc id ps := hc ▸ steps_variableHolds _ id ps
  outcome {d} _ b := maintains_log (e := .condition d b) (fun _ _ h => by cases h)
    ⟨not_false, fun _ h => (by cases h), by simp [Event.handles], False.elim⟩
  write hc id b := hc ▸ steps_writeVariable id b

lemma governed_between (p : Processor π H δ η τ) (m : Mode) (acq : List (Event H)) :
    Run.Governed m (Acquired acq) (Maintains (Between p m acq))
      fun c G => Maintains (During p m acq c G) where
  sequence kind q h := by
    obtain ⟨pass, hi, hp⟩ := h
    refine ⟨_, hi.append_idle (.log q fun _ _ h => (by cases h)) rfl fun e he => ?_,
      hp.trans (List.prefix_append _ _)⟩
    rw [List.mem_singleton.mp he]
    exact ⟨not_false, rfl, not_false⟩
  command {c f} hf r hK := by
    obtain ⟨hT, hu⟩ := hf (r.putProcessor (r.processor.log (.command c))) hK
    exact ⟨fun h => (hT (h.command c)).between, hu⟩
  guarded := guarded_during p m acq

end Governed

lemma Inside.ask (h : Inside p m pass q) {d : Call H} (hd : ∀ x, (Event.call d x).Idle) :
    Inside p m (pass ++ [.call d (answer (Platform.perform d q.platform))]) (stateAfter (ask d q)) :=
  h.append_idle (.ask d q) (by rw [stateAfter_ask]) fun _ he => List.mem_singleton.mp he ▸ hd _

lemma Inside.ask_ok (h : Inside p m pass q) {d : Call H} {a : d.Reply}
    (hd : (Event.call d (.ok a)).Idle) (ha : Processor.ask d q = .ok a r) :
    Inside p m (pass ++ [.call d (.ok a)]) r := by
  have hr := stateAfter_ask d q
  rw [ha, stateAfter_ok] at hr
  exact h.append_idle (ask_eq_ok ha) (by rw [hr]) fun _ he => List.mem_singleton.mp he ▸ hd

def Ready (p : Processor π H δ η τ) (m : Mode) (r : Run π H δ η τ) : Prop :=
  ∃ pass, Inside p m pass r.processor ∧ Run.Uses (Acquired pass) r

lemma Ready.add {r : Run π H δ η τ} {x : Member H} (hi : Inside p m pass r.processor)
    (hu : Run.Uses (Acquired pass) r) (hx : ∀ h, x.target = .component h → Acquired pass h) :
    Ready p m { r with members := r.members ++ [x] } := by
  refine ⟨pass, hi, fun y hy => ?_⟩
  rcases List.mem_append.mp hy with hy | hy
  · exact hu y hy
  · exact List.mem_singleton.mp hy ▸ hx

lemma ready_bind {r : Run π H δ η τ} {d : Call H} {cause : Failure → Error}
    {g : d.Reply → Run.Act π H δ η τ α} (hi : Inside p m pass r.processor)
    (hu : Run.Uses (Acquired pass) r) (hd : ∀ x, (Event.call d x).Idle)
    (hg : ∀ a s, Inside p m (pass ++ [.call d (.ok a)]) s.processor → Run.Uses (Acquired pass) s →
      Ready p m (stateAfter (g a s))) :
    Ready p m (stateAfter ((Run.within cause (Processor.ask d) >>= g) r)) := by
  rw [Run.within_bind_run]
  cases ha : Processor.ask d r.processor with
  | ok a q => exact hg a _ (hi.ask_ok (hd _) ha) hu
  | error e q =>
    have hi := hi.ask hd
    rw [ha] at hi
    exact ⟨_, hi, fun x hx h ht => (hu x hx h ht).mono (List.prefix_append _ _)⟩

lemma maintains_acquire (classId : Uuid) (id : ComponentId) :
    Follows (Maintains (Ready p m)) (Run.acquire classId id : Run.Act π H δ η τ Unit) := by
  rintro r ⟨pass, hi, hu⟩
  have hm {pass es : List (Event H)} {s : Run π H δ η τ} (hu : Run.Uses (Acquired pass) s) :
      Run.Uses (Acquired (pass ++ es)) s := fun x hx h ht => (hu x hx h ht).mono (List.prefix_append _ _)
  obtain ⟨n, h⟩ | h | h := Run.acquire_cases (π := π) classId id
  · rw [h]
    refine ready_bind hi hu (fun _ => ⟨not_false, rfl, not_false⟩) fun _ s hi hu => ?_
    exact .add hi (hm hu) fun h hn => by cases hn
  · rw [h]
    exact ready_bind hi hu (fun _ => ⟨not_false, rfl, not_false⟩) fun _ s hi hu => ⟨_, hi, hm hu⟩
  · rw [h]
    refine ready_bind hi hu (fun _ => ⟨not_false, rfl, not_false⟩) fun _ s hi hu => ?_
    refine ready_bind hi (hm hu) (fun _ => ⟨not_false, rfl, not_false⟩) fun h t hi hu => ?_
    refine .add hi (hm hu) fun h' hh => ?_
    cases hh
    refine ⟨classId, id, pass, [], ?_⟩
    simp

lemma between_release {h : H} (hh : Acquired acq h) :
    Follows (Maintains (Between p m acq))
      (ask (.release h) : EStateM Failure (Processor π H δ η τ) Unit) := by
  rintro q ⟨pass, hi, hp⟩
  refine ⟨_, hi.append (.ask (.release h) q) (by rw [stateAfter_ask]) (fun e he => ?_) ?_,
    hp.trans (List.prefix_append _ _)⟩
  · rw [List.mem_singleton.mp he]
    exact not_false
  · intro pre e post he
    obtain ⟨rfl, rfl, rfl⟩ : pre = [] ∧ e = _ ∧ post = [] := by
      simpa [List.singleton_eq_append_iff] using he
    refine ⟨fun x hx => ?_, False.elim⟩
    rw [List.mem_singleton.mp hx, List.append_nil]
    exact hh.mono hp

lemma between_releaseAll {r : Run π H δ η τ} (h : Between p m acq r.processor)
    (hu : Run.Uses (Acquired acq) r) : Between p m acq (Run.releaseAll r).processor := by
  rw [Run.Uses] at hu
  rw [Run.releaseAll]
  generalize r.members = xs at hu ⊢
  induction xs generalizing r with
  | nil => exact h
  | cons x xs ih =>
    obtain ⟨hx, hu⟩ := List.forall_mem_cons.mp hu
    refine ih ?_ hu
    simp only [Run.releaseMember]
    cases ht : x.target with
    | «variable» id => exact h
    | component h' => exact between_release (hx h' ht) r.processor h

lemma Between.mediates (h : Between p m acq q) : Mediates p q := by
  obtain ⟨pass, ⟨⟨before, ha, hm⟩, -, hc⟩, -⟩ := h
  exact ⟨_, ha, hm, hc⟩

lemma Mediates.log (h : Mediates p q) {e : Event H} (hc : ∀ c r, e ≠ .call c r) (hh : e.handles = [])
    (he : ¬e.IsEffect) : Mediates p (q.log e) :=
  h.of_does ⟨[e], .log q hc, fun _ hx => List.mem_singleton.mp hx ▸ ⟨hh, he⟩⟩ rfl

lemma Mediates.begin (h : Mediates p q) (m : Mode) : Inside p m [] (q.log (.passBegins m)) := by
  obtain ⟨es, ha, hm, hc⟩ := h
  refine ⟨⟨es, ha.trans (.log q fun _ _ h => (by cases h)), hm.append_idle fun e he => ?_⟩, by simp, hc⟩
  rw [List.mem_singleton.mp he]
  exact ⟨rfl, not_false⟩

lemma Mediates.withSources (h : Mediates p q) (sources : List τ) : Mediates p { q with sources } :=
  h.of_does ⟨[], .aside rfl rfl rfl rfl rfl rfl, fun _ h => by cases h⟩ rfl

lemma lends_mediates : Run.Lends (Maintains (Mediates p)) := fun q digests h =>
  h.of_does (lends_does q digests) rfl

lemma mediates_authorization (d : Call H) (hd : d.IsAuthorization) : Follows (Maintains (Mediates p))
    (ask d : EStateM Failure (Processor π H δ η τ) d.Reply) := by
  refine fun q h => h.of_does (does_ask d (fun _ x => ?_) q) (by rw [stateAfter_ask])
  cases d <;> first | exact ⟨rfl, not_false⟩ | cases hd

lemma mediates_onDevice {f : EStateM Failure (Journaled δ) α} (hf : Follows (Reach fun _ => True) f)
    (q : Processor π H δ η τ) : Maintains (Mediates p) q (stateAfter (onDevice f q)) := fun h =>
  h.of_does (does_onDevice q hf fun _ _ => ⟨rfl, not_false⟩) (congrArg Variables.config (vars_onStore _ q))

variable [Hash.Engine η] [Source τ]

lemma between_body (k : Run.Pass) (kinds : List SequenceKind) {r : Run π H δ η τ}
    (h : Ready p k.mode r) :
    ∃ acq, Between p k.mode acq (stateAfter (k.body kinds r)).processor ∧
      Run.Uses (Acquired acq) (stateAfter (k.body kinds r)) := by
  have ha : Follows (Maintains (Ready p k.mode))
      (k.manifest.components.forM (Run.acquire k.classId) : Run.Act π H δ η τ Unit) :=
    .forM fun id _ => maintains_acquire k.classId id
  have hr := ha r h
  rw [Run.Pass.body, EStateM.bind_run]
  cases hs : k.manifest.components.forM (Run.acquire k.classId) r with
  | error e s =>
    rw [hs] at hr
    obtain ⟨pass, hi, hu⟩ := hr
    exact ⟨pass, ⟨pass, hi, List.prefix_rfl⟩, hu⟩
  | ok u s =>
    rw [hs] at hr
    obtain ⟨pass, hi, hu⟩ := hr
    -- From here on, components neither come nor go.
    obtain ⟨hT, hu⟩ := Run.goes_runKinds (governed_between p k.mode pass) kinds s hu
    exact ⟨pass, hT ⟨pass, hi, List.prefix_rfl⟩, hu⟩

lemma mediates_pass (k : Run.Pass) (kinds : List SequenceKind) :
    Follows (Run.Along (Maintains (Mediates p))) (Run.pass k kinds : Run.Act π H δ η τ Unit) := by
  intro r h
  have hb : Ready p k.mode (k.begin r) := ⟨[], h.begin k.mode, fun _ hm => by cases hm⟩
  obtain ⟨acq, hs, hu⟩ := between_body k kinds hb
  rw [Run.pass_run]
  cases hr : k.body kinds (k.begin r) with
  | error e s =>
    rw [hr] at hs hu
    exact (between_releaseAll hs hu).mediates
  | ok u s =>
    rw [hr] at hs hu
    exact (between_releaseAll hs hu).mediates.log (fun _ _ h => by cases h) rfl not_false

lemma mediates_update (b : Bytes) (a : Arena) :
    Follows (Run.Along (Maintains (Mediates p))) (Run.update b a : Run.Act π H δ η τ Unit) := by
  have hi (c : Uuid) : Follows (Run.Along (Maintains (Mediates p))) (Run.within .platform do
      onDevice (installEnvelope (← get).layout c b) : Run.Act π H δ η τ Unit) :=
    Run.along_within (.get_bind fun q => mediates_onDevice (.bind (.lift _) fun s =>
      (Record.follows_save _ b).mono fun _ _ => .mono fun _ _ => trivial) q)
  exact .bind (Run.along_accept lends_mediates mediates_authorization b a) fun _ =>
    .bind (mediates_pass _ _) fun _ => .bind (mediates_pass _ _) fun _ =>
      .bind (Run.along_enter _) fun _ => .bind (hi _) fun _ => Run.along_enter _

lemma mediates_boot (c : Uuid) (a : Arena) :
    Follows (Run.Along (Maintains (Mediates p))) (Run.boot c a : Run.Act π H δ η τ Unit) := by
  rw [Run.boot_eq]
  exact .bind (Run.along_acceptInstalled lends_mediates mediates_authorization c a) fun _ =>
    .bind (mediates_pass _ _) fun _ => .bind (mediates_pass _ _) fun _ => Run.along_enter _

omit [Hash.Engine η] [Source τ] in
lemma mediates_reporting {f : Run.Act π H δ η τ Unit}
    (h : Mediates p (stateAfter (f (.start p))).processor) :
    Mediates p (stateAfter (reporting f p)) := by
  rw [stateAfter_reporting, Run.stateAfter_saveReport]
  refine mediates_onDevice ((follows_saveReport _ _ _).mono fun _ _ => .mono fun _ _ => trivial) _ ?_
  refine Mediates.log ?_ (fun _ _ h => by cases h) rfl not_false
  exact h.of_does (Run.acts_finish _ _) rfl

/-- Every effect of an update and of a boot happens in a pass that executes. It comes after the platform
granted the operation in the same command, and is on a component that the same pass acquired. -/
theorem effects_mediated (p : Processor π H δ η τ) (b : Bytes) (c : Uuid) (a : Arena) :
    Mediates p (stateAfter (update b a p)) ∧ Mediates p (stateAfter (boot c a p)) := by
  have hp : Mediates p p := ⟨[], .refl p, .nil, rfl⟩
  constructor
  · exact mediates_reporting (mediates_update b a (.start p) hp)
  · refine mediates_reporting ?_
    have hb : Mediates p (stateAfter (Run.withoutSources (Run.boot c a) (.start p))).processor := by
      rw [stateAfter_withoutSources]
      exact (mediates_boot c a (.start { p with sources := [] }) (hp.withSources [])).withSources _
    revert hb
    cases Run.withoutSources (Run.boot c a) (.start p) with
    | ok u t => exact id
    | error e t =>
      exact mediates_onDevice ((follows_setFlag _ _).mono fun _ _ => .mono fun _ _ => trivial) _

end Platform

end Firmware.Processor
