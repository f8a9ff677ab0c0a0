import Firmware.Processor.Update
import Firmware.Proofs.Storage.Confinement

/-!
What the trace of a processor accounts for: each call on the platform, each mutation of the device
and each change of a variable is an event of the trace, and in the order of the trace.
-/

namespace Firmware.Processor

open Flash Storage

variable {π H δ η τ α : Type} [Platform π H] [Flash δ]

inductive Calls : List (Event H) → π → π → Prop
  | nil {s : π} : Calls [] s s
  | call {es : List (Event H)} {s t : π} (c : Call H) :
      Calls es (stateAfter (Platform.perform c s)) t →
        Calls (.call c (answer (Platform.perform c s)) :: es) s t
  | other {e : Event H} {es : List (Event H)} {s t : π} :
      (∀ c r, e ≠ .call c r) → Calls es s t → Calls (e :: es) s t

lemma Calls.append {es fs : List (Event H)} {s t u : π} (h : Calls es s t) (h' : Calls fs t u) :
    Calls (es ++ fs) s u := by
  induction h with
  | nil => exact h'
  | call c _ ih => exact .call c (ih h')
  | other he _ ih => exact .other he (ih h')

lemma Calls.reply {es : List (Event H)} {s t : π} {c : Call H} {r : Except Failure c.Reply}
    (h : Calls es s t) (hm : .call c r ∈ es) : ∃ u : π, r = answer (Platform.perform c u) := by
  induction h with
  | nil => cases hm
  | @call _ s _ c' _ ih =>
    rcases List.mem_cons.mp hm with he | hm
    · cases he
      exact ⟨s, rfl⟩
    · exact ih hm
  | other hc _ ih =>
    rcases List.mem_cons.mp hm with he | hm
    · exact absurd he.symm (hc c r)
    · exact ih hm

omit [Flash δ] in
lemma stateAfter_ask (c : Call H) (p : Processor π H δ η τ) :
    stateAfter (ask c p) =
      { p with
        platform := stateAfter (Platform.perform c p.platform)
        trace := p.trace ++ [.call c (answer (Platform.perform c p.platform))] } := by
  simp only [ask, observed, onPart]
  cases Platform.perform c p.platform <;> rfl

omit [Flash δ] in
lemma answer_ask (c : Call H) (p : Processor π H δ η τ) :
    answer (ask c p) = answer (Platform.perform c p.platform) := by
  simp only [ask, observed, onPart]
  cases Platform.perform c p.platform <;> rfl

/-- A processor becomes another one, and `es` is what happens. -/
structure Account (es : List (Event H)) (p q : Processor π H δ η τ) : Prop where
  trace : q.trace = p.trace ++ es
  layout : q.layout = p.layout
  options : q.options = p.options
  calls : Calls es p.platform q.platform
  vars : q.vars.platform ≠ p.vars.platform → ∃ id value, .variableSet id value (.ok ()) ∈ es
  device : ∀ Q : Mutation → Prop, (∀ e, .device e ∈ es → Q e.mutation) →
    Reach Q p.store.device q.store.device

namespace Account

variable {p q r : Processor π H δ η τ} {es fs : List (Event H)}

lemma refl (p : Processor π H δ η τ) : Account [] p p where
  trace := (List.append_nil _).symm
  layout := rfl
  options := rfl
  calls := .nil
  vars h := absurd rfl h
  device _ _ := .refl

lemma trans (h : Account es p q) (h' : Account fs q r) : Account (es ++ fs) p r where
  trace := by rw [h'.trace, h.trace, List.append_assoc]
  layout := h'.layout.trans h.layout
  options := h'.options.trans h.options
  calls := h.calls.append h'.calls
  vars hn := by
    by_cases hq : q.vars.platform = p.vars.platform
    · obtain ⟨id, value, he⟩ := h'.vars (hq ▸ hn)
      exact ⟨id, value, List.mem_append_right _ he⟩
    · obtain ⟨id, value, he⟩ := h.vars hq
      exact ⟨id, value, List.mem_append_left _ he⟩
  device Q hQ :=
    (h.device Q fun e he => hQ e (List.mem_append_left _ he)).trans
      (h'.device Q fun e he => hQ e (List.mem_append_right _ he))

lemma aside (h : q.trace = p.trace) (hl : q.layout = p.layout) (ho : q.options = p.options)
    (hp : q.platform = p.platform) (hv : q.vars.platform = p.vars.platform)
    (hd : q.store.device = p.store.device) : Account [] p q where
  trace := by rw [h, List.append_nil]
  layout := hl
  options := ho
  calls := hp ▸ .nil
  vars hn := absurd hv hn
  device _ _ := hd ▸ .refl

lemma log (p : Processor π H δ η τ) {e : Event H} (hc : ∀ c r, e ≠ .call c r) :
    Account [e] p (p.log e) where
  trace := rfl
  layout := rfl
  options := rfl
  calls := .other hc .nil
  vars hn := absurd rfl hn
  device _ _ := .refl

lemma ask (c : Call H) (p : Processor π H δ η τ) :
    Account [.call c (answer (Platform.perform c p.platform))] p
      (stateAfter (Processor.ask c p)) := by
  rw [stateAfter_ask]
  exact ⟨rfl, rfl, rfl, .call c .nil, fun hn => absurd rfl hn, fun _ _ => .refl⟩

lemma setVariables (p : Processor π H δ η τ) (v : Variables) (id value : UInt32) :
    Account [.variableSet id value (.ok ())] p
      { p with vars := v, trace := p.trace ++ [.variableSet id value (.ok ())] } where
  trace := rfl
  layout := rfl
  options := rfl
  calls := .other (fun _ _ h => by cases h) .nil
  vars _ := ⟨id, value, List.mem_singleton_self _⟩
  device _ _ := .refl

lemma mutation (p : Processor π H δ η τ) (m : Mutation) :
    Account [.device (Journaled.entryOf m p.store.device)] p
      { p with
        store := ⟨stateAfter (m.perform p.store.device), p.store.engine⟩
        trace := p.trace ++ [.device (Journaled.entryOf m p.store.device)] } where
  trace := rfl
  layout := rfl
  options := rfl
  calls := .other (fun _ _ h => by cases h) .nil
  vars hn := absurd rfl hn
  device _ hQ := .single (hQ _ (List.mem_singleton_self _))

lemma device_eq (h : Account es p q) (hn : ∀ e, .device e ∉ es) :
    q.store.device = p.store.device :=
  (h.device (fun _ => False) fun e he => hn e he).eq

end Account

/-- Whatever happens from one processor to another satisfies `P`, which may look at the layout. -/
def Does (P : Layout → Event H → Prop) (p q : Processor π H δ η τ) : Prop :=
  ∃ es, Account es p q ∧ ∀ e ∈ es, P p.layout e

namespace Does

variable {P Q : Layout → Event H → Prop} {p q r : Processor π H δ η τ}

instance : IsPreorder (Processor π H δ η τ) (Does P) where
  refl p := ⟨[], .refl p, fun _ h => by cases h⟩
  trans _ _ _ := by
    rintro ⟨es, h, hP⟩ ⟨fs, h', hP'⟩
    refine ⟨es ++ fs, h.trans h', fun e he => ?_⟩
    rcases List.mem_append.mp he with he | he
    · exact hP e he
    · exact h.layout ▸ hP' e he

lemma mono (hPQ : ∀ e, P p.layout e → Q p.layout e) (h : Does P p q) : Does Q p q := by
  obtain ⟨es, ha, hP⟩ := h
  exact ⟨es, ha, fun e he => hPQ e (hP e he)⟩

lemma layout (h : Does P p q) : q.layout = p.layout := by
  obtain ⟨_, ha, _⟩ := h
  exact ha.layout

end Does

variable {P : Layout → Event H → Prop} {Q : Mutation → Prop}

lemma does_observed {ε : Type} {f : EStateM ε (Processor π H δ η τ) α} {e : Except ε α → Event H}
    (hf : Follows (Does P) f) (hc : ∀ x c r, e x ≠ .call c r) (hP : ∀ x l, P l (e x)) :
    Follows (Does P) (observed e f) := by
  intro p
  have hl (x : Except ε α) (q : Processor π H δ η τ) : Does P q (q.log (e x)) :=
    ⟨[e x], .log q (hc x), fun y hy => List.mem_singleton.mp hy ▸ hP x q.layout⟩
  simp only [observed]
  cases hr : f p with
  | ok a q => exact trans_of (Does P) (hf.of_ok hr) (hl _ q)
  | error x q => exact trans_of (Does P) (hf.of_error hr) (hl _ q)

lemma does_ask (c : Call H) (hP : ∀ l r, P l (.call c r)) :
    Follows (Does P) (ask c : EStateM Failure (Processor π H δ η τ) c.Reply) := fun p =>
  ⟨_, .ask c p, fun _ he => List.mem_singleton.mp he ▸ hP p.layout _⟩

lemma does_journaled (p : Processor π H δ η τ) {j : Journaled δ}
    (h : Reach Q ⟨p.store.device, []⟩ j) (hP : ∀ e : Entry, Q e.mutation → P p.layout (.device e)) :
    Does P p { p with
      store := ⟨j.device, p.store.engine⟩, trace := p.trace ++ j.entries.map .device } := by
  induction h with
  | refl =>
    have hp : { p with
        store := ⟨p.store.device, p.store.engine⟩
        trace := p.trace ++ ([] : List Entry).map .device } = p := by
      rw [List.map_nil, List.append_nil]
    rw [hp]
    exact refl_of (Does P) p
  | @tail i j _ hm ih =>
    obtain ⟨m, hm, rfl⟩ := hm
    rw [Journaled.stateAfter_perform]
    dsimp only
    rw [List.map_append, ← List.append_assoc]
    refine trans_of (Does P) ih ⟨_, .mutation _ m, fun e he => ?_⟩
    rw [List.mem_singleton.mp he]
    exact hP _ hm

lemma does_onStore (p : Processor π H δ η τ) {f : EStateM Failure (Store (Journaled δ) η) α}
    (hf : Follows (Store.Alters Q) f) (hP : ∀ e : Entry, Q e.mutation → P p.layout (.device e)) :
    Does P p (stateAfter (onStore f p)) := by
  rw [onStore, stateAfter_onPart]
  apply trans_of (Does P) (does_journaled p (hf ⟨⟨p.store.device, []⟩, p.store.engine⟩) hP)
  exact ⟨[], .aside rfl rfl rfl rfl rfl rfl, fun _ h => by cases h⟩

omit [Platform π H] [Flash δ] in
@[simp] lemma vars_onStore (f : EStateM Failure (Store (Journaled δ) η) α) (p : Processor π H δ η τ) :
    (stateAfter (onStore f p)).vars = p.vars := by
  rw [onStore, stateAfter_onPart]

omit [Platform π H] [Flash δ] in
@[simp] lemma sources_onStore (f : EStateM Failure (Store (Journaled δ) η) α)
    (p : Processor π H δ η τ) : (stateAfter (onStore f p)).sources = p.sources := by
  rw [onStore, stateAfter_onPart]

lemma does_onDevice (p : Processor π H δ η τ) {f : EStateM Failure (Journaled δ) α}
    (hf : Follows (Reach Q) f) (hP : ∀ e : Entry, Q e.mutation → P p.layout (.device e)) :
    Does P p (stateAfter (onDevice f p)) :=
  does_onStore p (Store.follows_onDevice hf) hP

omit [Platform π H] [Flash δ] in
lemma stateAfter_onDevice (f : EStateM Failure (Journaled δ) α) (p : Processor π H δ η τ) :
    stateAfter (onDevice f p) =
      { p with
        store := ⟨(stateAfter (f ⟨p.store.device, []⟩)).device, p.store.engine⟩
        trace := p.trace ++ (stateAfter (f ⟨p.store.device, []⟩)).entries.map .device } := by
  rw [onDevice, onStore, stateAfter_onPart, Store.onDevice, stateAfter_onPart]

end Firmware.Processor
