import Firmware.Proofs.Processor.Recovery
import Firmware.Proofs.Storage.Values
import Firmware.Proofs.Variables

namespace Firmware

namespace Storage.Store

open Flash Hash Variables

variable {F : Hash.Algorithm → Bytes → Bytes} {l : Layout} {s : Store Ram (Digester F)} {v : Variables}

lemma set_value (hF : ∀ x, x.length = l.variableCount.toNat → (F .sha256 x).length = digestLen)
    (hs : Working l s.device) (hv : v.config.platform.count.toNat ≤ v.platform.length) (id x : UInt32) :
    (∃ w t, v.set (bytes l) id x s = .ok w t ∧ w.config = v.config ∧ w.platform.length = v.platform.length ∧
        ∀ j, v.Lasts j →
          w.value (l.stored F t.device) j = if j = id then .ok x else v.value (l.stored F s.device) j) ∨
      ∃ e t, v.set (bytes l) id x s = .error e t ∧ t.device = s.device := by
  rw [Variables.set, EStateM.bind_run]
  cases hi : v.home id with
  | error e => exact .inr ⟨e, s, rfl, rfl⟩
  | ok h =>
    -- What has another home is another variable.
    have hne {j : UInt32} {h' : Home} (hj : v.home j = .ok h') (hh : h' ≠ h) : j ≠ id := by
      rintro rfl
      exact hh (Except.ok.inj (hj.symm.trans hi))
    cases h with
    | platform i =>
      have hlt := (VariableRange.offset?_eq_some.mp (home_eq_platform.mp hi)).2
      refine .inl ⟨{ v with platform := v.platform.set i x }, s, rfl, rfl, List.length_set, fun j hj => ?_⟩
      by_cases hji : j = id
      · rw [if_pos hji, hji, value_of_platform (v := { v with platform := v.platform.set i x }) _ hi]
        simp [List.getD_eq_getElem?_getD, Nat.lt_of_lt_of_le hlt hv]
      · rw [if_neg hji]
        refine value_congr hj rfl (fun k hk => ?_) fun _ _ => rfl
        have hki : i ≠ k := by
          rintro rfl
          exact hji (home_injective hk hi)
        simp only [List.getD_eq_getElem?_getD, List.getElem?_set_ne hki]
    | session i =>
      refine .inl ⟨{ v with session := v.session.set i x }, s, rfl, rfl, rfl, fun j hj => ?_⟩
      rw [if_neg (by rintro rfl; exact hj i hi)]
      exact value_congr hj rfl (fun _ _ => rfl) fun _ _ => rfl
    | nonVolatile i =>
      simp only [EStateM.lift_run]
      split
      · rename_i hx
        have hb : (UInt8.ofNat x.toNat).toNat = x.toNat := UInt8.toNat_ofNat_of_lt' (Nat.lt_succ_of_le hx)
        change (∃ w t, (do setVariable l i (UInt8.ofNat x.toNat); pure v) s = .ok w t ∧ _) ∨
          ∃ e t, (do setVariable l i (UInt8.ofNat x.toNat); pure v) s = .error e t ∧ _
        rcases setVariable_stored hF hs i (UInt8.ofNat x.toNat) with ⟨t, ht, hst⟩ | ⟨e, t, ht, hst⟩
        · refine .inl ⟨v, t, EStateM.bind_of_ok _ _ _ ht, rfl, rfl, fun j hj => ?_⟩
          · by_cases hji : j = id
            · rw [if_pos hji, hji, value_of_nonVolatile _ hi, hst, if_pos rfl, Except.map, hb, UInt32.ofNat_toNat]
            · rw [if_neg hji]
              refine value_congr hj rfl (fun _ _ => rfl) fun k hk => ?_
              rw [hst, if_neg]
              rintro rfl
              exact hji (home_injective hk hi)
        · exact .inr ⟨e, t, by rw [EStateM.bind_run, ht], hst⟩
      · exact .inr ⟨.size, s, rfl, rfl⟩

end Storage.Store

namespace Processor

open Flash Hash Ram Storage

variable {π H τ : Type} [Platform π H] {F : Hash.Algorithm → Bytes → Bytes}

namespace Event

def set? (id : UInt32) : Event H → Option UInt32
  | .variableSet j x (.ok ()) => if j = id then some x else none
  | _ => none

def Unset (e : Event H) : Prop := ∀ id x, e ≠ .variableSet id x (.ok ())

lemma set?_eq_some {id x : UInt32} {e : Event H} : e.set? id = some x ↔ e = .variableSet id x (.ok ()) := by
  cases e with
  | variableSet j y r =>
    cases r with
    | error f => simp [set?]
    | ok u => simp [set?]
  | _ => simp [set?]

lemma Unset.set? {e : Event H} (he : e.Unset) (id : UInt32) : e.set? id = none := by
  cases h : e.set? id with
  | none => rfl
  | some x => exact absurd (set?_eq_some.mp h) (he id x)

end Event

def lastSet (id : UInt32) (es : List (Event H)) : Option UInt32 := (es.filterMap (Event.set? id)).getLast?

variable {id x : UInt32} {es fs : List (Event H)}

omit [Platform π H] in
lemma lastSet_append (es fs : List (Event H)) : lastSet id (es ++ fs) = (lastSet id fs).or (lastSet id es) := by
  rw [lastSet, List.filterMap_append, List.getLast?_append]
  rfl

lemma lastSet_of_unset (h : ∀ e ∈ es, e.Unset) : lastSet id es = none := by
  have hn : es.filterMap (Event.set? id) = [] := List.filterMap_eq_nil_iff.mpr fun e he => (h e he).set? id
  rw [lastSet, hn]
  rfl

omit [Platform π H] in
lemma lastSet_eq_none : lastSet id es = none ↔ ∀ x, .variableSet id x (.ok ()) ∉ es := by
  rw [lastSet, List.getLast?_eq_none_iff, List.filterMap_eq_nil_iff]
  constructor
  · intro h x hx
    have hn := h _ hx
    simp [Event.set?] at hn
  · intro h e he
    cases hs : e.set? id with
    | none => rfl
    | some x => exact absurd (Event.set?_eq_some.mp hs ▸ he) (h x)

omit [Platform π H] in
lemma lastSet_eq_some (h : lastSet id es = some x) :
    ∃ before after, es = before ++ .variableSet id x (.ok ()) :: after ∧ lastSet id after = none := by
  induction es with
  | nil => cases h
  | cons e es ih =>
    have ha : lastSet id (e :: es) = (lastSet id es).or (lastSet id [e]) := lastSet_append [e] es
    rw [ha] at h
    cases hl : lastSet id es with
    | some y =>
      rw [hl, Option.some_or] at h
      obtain ⟨before, after, rfl, hn⟩ := ih (hl.trans h)
      exact ⟨e :: before, after, rfl, hn⟩
    | none =>
      rw [hl, Option.none_or] at h
      refine ⟨[], es, ?_, hl⟩
      cases hs : e.set? id with
      | none => simp [lastSet, hs] at h
      | some y =>
        have hy : y = x := by simpa [lastSet, hs] using h
        rw [Event.set?_eq_some.mp hs, hy]
        rfl

section Setting

variable {δ η : Type} [Flash δ] {e : Event H}

lemma unset_log (hc : ∀ c r, e ≠ .call c r) (hu : e.Unset) (p : Processor π H δ η τ) :
    Does (fun _ e => e.Unset) p (p.log e) :=
  ⟨_, .log p hc, fun _ h => List.mem_singleton.mp h ▸ hu⟩

lemma setVariable_cases [Hash.Engine η] (id x : UInt32) (p : Processor π H δ η τ) :
    (∃ q es, setVariable id x p = .ok () q ∧ Account (es ++ [.variableSet id x (.ok ())]) p q ∧
        ∀ e ∈ es, e.Unset) ∨
      ∃ e q, setVariable id x p = .error e q ∧ Does (fun _ e => e.Unset) p q := by
  have hs := does_onStore (P := fun _ e => Event.Unset e) p (Store.follows_set p.layout p.vars id x)
    fun _ _ _ _ h => by cases h
  rw [setVariable_run]
  cases h : onStore (p.vars.set (Store.bytes p.layout) id x) p with
  | ok v q =>
    rw [h] at hs
    obtain ⟨es, ha, hu⟩ := hs
    exact .inl ⟨_, es, rfl, ha.trans (.setVariables q v id x), hu⟩
  | error e q =>
    rw [h] at hs
    exact .inr ⟨e, _, rfl, trans_of (Does _) hs (unset_log (fun _ _ h => by cases h) (fun _ _ h => by cases h) q)⟩

end Setting

variable {p q r : Processor π H Ram (Digester F) τ}

def value (p : Processor π H Ram (Digester F) τ) (id : UInt32) : Except Failure UInt32 :=
  answer (readVariable id p)

/-- A device without faults that the layout fits, with places for all platform variables. -/
structure Stable (p : Processor π H Ram (Digester F) τ) : Prop where
  working : Working p.layout p.store.device
  digests : ∀ x, x.length = p.layout.variableCount.toNat → (F .sha256 x).length = digestLen
  places : p.vars.config.platform.count.toNat ≤ p.vars.platform.length

omit [Platform π H] in
lemma onStore_eq {α : Type} {f : EStateM Failure (Store (Journaled Ram) (Digester F)) α}
    {g : EStateM Failure (Store Ram (Digester F)) α} (h : Mirrors Store.plain f g)
    (p : Processor π H Ram (Digester F) τ) :
    answer (onStore f p) = answer (g p.store) ∧ (stateAfter (onStore f p)).store = stateAfter (g p.store) := by
  have hs : g p.store = seen Store.plain (f ⟨⟨p.store.device, []⟩, p.store.engine⟩) :=
    h ⟨⟨p.store.device, []⟩, p.store.engine⟩
  rw [onStore, answer_onPart, stateAfter_onPart, hs]
  cases f ⟨⟨p.store.device, []⟩, p.store.engine⟩ <;> exact ⟨rfl, rfl⟩

omit [Platform π H] in
lemma value_eq (h : Stable p) (id : UInt32) :
    p.value id = p.vars.value (p.layout.stored F p.store.device) id := by
  have ho {e : Except Failure UInt32 → Event H}
      {f : EStateM Failure (Processor π H Ram (Digester F) τ) UInt32} : answer (observed e f p) = answer (f p) := by
    simp only [observed]
    cases f p <;> rfl
  rw [value, readVariable, ho]
  change answer (onStore (p.vars.get (Store.bytes p.layout) id) p) = _
  rw [(onStore_eq (Store.mirrors_get p.layout p.vars id) p).1, Variables.answer_get]
  congr 1
  funext i
  exact Store.getVariable_answer h.working.valid i

structure Rests (p q : Processor π H Ram (Digester F) τ) : Prop where
  vars : q.vars = p.vars
  stable : Stable p → Stable q
  value : Stable p → ∀ id, q.value id = p.value id

instance : IsPreorder (Processor π H Ram (Digester F) τ) Rests where
  refl _ := ⟨rfl, fun h => h, fun _ _ => rfl⟩
  trans _ _ _ h h' := ⟨h'.vars.trans h.vars, fun hp => h'.stable (h.stable hp),
    fun hp id => (h'.value (h.stable hp) id).trans (h.value hp id)⟩

variable {X : List Register}

lemma rests_of_touches (h : Does (Touches X) p q) (hx : .values ∉ X) (hv : q.vars = p.vars) : Rests p q := by
  have hl := h.layout
  have hs (hp : Stable p) : Stable q := ⟨working_of_does h hp.working, hl ▸ hp.digests, hv ▸ hp.places⟩
  refine ⟨hv, hs, fun hp id => ?_⟩
  have hi {r : Region} (hr : r ∈ p.layout.home .values) :=
    image_of_touches h hp.working.valid (Layout.mem_plan hr) hx
  rw [value_eq hp, value_eq (hs hp), hl, hv,
    Layout.stored_congr (hi List.mem_cons_self) (hi (List.mem_cons_of_mem _ (List.mem_singleton_self _)))]

/-- All that happens is in the trace, and lasting variables have the values that they were last set to. -/
def Tells (p q : Processor π H Ram (Digester F) τ) : Prop :=
  ∃ es, Account es p q ∧ q.vars.config = p.vars.config ∧
    (Stable p → Stable q ∧ ∀ id, p.vars.Lasts id → q.value id = (lastSet id es).elim (p.value id) .ok)

omit [Platform π H] in
lemma lasts_congr {v w : Variables} (h : w.config = v.config) : w.Lasts id ↔ v.Lasts id := by
  simp only [Variables.Lasts, Variables.home_congr h]

instance : IsPreorder (Processor π H Ram (Digester F) τ) Tells where
  refl p := ⟨[], .refl p, rfl, fun h => ⟨h, fun _ _ => rfl⟩⟩
  trans p q r := by
    rintro ⟨es, ha, hc, hv⟩ ⟨fs, ha', hc', hv'⟩
    refine ⟨es ++ fs, ha.trans ha', hc'.trans hc, fun h => ?_⟩
    obtain ⟨hq, hv⟩ := hv h
    obtain ⟨hr, hv'⟩ := hv' hq
    refine ⟨hr, fun id hid => ?_⟩
    rw [lastSet_append, hv' id ((lasts_congr hc).mpr hid), hv id hid]
    cases lastSet id fs <;> rfl

lemma tells_of_unset (h : Does (fun l e => Touches X l e ∧ e.Unset) p q) (hx : .values ∉ X)
    (hv : q.vars = p.vars) : Tells p q := by
  have hr := rests_of_touches (h.mono fun _ => And.left) hx hv
  obtain ⟨es, ha, hes⟩ := h
  refine ⟨es, ha, congrArg _ hv, fun hp => ⟨hr.stable hp, fun id _ => ?_⟩⟩
  rw [lastSet_of_unset fun e he => (hes e he).2, hr.value hp]
  rfl

lemma value_setVariable (hp : Stable p) (id x : UInt32) :
    (∃ q, setVariable id x p = .ok () q ∧ Stable q ∧
        ∀ j, p.vars.Lasts j → q.value j = if j = id then .ok x else p.value j) ∨
      ∃ e q, setVariable id x p = .error e q ∧ Stable q ∧ ∀ j, q.value j = p.value j := by
  have hs := does_onStore (P := fun _ _ => True) p (Store.follows_set p.layout p.vars id x) fun _ _ => trivial
  have hv := vars_onStore (p.vars.set (Store.bytes p.layout) id x) p
  obtain ⟨ha, hst⟩ := onStore_eq (Store.mirrors_set p.layout p.vars id x) p
  have hl := hs.layout
  have hw := working_of_does hs hp.working
  rw [setVariable_run]
  rcases Store.set_value hp.digests hp.working hp.places id x with ⟨w, t, hx, hc, hn, hval⟩ | ⟨e, t, he, hd⟩
  · rw [hx] at ha hst
    cases h : onStore (p.vars.set (Store.bytes p.layout) id x) p with
    | error e q =>
      rw [h] at ha
      cases ha
    | ok v q =>
      rw [h] at ha hst hl hw
      obtain rfl : v = w := Except.ok.inj ha
      simp only [stateAfter_ok] at hst hl hw
      have hq : Stable { q with vars := v, trace := q.trace ++ [.variableSet id x (.ok ())] } :=
        ⟨hw, hl ▸ hp.digests, by rw [hc, hn]; exact hp.places⟩
      refine .inl ⟨_, rfl, hq, fun j hj => ?_⟩
      rw [value_eq hp]
      refine (value_eq hq j).trans ?_
      change v.value (q.layout.stored F q.store.device) j = _
      rw [hl, hst, hval j hj]
  · rw [he] at ha hst
    cases h : onStore (p.vars.set (Store.bytes p.layout) id x) p with
    | ok v q =>
      rw [h] at ha
      cases ha
    | error e' q =>
      rw [h] at hst hl hw hv
      simp only [stateAfter_error] at hst hl hw hv
      have hq : Stable (q.log (.variableSet id x (.error e'))) := ⟨hw, hl ▸ hp.digests, hv ▸ hp.places⟩
      refine .inr ⟨e', _, rfl, hq, fun j => ?_⟩
      rw [value_eq hp]
      refine (value_eq hq j).trans ?_
      change q.vars.value (q.layout.stored F q.store.device) j = _
      rw [hl, hv, hst, hd]

lemma tells_setVariable (id x : UInt32) :
    Follows Tells (setVariable id x : EStateM Failure (Processor π H Ram (Digester F) τ) Unit) := by
  intro p
  have hc := config_of_setVariable id x p
  rcases setVariable_cases id x p with ⟨q, es, hq, ha, hu⟩ | ⟨e, q, hq, es, ha, hu⟩
  · rw [hq] at hc ⊢
    refine ⟨_, ha, hc, fun hp => ?_⟩
    rcases value_setVariable hp id x with ⟨q', hq', hs, hv⟩ | ⟨_, _, he, -⟩
    · cases hq.symm.trans hq'
      refine ⟨hs, fun j hj => ?_⟩
      rw [lastSet_append, lastSet_of_unset hu, Option.or_none]
      refine (hv j hj).trans ?_
      by_cases hji : j = id
      · simp [lastSet, Event.set?, hji]
      · simp [lastSet, Event.set?, hji, Ne.symm hji]
    · cases hq.symm.trans he
  · rw [hq] at hc ⊢
    refine ⟨es, ha, hc, fun hp => ?_⟩
    rcases value_setVariable hp id x with ⟨_, hq', -⟩ | ⟨_, _, he, hs, hv⟩
    · cases hq.symm.trans hq'
    · cases hq.symm.trans he
      refine ⟨hs, fun j _ => (hv j).trans ?_⟩
      rw [lastSet_of_unset hu]
      rfl

lemma tells_ask (c : Call H) :
    Follows Tells (ask c : EStateM Failure (Processor π H Ram (Digester F) τ) c.Reply) := fun p =>
  tells_of_unset (does_ask c (P := fun l e => Touches [] l e ∧ e.Unset)
    (fun _ _ => ⟨trivial, fun _ _ h => by cases h⟩) p) List.not_mem_nil (by rw [stateAfter_ask])

lemma tells_log {e : Event H} (hc : ∀ c r, e ≠ .call c r) (hd : ∀ d, e ≠ .device d) (hu : e.Unset)
    (p : Processor π H Ram (Digester F) τ) : Tells p (p.log e) := by
  refine tells_of_unset (X := []) ⟨[e], .log p hc, fun x hx => ?_⟩ List.not_mem_nil rfl
  rw [List.mem_singleton.mp hx]
  refine ⟨?_, hu⟩
  cases e with
  | device d => exact absurd rfl (hd d)
  | _ => trivial

lemma tells_aside (h : Account [] p q) (hv : q.vars = p.vars) : Tells p q :=
  tells_of_unset (X := []) ⟨[], h, fun _ he => absurd he List.not_mem_nil⟩ List.not_mem_nil hv

lemma permits_tells (mode : Mode) :
    Permits mode (Tells : Processor π H Ram (Digester F) τ → Processor π H Ram (Digester F) τ → Prop) where
  log {e} he _ := by
    refine tells_log he.ne_call (fun d h => ?_) fun id x h => ?_
    all_goals
      rw [h] at he
      exact he
  ask _ _ := tells_ask _
  lends _ _ := tells_aside (.aside rfl rfl rfl rfl rfl rfl) rfl
  sources _ _ _ := tells_aside (.aside rfl rfl rfl rfl rfl rfl) rfl
  readVariable _ id p := tells_of_unset (does_readVariable (P := fun l e => Touches [] l e ∧ e.Unset)
    (fun _ _ => ⟨trivial, fun _ _ h => by cases h⟩) p) List.not_mem_nil (vars_readVariable id p)
  setVariable _ := tells_setVariable
  resource _ := tells_ask _
  bounds e he := by
    simp only [List.mem_cons, List.not_mem_nil, or_false] at he
    rcases he with rfl | rfl
    all_goals exact tells_log (fun _ _ h => by cases h) (fun _ h => by cases h) fun _ _ h => by cases h

end Processor

end Firmware
