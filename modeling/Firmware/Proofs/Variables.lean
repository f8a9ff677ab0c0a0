import Firmware.Proofs.Storage.PowerLoss

namespace Firmware

namespace VariableRange

lemma offset?_eq_some {r : VariableRange} {id : UInt32} {i : Nat} :
    r.offset? id = some i ↔ id.toNat = r.base.toNat + i ∧ i < r.count.toNat := by
  rw [offset?, Option.ite_none_right_eq_some, Option.some.injEq, stop]
  omega

def Contains (r : VariableRange) (id : UInt32) : Prop := r.base.toNat ≤ id.toNat ∧ id.toNat < r.stop

instance (r : VariableRange) (id : UInt32) : Decidable (r.Contains id) := inferInstanceAs (Decidable (_ ∧ _))

variable {r s : VariableRange} {id : UInt32}

lemma contains_iff : r.Contains id ↔ ∃ i, r.offset? id = some i := by
  rw [Contains, offset?]
  split <;> simp_all

lemma offset?_eq_none : r.offset? id = none ↔ ¬r.Contains id := by
  rw [contains_iff, ← Option.isSome_iff_exists, Option.not_isSome_iff_eq_none]

lemma apart_of_overlaps (h : r.overlaps s = false) (hr : r.Contains id) : ¬s.Contains id := by
  intro hs
  have hc {t : VariableRange} (ht : t.Contains id) : t.count ≠ 0 := by
    intro h0
    have hlt : id.toNat < t.base.toNat + t.count.toNat := ht.2
    rw [h0, UInt32.toNat_zero] at hlt
    exact absurd ht.1 (Nat.not_le.mpr hlt)
  have ho : r.overlaps s = true := by
    simp only [overlaps, Bool.and_eq_true, decide_eq_true_eq]
    exact ⟨⟨⟨hc hr, hc hs⟩, Nat.lt_of_le_of_lt hr.1 hs.2⟩, Nat.lt_of_le_of_lt hs.1 hr.2⟩
  exact Bool.false_ne_true (h.symm.trans ho)

end VariableRange

/-- A store of bytes by index. A byte that it fails to set may be another one after that. -/
structure ByteStore.Keeps {ν : Type} (s : ByteStore ν) (bytes : ν → Nat → UInt8) : Prop where
  get : ∀ n i, bytes (stateAfter (s.get i n)) = bytes n ∧ ∀ b, answer (s.get i n) = .ok b → b = bytes n i
  set : ∀ n i b, ∃ x, bytes (stateAfter (s.set i b n)) = Function.update (bytes n) i x ∧
    (answer (s.set i b n) = .ok () → x = b)

namespace VariableConfig

variable {c : VariableConfig}

def ranges (c : VariableConfig) : List VariableRange := [c.platform, c.session, c.nonVolatile]

def Apart (c : VariableConfig) : Prop := c.ranges.Pairwise fun r s => ∀ id, r.Contains id → ¬s.Contains id

lemma apart_iff : c.Apart ↔ (∀ id, c.platform.Contains id → ¬c.session.Contains id) ∧
    (∀ id, c.platform.Contains id → ¬c.nonVolatile.Contains id) ∧
      ∀ id, c.session.Contains id → ¬c.nonVolatile.Contains id := by
  simp [Apart, ranges, and_assoc]

def initial (c : VariableConfig) (b : Nat → UInt8) (id : UInt32) : Except Failure UInt32 :=
  if c.platform.Contains id ∨ c.session.Contains id then .ok 0
  else
    match c.nonVolatile.offset? id with
    | some i => .ok (UInt32.ofNat (b i).toNat)
    | none => .error .notFound

end VariableConfig

namespace Variables

variable {v w : Variables} {id id' x : UInt32} {h : Home}

lemma home_congr (hc : w.config = v.config) (id : UInt32) : w.home id = v.home id := by
  simp only [home, hc]

lemma home_eq_platform {i : Nat} : v.home id = .ok (.platform i) ↔ v.config.platform.offset? id = some i := by
  rw [home]
  split <;> simp_all

lemma home_session {i : Nat} (h : v.home id = .ok (.session i)) : v.config.session.offset? id = some i := by
  rw [home] at h
  split at h <;> simp_all

lemma home_nonVolatile {i : Nat} (h : v.home id = .ok (.nonVolatile i)) :
    v.config.nonVolatile.offset? id = some i := by
  rw [home] at h
  split at h <;> simp_all

lemma home_injective (hi : v.home id = .ok h) (hj : v.home id' = .ok h) : id = id' := by
  have hr {r : VariableRange} {i : Nat} (hi : r.offset? id = some i) (hj : r.offset? id' = some i) : id = id' :=
    UInt32.toNat_inj.mp
      ((VariableRange.offset?_eq_some.mp hi).1.trans (VariableRange.offset?_eq_some.mp hj).1.symm)
  cases h with
  | platform i => exact hr (home_eq_platform.mp hi) (home_eq_platform.mp hj)
  | session i => exact hr (home_session hi) (home_session hj)
  | nonVolatile i => exact hr (home_nonVolatile hi) (home_nonVolatile hj)

section Apart

variable {i : Nat} (ha : v.config.Apart)
include ha

lemma home_eq_session : v.home id = .ok (.session i) ↔ v.config.session.offset? id = some i := by
  refine ⟨home_session, fun hi => ?_⟩
  have hp : v.config.platform.offset? id = none := VariableRange.offset?_eq_none.mpr fun hp =>
    (VariableConfig.apart_iff.mp ha).1 id hp (VariableRange.contains_iff.mpr ⟨i, hi⟩)
  rw [home, hp, hi]

lemma home_eq_nonVolatile : v.home id = .ok (.nonVolatile i) ↔ v.config.nonVolatile.offset? id = some i := by
  refine ⟨home_nonVolatile, fun hi => ?_⟩
  obtain ⟨-, hpn, hsn⟩ := VariableConfig.apart_iff.mp ha
  have hn := VariableRange.contains_iff.mpr ⟨i, hi⟩
  have hp : v.config.platform.offset? id = none := VariableRange.offset?_eq_none.mpr fun hp => hpn id hp hn
  have hs : v.config.session.offset? id = none := VariableRange.offset?_eq_none.mpr fun hs => hsn id hs hn
  rw [home, hp, hs, hi]

end Apart

lemma home_eq_error {e : Failure} :
    v.home id = .error e ↔ e = .notFound ∧ ∀ r ∈ v.config.ranges, ¬r.Contains id := by
  simp only [VariableConfig.ranges, List.forall_mem_cons, ← VariableRange.offset?_eq_none]
  rw [home]
  split
  all_goals simp_all
  exact eq_comm

def value (v : Variables) (bytes : Nat → Except Failure UInt8) (id : UInt32) : Except Failure UInt32 := do
  match ← v.home id with
  | .platform i => return v.platform.getD i 0
  | .session i => return v.session.getD i 0
  | .nonVolatile i => return UInt32.ofNat (← bytes i).toNat

lemma answer_get {ν : Type} (s : ByteStore ν) (v : Variables) (id : UInt32) (n : ν) :
    answer (v.get s id n) = v.value (fun i => answer (s.get i n)) id := by
  rw [get, value, EStateM.bind_run]
  cases v.home id with
  | error e => rfl
  | ok h =>
    cases h with
    | platform i | session i => rfl
    | nonVolatile i =>
      simp only [EStateM.lift_run, Except.ok_bind]
      rw [EStateM.bind_run]
      cases s.get i n <;> rfl

/-- A variable that does not go with the session. -/
def Lasts (v : Variables) (id : UInt32) : Prop := ∀ i, v.home id ≠ .ok (.session i)

lemma value_of_platform {i : Nat} (b : Nat → Except Failure UInt8) (hi : v.home id = .ok (.platform i)) :
    v.value b id = .ok (v.platform.getD i 0) := by
  rw [value, hi]
  rfl

lemma value_of_nonVolatile {i : Nat} (b : Nat → Except Failure UInt8) (hi : v.home id = .ok (.nonVolatile i)) :
    v.value b id = (b i).map fun x => UInt32.ofNat x.toNat := by
  rw [value, hi, Except.ok_bind]
  cases h : b i <;> simp [h, Except.map]

lemma value_of_session {i : Nat} (b : Nat → Except Failure UInt8) (hi : v.home id = .ok (.session i)) :
    v.value b id = .ok (v.session.getD i 0) := by
  rw [value, hi]
  rfl

lemma value_of_error {e : Failure} (b : Nat → Except Failure UInt8) (he : v.home id = .error e) :
    v.value b id = .error e := by
  rw [value, he]
  rfl

lemma value_eq_of_home {b b' : Nat → Except Failure UInt8} (hc : w.config = v.config)
    (hp : ∀ i, v.home id = .ok (.platform i) → w.platform.getD i 0 = v.platform.getD i 0)
    (hs : ∀ i, v.home id = .ok (.session i) → w.session.getD i 0 = v.session.getD i 0)
    (hb : ∀ i, v.home id = .ok (.nonVolatile i) → b' i = b i) : w.value b' id = v.value b id := by
  rw [value, value, home_congr hc]
  cases hh : v.home id with
  | error e => rfl
  | ok h =>
    cases h with
    | platform i => exact congrArg Except.ok (hp i hh)
    | session i => exact congrArg Except.ok (hs i hh)
    | nonVolatile i => simp only [Except.ok_bind, hb i hh]

lemma value_congr {b b' : Nat → Except Failure UInt8} (hl : v.Lasts id) (hc : w.config = v.config)
    (hp : ∀ i, v.home id = .ok (.platform i) → w.platform.getD i 0 = v.platform.getD i 0)
    (hb : ∀ i, v.home id = .ok (.nonVolatile i) → b' i = b i) : w.value b' id = v.value b id :=
  value_eq_of_home hc hp (fun i hi => absurd hi (hl i)) hb

inductive Use where
  | get (id : UInt32)
  | set (id x : UInt32)
  | endSession
deriving DecidableEq

/-- What becomes of variables: one is set, one is what a set that failed has left, or the session ends. -/
inductive Change where
  | set (id x : UInt32)
  | left (id x : UInt32)
  | endSession
deriving DecidableEq

def Change.brings? (c : VariableConfig) (id : UInt32) : Change → Option UInt32
  | .set j x | .left j x => if j = id then some x else none
  | .endSession => if c.session.Contains id then some 0 else none

def lastly (c : VariableConfig) (id : UInt32) (es : List Change) : Option UInt32 :=
  (es.filterMap (Change.brings? c id)).getLast?

/-- What a set of `id` to `x` leaves that failed, if `b` are the bytes of the store after it. -/
def leavings (c : VariableConfig) (b : Nat → UInt8) (id x : UInt32) : List Change :=
  match c.nonVolatile.offset? id with
  | some i => if x.toNat ≤ 0xff then [.left id (UInt32.ofNat (b i).toNat)] else []
  | none => []

variable {ν : Type}

structure History (ν : Type) where
  vars : Variables
  store : ν
  changes : List Change

def Use.step (s : ByteStore ν) (bytes : ν → Nat → UInt8) (k : History ν) : Use → History ν
  | .get id => { k with store := stateAfter (k.vars.get s id k.store) }
  | .set id x =>
    match k.vars.set s id x k.store with
    | .ok v n => ⟨v, n, k.changes ++ [.set id x]⟩
    | .error _ n => { k with store := n, changes := k.changes ++ leavings k.vars.config (bytes n) id x }
  | .endSession => { k with vars := k.vars.endSession, changes := k.changes ++ [.endSession] }

section Map

variable {c : VariableConfig} {b : Nat → UInt8} {m : UInt32 → Except Failure UInt32}

/-- The variables have the values `m` if `b` are the bytes of their store. -/
structure Shows (c : VariableConfig) (b : Nat → UInt8) (m : UInt32 → Except Failure UInt32) (v : Variables) :
    Prop where
  config : v.config = c
  platform : c.platform.count.toNat ≤ v.platform.length
  session : c.session.count.toNat ≤ v.session.length
  value : ∀ id, v.value (fun i => .ok (b i)) id = m id

structure ActsAs (s : ByteStore ν) (bytes : ν → Nat → UInt8) (m : UInt32 → Except Failure UInt32) (v : Variables)
    (n : ν) : Prop where
  apart : v.config.Apart
  within : ∀ id, (∀ i, v.home id = .ok (.platform i) → i < v.platform.length) ∧
    ∀ i, v.home id = .ok (.session i) → i < v.session.length
  access : ∀ id, (∀ r ∈ v.config.ranges, r.Contains id → v.access id = .ok r.access) ∧
    ((∀ r ∈ v.config.ranges, ¬r.Contains id) → v.access id = .error .notFound ∧ m id = .error .notFound)
  get : ∀ id, answer (v.get s id n) = m id ∨
    ∃ i e, v.config.nonVolatile.offset? id = some i ∧ answer (s.get i n) = .error e ∧
      answer (v.get s id n) = .error e
  set : ∀ id x,
    (∃ w n', v.set s id x n = .ok w n' ∧ (∃ y, m id = .ok y) ∧
      (v.config.nonVolatile.Contains id → x.toNat ≤ 0xff) ∧
      Shows v.config (bytes n') (Function.update m id (.ok x)) w) ∨
    ∃ e n', v.set s id x n = .error e n' ∧
      (e = .notFound ∧ (∀ r ∈ v.config.ranges, ¬r.Contains id) ∧ n' = n ∨
        e = .size ∧ v.config.nonVolatile.Contains id ∧ 0xff < x.toNat ∧ n' = n ∨
        ∃ i, v.config.nonVolatile.offset? id = some i ∧ x.toNat ≤ 0xff ∧
          s.set i (UInt8.ofNat x.toNat) n = .error e n' ∧
          Shows v.config (bytes n') (Function.update m id (.ok (UInt32.ofNat (bytes n' i).toNat))) v)
  endSession : Shows v.config (bytes n) (fun id => if v.config.session.Contains id then .ok 0 else m id)
    v.endSession

lemma create_eq_ok {platformRoom sessionRoom : Nat} (h : create platformRoom sessionRoom c = .ok v) :
    v = ⟨c, List.replicate platformRoom 0, List.replicate sessionRoom 0⟩ ∧
      c.platform.count.toNat ≤ platformRoom ∧ c.session.count.toNat ≤ sessionRoom ∧ c.Apart := by
  simp only [create, bind, Except.bind, pure, Except.pure, throw, throwThe, MonadExceptOf.throw] at h
  split at h
  · rename_i hroom
    split at h
    · split at h
      · cases h
      · rename_i ho
        cases h
        simp only [Bool.or_eq_true, not_or, Bool.not_eq_true] at ho
        obtain ⟨⟨hps, hpn⟩, hsn⟩ := ho
        exact ⟨rfl, hroom.1, hroom.2, VariableConfig.apart_iff.mpr
          ⟨fun _ => VariableRange.apart_of_overlaps hps, fun _ => VariableRange.apart_of_overlaps hpn,
            fun _ => VariableRange.apart_of_overlaps hsn⟩⟩
    · cases h
  · cases h

lemma set_run (s : ByteStore ν) (v : Variables) (id x : UInt32) (n : ν) :
    v.set s id x n =
      match v.home id with
      | .error e => .error e n
      | .ok (.platform i) => .ok { v with platform := v.platform.set i x } n
      | .ok (.session i) => .ok { v with session := v.session.set i x } n
      | .ok (.nonVolatile i) =>
        if x.toNat ≤ 0xff then
          match s.set i (UInt8.ofNat x.toNat) n with
          | .ok _ n' => .ok v n'
          | .error e n' => .error e n'
        else .error .size n := by
  rw [set, EStateM.bind_run]
  cases v.home id with
  | error e => rfl
  | ok h =>
    cases h with
    | platform i | session i => rfl
    | nonVolatile i =>
      simp only [EStateM.lift_run]
      split
      · change (s.set i (UInt8.ofNat x.toNat) >>= fun _ => pure v) n = _
        rw [EStateM.bind_run]
        cases s.set i (UInt8.ofNat x.toNat) n <;> rfl
      · rfl

lemma Shows.within (h : Shows c b m v) (id : UInt32) :
    (∀ i, v.home id = .ok (.platform i) → i < v.platform.length) ∧
      ∀ i, v.home id = .ok (.session i) → i < v.session.length := by
  obtain rfl := h.config
  exact ⟨fun i hi => Nat.lt_of_lt_of_le (VariableRange.offset?_eq_some.mp (home_eq_platform.mp hi)).2 h.platform,
    fun i hi => Nat.lt_of_lt_of_le (VariableRange.offset?_eq_some.mp (home_session hi)).2 h.session⟩

lemma Shows.of_value (h : Shows c b m v) {b' : Nat → UInt8} {m' : UInt32 → Except Failure UInt32}
    (hc : w.config = v.config) (hp : w.platform.length = v.platform.length)
    (hs : w.session.length = v.session.length)
    (hv : ∀ id, w.value (fun i => .ok (b' i)) id = m' id) : Shows c b' m' w where
  config := hc.trans h.config
  platform := hp ▸ h.platform
  session := hs ▸ h.session
  value := hv

lemma Shows.update (h : Shows c b m v) {b' : Nat → UInt8} (hc : w.config = v.config)
    (hp : w.platform.length = v.platform.length) (hs : w.session.length = v.session.length)
    (hx : w.value (fun i => .ok (b' i)) id = .ok x)
    (ho : ∀ j, j ≠ id → w.value (fun i => .ok (b' i)) j = v.value (fun i => .ok (b i)) j) :
    Shows c b' (Function.update m id (.ok x)) w := by
  refine h.of_value hc hp hs fun j => ?_
  by_cases hj : j = id
  · rw [hj, Function.update_self, hx]
  · rw [Function.update_of_ne hj, ho j hj, h.value]

lemma getD_replicate (k i : Nat) : (List.replicate k (0 : UInt32)).getD i 0 = 0 := by
  grind

lemma getD_set {xs : List UInt32} {i : Nat} (hi : i < xs.length) (x : UInt32) (k : Nat) :
    (xs.set i x).getD k 0 = if k = i then x else xs.getD k 0 := by
  simp only [List.getD_eq_getElem?_getD, List.getElem?_set]
  grind

lemma Shows.set_platform (h : Shows c b m v) {i : Nat} (hi : v.home id = .ok (.platform i)) :
    Shows c b (Function.update m id (.ok x)) { v with platform := v.platform.set i x } := by
  have hg := getD_set ((h.within id).1 i hi) x
  refine h.update rfl List.length_set rfl ?_ fun j hj => value_eq_of_home rfl (fun k hk => ?_) (fun _ _ => rfl)
    fun _ _ => rfl
  · rw [value_of_platform (v := { v with platform := v.platform.set i x }) _ hi]
    exact congrArg _ ((hg i).trans (if_pos rfl))
  · exact (hg k).trans (if_neg fun hki => hj (home_injective (hki ▸ hk) hi))

lemma Shows.set_session (h : Shows c b m v) {i : Nat} (hi : v.home id = .ok (.session i)) :
    Shows c b (Function.update m id (.ok x)) { v with session := v.session.set i x } := by
  have hg := getD_set ((h.within id).2 i hi) x
  refine h.update rfl rfl List.length_set ?_ fun j hj => value_eq_of_home rfl (fun _ _ => rfl) (fun k hk => ?_)
    fun _ _ => rfl
  · rw [value_of_session (v := { v with session := v.session.set i x }) _ hi]
    exact congrArg _ ((hg i).trans (if_pos rfl))
  · exact (hg k).trans (if_neg fun hki => hj (home_injective (hki ▸ hk) hi))

lemma Shows.set_nonVolatile (h : Shows c b m v) {i : Nat} (hi : v.home id = .ok (.nonVolatile i)) (y : UInt8) :
    Shows c (Function.update b i y) (Function.update m id (.ok (UInt32.ofNat y.toNat))) v := by
  refine h.update rfl rfl rfl ?_ fun j hj => value_eq_of_home rfl (fun _ _ => rfl) (fun _ _ => rfl) fun k hk => ?_
  · rw [value_of_nonVolatile _ hi, Function.update_self]
    rfl
  · rw [Function.update_of_ne]
    rintro rfl
    exact hj (home_injective hk hi)

lemma Shows.endSession (h : Shows c b m v) (ha : c.Apart) :
    Shows c b (fun id => if c.session.Contains id then .ok 0 else m id) v.endSession := by
  refine h.of_value rfl rfl List.length_replicate fun id => ?_
  split
  · rename_i hs
    obtain ⟨i, hi⟩ := VariableRange.contains_iff.mp hs
    have hi : v.endSession.home id = .ok (.session i) := (home_eq_session (h.config ▸ ha)).mpr (h.config ▸ hi)
    rw [value_of_session _ hi]
    exact congrArg _ (getD_replicate _ i)
  · rename_i hs
    rw [← h.value]
    refine value_eq_of_home rfl (fun _ _ => rfl) (fun i hi => absurd ?_ hs) fun _ _ => rfl
    exact VariableRange.contains_iff.mpr ⟨i, h.config ▸ home_session hi⟩

variable {s : ByteStore ν} {bytes : ν → Nat → UInt8} {n : ν}

lemma Shows.get (h : Shows c (bytes n) m v) (hs : s.Keeps bytes) (id : UInt32) :
    answer (v.get s id n) = m id ∨
      ∃ i e, v.config.nonVolatile.offset? id = some i ∧ answer (s.get i n) = .error e ∧
        answer (v.get s id n) = .error e := by
  rw [answer_get, ← h.value]
  cases hh : v.home id with
  | error e => exact .inl ((value_of_error _ hh).trans (value_of_error _ hh).symm)
  | ok k =>
    cases k with
    | platform i => exact .inl ((value_of_platform _ hh).trans (value_of_platform _ hh).symm)
    | session i => exact .inl ((value_of_session _ hh).trans (value_of_session _ hh).symm)
    | nonVolatile i =>
      rw [value_of_nonVolatile _ hh, value_of_nonVolatile _ hh]
      cases ha : answer (s.get i n) with
      | ok x => exact .inl (by rw [(hs.get n i).2 x ha])
      | error e => exact .inr ⟨i, e, home_nonVolatile hh, ha, rfl⟩

lemma ofNat_toNat_byte (hx : x.toNat ≤ 0xff) : UInt32.ofNat (UInt8.ofNat x.toNat).toNat = x := by
  rw [UInt8.toNat_ofNat_of_lt' (Nat.lt_succ_of_le hx), UInt32.ofNat_toNat]

lemma Shows.set (h : Shows c (bytes n) m v) (hs : s.Keeps bytes) (ha : c.Apart) (id x : UInt32) :
    (∃ w n', v.set s id x n = .ok w n' ∧ (∃ y, m id = .ok y) ∧ (c.nonVolatile.Contains id → x.toNat ≤ 0xff) ∧
        Shows c (bytes n') (Function.update m id (.ok x)) w) ∨
      ∃ e n', v.set s id x n = .error e n' ∧
        (e = .notFound ∧ (∀ r ∈ c.ranges, ¬r.Contains id) ∧ n' = n ∨
          e = .size ∧ c.nonVolatile.Contains id ∧ 0xff < x.toNat ∧ n' = n ∨
          ∃ i, c.nonVolatile.offset? id = some i ∧ x.toNat ≤ 0xff ∧
            s.set i (UInt8.ofNat x.toNat) n = .error e n' ∧
            Shows c (bytes n') (Function.update m id (.ok (UInt32.ofNat (bytes n' i).toNat))) v) := by
  obtain rfl := h.config
  obtain ⟨-, hpn, hsn⟩ := VariableConfig.apart_iff.mp ha
  rw [set_run]
  cases hh : v.home id with
  | error e =>
    obtain ⟨rfl, hn⟩ := home_eq_error.mp hh
    exact .inr ⟨_, n, rfl, .inl ⟨rfl, hn, rfl⟩⟩
  | ok k =>
    cases k with
    | platform i =>
      have hi := VariableRange.contains_iff.mpr ⟨i, home_eq_platform.mp hh⟩
      exact .inl ⟨_, n, rfl, ⟨_, (h.value id).symm.trans (value_of_platform _ hh)⟩,
        fun hn => absurd hn (hpn id hi), h.set_platform hh⟩
    | session i =>
      have hi := VariableRange.contains_iff.mpr ⟨i, home_session hh⟩
      exact .inl ⟨_, n, rfl, ⟨_, (h.value id).symm.trans (value_of_session _ hh)⟩,
        fun hn => absurd hn (hsn id hi), h.set_session hh⟩
    | nonVolatile i =>
      have hi := home_nonVolatile hh
      obtain ⟨y, hb, hy⟩ := hs.set n i (UInt8.ofNat x.toNat)
      have hw := h.set_nonVolatile hh y
      dsimp only
      split
      · rename_i hx
        cases hr : s.set i (UInt8.ofNat x.toNat) n with
        | ok u n' =>
          rw [hr] at hb hy
          rw [← hb, hy rfl, ofNat_toNat_byte hx] at hw
          exact .inl ⟨v, n', rfl, ⟨_, (h.value id).symm.trans (value_of_nonVolatile _ hh)⟩, fun _ => hx, hw⟩
        | error e n' =>
          rw [hr, stateAfter_error] at hb
          refine .inr ⟨e, n', rfl, .inr (.inr ⟨i, hi, hx, hr, ?_⟩)⟩
          rw [hb, Function.update_self]
          exact hw
      · rename_i hx
        exact .inr ⟨.size, n, rfl,
          .inr (.inl ⟨rfl, VariableRange.contains_iff.mpr ⟨i, hi⟩, Nat.lt_of_not_le hx, rfl⟩)⟩

lemma access_eq (ha : v.config.Apart) (id : UInt32) :
    (∀ r ∈ v.config.ranges, r.Contains id → v.access id = .ok r.access) ∧
      ((∀ r ∈ v.config.ranges, ¬r.Contains id) → v.access id = .error .notFound) := by
  simp only [VariableConfig.ranges, List.forall_mem_cons, List.not_mem_nil, IsEmpty.forall_iff, implies_true,
    and_true, VariableRange.contains_iff]
  refine ⟨⟨?_, ?_, ?_⟩, fun hn => ?_⟩
  · rintro ⟨i, hi⟩
    rw [access, home_eq_platform.mpr hi]
    rfl
  · rintro ⟨i, hi⟩
    rw [access, (home_eq_session ha).mpr hi]
    rfl
  · rintro ⟨i, hi⟩
    rw [access, (home_eq_nonVolatile ha).mpr hi]
    rfl
  · rw [access, home_eq_error.mpr ⟨rfl, ?_⟩]
    · rfl
    · simpa [VariableConfig.ranges, VariableRange.contains_iff] using hn

lemma Shows.actsAs (h : Shows c (bytes n) m v) (hs : s.Keeps bytes) (ha : c.Apart) : ActsAs s bytes m v n := by
  obtain rfl := h.config
  exact {
    apart := ha
    within := h.within
    access := fun id => ⟨(access_eq ha id).1, fun hn => ⟨(access_eq ha id).2 hn,
      (h.value id).symm.trans (value_of_error _ (home_eq_error.mpr ⟨rfl, hn⟩))⟩⟩
    get := h.get hs
    set := h.set hs ha
    endSession := h.endSession ha }

/-! ## Histories -/

lemma lastly_append (es : List Change) (e : Change) (id : UInt32) :
    lastly c id (es ++ [e]) = (e.brings? c id).or (lastly c id es) := by
  rw [lastly, List.filterMap_append, List.getLast?_append]
  cases h : e.brings? c id <;> simp [h, lastly]

def valuesAfter (c : VariableConfig) (m : UInt32 → Except Failure UInt32) (es : List Change) (id : UInt32) :
    Except Failure UInt32 :=
  (lastly c id es).elim (m id) .ok

lemma valuesAfter_append {e : Change} {id x : UInt32} (he : ∀ j, e.brings? c j = if id = j then some x else none)
    (es : List Change) :
    valuesAfter c m (es ++ [e]) = Function.update (valuesAfter c m es) id (.ok x) := by
  funext j
  rw [valuesAfter, lastly_append, Function.update_apply, he]
  by_cases hj : j = id
  · simp [hj]
  · simp [hj, Ne.symm hj, valuesAfter]

lemma valuesAfter_endSession (es : List Change) :
    valuesAfter c m (es ++ [.endSession]) = fun id =>
      if c.session.Contains id then .ok 0 else valuesAfter c m es id := by
  funext j
  rw [valuesAfter, lastly_append]
  by_cases hj : c.session.Contains j
  · simp [Change.brings?, hj]
  · simp [Change.brings?, hj, valuesAfter]

lemma stateAfter_get (hs : s.Keeps bytes) (v : Variables) (id : UInt32) (n : ν) :
    bytes (stateAfter (v.get s id n)) = bytes n := by
  rw [Variables.get, EStateM.bind_run]
  cases v.home id with
  | error e => rfl
  | ok k =>
    cases k with
    | platform i | session i => rfl
    | nonVolatile i =>
      simp only [EStateM.lift_run]
      rw [EStateM.bind_run]
      have hk := (hs.get n i).1
      cases hr : s.get i n <;> simpa [hr] using hk

variable {k : History ν}

lemma Shows.step (hs : s.Keeps bytes) (ha : c.Apart)
    (h : Shows c (bytes k.store) (valuesAfter c m k.changes) k.vars) (u : Use) :
    Shows c (bytes (u.step s bytes k).store) (valuesAfter c m (u.step s bytes k).changes)
      (u.step s bytes k).vars := by
  cases u with
  | get id =>
    simp only [Use.step, stateAfter_get hs]
    exact h
  | set id x =>
    rw [Use.step]
    rcases h.set hs ha id x with ⟨w, n, hr, -, -, hw⟩ | ⟨e, n, hr, he⟩
    · rw [hr]
      dsimp only
      rw [valuesAfter_append fun _ => rfl]
      exact hw
    · rw [hr, h.config]
      dsimp only
      rcases he with ⟨-, hn, rfl⟩ | ⟨-, -, hx, rfl⟩ | ⟨i, hi, hx, -, hw⟩
      · have hi : c.nonVolatile.offset? id = none :=
          VariableRange.offset?_eq_none.mpr (hn _ (by simp [VariableConfig.ranges]))
        rw [leavings, hi]
        simpa only [List.append_nil] using h
      · have hn : leavings c (bytes k.store) id x = [] := by
          rw [leavings]
          split
          · exact if_neg (Nat.not_le.mpr hx)
          · rfl
        rw [hn, List.append_nil]
        exact h
      · rw [leavings, hi]
        dsimp only
        rw [if_pos hx, valuesAfter_append fun _ => rfl]
        exact hw
  | endSession =>
    rw [Use.step, valuesAfter_endSession]
    exact h.endSession ha

lemma Shows.run (hs : s.Keeps bytes) (ha : c.Apart) (us : List Use)
    (h : Shows c (bytes k.store) (valuesAfter c m k.changes) k.vars) :
    Shows c (bytes (us.foldl (Use.step s bytes) k).store) (valuesAfter c m (us.foldl (Use.step s bytes) k).changes)
      (us.foldl (Use.step s bytes) k).vars := by
  induction us generalizing k with
  | nil => exact h
  | cons u us ih => exact ih (h.step hs ha u)

lemma shows_initial (ha : c.Apart) {p q : Nat} (hp : c.platform.count.toNat ≤ p) (hq : c.session.count.toNat ≤ q)
    (b : Nat → UInt8) : Shows c b (c.initial b) ⟨c, List.replicate p 0, List.replicate q 0⟩ where
  config := rfl
  platform := List.length_replicate.symm ▸ hp
  session := List.length_replicate.symm ▸ hq
  value id := by
    obtain ⟨-, hpn, hsn⟩ := VariableConfig.apart_iff.mp ha
    rw [VariableConfig.initial]
    cases hh : home ⟨c, List.replicate p 0, List.replicate q 0⟩ id with
    | error e =>
      obtain ⟨rfl, hn⟩ := home_eq_error.mp hh
      simp only [VariableConfig.ranges, List.forall_mem_cons] at hn
      rw [value_of_error _ hh, if_neg (not_or.mpr ⟨hn.1, hn.2.1⟩), VariableRange.offset?_eq_none.mpr hn.2.2.1]
    | ok k =>
      cases k with
      | platform i =>
        rw [value_of_platform _ hh, if_pos (.inl (VariableRange.contains_iff.mpr ⟨i, home_eq_platform.mp hh⟩))]
        exact congrArg _ (getD_replicate p i)
      | session i =>
        rw [value_of_session _ hh, if_pos (.inr (VariableRange.contains_iff.mpr ⟨i, home_session hh⟩))]
        exact congrArg _ (getD_replicate q i)
      | nonVolatile i =>
        have hi : c.nonVolatile.offset? id = some i := home_nonVolatile hh
        have hn := VariableRange.contains_iff.mpr ⟨i, hi⟩
        rw [value_of_nonVolatile _ hh, if_neg (not_or.mpr ⟨fun hp => hpn id hp hn, fun hs => hsn id hs hn⟩), hi]
        rfl

/-- However they are used and whenever their store fails, variables are a map of what was last put in them. A
set that fails leaves all of it as it is, but for the one variable whose byte the store has failed to set. -/
theorem actsAs_run {platformRoom sessionRoom : Nat} (hc : create platformRoom sessionRoom c = .ok v)
    (hs : s.Keeps bytes) (n : ν) (us : List Use) :
    let k := us.foldl (Use.step s bytes) ⟨v, n, []⟩
    k.vars.config = c ∧ ActsAs s bytes (valuesAfter c (c.initial (bytes n)) k.changes) k.vars k.store := by
  obtain ⟨rfl, hp, hq, ha⟩ := create_eq_ok hc
  have h := Shows.run (k := ⟨_, n, []⟩) hs ha us (shows_initial ha hp hq (bytes n))
  exact ⟨h.config, h.actsAs hs ha⟩

end Map

/-- A store that fails every third time. Where it fails to set a byte, it has set it if that is even. -/
def shaky : ByteStore ((Nat → UInt8) × Nat) where
  get i := fun (b, k) => if k % 3 = 2 then .error .io (b, k + 1) else .ok (b i) (b, k + 1)
  set i x := fun (b, k) =>
    if k % 3 = 2 then .error .io (if x % 2 = 0 then Function.update b i x else b, k + 1)
    else .ok () (Function.update b i x, k + 1)

lemma keeps_shaky : shaky.Keeps Prod.fst where
  get n i := by
    dsimp only [shaky]
    split
    · exact ⟨rfl, nofun⟩
    · exact ⟨rfl, fun b hb => (Except.ok.inj hb).symm⟩
  set n i b := by
    dsimp only [shaky]
    split
    · split
      · exact ⟨b, rfl, fun _ => rfl⟩
      · exact ⟨n.1 i, (Function.update_eq_self i n.1).symm, nofun⟩
    · exact ⟨b, rfl, fun _ => rfl⟩

def brim : VariableConfig := ⟨⟨0, 2, ⟨true, true⟩⟩, ⟨2, 2, ⟨true, false⟩⟩, ⟨0xfffffff0, 15, ⟨false, true⟩⟩⟩

def mixed : List Use :=
  [.set 1 7, .set 2 8, .set 0xfffffffe 9, .set 0xfffffffe 0x100, .set 0xfffffff0 1, .set 0xfffffff0 2, .set 4 3,
    .endSession, .set 3 5]

theorem actsAs_run_shaky :
    create 2 3 brim = .ok ⟨brim, [0, 0], [0, 0, 0]⟩ ∧ shaky.Keeps Prod.fst ∧
      let k := mixed.foldl (Use.step shaky Prod.fst) ⟨⟨brim, [0, 0], [0, 0, 0]⟩, (fun _ => 0xee, 0), []⟩
      k.changes = [.set 1 7, .set 2 8, .set 0xfffffffe 9, .set 0xfffffff0 1, .left 0xfffffff0 2, .endSession,
        .set 3 5] ∧
        k.vars.config = brim ∧
          ActsAs shaky Prod.fst (valuesAfter brim (brim.initial fun _ => 0xee) k.changes) k.vars k.store := by
  have hc : create 2 3 brim = .ok ⟨brim, [0, 0], [0, 0, 0]⟩ := by decide
  exact ⟨hc, keeps_shaky, by decide, actsAs_run hc keeps_shaky (fun _ => 0xee, 0) mixed⟩

open Storage Store in
/-- The main copy of the area is written and the backup is not. -/
theorem failed_set_lasts :
    let s := stateAfter (Store.init oneVariable ⟨Flash.Ram.ofBytes (Bytes.erased 160) 4 40,
      (Hash.Digester.idle : Hash.Digester zeroPadded)⟩)
    let n := { s with device := s.device.failAfter 5 }
    let c : VariableConfig := ⟨⟨0, 0, ⟨true, true⟩⟩, ⟨0, 0, ⟨true, true⟩⟩, ⟨0, 1, ⟨true, true⟩⟩⟩
    let v : Variables := ⟨c, [], []⟩
    let x := v.set (Store.bytes oneVariable) 0 7 n
    create 0 0 c = .ok v ∧ answer (v.get (Store.bytes oneVariable) 0 n) = .ok 0xff ∧ answer x = .error .io ∧
      answer (v.get (Store.bytes oneVariable) 0 (stateAfter x)) = .ok 7 := by
  decide +kernel

end Variables

end Firmware
