import Firmware.Proofs.Cbor.Order
import Firmware.Proofs.Cbor.Reading
import Firmware.Proofs.Cbor.Skip

/-!
A walk over a map looks keys up in the map as it would be read as a whole. A walker faces the pairs
that it has yet to come to; finding a key leaves the pairs with greater keys.
-/

namespace Firmware.Cbor

open Decoder

variable {α β γ : Type} {b c s y z : Bytes} {v : Value} {k key : Scalar} {ps : List (Scalar × Value)}

structure Folds (f : Item → Reader γ) (g : Value → Except Error γ) : Prop where
  complete : ∀ {i b v s}, i.complete b = .ok (v, s) → f i b = (g v).map (·, s)
  malformed : ∀ {i b e}, i.complete b = .error e → ∃ e', f i b = .error e'

lemma Folds.ignores {f : Item → Reader γ} {g : Value → Except Error γ} (hf : Folds f g) {i : Item} {a : γ}
    (h : f i b = .ok (a, s)) : i.ignore b = .ok ((), s) := by
  cases hc : i.complete b with
  | error e =>
    obtain ⟨e', he⟩ := hf.malformed hc
    cases he.symm.trans h
  | ok r =>
    have hg := (hf.complete hc).symm.trans h
    obtain ⟨a', ha, hs⟩ := Except.map_eq_ok.mp hg
    cases hs
    exact Item.ignore_eq_ok.mpr ⟨r.1, hc⟩

namespace Walk

def get (f : Scalar → Item → Reader γ) (k : Scalar) : Walk Reader (Option γ) := do
  match ← find? k with
  | some i => return some (← f k i)
  | none => return none

def request (f : Scalar → Item → Reader γ) : List Scalar → Walk Reader (List (Option γ))
  | [] => pure []
  | k :: ks => do return (← get f k) :: (← request f ks)

def remaining (f : Scalar → Item → Reader γ) : Walk Reader (List (Scalar × γ)) :=
  rest (fun ps k i => do return ps ++ [(k, ← f k i)]) []

end Walk

def lookups (g : Scalar → Value → Except Error γ) (ps : List (Scalar × Value)) (ks : List Scalar) :
    Except Error (List (Option γ)) :=
  ks.mapM fun k => (ps.lookup k).mapM (g k)

def foldValues (g : Scalar → Value → Except Error γ) (ps : List (Scalar × Value)) :
    Except Error (List (Scalar × γ)) :=
  ps.mapM fun p => do return (p.1, ← g p.1 p.2)

section Keys

lemma Derives.keys {tags : Nat} {previous : Option Scalar} (h : Derives tags (.pairs previous ps) y) :
    ∀ p ∈ previous, ∀ q ∈ ps, p < q.1 := by
  induction ps generalizing previous y with
  | nil => simp
  | cons q ps ih =>
    cases h with
    | pair _ hlt _ _ hz =>
      intro p hp r hr
      rcases List.mem_cons.mp hr with rfl | hr
      · exact hlt p hp
      · exact trans_of (· < ·) (hlt p hp) (ih hz _ rfl r hr)

lemma lookup_of_lt (h : ∀ p ∈ ps, key < p.1) : ps.lookup key = none := by
  rw [List.lookup_eq_none_iff]
  intro p hp
  have hne : key ≠ p.1 := fun he => irrefl_of (· < ·) key (he ▸ h p hp)
  simpa using hne

lemma filter_of_lt (h : ∀ p ∈ ps, key < p.1) : ps.filter (key < ·.1) = ps :=
  List.filter_eq_self.mpr fun p hp => decide_eq_true (h p hp)

lemma lookup_filter (ps : List (Scalar × Value)) (h : key < k) :
    (ps.filter (key < ·.1)).lookup k = ps.lookup k := by
  induction ps with
  | nil => rfl
  | cons p ps ih =>
    obtain ⟨l, v⟩ := p
    by_cases hk : k = l
    · subst hk
      simp [h]
    · have hk : (k == l) = false := beq_eq_false_iff_ne.mpr hk
      by_cases hl : key < l <;> simp [hl, List.lookup_cons, hk, ih]

lemma filter_filter_lt (ps : List (Scalar × Value)) (ks : List Scalar) :
    (ps.filter (key < ·.1)).filter (fun p => ∀ k ∈ ks, k < p.1) =
      ps.filter fun p => ∀ k ∈ key :: ks, k < p.1 := by
  rw [List.filter_filter]
  congr 1
  funext p
  simp [Bool.and_comm]

lemma lookups_congr {g : Scalar → Value → Except Error γ} {qs : List (Scalar × Value)} {ks : List Scalar}
    (h : ∀ k ∈ ks, ps.lookup k = qs.lookup k) : lookups g ps ks = lookups g qs ks := by
  induction ks with
  | nil => rfl
  | cons k ks ih =>
    rw [List.forall_mem_cons] at h
    have hs := ih h.2
    simp only [lookups] at hs ⊢
    rw [List.mapM_cons, List.mapM_cons, h.1, hs]

end Keys

namespace Walker

/-- The pairs that a walker has yet to come to, and what is behind them. -/
inductive Faces : Walker → Bytes → List (Scalar × Value) → Bytes → Prop
  | between {left : Nat} {previous asked : Option Scalar} {ps : List (Scalar × Value)} {y s : Bytes} :
      ps.length = left → Derives maxTags (.pairs previous ps) y →
      Faces ⟨left, previous, none, asked⟩ (y ++ s) ps s
  | within {left : Nat} {previous asked : Option Scalar} {k : Scalar} {v : Value}
      {ps : List (Scalar × Value)} {y z s : Bytes} :
      ps.length = left → Derives maxTags (.item v) y → Derives maxTags (.pairs (some k) ps) z →
      Faces ⟨left, previous, some k, asked⟩ (y ++ (z ++ s)) ((k, v) :: ps) s

inductive Finds (key : Scalar) (ps : List (Scalar × Value)) (s : Bytes) :
    Except Error ((Option Item × Walker) × Bytes) → Prop
  | miss {w : Walker} {b : Bytes} : ps.lookup key = none →
      w.Faces b (ps.filter (key < ·.1)) s → Finds key ps s (.ok ((none, w), b))
  | hit {i : Item} {w : Walker} {v : Value} {b t : Bytes} : ps.lookup key = some v →
      i.complete b = .ok (v, t) → w.Faces t (ps.filter (key < ·.1)) s → Finds key ps s (.ok ((some i, w), b))

lemma parse_of_derives (h : Derives maxTags (.item v) y) (s : Bytes) :
    ∃ i t, Item.parse (y ++ s) = .ok (i, t) ∧ i.complete t = .ok (v, s) :=
  Decoder.bind_eq_ok.mp (readValue_eq_ok.mpr ⟨y, rfl, h⟩)

lemma ignore_of_complete {i : Item} (h : i.complete b = .ok (v, s)) : i.ignore b = .ok ((), s) :=
  Item.ignore_eq_ok.mpr ⟨v, h⟩

lemma readKey_of_derives {previous : Option Scalar}
    (h : Derives maxTags (.pairs previous ((k, v) :: ps)) b) (s : Bytes) :
    ∃ y z, readKey previous (b ++ s) = .ok (k, y ++ (z ++ s)) ∧ Derives maxTags (.item v) y ∧
      Derives maxTags (.pairs (some k) ps) z := by
  cases h with
  | @pair _ _ _ _ x y z hk hlt hx hy hz =>
    exact ⟨y, z, readKey_eq_ok.mpr ⟨x, by simp, hx, hk, hlt⟩, hy, hz⟩

lemma Finds.behind {x : Except Error ((Option Item × Walker) × Bytes)} (h : Finds key ps s x)
    (hk : k < key) (v : Value) : Finds key ((k, v) :: ps) s x := by
  have hne : (key == k) = false := beq_eq_false_iff_ne.mpr fun he => irrefl_of (· < ·) k (he ▸ hk)
  have hl : ((k, v) :: ps).lookup key = ps.lookup key := by rw [List.lookup_cons, hne]
  have hf : ((k, v) :: ps).filter (key < ·.1) = ps.filter (key < ·.1) :=
    List.filter_cons_of_neg (by simpa using asymm_of (· < ·) hk)
  cases h with
  | miss hn hw => exact .miss (hl.trans hn) (hf ▸ hw)
  | hit hn hi hw => exact .hit (hl.trans hn) hi (hf ▸ hw)

lemma seek_finds (ps : List (Scalar × Value)) {k : Scalar} {v : Value} {y z : Bytes}
    (hy : Derives maxTags (.item v) y) (hz : Derives maxTags (.pairs (some k) ps) z) :
    Finds key ((k, v) :: ps) s (seek key ps.length k (y ++ (z ++ s))) := by
  have hk : ∀ q ∈ ps, k < q.1 := hz.keys k rfl
  obtain ⟨i, t, hi, ht⟩ := parse_of_derives hy (z ++ s)
  unfold seek
  cases hc : compare k key with
  | eq =>
    cases Std.LawfulEqOrd.eq_of_compare hc
    have hl : ¬key < key := irrefl_of (· < ·) key
    have hw : Faces ⟨ps.length, some key, none, some key⟩ (z ++ s) ps s := .between rfl hz
    simp only [bind_of_ok hi]
    refine .hit (by simp) ht ?_
    rwa [List.filter_cons_of_neg (by simpa using hl), filter_of_lt hk]
  | gt =>
    have hl : key < k := Scalar.compare_eq_gt_iff.mp hc
    have hs : ∀ q ∈ (k, v) :: ps, key < q.1 :=
      List.forall_mem_cons.mpr ⟨hl, fun q hq => trans_of (· < ·) hl (hk q hq)⟩
    refine .miss (lookup_of_lt hs) ?_
    rw [filter_of_lt hs]
    exact .within rfl hy hz
  | lt =>
    have hu : (i.ignore : Reader Unit) t = .ok ((), z ++ s) := ignore_of_complete ht
    simp only [bind_of_ok hi, bind_of_ok hu]
    refine Finds.behind ?_ hc v
    cases ps with
    | nil =>
      cases hz
      exact .miss rfl (.between rfl .last)
    | cons p ps =>
      obtain ⟨y, z, hr, hy, hz⟩ := readKey_of_derives hz s
      simp only [List.length_cons, bind_of_ok hr]
      exact seek_finds ps hy hz

lemma Faces.find {w : Walker} (h : w.Faces b ps s) (ha : ∀ k ∈ w.lastAsked, k < key) :
    Finds key ps s (w.find key b) := by
  have hd : w.lastAsked.all (compare · key == .lt) = true := by
    cases hl : w.lastAsked with
    | none => rfl
    | some k => exact beq_iff_eq.mpr (ha k hl)
  rw [Walker.find, if_pos hd]
  cases h with
  | @within _ _ _ _ _ ps _ _ _ hn hy hz =>
    cases hn
    exact seek_finds ps hy hz
  | @between _ _ _ ps _ _ hn hz =>
    cases hn
    cases ps with
    | nil =>
      cases hz
      exact .miss rfl (.between rfl .last)
    | cons p ps =>
      obtain ⟨y, z, hr, hy, hz⟩ := readKey_of_derives hz s
      simp only [List.length_cons, bind_of_ok hr]
      exact seek_finds ps hy hz

lemma bind_of_map {m : Reader α} {x : Except Error α} {q : α → Reader β} {h : α → Except Error β}
    (hm : m b = x.map (·, s)) {t : Bytes} (hq : ∀ a, q a s = (h a).map (·, t)) :
    (m >>= q) b = (x >>= h).map (·, t) := by
  change (m b >>= fun r => q r.1 r.2) = _
  rw [hm]
  cases x with
  | ok a => exact hq a
  | error e => rfl

section Delivery

variable {body : β → Scalar → Item → Reader β} {h : β → Scalar → Value → Except Error β}
  (hb : ∀ a k i b v s, i.complete b = .ok (v, s) → body a k i b = (h a k v).map (·, s))
include hb

lemma foldPairs_of_derives (ps : List (Scalar × Value)) {previous : Option Scalar}
    (hy : Derives maxTags (.pairs previous ps) y) (a : β) :
    foldPairs body ps.length previous a (y ++ s) =
      (ps.foldlM (fun a p => h a p.1 p.2) a).map (·, s) := by
  induction ps generalizing previous y a with
  | nil =>
    cases hy
    rfl
  | cons p ps ih =>
    obtain ⟨y, z, hr, hy, hz⟩ := readKey_of_derives hy s
    obtain ⟨i, t, hi, ht⟩ := parse_of_derives hy (z ++ s)
    rw [List.length_cons, foldPairs, List.foldlM_cons]
    refine (bind_of_ok hr).trans ((bind_of_ok hi).trans ?_)
    exact bind_of_map (hb a p.1 i t p.2 _ ht) (ih hz)

lemma Faces.rest {w : Walker} (hw : w.Faces b ps s) (a : β) :
    w.rest body a b = (ps.foldlM (fun a p => h a p.1 p.2) a).map (·, s) := by
  cases hw with
  | between hn hy =>
    cases hn
    exact foldPairs_of_derives hb ps hy a
  | @within _ _ _ k v ps y z _ hn hy hz =>
    cases hn
    obtain ⟨i, t, hi, ht⟩ := parse_of_derives hy (z ++ s)
    rw [List.foldlM_cons]
    exact (bind_of_ok hi).trans (bind_of_map (hb a k i t v _ ht) (foldPairs_of_derives hb ps hz))

end Delivery

lemma Faces.skip {w : Walker} (h : w.Faces b ps s) : w.skip b = .ok ((), s) := by
  have hr : w.rest (fun _ _ i => i.ignore) () b = _ :=
    h.rest (h := fun _ _ _ => .ok ()) (fun _ _ _ _ _ _ h => ignore_of_complete h) ()
  have hf : ps.foldlM (fun (_ : Unit) _ => Except.ok ()) () = (.ok () : Except Error Unit) :=
    List.foldlM_pure
  rw [hf] at hr
  exact hr

lemma seek_asked (left : Nat) {k : Scalar} {b t : Bytes} {o : Option Item} {w : Walker}
    (h : seek key left k b = .ok ((o, w), t)) : w.lastAsked = some key := by
  unfold seek at h
  cases hk : compare k key with
  | eq =>
    simp only [hk] at h
    obtain ⟨i, t, hi, h⟩ := bind_eq_ok.mp h
    cases h
    rfl
  | gt =>
    simp only [hk] at h
    cases h
    rfl
  | lt =>
    simp only [hk] at h
    obtain ⟨i, t, hi, h⟩ := bind_eq_ok.mp h
    obtain ⟨u, t', ht, h⟩ := bind_eq_ok.mp h
    cases left with
    | zero =>
      cases h
      rfl
    | succ left =>
      obtain ⟨k', t'', hk', h⟩ := bind_eq_ok.mp h
      exact seek_asked left h

lemma find_asked {w w' : Walker} {t : Bytes} {o : Option Item} (h : w.find key b = .ok ((o, w'), t)) :
    w'.lastAsked = some key := by
  obtain ⟨left, previous, ahead, asked⟩ := w
  simp only [Walker.find] at h
  split at h
  · cases ahead with
    | some k => exact seek_asked left h
    | none =>
      cases left with
      | zero =>
        cases h
        rfl
      | succ left =>
        obtain ⟨k, t, hk, h⟩ := bind_eq_ok.mp h
        exact seek_asked left h
  · cases h

end Walker

namespace Walk

/-- A part of a walk answers `x`, and if that is no failure, the walker and the bytes left satisfy `P`. -/
inductive Yields (P : Walker → Bytes → Prop) :
    Except Error α → Except Error ((α × Walker) × Bytes) → Prop
  | ok {a : α} {w : Walker} {b : Bytes} : P w b → Yields P (.ok a) (.ok ((a, w), b))
  | error {e : Error} : Yields P (.error e) (.error e)

variable {P Q : Walker → Bytes → Prop} {w : Walker}

lemma Yields.bind {x : Except Error α} {h : α → Except Error β} {p : Walk Reader α}
    {q : α → Walk Reader β} (hp : Yields P x (p w b)) (hq : ∀ a w b, P w b → Yields Q (h a) (q a w b)) :
    Yields Q (x >>= h) ((p >>= q) w b) := by
  change Yields Q _ (p w b >>= fun r => q r.1.1 r.1.2 r.2)
  cases hr : p w b with
  | ok r =>
    rw [hr] at hp
    cases hp with
    | ok hw => exact hq _ _ _ hw
  | error e =>
    rw [hr] at hp
    cases hp
    exact .error

lemma Yields.mono {x : Except Error α} {y : Except Error ((α × Walker) × Bytes)} (h : Yields P x y)
    (hPQ : ∀ w b, P w b → Q w b) : Yields Q x y := by
  cases h with
  | ok h => exact .ok (hPQ _ _ h)
  | error => exact .error

lemma Yields.pure (h : P w b) (a : α) : Yields P (.ok a) ((pure a : Walk Reader α) w b) := .ok h

lemma Yields.lift {x : Except Error α} {r : Reader α} (h : r b = x.map (·, s)) (hP : P w s) :
    Yields P x ((r : Walk Reader α) w b) := by
  change Yields P x (r b >>= fun a => .ok ((a.1, w), a.2))
  rw [h]
  cases x with
  | ok a => exact .ok hP
  | error e => exact .error

variable {f : Scalar → Item → Reader γ} {g : Scalar → Value → Except Error γ}

lemma get_yields (hf : ∀ k, Folds (f k) (g k)) (hw : w.Faces b ps s) (ha : ∀ a ∈ w.lastAsked, a < k) :
    Yields (fun w b => w.Faces b (ps.filter (k < ·.1)) s ∧ w.lastAsked = some k)
      ((ps.lookup k).mapM (g k)) (get f k w b) := by
  have hs := hw.find ha
  change Yields _ _ (w.find k b >>= fun r => _)
  cases hr : w.find k b with
  | error e =>
    rw [hr] at hs
    cases hs
  | ok r =>
    obtain ⟨⟨o, w'⟩, t⟩ := r
    have hk := Walker.find_asked hr
    rw [hr] at hs
    cases hs with
    | miss hl hw =>
      rw [hl]
      exact .ok ⟨hw, hk⟩
    | @hit i _ v _ t' hl hi hw =>
      rw [hl, Option.mapM_some, map_eq_pure_bind]
      exact (Yields.lift ((hf k).complete hi) ⟨hw, hk⟩).bind fun c w b h => .pure h (some c)

lemma request_yields (hf : ∀ k, Folds (f k) (g k)) {ks : List Scalar} (hk : ks.Pairwise (· < ·))
    (hw : w.Faces b ps s) (ha : ∀ a ∈ w.lastAsked, ∀ k ∈ ks, a < k) :
    Yields (fun w b => w.Faces b (ps.filter fun p => ∀ k ∈ ks, k < p.1) s) (lookups g ps ks)
      (request f ks w b) := by
  induction ks generalizing ps w b with
  | nil =>
    have hp : ps.filter (fun p => ∀ k ∈ ([] : List Scalar), k < p.1) = ps := by
      rw [List.filter_eq_self]
      simp
    refine .pure ?_ []
    rwa [hp]
  | cons k ks ih =>
    rw [List.pairwise_cons] at hk
    rw [lookups, List.mapM_cons]
    refine (get_yields hf hw fun a hl => ha a hl k List.mem_cons_self).bind fun c w b h => ?_
    obtain ⟨hw, hl⟩ := h
    have hr := ih hk.2 hw fun a h => by
      cases hl.symm.trans h
      exact hk.1
    rw [lookups_congr fun l hm => lookup_filter ps (hk.1 l hm), filter_filter_lt] at hr
    exact hr.bind fun as w b h => .pure h (c :: as)

lemma foldlM_append (ps : List (Scalar × Value)) (qs : List (Scalar × γ)) :
    ps.foldlM (fun qs p => (g p.1 p.2).map fun a => qs ++ [(p.1, a)]) qs =
      (foldValues g ps).map (qs ++ ·) := by
  induction ps generalizing qs with
  | nil => simp [foldValues, Except.map]
  | cons p ps ih =>
    rw [List.foldlM_cons, foldValues, List.mapM_cons]
    cases g p.1 p.2 with
    | error e => rfl
    | ok a =>
      refine (ih (qs ++ [(p.1, a)])).trans ?_
      change _ = Except.map _ (foldValues g ps >>= fun rs => .ok ((p.1, a) :: rs))
      cases foldValues g ps <;> simp [Except.map]

lemma rest_run (body : β → Scalar → Item → Reader β) (a : β) (w : Walker) (b : Bytes) :
    (rest body a : Walk Reader β) w b =
      (w.rest body a b).map fun r => ((r.1, { w with left := 0, ahead := none }), r.2) := by
  change (w.rest body a b >>= _) = _
  cases w.rest body a b <;> rfl

lemma remaining_yields (hf : ∀ k, Folds (f k) (g k)) (hw : w.Faces b ps s) :
    Yields (fun w b => w.Faces b [] s) (foldValues g ps) (remaining f w b) := by
  have hr : w.rest (m := Reader) (fun ps k i => do return ps ++ [(k, ← f k i)]) [] b = _ :=
    hw.rest (h := fun qs k v => (g k v).map fun a => qs ++ [(k, a)]) (fun qs k i b v s hi => by
      change (f k i b >>= _) = _
      rw [(hf k).complete hi]
      cases g k v <;> rfl) []
  rw [remaining, rest_run, hr, foldlM_append]
  cases foldValues g ps with
  | ok qs => exact .ok (.between rfl .last)
  | error e => exact .error

lemma walk_yields {n : UInt32} {p : Walk Reader α} {x : Except Error α}
    (h : Yields (fun w b => ∃ ps, w.Faces b ps s) x (p (Walker.start n.toNat) c)) :
    walk n p c = x.map (·, s) := by
  change (p (Walker.start n.toNat) c >>= fun r => r.1.2.skip r.2 >>= fun u => .ok (r.1.1, u.2)) = _
  cases hr : p (Walker.start n.toNat) c with
  | error e =>
    rw [hr] at h
    cases h
    rfl
  | ok r =>
    rw [hr] at h
    cases h with
    | ok hw =>
      obtain ⟨ps, hw⟩ := hw
      rw [Except.ok_bind, hw.skip]
      rfl

section Failure

lemma bind_of_ok {w' : Walker} {t : Bytes} {a : α} {p : Walk Reader α} (h : p w b = .ok ((a, w'), t))
    (q : α → Walk Reader β) : (p >>= q) w b = q a w' t := by
  change (p w >>= fun r => q r.1 r.2) b = _
  exact Decoder.bind_of_ok h

lemma bind_of_error {e : Error} {p : Walk Reader α} (h : p w b = .error e) (q : α → Walk Reader β) :
    (p >>= q) w b = .error e := by
  change (p w b >>= fun r => q r.1.1 r.1.2 r.2) = _
  rw [h]
  rfl

lemma lift_eq_ok {w' : Walker} {t : Bytes} {a : α} {r : Reader α}
    (h : (r : Walk Reader α) w b = .ok ((a, w'), t)) : r b = .ok (a, t) ∧ w' = w := by
  change (r b >>= fun x => .ok ((x.1, w), x.2)) = _ at h
  obtain ⟨x, hr, hx⟩ := Except.bind_eq_ok.mp h
  cases hx
  exact ⟨hr, rfl⟩

lemma get_eq_ok {w' : Walker} {t : Bytes} {o : Option γ} (h : get f k w b = .ok ((o, w'), t)) :
    (w.find k b = .ok ((none, w'), t) ∧ o = none) ∨
      ∃ i a u, w.find k b = .ok ((some i, w'), u) ∧ f k i u = .ok (a, t) ∧ o = some a := by
  obtain ⟨o, v, u, ho, h⟩ := bind_eq_ok.mp h
  cases o with
  | none =>
    cases h
    exact .inl ⟨ho, rfl⟩
  | some i =>
    obtain ⟨a, v', t', ha, h⟩ := bind_eq_ok.mp h
    cases h
    obtain ⟨hf, rfl⟩ := lift_eq_ok ha
    exact .inr ⟨i, a, u, ho, hf, rfl⟩

lemma request_asked {w' : Walker} {t : Bytes} {ks : List Scalar} {as : List (Option γ)}
    (h : request f ks w b = .ok ((as, w'), t)) : w'.lastAsked = ks.getLast?.or w.lastAsked := by
  induction ks generalizing w b as with
  | nil =>
    cases h
    rfl
  | cons k ks ih =>
    obtain ⟨o, v, u, ho, h⟩ := bind_eq_ok.mp h
    obtain ⟨as', v', t', hs, h⟩ := bind_eq_ok.mp h
    cases h
    have hk : v.lastAsked = some k := by
      obtain ⟨hf, -⟩ | ⟨i, a, u', hf, -⟩ := get_eq_ok ho
      · exact Walker.find_asked hf
      · exact Walker.find_asked hf
    rw [ih hs, hk, List.getLast?_cons]
    cases ks.getLast? <;> rfl

lemma request_error {w' : Walker} {t : Bytes} {ks ls : List Scalar} {as : List (Option γ)} {e : Error}
    (h : request f ks w b = .ok ((as, w'), t)) (he : request f ls w' t = .error e) :
    request f (ks ++ ls) w b = .error e := by
  induction ks generalizing w b as with
  | nil =>
    cases h
    exact he
  | cons k ks ih =>
    obtain ⟨o, v, u, ho, h⟩ := bind_eq_ok.mp h
    obtain ⟨as', v', t', hs, h⟩ := bind_eq_ok.mp h
    cases h
    rw [List.cons_append, request, bind_of_ok ho]
    exact bind_of_error (ih hs) _

lemma find?_error {key : Scalar} (h : w.lastAsked = some k) (hk : ¬k < key) :
    find? (m := Reader) key w b = .error .badEncoding := by
  have hn : ¬w.lastAsked.all (compare · key == .lt) := by
    rw [h]
    exact fun hl => hk (beq_iff_eq.mp hl)
  change w.find key b = _
  rw [Walker.find, if_neg hn]
  rfl

variable (hf : ∀ k, Folds (f k) (g k))
include hf

lemma request_passes {w' : Walker} {t : Bytes} {ks : List Scalar} {as : List (Option γ)}
    (h : request f ks w b = .ok ((as, w'), t)) : w.Passes b w' t := by
  induction ks generalizing w b as with
  | nil =>
    cases h
    exact fun s hs => hs
  | cons k ks ih =>
    obtain ⟨o, v, u, ho, h⟩ := bind_eq_ok.mp h
    obtain ⟨as', v', t', hs, h⟩ := bind_eq_ok.mp h
    cases h
    refine Walker.Passes.trans ?_ (ih hs)
    obtain ⟨hw, -⟩ | ⟨i, a, u', hw, ha, -⟩ := get_eq_ok ho
    · exact Walker.find_found hw
    · exact Walker.find_found hw u ((hf k).ignores ha)

lemma remaining_passes {w' : Walker} {t : Bytes} {qs : List (Scalar × γ)}
    (h : remaining f w b = .ok ((qs, w'), t)) : w.Passes b w' t := by
  rw [remaining, rest_run] at h
  obtain ⟨r, hr, h⟩ := Except.map_eq_ok.mp h
  cases h
  intro s hs
  cases hs
  refine Walker.rest_skips id (fun {qs qs' k i b s} h => ?_) hr
  obtain ⟨a, t, ha, h⟩ := Decoder.bind_eq_ok.mp h
  cases h
  exact (hf k).ignores ha

end Failure

lemma walk_error {n : UInt32} (hb : Item.parse b = .ok (.map n, c))
    (hv : ∀ v s, readValue b ≠ .ok (v, s)) {p : Walk Reader α}
    (hp : ∀ {a w t}, p (Walker.start n.toNat) c = .ok ((a, w), t) →
      (Walker.start n.toNat).Passes c w t) : ∃ e, walk n p c = .error e := by
  cases hw : walk n p c with
  | error e => exact ⟨e, rfl⟩
  | ok r =>
    obtain ⟨a, s⟩ := r
    obtain ⟨⟨a', w⟩, t, hr, hw⟩ := Decoder.bind_eq_ok.mp hw
    obtain ⟨u, t', hs, hw⟩ := Decoder.bind_eq_ok.mp hw
    obtain ⟨v, hc⟩ := Item.ignore_eq_ok.mp (ignore_map_of_skip (hp hr t' hs))
    have hr : readValue b = .ok (v, t') := (Decoder.bind_of_ok hb).trans hc
    exact absurd hr (hv v t')

end Walk

lemma faces_start {n : UInt32} (hb : Item.parse b = .ok (.map n, c))
    (hv : readValue b = .ok (.map ps, s)) : (Walker.start n.toNat).Faces c ps s := by
  have hc : (Item.map n).complete c = .ok (.map ps, s) := (bind_of_ok hb).symm.trans hv
  obtain ⟨y, rfl, hy⟩ := Item.derives_of_completeTo hc
  cases hy with
  | map hn hy => exact .between hn hy

/-- Asking a walk over a map for keys in ascending order answers what the whole map has at them, and
what is ahead of the walker then are the pairs with greater keys. A map that cannot be read as a whole
fails every walk, wherever it is malformed; a key that is no greater than the last fails as well. -/
theorem walk_lookup {f : Scalar → Item → Reader γ} {g : Scalar → Value → Except Error γ}
    (hf : ∀ k, Folds (f k) (g k)) {n : UInt32} (hb : Item.parse b = .ok (.map n, c)) :
    (∀ ps s, readValue b = .ok (.map ps, s) → ∀ ks : List Scalar, ks.Pairwise (· < ·) →
      walk n (Walk.request f ks) c = (lookups g ps ks).map (·, s) ∧
      walk n (do return (← Walk.request f ks, ← Walk.remaining f)) c =
        (do return ((← lookups g ps ks, ← foldValues g (ps.filter fun p => ∀ k ∈ ks, k < p.1)), s))) ∧
    ((∀ v s, readValue b ≠ .ok (v, s)) → ∀ ks,
      (∃ e, walk n (Walk.request f ks) c = .error e) ∧
      ∃ e, walk n (do return (← Walk.request f ks, ← Walk.remaining f)) c = .error e) ∧
    ∀ ks k k' ks', ks.getLast? = some k → ¬k < k' → ∀ as w t,
      Walk.request f ks (Walker.start n.toNat) c = .ok ((as, w), t) →
      Walk.find? (m := Reader) k' w t = .error .badEncoding ∧
        walk n (Walk.request f (ks ++ k' :: ks')) c = .error .badEncoding := by
  refine ⟨fun ps s hv ks hk => ?_, fun hv ks => ⟨?_, ?_⟩, fun ks k k' ks' hl hlt as w t hr => ?_⟩
  · have hw := faces_start hb hv
    have hr := Walk.request_yields hf hk hw fun _ h => by cases h
    refine ⟨Walk.walk_yields (hr.mono fun _ _ h => ⟨_, h⟩), ?_⟩
    have hd := hr.bind (Q := fun w b => ∃ ps, w.Faces b ps s) (h := fun as => do
      return (as, ← foldValues g (ps.filter fun p => ∀ k ∈ ks, k < p.1))) fun as w b hw =>
        (Walk.remaining_yields hf hw).bind fun qs w b h => .pure ⟨_, h⟩ (as, qs)
    refine (Walk.walk_yields hd).trans ?_
    cases lookups g ps ks with
    | error e => rfl
    | ok as => cases foldValues g (ps.filter fun p => ∀ k ∈ ks, k < p.1) <;> rfl
  · exact Walk.walk_error hb hv fun h => Walk.request_passes hf h
  · refine Walk.walk_error hb hv fun h => ?_
    obtain ⟨as, v, u, hr, h⟩ := Walk.bind_eq_ok.mp h
    obtain ⟨qs, v', u', hq, h⟩ := Walk.bind_eq_ok.mp h
    cases h
    exact (Walk.request_passes hf hr).trans (Walk.remaining_passes hf hq)
  · have ha : w.lastAsked = some k := by rw [Walk.request_asked hr, hl, Option.some_or]
    have he := Walk.find?_error (b := t) ha hlt
    have hg : Walk.request f (k' :: ks') w t = .error .badEncoding :=
      Walk.bind_of_error (Walk.bind_of_error he _) _
    refine ⟨he, ?_⟩
    change (Walk.request f (ks ++ k' :: ks') (Walker.start n.toNat) c >>= _) = _
    rw [Walk.request_error hr hg]
    rfl

lemma folds_complete : Folds Item.complete .ok :=
  ⟨fun h => h, fun {_ _ e} h => ⟨e, h⟩⟩

theorem walk_lookup_threeKeys :
    let b : Bytes := [0xa3, 0x01, 0x41, 0x2a, 0x03, 0x81, 0xf5, 0x61, 0x6e, 0x07, 0xff]
    let key (n : UInt32) : Scalar := .int ⟨false, n⟩
    let later := [(key 3, Value.array [.scalar (.bool true)]), (.text ⟨[0x6e], rfl⟩, .scalar (key 7))]
    let ps := (key 1, .scalar (.bytes [0x2a])) :: later
    let f (_ : Scalar) := Item.complete
    Item.parse b = .ok (.map 3, b.tail) ∧ readValue b = .ok (.map ps, [0xff]) ∧
      walk 3 (do return (← Walk.request f [key 1, key 2], ← Walk.remaining f)) b.tail =
        .ok (([some (.scalar (.bytes [0x2a])), none], later), [0xff]) ∧
      walk 3 (Walk.request f [key 1, key 2, key 2]) b.tail = .error .badEncoding := by
  intro b key later ps f
  have hf (_ : Scalar) : Folds Item.complete .ok := folds_complete
  have hb : Item.parse b = .ok (.map 3, b.tail) := rfl
  have hv : readValue b = .ok (.map ps, [0xff]) := rfl
  have hk : [key 1, key 2].Pairwise (· < ·) := by decide
  have hr : Walk.request f [key 1, key 2] (Walker.start 3) b.tail =
      .ok (([some (.scalar (.bytes [0x2a])), none], ⟨1, none, some (key 3), some (key 2)⟩),
        [0x81, 0xf5, 0x61, 0x6e, 0x07, 0xff]) := rfl
  exact ⟨hb, hv, ((walk_lookup hf hb).1 ps [0xff] hv [key 1, key 2] hk).2,
    ((walk_lookup hf hb).2.2 [key 1, key 2] (key 2) (key 2) [] rfl (by decide) _ _ _ hr).2⟩

end Firmware.Cbor
