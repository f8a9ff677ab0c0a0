import Firmware.Proofs.Processor.Engines

namespace Firmware

open Hash

/-- A pool with the sinks it gave out, oldest first. A sink that was given back leaves a gap. -/
structure Lending (η : Type) where
  pool : DigestPool η
  sinks : List (Option (DigestSink η))

namespace Lending

variable {η : Type}

inductive Request where
  | get (a : Algorithm) (expected : Bytes)
  | write (sink : Nat) (data : Bytes)
  | digestMatch (sink : Nat)
  | release (sink : Nat)

/-- A request with its answer, which is a `Bool` where a digest was compared. -/
abbrev Event := Request × Except Failure (Option Bool)

def start (engines : List η) : Lending η := ⟨.ofEngines engines, []⟩

def onSink {α : Type} (k : Nat) (f : EStateM Failure (DigestSink η) α) : EStateM Failure (Lending η) α := fun s =>
  match s.sinks[k]? with
  | some (some t) => onPart (fun _ => t) (fun s t => { s with sinks := s.sinks.set k (some t) }) f s
  | _ => .error .notFound s

section Perform

variable [Engine η]

def perform : Request → EStateM Failure (Lending η) (Option Bool)
  | .get a expected => do
    let t ← onPart pool (fun s pool => { s with pool }) (DigestPool.get a expected)
    modify fun s => { s with sinks := s.sinks ++ [some t] }
    return none
  | .write k data => do
    onSink k (DigestSink.write data)
    return none
  | .digestMatch k => some <$> onSink k DigestSink.digestMatch
  | .release k => fun s =>
    match s.sinks[k]? with
    | some (some t) => .ok none ⟨s.pool.release t, s.sinks.set k none⟩
    | _ => .error .notFound s

def run : List Request → List Event × Lending η → List Event × Lending η
  | [], x => x
  | r :: rs, (es, s) => run rs (es ++ [(r, answer (perform r s))], stateAfter (perform r s))

end Perform

namespace Event

def opens : Event → Option (Algorithm × Bytes)
  | (.get a expected, .ok _) => some (a, expected)
  | _ => none

def data (k : Nat) : Event → Bytes
  | (.write j b, .ok _) => if j = k then b else []
  | _ => []

def compares (k : Nat) : Event → Bool
  | (.digestMatch j, .ok _) => j = k
  | _ => false

def returns (k : Nat) : Event → Bool
  | (.release j, .ok _) => j = k
  | _ => false

end Event

def opened (es : List Event) : List (Algorithm × Bytes) := es.filterMap Event.opens

def written (k : Nat) (es : List Event) : Bytes := es.flatMap (Event.data k)

def compared (k : Nat) (es : List Event) : Bool := es.any (Event.compares k)

def returned (k : Nat) (es : List Event) : Bool := es.any (Event.returns k)

def live (es : List Event) : Nat := (List.range (opened es).length).countP fun k => !returned k es

def purpose? (k : Nat) (es : List Event) : Option (Algorithm × Bytes) :=
  if returned k es then none else (opened es)[k]?

/-- What is to be answered after such events. Of the requests to sinks only those to this one count. -/
def due (F : Algorithm → Bytes → Bytes) (n : Nat) (es : List Event) : Request → Except Failure (Option Bool)
  | .get a expected =>
    if expected.length ≠ a.size then .error .invalid
    else if live es < n then .ok none else .error .noResources
  | .write k _ =>
    match purpose? k es with
    | none => .error .notFound
    | some _ => if compared k es then .error .incorrectState else .ok none
  | .digestMatch k =>
    match purpose? k es with
    | none => .error .notFound
    | some (a, expected) =>
      if compared k es then .error .incorrectState else .ok (some (F a (written k es) = expected))
  | .release k =>
    match purpose? k es with
    | none => .error .notFound
    | some _ => .ok none

section History

variable (k : Nat) (es : List Event) (e : Event)

@[simp] lemma opened_concat : opened (es ++ [e]) = opened es ++ e.opens.toList := by
  simp only [opened, List.filterMap_append]
  cases h : e.opens <;> simp [h]

@[simp] lemma written_concat : written k (es ++ [e]) = written k es ++ e.data k := by
  simp [written]

@[simp] lemma compared_concat : compared k (es ++ [e]) = (compared k es || e.compares k) := by
  simp [compared]

@[simp] lemma returned_concat : returned k (es ++ [e]) = (returned k es || e.returns k) := by
  simp [returned]

end History

section Refusal

variable (k : Nat) (r : Request) (e : Failure)

@[simp] lemma opens_error : Event.opens (r, .error e) = none := by cases r <;> rfl

@[simp] lemma data_error : Event.data k (r, .error e) = [] := by cases r <;> rfl

@[simp] lemma compares_error : Event.compares k (r, .error e) = false := by cases r <;> rfl

@[simp] lemma returns_error : Event.returns k (r, .error e) = false := by cases r <;> rfl

end Refusal

variable [Engine η] {F : Algorithm → Bytes → Bytes} [Sound F η] {n : Nat} {es : List Event} {s : Lending η}
  {k : Nat} {t : DigestSink η}

/-- A sink that is out is as its own events make it, and its engine is missing in the pool. -/
structure Bears (F : Algorithm → Bytes → Bytes) [Sound F η] (es : List Event) (p : DigestPool η) (k : Nat)
    (t : DigestSink η) : Prop where
  out : returned k es = false
  slot : p.slots[t.slot]? = some none
  finished : t.finished = compared k es
  making : ∃ a, (opened es)[k]? = some (a, t.expected) ∧ t.expected.length = a.size ∧
    (t.finished = false → Sound.making F t.engine = some (a, written k es))

structure Kept (F : Algorithm → Bytes → Bytes) [Sound F η] (n : Nat) (es : List Event) (s : Lending η) :
    Prop where
  count : s.sinks.length = (opened es).length
  balance : s.pool.available + s.sinks.countP Option.isSome = n
  back : ∀ k, s.sinks[k]? = some none → returned k es = true
  ahead : ∀ k, s.sinks.length ≤ k → written k es = [] ∧ compared k es = false ∧ returned k es = false
  bears : ∀ k t, s.sinks[k]? = some (some t) → Bears F es s.pool k t
  apart : ∀ (j k : Nat) (t u : DigestSink η), s.sinks[j]? = some (some t) → s.sinks[k]? = some (some u) →
    t.slot = u.slot → j = k

lemma countP_isSome_set {α : Type} {l : List (Option α)} {i : Nat} {o : Option α} (h : l[i]? = some o)
    (o' : Option α) :
    (l.set i o').countP Option.isSome + o.isSome.toNat = l.countP Option.isSome + o'.isSome.toNat := by
  obtain ⟨hi, rfl⟩ := List.getElem?_eq_some_iff.mp h
  have hc : l[i].isSome.toNat ≤ l.countP Option.isSome := by
    cases ho : l[i].isSome with
    | false => exact Nat.zero_le _
    | true => exact List.countP_pos_iff.mpr ⟨l[i], List.getElem_mem hi, ho⟩
  rw [List.countP_set hi]
  cases ho : l[i].isSome <;> cases o'.isSome <;>
    simp only [ho, Bool.toNat_true, Bool.toNat_false, Bool.false_eq_true, if_true, if_false] at hc ⊢
  all_goals omega

namespace Kept

lemma start (engines : List η) : Kept F engines.length [] (start engines) where
  count := rfl
  balance := by simp [Lending.start, DigestPool.ofEngines, DigestPool.available, List.countP_map]
  back k h := by simp [Lending.start] at h
  ahead k _ := ⟨rfl, rfl, rfl⟩
  bears k t h := by simp [Lending.start] at h
  apart j k t u h := by simp [Lending.start] at h

lemma no_purpose (h : Kept F n es s) (ht : ∀ t, s.sinks[k]? ≠ some (some t)) : purpose? k es = none := by
  by_cases hk : k < s.sinks.length
  · cases hs : s.sinks[k]? with
    | none => exact absurd (List.getElem?_eq_none_iff.mp hs) (Nat.not_le.mpr hk)
    | some o =>
      cases o with
      | none => simp [purpose?, h.back k hs]
      | some t => exact absurd hs (ht t)
  · have ho : (opened es)[k]? = none := List.getElem?_eq_none (h.count ▸ Nat.not_lt.mp hk)
    simp [purpose?, ho]

lemma out_or_gone (h : Kept F n es s) (k : Nat) :
    (∃ t, s.sinks[k]? = some (some t) ∧ Bears F es s.pool k t) ∨
      (∀ t, s.sinks[k]? ≠ some (some t)) ∧ purpose? k es = none := by
  by_cases hk : ∃ t, s.sinks[k]? = some (some t)
  · obtain ⟨t, ht⟩ := hk
    exact .inl ⟨t, ht, h.bears k t ht⟩
  · simp only [not_exists] at hk
    exact .inr ⟨hk, h.no_purpose hk⟩

lemma live_eq (h : Kept F n es s) : live es = s.sinks.countP Option.isSome := by
  have hs : (List.range (opened es).length).map (fun k => !returned k es) = s.sinks.map Option.isSome := by
    refine List.ext_getElem (by simp [h.count]) fun k hk hk' => ?_
    have hl : k < s.sinks.length := by simpa using hk'
    rw [List.getElem_map, List.getElem_map, List.getElem_range]
    cases ho : s.sinks[k] with
    | none => simp [h.back k (by rw [List.getElem?_eq_getElem hl, ho])]
    | some t => simp [(h.bears k t (by rw [List.getElem?_eq_getElem hl, ho])).out]
  have hc := congrArg (List.countP id) hs
  rwa [List.countP_map, List.countP_map] at hc

lemma refused (h : Kept F n es s) (r : Request) (e : Failure) : Kept F n (es ++ [(r, .error e)]) s where
  count := by simpa using h.count
  balance := h.balance
  back k hk := by simpa using h.back k hk
  ahead k hk := by simpa using h.ahead k hk
  bears k t ht := by
    obtain ⟨ho, hs, hf, hm⟩ := h.bears k t ht
    exact ⟨by simpa using ho, hs, by simpa using hf, by simpa using hm⟩
  apart := h.apart

lemma amended (h : Kept F n es s) {e : Event} {t' : DigestSink η} (ht : s.sinks[k]? = some (some t))
    (ho : e.opens = none) (hr : ∀ j, e.returns j = false)
    (hj : ∀ j, j ≠ k → e.data j = [] ∧ e.compares j = false)
    (hs : t'.slot = t.slot) (hb : Bears F (es ++ [e]) s.pool k t') :
    Kept F n (es ++ [e]) { s with sinks := s.sinks.set k (some t') } := by
  have hk : k < s.sinks.length := (List.getElem?_eq_some_iff.mp ht).1
  -- Whoever is out now was out before, in the same slot.
  have hold {j : Nat} {u : DigestSink η} (hu : (s.sinks.set k (some t'))[j]? = some (some u)) :
      j = k ∧ u = t' ∨ j ≠ k ∧ s.sinks[j]? = some (some u) := by
    rw [List.getElem?_set] at hu
    grind
  constructor
  case count => simpa [ho] using h.count
  case balance =>
    have hc := countP_isSome_set ht (some t')
    simp only [Option.isSome_some, Nat.add_right_cancel_iff] at hc
    simpa only [hc] using h.balance
  case back =>
    intro j hn
    rw [List.getElem?_set] at hn
    simp only [returned_concat, hr, Bool.or_false]
    exact h.back j (by grind)
  case ahead =>
    intro j hl
    rw [List.length_set] at hl
    obtain ⟨hd, hc⟩ := hj j (by omega)
    simpa [hd, hc, hr] using h.ahead j hl
  case bears =>
    intro j u hu
    obtain ⟨rfl, rfl⟩ | ⟨hjk, hu⟩ := hold hu
    · exact hb
    · obtain ⟨hd, hc⟩ := hj j hjk
      obtain ⟨hout, hslot, hf, hm⟩ := h.bears j u hu
      exact ⟨by simp [hout, hr], hslot, by simp [hf, hc], by simpa [ho, hd] using hm⟩
  case apart =>
    intro i j u v hu hv huv
    obtain ⟨rfl, rfl⟩ | ⟨-, hu'⟩ := hold hu <;> obtain ⟨rfl, rfl⟩ | ⟨-, hv'⟩ := hold hv
    · rfl
    · exact h.apart _ _ t v ht hv' (hs.symm.trans huv)
    · exact h.apart _ _ u t hu' ht (huv.trans hs)
    · exact h.apart _ _ u v hu' hv' huv

lemma lent (h : Kept F n es s) {a : Algorithm} {e : η} (ht : s.pool.slots[t.slot]? = some (some e))
    (hx : t.expected.length = a.size) (hf : t.finished = false)
    (hm : Sound.making F t.engine = some (a, [])) :
    Kept F n (es ++ [(.get a t.expected, .ok none)]) ⟨s.pool.put t.slot none, s.sinks ++ [some t]⟩ := by
  have hold {j : Nat} {u : DigestSink η} (hu : (s.sinks ++ [some t])[j]? = some (some u)) :
      j = s.sinks.length ∧ u = t ∨ j < s.sinks.length ∧ s.sinks[j]? = some (some u) := by
    rw [List.getElem?_append] at hu
    grind
  have hslot {i : Nat} (hi : s.pool.slots[i]? = some none) : i ≠ t.slot := by
    rintro rfl
    rw [ht] at hi
    cases hi
  obtain ⟨hw, hc, hr⟩ := h.ahead s.sinks.length (Nat.le_refl _)
  constructor
  case count => simp [Event.opens, h.count]
  case balance =>
    have hp := countP_isSome_set ht none
    have hb := h.balance
    simp only [DigestPool.available, DigestPool.put, List.countP_append, List.countP_singleton,
      Option.isSome_some, Option.isSome_none, Bool.toNat_true, Bool.toNat_false, if_true] at hp hb ⊢
    omega
  case back =>
    intro j hj
    simpa [Event.returns] using h.back j (by grind)
  case ahead =>
    intro j hj
    rw [List.length_append, List.length_singleton] at hj
    simpa [Event.data, Event.compares, Event.returns] using h.ahead j (by omega)
  case bears =>
    intro j u hu
    obtain ⟨rfl, rfl⟩ | ⟨hj, hu⟩ := hold hu
    · refine ⟨by simp [hr, Event.returns], ?_, by simp [hf, hc, Event.compares], a, ?_, hx, fun _ => ?_⟩
      · exact List.getElem?_set_self (List.getElem?_eq_some_iff.mp ht).1
      · simp [h.count, Event.opens]
      · simp [hm, hw, Event.data]
    · obtain ⟨hout, hs, hf, b, ho, hm⟩ := h.bears j u hu
      refine ⟨by simp [hout, Event.returns], ?_, by simp [hf, Event.compares], b, ?_, by simpa [Event.data] using hm⟩
      · exact (List.getElem?_set_ne (hslot hs).symm).trans hs
      · rw [opened_concat, List.getElem?_append_left (h.count ▸ hj), ho]
  case apart =>
    intro i j u v hu hv huv
    obtain ⟨rfl, rfl⟩ | ⟨-, hu'⟩ := hold hu <;> obtain ⟨rfl, rfl⟩ | ⟨-, hv'⟩ := hold hv
    · rfl
    · exact absurd huv.symm (hslot (h.bears _ _ hv').slot)
    · exact absurd huv (hslot (h.bears _ _ hu').slot)
    · exact h.apart _ _ u v hu' hv' huv

lemma back_in (h : Kept F n es s) (ht : s.sinks[k]? = some (some t)) :
    Kept F n (es ++ [(.release k, .ok none)]) ⟨s.pool.release t, s.sinks.set k none⟩ := by
  have hk : k < s.sinks.length := (List.getElem?_eq_some_iff.mp ht).1
  have hold {j : Nat} {u : DigestSink η} (hu : (s.sinks.set k none)[j]? = some (some u)) :
      j ≠ k ∧ s.sinks[j]? = some (some u) := by
    rw [List.getElem?_set] at hu
    grind
  constructor
  case count => simpa [Event.opens] using h.count
  case balance =>
    have hp := countP_isSome_set (h.bears k t ht).slot (some (Engine.abort t.engine))
    have hs := countP_isSome_set ht none
    have hb := h.balance
    simp only [DigestPool.available, DigestPool.release, DigestPool.put, Option.isSome_some,
      Option.isSome_none, Bool.toNat_true, Bool.toNat_false] at hp hs hb ⊢
    omega
  case back =>
    intro j hj
    rw [List.getElem?_set] at hj
    by_cases hjk : k = j
    · simp [hjk, Event.returns]
    · simp [h.back j (by simpa [hjk] using hj)]
  case ahead =>
    intro j hj
    rw [List.length_set] at hj
    have hjk : k ≠ j := by omega
    simpa [Event.data, Event.compares, Event.returns, hjk] using h.ahead j hj
  case bears =>
    intro j u hu
    obtain ⟨hjk, hu⟩ := hold hu
    obtain ⟨hout, hs, hf, hm⟩ := h.bears j u hu
    refine ⟨by simp [hout, Event.returns, hjk.symm], ?_, by simp [hf, Event.compares],
      by simpa [Event.opens, Event.data] using hm⟩
    exact (List.getElem?_set_ne fun hs => hjk (h.apart j k u t hu ht hs.symm)).trans hs
  case apart => exact fun i j u v hu hv => h.apart i j u v (hold hu).2 (hold hv).2

end Kept

end Lending

namespace Lending

variable {η : Type} [Engine η] {F : Algorithm → Bytes → Bytes} [Reliable F η] {n : Nat} {es : List Event}
  {s : Lending η}

section Sinks

omit [Reliable F η] [Engine η]

variable {k : Nat} {α : Type}

lemma onSink_out {t : DigestSink η} (ht : s.sinks[k]? = some (some t)) (f : EStateM Failure (DigestSink η) α) :
    onSink k f s = onPart (fun _ => t) (fun s t => { s with sinks := s.sinks.set k (some t) }) f s := by
  simp only [onSink, ht]

lemma onSink_gone (ht : ∀ t, s.sinks[k]? ≠ some (some t)) (f : EStateM Failure (DigestSink η) α) :
    onSink k f s = .error .notFound s := by
  simp only [onSink]

lemma set_same {t : DigestSink η} (ht : s.sinks[k]? = some (some t)) :
    { s with sinks := s.sinks.set k (some t) } = s := by
  obtain ⟨hk, he⟩ := List.getElem?_eq_some_iff.mp ht
  rw [← he, List.set_getElem_self]

end Sinks

namespace Kept

def Answers (F : Algorithm → Bytes → Bytes) [Sound F η] (n : Nat) (es : List Event) (s : Lending η)
    (r : Request) : Prop :=
  answer (perform r s) = due F n es r ∧ Kept F n (es ++ [(r, answer (perform r s))]) (stateAfter (perform r s))

omit [Reliable F η] in
lemma answers_error [Sound F η] (h : Kept F n es s) {r : Request} {e : Failure}
    (hp : perform r s = .error e s) (hd : due F n es r = .error e) : Answers F n es s r := by
  rw [Answers, hp, hd]
  exact ⟨rfl, h.refused r e⟩

lemma get (h : Kept F n es s) (hs : ∀ a (e : η), Engine.supports a e = true) (a : Algorithm) (x : Bytes) :
    Answers F n es s (.get a x) := by
  have hok {t : DigestSink η} {p : DigestPool η} (hg : DigestPool.get a x s.pool = .ok t p) :
      perform (.get a x) s = .ok none ⟨p, s.sinks ++ [some t]⟩ := by
    simp [perform, EStateM.bind_run, onPart, hg]
  have herror {f : Failure} (hg : DigestPool.get a x s.pool = .error f s.pool) :
      perform (.get a x) s = .error f s := by
    simp [perform, EStateM.bind_run, onPart, hg]
  have hb := h.balance
  by_cases hx : x.length = a.size
  · obtain ⟨ha, hg⟩ | ⟨ha, i, e, e', hi, hm, hg⟩ := DigestPool.get_cases (F := F) hs hx s.pool
    · refine h.answers_error (e := .noResources) (herror hg) ?_
      have hl : ¬ live es < n := by
        rw [h.live_eq]
        omega
      simp [due, hx, hl]
    · have hl : live es < n := by
        rw [h.live_eq]
        omega
      rw [Answers, hok hg]
      exact ⟨by simp [due, hx, hl], h.lent (t := ⟨i, e', x, false⟩) hi hx rfl hm⟩
  · refine h.answers_error (e := .invalid) (herror ?_) (by simp [due, hx])
    simp [DigestPool.get, hx]

lemma write (h : Kept F n es s) (k : Nat) (data : Bytes) : Answers F n es s (.write k data) := by
  obtain ⟨t, ht, hout, hslot, hf, a, ho, hx, hm⟩ | ⟨hg, hp⟩ := h.out_or_gone k
  · have hpu : purpose? k es = some (a, t.expected) := by simp [purpose?, hout, ho]
    cases hft : t.finished with
    | true =>
      refine h.answers_error (e := .incorrectState) ?_ (by simp [due, hpu, ← hf, hft])
      simp [perform, EStateM.bind_run, onSink_out ht, onPart, DigestSink.write_finished hft, set_same ht]
    | false =>
      obtain ⟨e, hw, hme⟩ := DigestSink.write_ok hft (hm hft) data
      have hp : perform (.write k data) s =
          .ok none { s with sinks := s.sinks.set k (some { t with engine := e }) } := by
        simp [perform, EStateM.bind_run, onSink_out ht, onPart, hw]
      rw [Answers, hp]
      refine ⟨by simp [due, hpu, ← hf, hft], h.amended ht rfl (fun _ => rfl) (fun j hj => ⟨?_, rfl⟩) rfl ?_⟩
      · simp [Event.data, hj.symm]
      · exact ⟨by simp [hout, Event.returns], hslot, by simp [hf, Event.compares], a, by simp [ho, Event.opens], hx,
          fun _ => by simp [hme, Event.data]⟩
  · refine h.answers_error (e := .notFound) ?_ (by simp [due, hp])
    simp [perform, EStateM.bind_run, onSink_gone hg]

lemma digestMatch (h : Kept F n es s) (k : Nat) : Answers F n es s (.digestMatch k) := by
  obtain ⟨t, ht, hout, hslot, hf, a, ho, hx, hm⟩ | ⟨hg, hp⟩ := h.out_or_gone k
  · have hpu : purpose? k es = some (a, t.expected) := by simp [purpose?, hout, ho]
    cases hft : t.finished with
    | true =>
      refine h.answers_error (e := .incorrectState) ?_ (by simp [due, hpu, ← hf, hft])
      simp [perform, onSink_out ht, onPart, DigestSink.digestMatch_finished hft, set_same ht]
    | false =>
      obtain ⟨e, hc⟩ := DigestSink.digestMatch_ok hft (hm hft) hx
      have hp : perform (.digestMatch k) s =
          .ok (some (decide (F a (written k es) = t.expected)))
            { s with sinks := s.sinks.set k (some { t with engine := e, finished := true }) } := by
        simp [perform, onSink_out ht, onPart, hc]
      rw [Answers, hp]
      refine ⟨by simp [due, hpu, ← hf, hft], h.amended ht rfl (fun _ => rfl) (fun j hj => ⟨rfl, ?_⟩) rfl ?_⟩
      · simp [Event.compares, hj.symm]
      · exact ⟨by simp [hout, Event.returns], hslot, by simp [Event.compares], a, by simp [ho, Event.opens], hx,
          fun hn => by cases hn⟩
  · refine h.answers_error (e := .notFound) ?_ (by simp [due, hp])
    simp [perform, onSink_gone hg]

lemma release (h : Kept F n es s) (k : Nat) : Answers F n es s (.release k) := by
  obtain ⟨t, ht, hout, -, -, a, ho, -⟩ | ⟨hg, hp⟩ := h.out_or_gone k
  · have hp : perform (.release k) s = .ok none ⟨s.pool.release t, s.sinks.set k none⟩ := by
      simp only [perform, ht]
    rw [Answers, hp]
    exact ⟨by simp [due, purpose?, hout, ho], h.back_in ht⟩
  · refine h.answers_error (e := .notFound) ?_ (by simp [due, hp])
    simp only [perform]

lemma step (h : Kept F n es s) (hs : ∀ a (e : η), Engine.supports a e = true) (r : Request) :
    Answers F n es s r := by
  cases r with
  | get a x => exact h.get hs a x
  | write k data => exact h.write k data
  | digestMatch k => exact h.digestMatch k
  | release k => exact h.release k

lemma run (h : Kept F n es s) (hs : ∀ a (e : η), Engine.supports a e = true) (rs : List Request) :
    Kept F n (run rs (es, s)).1 (run rs (es, s)).2 := by
  induction rs generalizing es s with
  | nil => exact h
  | cons r rs ih => exact ih (h.step hs r).2

end Kept

/-- After any requests to a pool of working engines, the engines that are not out are there, and the next request
is answered as it is due. Nothing is due to a sink for what was asked of another, or by an earlier user of its
engine. -/
theorem answers_due (F : Algorithm → Bytes → Bytes) [Reliable F η]
    (hs : ∀ a (e : η), Engine.supports a e = true) (engines : List η) (rs : List Request) :
    let x := run rs ([], start engines)
    x.2.pool.available + live x.1 = engines.length ∧
      ∀ r, answer (perform r x.2) = due F engines.length x.1 r := by
  have h := (Kept.start (F := F) engines).run hs rs
  refine ⟨?_, fun r => (h.step hs r).1⟩
  rw [h.live_eq]
  exact h.balance

/-- One engine, left in the middle of something: its first sink is written two bytes and matched against the
digest of one, and a second sink is refused. Once the first is back, the engine serves another sink. -/
theorem answers_due_reused :
    let F : Algorithm → Bytes → Bytes := fun a b => List.replicate a.size (UInt8.ofNat b.length)
    let requests : List Request := [.get .sha256 (F .sha256 [0]), .write 0 [1, 2], .get .sha384 (F .sha384 []),
      .digestMatch 0, .write 0 [3], .release 0, .get .sha384 (F .sha384 [4, 5]), .write 1 [6], .write 1 [7]]
    let x := run requests ([], start [(⟨some (.sha512, [8])⟩ : Digester F)])
    x.1.map Prod.snd = [.ok none, .ok none, .error .noResources, .ok (some false), .error .incorrectState,
      .ok none, .ok none, .ok none, .ok none] ∧
    x.2.pool.available = 0 ∧
    answer (perform (.digestMatch 1) x.2) = .ok (some true) ∧
    answer (perform (.get .sha512 (F .sha512 [])) x.2) = .error .noResources := by
  intro F requests x
  obtain ⟨ha, hr⟩ := answers_due F (fun _ _ => rfl) [(⟨some (.sha512, [8])⟩ : Digester F)] requests
  have hl : live x.1 = 1 := by decide +kernel
  exact ⟨by decide +kernel, Nat.succ.inj ((congrArg (x.2.pool.available + ·) hl).symm.trans ha),
    (hr _).trans (by decide +kernel), (hr _).trans (by decide +kernel)⟩

end Lending
end Firmware
