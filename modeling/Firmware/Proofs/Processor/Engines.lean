import Firmware.Proofs.Hash.Sound
import Firmware.Proofs.Processor.Blindness

/-!
Engines for digests come back. A command takes one engine at most out of the pool, and puts it back however
it ends. So a command that opens a digest always finds all of them there, and where there is one, more of
them make no difference.
-/

namespace Firmware

namespace DigestPool

variable {η : Type} {p q : DigestPool η} {s : DigestSink η} {a : Hash.Algorithm} {x : Bytes}

def present (p : DigestPool η) : List Bool := p.slots.map (·.isSome)

lemma available_eq (p : DigestPool η) : p.available = p.present.count true := by
  rw [available, present, List.count, List.countP_map]
  apply List.countP_congr
  intro e _
  simp

lemma present_put (p : DigestPool η) (i : Nat) (e : Option η) :
    (p.put i e).present = p.present.set i e.isSome := List.map_set

lemma set_present {i : Nat} (h : p.present[i]? = some true) : p.present.set i true = p.present := by
  obtain ⟨hi, he⟩ := List.getElem?_eq_some_iff.mp h
  rw [← he]
  exact List.set_getElem_self hi

lemma firstFree_eq_some {slots : List (Option η)} {i : Nat} {e : η}
    (h : firstFree slots = some (i, e)) : slots[i]? = some (some e) := by
  induction slots generalizing i with
  | nil => cases h
  | cons o slots ih =>
    cases o with
    | some d =>
      cases h
      rfl
    | none =>
      simp only [firstFree, Option.map_eq_some_iff] at h
      obtain ⟨⟨j, d⟩, hj, he⟩ := h
      cases he
      exact ih hj

lemma firstFree_eq_none {slots : List (Option η)} (h : firstFree slots = none) :
    slots.countP Option.isSome = 0 := by
  induction slots with
  | nil => rfl
  | cons o slots ih =>
    cases o with
    | some d => cases h
    | none =>
      simp only [firstFree, Option.map_eq_none_iff] at h
      simpa using ih h

variable [Hash.Engine η]

lemma get_eq_ok (h : get a x p = .ok s q) :
    p.present[s.slot]? = some true ∧ q = p.put s.slot none := by
  simp only [get] at h
  repeat' split at h
  all_goals cases h
  rename_i hf _ _ _ _
  have hs := firstFree_eq_some hf
  exact ⟨by rw [present, List.getElem?_map, hs]; rfl, rfl⟩

lemma present_of_error {e : Failure} (h : get a x p = .error e q) : q.present = p.present := by
  simp only [get] at h
  split at h
  · cases h
    rfl
  · split at h
    · cases h
      rfl
    · rename_i i d hf
      have hi : p.present[i]? = some true := by
        rw [present, List.getElem?_map, firstFree_eq_some hf]
        rfl
      split at h
      · split at h
        · cases h
        · cases h
          exact (present_put p i _).trans (set_present hi)
      · cases h
        rfl

lemma length_slots_of_get (h : get a x p = .ok s q) : s.slot < q.slots.length := by
  obtain ⟨hs, rfl⟩ := get_eq_ok h
  have hl := (List.getElem?_eq_some_iff.mp hs).1
  rw [present, List.length_map] at hl
  rwa [put, List.length_set]

lemma present_release (h : get a x p = .ok s q) {t : DigestSink η} (ht : t.slot = s.slot) :
    (q.release t).present = p.present := by
  obtain ⟨hs, rfl⟩ := get_eq_ok h
  rw [release, present_put, present_put, ht, List.set_set]
  exact set_present hs

def extend (spares : List (Option η)) (p : DigestPool η) : DigestPool η := ⟨p.slots ++ spares⟩

omit [Hash.Engine η] in
lemma firstFree_append {slots : List (Option η)} {y : Nat × η} (h : firstFree slots = some y)
    (spares : List (Option η)) : firstFree (slots ++ spares) = some y := by
  induction slots generalizing y with
  | nil => cases h
  | cons o slots ih =>
    cases o with
    | some d => exact h
    | none =>
      simp only [firstFree, Option.map_eq_some_iff] at h
      obtain ⟨z, hz, rfl⟩ := h
      simp only [List.cons_append, firstFree, ih hz, Option.map_some]

omit [Hash.Engine η] in
lemma put_extend {i : Nat} (hi : i < p.slots.length) (e : Option η) (spares : List (Option η)) :
    (p.extend spares).put i e = (p.put i e).extend spares := by
  simp only [put, extend, List.set_append_left i e hi]

lemma get_extend {spares : List (Option η)} (h : 0 < p.available ∨ spares = []) (a : Hash.Algorithm)
    (x : Bytes) : get a x (p.extend spares) = relocate (extend spares) (get a x p) := by
  rcases h with h | rfl
  · cases hf : firstFree p.slots with
    | none => exact absurd (firstFree_eq_none hf) (Nat.ne_of_gt h)
    | some y =>
      obtain ⟨i, e⟩ := y
      have hi : i < p.slots.length := (List.getElem?_eq_some_iff.mp (firstFree_eq_some hf)).1
      have hf' : firstFree (p.extend spares).slots = some (i, e) := firstFree_append hf spares
      simp only [get, hf, hf', put_extend hi]
      repeat' split
      all_goals rfl
  · have hp (p : DigestPool η) : p.extend [] = p := congrArg mk (List.append_nil _)
    rw [hp]
    cases get a x p <;> simp only [relocate, hp]

section Working

variable {F : Hash.Algorithm → Bytes → Bytes} [Hash.Reliable F η]

lemma get_cases (hs : ∀ a (e : η), Hash.Engine.supports a e = true) (hx : x.length = a.size)
    (p : DigestPool η) :
    p.available = 0 ∧ get a x p = .error .noResources p ∨
      0 < p.available ∧ ∃ i e e', p.slots[i]? = some (some e) ∧ Hash.Sound.making F e' = some (a, []) ∧
        get a x p = .ok ⟨i, e', x, false⟩ (p.put i none) := by
  cases hf : firstFree p.slots with
  | none => exact .inl ⟨firstFree_eq_none hf, by simp [get, hx, hf]⟩
  | some o =>
    obtain ⟨i, e⟩ := o
    obtain ⟨e', he⟩ := Hash.Reliable.starts (F := F) (hs a e)
    have hi := firstFree_eq_some hf
    have hp : 0 < p.available := List.countP_pos_iff.mpr ⟨some e, List.mem_of_getElem? hi, rfl⟩
    exact .inr ⟨hp, i, e, e', hi, Hash.Sound.start he, by simp [get, hx, hf, hs, he]⟩

end Working

end DigestPool

namespace DigestSink

variable {η : Type} [Hash.Engine η]

lemma slot_call (c : SinkCall) (s : DigestSink η) :
    (stateAfter ((Sink.call c : EStateM Failure (DigestSink η) Unit) s)).slot = s.slot := by
  cases c with
  | write data =>
    change (stateAfter (write data s)).slot = _
    rw [write, EStateM.bind_run, EStateM.get_run]
    dsimp only
    split
    · rfl
    · rw [stateAfter_adaptExcept, onEngine, stateAfter_onPart]
  | _ => rfl

lemma slot_digestMatch (s : DigestSink η) : (stateAfter (digestMatch s)).slot = s.slot := by
  have hs := stateAfter_onPart engine (fun s e => { s with engine := e })
    (Hash.Engine.compare s.expected) { s with finished := true }
  simp only [digestMatch, onEngine]
  split
  · rfl
  · revert hs
    split <;> rename_i h <;> rw [h] <;> rintro rfl <;> rfl

section Working

variable {F : Hash.Algorithm → Bytes → Bytes} [Hash.Reliable F η] {t : DigestSink η} {a : Hash.Algorithm} {b : Bytes}

omit [Hash.Reliable F η] in
lemma write_finished (ht : t.finished = true) (data : Bytes) : write data t = .error .incorrectState t := by
  simp [write, EStateM.bind_run, ht]

omit [Hash.Reliable F η] in
lemma digestMatch_finished (ht : t.finished = true) : digestMatch t = .error .incorrectState t := by
  simp [digestMatch, ht]

lemma write_ok (ht : t.finished = false) (hm : Hash.Sound.making F t.engine = some (a, b)) (data : Bytes) :
    ∃ e, write data t = .ok () { t with engine := e } ∧ Hash.Sound.making F e = some (a, b ++ data) := by
  obtain ⟨e, he⟩ := Hash.Reliable.writes data hm
  refine ⟨e, ?_, Hash.Sound.write hm he⟩
  simp [write, EStateM.bind_run, ht, onEngine, onPart, he]

lemma digestMatch_ok (ht : t.finished = false) (hm : Hash.Sound.making F t.engine = some (a, b))
    (hx : t.expected.length = a.size) :
    ∃ e, digestMatch t = .ok (decide (F a b = t.expected)) { t with engine := e, finished := true } := by
  obtain ⟨e, he⟩ := Hash.Reliable.compares hm hx
  by_cases h : F a b = t.expected
  · refine ⟨e, ?_⟩
    simp [digestMatch, ht, onEngine, onPart, he, h]
  · refine ⟨Hash.Engine.abort e, ?_⟩
    simp [digestMatch, ht, onEngine, onPart, he, h]

end Working

end DigestSink

namespace Processor

open Flash Manifest Storage

variable {π H δ η τ α : Type}

def withSpares (spares : List (Option η)) (p : Processor π H δ η τ) : Processor π H δ η τ :=
  { p with digests := p.digests.extend spares }

namespace Run

def spare (spares : List (Option η)) (r : Run π H δ η τ) : Run π H δ η τ :=
  r.putProcessor (r.processor.withSpares spares)

def SameSlot (r s : Run π H δ η τ) : Prop := s.digest.map (·.slot) = r.digest.map (·.slot)

instance : IsPreorder (Run π H δ η τ) SameSlot where
  refl _ := rfl
  trans _ _ _ h h' := Eq.trans h' h

/-- A computation has nothing to do with the pool, and an engine that is out stays out. -/
structure Idle {ε : Type} (f : EStateM ε (Run π H δ η τ) α) : Prop where
  commutes : ∀ digests, Commutes (equip (fun _ => digests) id) f
  slot : Follows SameSlot f

namespace Idle

variable {ε : Type} {f : EStateM ε (Run π H δ η τ) α} {g : α → EStateM ε (Run π H δ η τ) β}

lemma pure (a : α) : Idle (pure a : EStateM ε (Run π H δ η τ) α) := ⟨fun _ => .pure a, .pure a⟩

lemma throw (e : ε) : Idle (throw e : EStateM ε (Run π H δ η τ) α) := ⟨fun _ => .throw e, .throw e⟩

lemma bind (hf : Idle f) (hg : ∀ a, Idle (g a)) : Idle (f >>= g) :=
  ⟨fun d => .bind (hf.commutes d) fun a => (hg a).commutes d, .bind hf.slot fun a => (hg a).slot⟩

lemma get_bind {g : Run π H δ η τ → EStateM ε (Run π H δ η τ) β}
    (hd : ∀ digests r, g (equip (fun _ => digests) id r) = g r) (hg : ∀ r, Idle (g r)) :
    Idle (MonadState.get >>= g) :=
  ⟨fun d => .get_bind (hd d) fun r => (hg r).commutes d, .bind .get fun r => (hg r).slot⟩

lemma ite {p : Prop} [Decidable p] {f g : EStateM ε (Run π H δ η τ) α} (hf : Idle f) (hg : Idle g) :
    Idle (if p then f else g) := by
  split
  · exact hf
  · exact hg

lemma adaptExcept {ε' : Type} {h : ε → ε'} (hf : Idle f) : Idle (f.adaptExcept h) :=
  ⟨fun d => .adaptExcept (hf.commutes d), .adaptExcept hf.slot⟩

lemma digests (hf : Idle f) (r : Run π H δ η τ) :
    (stateAfter (f r)).processor.digests = r.processor.digests := by
  -- With the pool that the run has anyway, the computation can only end with that.
  have h : stateAfter (f r) = equip (fun _ => r.processor.digests) id (stateAfter (f r)) :=
    (congrArg stateAfter (hf.commutes r.processor.digests r)).trans (stateAfter_relocate _ _)
  have hd := congrArg (fun s : Run π H δ η τ => s.processor.digests) h
  exact hd

lemma run_spare (hf : Idle f) (spares : List (Option η)) (r : Run π H δ η τ) :
    f (r.spare spares) = relocate (spare spares) (f r) := by
  have hd := hf.digests r
  refine (hf.commutes (r.processor.digests.extend spares) r).trans ?_
  rw [← hd]
  cases f r <;> rfl

end Idle

lemma idle_within {cause : Failure → Error} {f : EStateM Failure (Processor π H δ η τ) α}
    (hf : ∀ digests, Commutes (Processor.equip (fun _ => digests) id) f) : Idle (within cause f) :=
  ⟨fun d => commutes_within (hf d), .onPart (S := fun _ _ => True) (fun _ => trivial) fun _ _ _ => rfl⟩

lemma idle_log (e : Event H) : Idle (log e : Act π H δ η τ Unit) := ⟨fun _ => commutes_log e, fun _ => rfl⟩

lemma idle_onDevice (g : Layout → EStateM Failure (Journaled δ) α) :
    Idle (within .platform do onDevice (g (← get).layout) : Act π H δ η τ α) :=
  idle_within fun _ => .get_bind (fun _ => rfl) fun _ => commutes_onStore _

lemma idle_saveReport [Flash δ] : Idle (saveReport : Act π H δ η τ Unit) :=
  .get_bind (fun _ _ => rfl) fun _ => .bind (idle_log _) fun _ => idle_within fun _ =>
    .get_bind (fun _ => rfl) fun _ => commutes_onStore _

/-- No engine is out, `slots` is where there are engines in the pool, and the second run has spare ones. -/
structure Spared (slots : List Bool) (spares : List (Option η)) (r s : Run π H δ η τ) : Prop where
  digest : r.digest = none
  present : r.processor.digests.present = slots
  spare : s = r.spare spares

variable {slots : List Bool} {spares : List (Option η)} {ε : Type} {f : EStateM ε (Run π H δ η τ) α}

lemma Idle.respects (hf : Idle f) : Respects (Spared slots spares) f := by
  rintro r s ⟨hn, hp, rfl⟩
  have hd := hf.digests r
  have hs : (stateAfter (f r)).digest.map (·.slot) = none := (hf.slot r).trans (by rw [hn]; rfl)
  rw [hf.run_spare]
  cases h : f r with
  | ok a t | error e t =>
    rw [h] at hd hs
    rw [Option.map_eq_none_iff] at hs
    constructor
    exact ⟨hs, (congrArg DigestPool.present hd).trans hp, rfl⟩

lemma run_of_commutes {φ : Run π H δ η τ → Run π H δ η τ}
    {perform : SinkCall → EStateM Failure (Run π H δ η τ) Unit} (hp : ∀ c, Commutes φ (perform c))
    {observe : Note → Run π H δ η τ → Run π H δ η τ} (ho : ∀ n r, observe n (φ r) = φ (observe n r))
    (f : Feed α) (r : Run π H δ η τ) :
    f.run perform observe (φ r) = ((f.run perform observe r).1, φ (f.run perform observe r).2) := by
  induction f generalizing r with
  | done a => rfl
  | note n next ih =>
    simp only [Feed.run, ho]
    exact ih _
  | call c next ih =>
    simp only [Feed.run, hp c r]
    cases perform c r <;> exact ih _ _

section Digests

variable [Hash.Engine η]

lemma idle_hash (c : SinkCall) : Idle (hash c : EStateM Failure (Run π H δ η τ) Unit) := by
  refine ⟨fun _ => commutes_hash c, fun r => ?_⟩
  simp only [hash]
  split
  · rename_i s hs
    rw [stateAfter_onPart, SameSlot, hs]
    exact congrArg some (DigestSink.slot_call c s)
  · rfl

lemma idle_digestMatches : Idle (digestMatches : Act π H δ η τ Bool) := by
  refine ⟨fun _ => commutes_digestMatches, fun r => ?_⟩
  simp only [digestMatches]
  split
  · rename_i s hs
    rw [stateAfter_onPart, stateAfter_adaptExcept, SameSlot, hs]
    exact congrArg some (DigestSink.slot_digestMatch s)
  · rfl

lemma idle_checkDigest : Idle (checkDigest : Act π H δ η τ Unit) :=
  .bind idle_digestMatches fun _ => .ite (.pure _) (.throw _)

lemma openDigest_run (d : Digest) (r : Run π H δ η τ) :
    openDigest d r =
      match DigestPool.get d.algorithm d.value r.processor.digests with
      | .ok s digests => .ok () { r with processor := { r.processor with digests }, digest := some s }
      | .error e digests => .error e (r.putProcessor { r.processor with digests }) := by
  simp only [openDigest, EStateM.bind_run, onPart]
  cases DigestPool.get d.algorithm d.value r.processor.digests <;> rfl

lemma closeDigest_of_none {r : Run π H δ η τ} (h : r.digest = none) : closeDigest r = r := by
  rw [closeDigest, h]

lemma spared_closeDigest {r : Run π H δ η τ} {s : DigestSink η} (hs : r.digest = some s)
    (hl : s.slot < r.processor.digests.slots.length)
    (hp : (r.processor.digests.release s).present = slots) :
    Spared slots spares (closeDigest r) (closeDigest (r.spare spares)) := by
  have hd : (r.spare spares).digest = some s := hs
  simp only [closeDigest, hd, hs]
  refine ⟨rfl, hp, ?_⟩
  exact congrArg (fun digests => ({ r with
    processor := { r.processor with digests }
    digest := none } : Run π H δ η τ)) (DigestPool.put_extend hl _ spares)

lemma coupled_withoutDigest {f : Act π H δ η τ α} (hf : Idle f) {r : Run π H δ η τ}
    (h : Spared slots spares (closeDigest (stateAfter (f r))) (closeDigest ((stateAfter (f r)).spare spares))) :
    Coupled (Spared slots spares) (withDigest none f r) (withDigest none f (r.spare spares)) := by
  unfold withDigest
  dsimp only
  rw [hf.run_spare]
  cases hr : f r with
  | ok a s | error e s =>
    rw [hr] at h
    constructor
    exact h

lemma respects_withDigest (hs : 0 < slots.count true ∨ spares = []) (d : Option Digest)
    {f : Act π H δ η τ α} (hf : Idle f) : Respects (Spared slots spares) (withDigest d f) := by
  rintro r s ⟨hn, rfl, rfl⟩
  cases d with
  | none =>
    have hr : Spared r.processor.digests.present spares r (r.spare spares) := ⟨hn, rfl, rfl⟩
    obtain ⟨ht, hp, -⟩ := (hf.respects hr).stateAfter
    refine coupled_withoutDigest hf ?_
    rw [closeDigest_of_none ht, closeDigest_of_none (r := (stateAfter (f r)).spare spares) ht]
    exact ⟨ht, hp, rfl⟩
  | some d =>
    have hd (r : Run π H δ η τ) : withDigest (some d) f r =
        ((openDigest d).adaptExcept .platform >>= fun _ => withDigest none f) r := rfl
    have he : DigestPool.get d.algorithm d.value (r.spare spares).processor.digests = _ :=
      DigestPool.get_extend (hs.imp_left fun h => by rwa [DigestPool.available_eq]) d.algorithm d.value
    rw [hd, hd, EStateM.bind_run, EStateM.bind_run, EStateM.adaptExcept_run, EStateM.adaptExcept_run,
      openDigest_run, openDigest_run, he]
    cases hg : DigestPool.get d.algorithm d.value r.processor.digests with
    | error e pool => exact .error ⟨hn, DigestPool.present_of_error hg, rfl⟩
    | ok s pool =>
      -- An engine is out from here on. It goes back to its slot, since what follows keeps the slot in mind.
      let u : Run π H δ η τ := { r with
        processor := { r.processor with digests := pool }
        digest := some s }
      obtain ⟨t, ht, hts⟩ := Option.map_eq_some_iff.mp (hf.slot u)
      have hl := DigestPool.length_slots_of_get hg
      have hq := DigestPool.present_release hg hts
      refine coupled_withoutDigest (r := u) hf (spared_closeDigest ht ?_ ?_)
      · rwa [hf.digests, hts]
      · rwa [hf.digests]

end Digests

section Commands

variable [Platform π H]

lemma idle_ask (c : Call H) : Idle (ask c : Act π H δ η τ c.Reply) := idle_within fun _ => commutes_ask c

lemma idle_sink (h : H) (c : SinkCall) : Idle (sink h c : Act π H δ η τ Unit) :=
  .bind (idle_ask _) fun _ => idle_ask _

lemma idle_pump (chunk : Nat) (h : H) {write : Bytes → Act π H δ η τ Unit} (hw : ∀ b, Idle (write b))
    (limit offset : Nat) : Idle (pump chunk h write limit offset) := by
  induction hn : limit - offset using Nat.strongRecOn generalizing offset with
  | _ n ih =>
    rw [pump]
    split
    · exact .pure _
    · refine .bind (idle_ask _) fun b => ?_
      split
      · split
        · exact .bind (hw b) fun _ => ih _ (by omega) _ rfl
        · exact .pure _
      · exact .throw _

lemma idle_readThrough (h : H) (size : Option UInt32) {write : Bytes → Act π H δ η τ Unit}
    (hw : ∀ b, Idle (write b)) : Idle (readThrough h size write) :=
  .get_bind (fun _ _ => rfl) fun _ => idle_pump _ h hw _ _

lemma idle_startsWith (h : H) (offset : Nat) (content : Bytes) :
    Idle (startsWith (fun offset want => ask (.read h offset want)) offset content : Act π H δ η τ Bool) := by
  induction hn : content.length using Nat.strongRecOn generalizing offset content with
  | _ n ih =>
    rw [startsWith]
    split
    · exact .pure _
    · refine .bind (idle_ask _) fun b => ?_
      split
      · split
        · refine ih _ ?_ _ _ rfl
          rw [List.length_drop]
          omega
        · exact .pure _
      · exact .pure _

lemma idle_hasContent (h : H) (content : Bytes) : Idle (hasContent ask h content : Act π H δ η τ Bool) := by
  refine .bind (idle_ask _) fun b => ?_
  cases b with
  | some b => exact .pure b
  | none => exact idle_startsWith h 0 content

variable [Hash.Engine η]

lemma idle_tee (h : H) (c : SinkCall) : Idle (tee h c : EStateM Failure (Run π H δ η τ) Unit) := by
  have ha : Idle (onPart processor putProcessor (Processor.ask (.sink h c)) :
      EStateM Failure (Run π H δ η τ) Unit) :=
    ⟨fun _ => .onPart (fun _ => rfl) (fun _ _ => rfl) (commutes_ask _),
      .onPart (S := fun _ _ => True) (fun _ => trivial) fun _ _ _ => rfl⟩
  exact .bind ha fun _ => idle_hash c

lemma idle_streamInto [Source τ] (ps : Payloads) (type : ComponentType) (uri : Text) (h : H) :
    Idle (streamInto ps type uri h : Act π H δ η τ Unit) := by
  refine ⟨fun d r => ?_, follows_streamInto (fun c => (idle_tee h c).slot) (fun _ _ => rfl) (fun _ _ => rfl) ps
    type uri⟩
  let observe (n : Note) (r : Run π H δ η τ) : Run π H δ η τ := r.putProcessor (r.processor.log (.note n))
  let feed (r : Run π H δ η τ) := payloadFeed ps type uri r.processor.options.stream r.processor.sources
  have ho (n : Note) (r : Run π H δ η τ) :
      observe n (equip (fun _ => d) id r) = equip (fun _ => d) id (observe n r) := rfl
  have hr : (feed (equip (fun _ => d) id r)).run (tee h) observe (equip (fun _ => d) id r) = _ :=
    run_of_commutes (fun c => (idle_tee h c).commutes d) ho (feed r) r
  simp only [streamInto]
  rw [hr]
  obtain ⟨⟨_ | _, _⟩, s⟩ := (feed r).run (tee h) observe r
  · rfl
  · rfl

omit [Hash.Engine η] in
lemma blind_spared : Blind (Spared slots spares : Run π H δ η τ → Run π H δ η τ → Prop) where
  members _ _ h := by rw [h.spare]; rfl
  selected _ _ h := by rw [h.spare]; rfl
  config _ _ h := by rw [h.spare]; rfl
  log _ _ _ h := ⟨h.digest, h.present, by rw [h.spare]; rfl⟩
  revise _ _ _ _ h := ⟨h.digest, h.present, by rw [h.spare]; rfl⟩
  ask c _ _ := (idle_within fun _ => commutes_ask c).respects

lemma unaware_spared (hs : 0 < slots.count true ∨ spares = []) :
    Unaware (Spared slots spares : Run π H δ η τ → Run π H δ η τ → Prop) where
  toBlind := blind_spared
  layout _ _ h := by rw [h.spare]; rfl
  store _ _ h := by rw [h.spare]; rfl
  report _ _ _ h := ⟨h.digest, h.present, by rw [h.spare]; rfl⟩
  call c _ := (idle_within fun _ => commutes_ask c).respects
  manifestMatches _ := respects_withDigest hs _ (.bind (.adaptExcept (idle_hash _)) fun _ =>
    .bind (.adaptExcept (idle_hash _)) fun _ => idle_digestMatches)

namespace Spared

variable [Flash δ] (hs : 0 < slots.count true ∨ spares = []) (mode : Mode)
include hs

omit [Flash δ] in
lemma imageMatches (h : H) (d : Digest) (size : Option UInt32) :
    Respects (Spared slots spares) (imageMatches h d size : Act π H δ η τ Bool) :=
  respects_withDigest hs _ (.bind (idle_readThrough h size fun _ => .adaptExcept (idle_hash _)) fun _ =>
    .ite (.pure _) idle_digestMatches)

lemma holds (c : Condition) (m : Member H) :
    Respects (Spared slots spares) (holds mode c m : Act π H δ η τ Bool) := by
  have hB : Blind (Spared slots spares : Run π H δ η τ → Run π H δ η τ → Prop) := blind_spared
  simp only [Run.holds]
  cases m.target with
  | component h =>
    cases c with
    | vendorIdentifier | classIdentifier | deviceIdentifier | componentSlot =>
      exact .bind (respects_need _) fun _ => (idle_ask _).respects
    | checkContent =>
      refine .bind (respects_need _) fun content => .bind (respects_authorize hB h .read) fun _ => ?_
      cases mode with
      | validate => exact .pure _
      | execute => exact (idle_hasContent h content).respects
    | imageMatch =>
      refine .bind (respects_need _) fun d => .bind (respects_authorize hB h .read) fun _ => ?_
      cases mode with
      | validate => exact .pure _
      | execute => exact imageMatches hs h d _
    | abort => exact .pure _
  | «variable» id =>
    refine .check (.bind (respects_need _) fun content => .bind (respects_access hB id) fun _ => .check ?_)
    cases mode with
    | validate => exact .pure _
    | execute =>
      exact .bind (idle_within fun _ => commutes_readVariable id).respects fun _ => .pure _

omit hs in
lemma write (m : Member H) : Respects (Spared slots spares) (write mode m : Act π H δ η τ Unit) := by
  refine .bind (respects_need _) fun content => ?_
  cases m.target with
  | component h =>
    refine .bind (respects_authorize blind_spared h .write) fun _ => ?_
    cases mode with
    | validate => exact .pure _
    | execute =>
      exact Idle.respects (.bind (idle_ask _) fun _ => .bind (idle_ask _) fun _ => .bind (idle_ask _) fun _ =>
        idle_ask _)
  | «variable» id =>
    refine .check (.bind (respects_access blind_spared id) fun _ => .check ?_)
    cases mode with
    | validate => exact .pure _
    | execute => exact (idle_within fun _ => commutes_setVariable id _).respects

omit [Flash δ] in
lemma fetch [Source τ] (ps : Payloads) (m : Member H) :
    Respects (Spared slots spares) (fetch mode ps m : Act π H δ η τ Unit) := by
  refine .bind (respects_need _) fun uri => .bind (respects_handle m) fun h =>
    .bind (respects_authorize blind_spared h .fetch) fun _ => ?_
  cases mode with
  | validate => exact .pure _
  | execute =>
    exact respects_withDigest hs _ (.bind (idle_sink h _) fun _ =>
      .bind (idle_streamInto ps m.id.type uri h) fun _ => .bind (idle_ask _) fun _ => idle_checkDigest)

omit [Flash δ] in
lemma copy (i : Nat) (m : Member H) :
    Respects (Spared slots spares) (copy mode i m : Act π H δ η τ Unit) := by
  refine .bind (respects_pair blind_spared i m) fun (target, source) =>
    .bind (respects_authorize blind_spared source .read) fun _ =>
      .bind (respects_authorize blind_spared target .copy) fun _ => ?_
  cases mode with
  | validate => exact .pure _
  | execute =>
    have hf : Idle (do sink target .flush; checkDigest : Act π H δ η τ Unit) :=
      .bind (idle_sink target _) fun _ => idle_checkDigest
    exact respects_withDigest hs _ (.bind (idle_sink target _) fun _ =>
      .bind (idle_readThrough source _ fun b => .bind (idle_sink target _) fun _ =>
        .adaptExcept (idle_hash _)) fun n => .ite (.bind (.throw _) fun _ => hf) hf)

omit hs [Flash δ] [Hash.Engine η] in
lemma swap (i : Nat) (m : Member H) :
    Respects (Spared slots spares) (swap mode i m : Act π H δ η τ Unit) := by
  refine .bind (respects_pair blind_spared i m) fun (target, source) =>
    .bind (respects_authorize blind_spared target .swap) fun _ =>
      .bind (respects_authorize blind_spared source .swap) fun _ => ?_
  cases mode with
  | validate => exact .pure _
  | execute => exact (idle_ask _).respects

omit hs [Flash δ] [Hash.Engine η] in
lemma invoke (m : Member H) : Respects (Spared slots spares) (invoke mode m : Act π H δ η τ Unit) := by
  refine .bind (respects_handle m) fun h => .bind (respects_authorize blind_spared h .invoke) fun _ => ?_
  cases mode with
  | validate => exact .pure _
  | execute => exact (idle_ask _).respects

lemma each [Source τ] {k : Pass} {c : Command} {f : Nat → Act π H δ η τ Unit} (h : k.each c = some f)
    (i : Nat) : Respects (Spared slots spares) (f i) := by
  have hm {g : Member H → Act π H δ η τ Unit} (hg : ∀ m, Respects (Spared slots spares) (g m)) :
      Respects (Spared slots spares) (do g (← member i)) := .bind (respects_member blind_spared i) hg
  cases c with
  | overrideParameters p =>
    cases h
    exact respects_override blind_spared p i
  | condition d =>
    cases d with
    | abort => cases h
    | _ =>
      cases h
      exact hm fun m => .bind (holds hs k.mode _ m) fun b =>
        .bind (respects_log blind_spared _) fun _ => .ite (.pure _) (.throw _)
  | write => cases h; exact hm fun m => write k.mode m
  | fetch => cases h; exact hm fun m => fetch hs k.mode _ m
  | copy => cases h; exact hm fun m => copy hs k.mode i m
  | swap => cases h; exact hm fun m => swap k.mode i m
  | invoke => cases h; exact hm fun m => invoke k.mode m
  | setComponentIndex _ | tryEach _ | runSequence _ => cases h

lemma pass [Source τ] (k : Pass) (kinds : List SequenceKind) :
    Respects (Spared slots spares) (pass k kinds : Act π H δ η τ Unit) :=
  (unaware_spared hs).pass (fun _ _ h => each hs h) kinds

lemma checkUpdate [Source τ] (b : Bytes) (a : Arena) :
    Respects (Spared slots spares) (Run.checkUpdate b a : Act π H δ η τ Unit) :=
  .bind ((unaware_spared hs).accept b a) fun _ => pass hs _ _

lemma update [Source τ] (b : Bytes) (a : Arena) :
    Respects (Spared slots spares) (Run.update b a : Act π H δ η τ Unit) :=
  .bind ((unaware_spared hs).accept b a) fun (_, c) => .bind (pass hs _ _) fun _ => .bind (pass hs _ _) fun _ =>
    .bind ((unaware_spared hs).enter _) fun _ =>
      .bind (idle_onDevice fun l => installEnvelope l c b).respects fun _ => (unaware_spared hs).enter _

lemma boot [Source τ] (c : Uuid) (a : Arena) :
    Respects (Spared slots spares) (Run.boot c a : Act π H δ η τ Unit) := by
  rw [boot_eq]
  exact .bind ((unaware_spared hs).acceptInstalled c a) fun _ => .bind (pass hs _ _) fun _ =>
    .bind (pass hs _ _) fun _ => (unaware_spared hs).enter _

omit hs [Flash δ] [Hash.Engine η] [Platform π H] in
lemma withoutSources {f : Act π H δ η τ α} (hf : Respects (Spared slots spares) f) :
    Respects (Spared slots spares) (withoutSources f) := by
  rintro r s ⟨hn, hp, rfl⟩
  have h := hf (s := r.putProcessor { r.processor with sources := [] }) ⟨hn, hp, rfl⟩
  simp only [Run.withoutSources]
  change Coupled _ _ (f ((r.spare spares).putProcessor { (r.spare spares).processor with sources := [] })) at h
  generalize f (r.putProcessor { r.processor with sources := [] }) = x at h ⊢
  generalize f ((r.spare spares).putProcessor { (r.spare spares).processor with sources := [] }) = y at h ⊢
  cases h with
  | ok h | error h =>
    obtain ⟨hn, hp, rfl⟩ := h
    constructor
    exact ⟨hn, hp, rfl⟩

omit hs [Platform π H] [Hash.Engine η] in
lemma requestRecovery {r s : Run π H δ η τ} (h : Spared slots spares r s) :
    Spared slots spares (requestRecovery r) (requestRecovery s) := by
  have hr (r : Run π H δ η τ) : Run.requestRecovery r =
      stateAfter ((within .platform do onDevice (setFlag (← get).layout .recovery) : Act π H δ η τ Unit) r) := by
    rw [within, stateAfter_onPart, stateAfter_adaptExcept]
    rfl
  rw [hr, hr]
  exact ((idle_onDevice fun l => setFlag l .recovery).respects h).stateAfter

omit hs [Platform π H] [Hash.Engine η] [Flash δ] in
lemma finish {r s : Run π H δ η τ} (h : Spared slots spares r s) (x : Except Error Unit) :
    Spared slots spares (r.finish x) (s.finish x) :=
  ⟨h.digest, h.present, by rw [h.spare]; rfl⟩

end Spared

end Commands

end Run

structure Spared (slots : List Bool) (spares : List (Option η)) (p q : Processor π H δ η τ) : Prop where
  present : p.digests.present = slots
  spare : q = p.withSpares spares

variable {slots : List Bool} {spares : List (Option η)}

lemma Spared.of_run {r s : Run π H δ η τ} (h : Run.Spared slots spares r s) :
    Spared slots spares r.processor s.processor :=
  ⟨h.present, by rw [h.spare]; rfl⟩

lemma Spared.start {p q : Processor π H δ η τ} (h : Spared slots spares p q) :
    Run.Spared slots spares (.start p) (.start q) :=
  ⟨rfl, h.present, by rw [h.spare]; rfl⟩

lemma Spared.reporting [Flash δ] {f : Run.Act π H δ η τ Unit} (hf : Respects (Run.Spared slots spares) f) :
    Respects (Spared slots spares) (reporting f) := by
  intro p q h
  have h := hf h.start
  simp only [Processor.reporting]
  generalize f (.start p) = x at h ⊢
  generalize f (.start q) = y at h ⊢
  cases h with
  | @ok u r s h =>
    have hs := Run.idle_saveReport.respects (h.finish (.ok u))
    simp only [answer_ok, stateAfter_ok]
    generalize Run.saveReport (Run.finish (.ok u) r) = x at hs ⊢
    generalize Run.saveReport (Run.finish (.ok u) s) = y at hs ⊢
    cases hs with
    | ok h => exact .ok (.of_run h)
    | error h => exact .error (.of_run h)
  | @error e r s h =>
    exact .error (.of_run (Run.idle_saveReport.respects (h.finish (.error e))).stateAfter)

variable [Platform π H] [Flash δ] [Hash.Engine η] [Source τ] (hs : 0 < slots.count true ∨ spares = [])
include hs

lemma Spared.update (b : Bytes) (a : Arena) :
    Respects (Spared slots spares) (update b a : EStateM Error (Processor π H δ η τ) Unit) :=
  Spared.reporting (Run.Spared.update hs b a)

lemma Spared.checkUpdate (b : Bytes) (a : Arena) :
    Respects (Spared slots spares) (checkUpdate b a : EStateM Error (Processor π H δ η τ) Unit) := by
  intro p q h
  have h := Run.Spared.withoutSources (Run.Spared.checkUpdate hs b a) h.start
  simp only [Processor.checkUpdate]
  generalize Run.withoutSources (Run.checkUpdate b a) (.start p) = x at h ⊢
  generalize Run.withoutSources (Run.checkUpdate b a) (.start q) = y at h ⊢
  cases h with
  | ok h => exact .ok (.of_run h)
  | error h => exact .error (.of_run h)

lemma Spared.boot (c : Uuid) (a : Arena) :
    Respects (Spared slots spares) (boot c a : EStateM Error (Processor π H δ η τ) Unit) := by
  refine Spared.reporting fun r s h => ?_
  have h := Run.Spared.withoutSources (Run.Spared.boot hs c a) h
  generalize Run.withoutSources (Run.boot c a) r = x at h ⊢
  generalize Run.withoutSources (Run.boot c a) s = y at h ⊢
  cases h with
  | ok h => exact .ok h
  | error h => exact .error h.requestRecovery

end Processor

end Firmware
