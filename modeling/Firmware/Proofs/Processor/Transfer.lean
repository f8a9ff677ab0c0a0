import Firmware.Proofs.Processor.Gate
import Firmware.Proofs.Stream.Heeding
import Firmware.Stream.Channel

/-!
What moves into a component under a digest. The hash sees what the component took, write by write, and
nothing else that is done to the component goes unnoticed.
-/

namespace Firmware.Processor

open Flash Manifest Storage

variable {π H δ η τ α : Type}

def Event.written : Event H → Bytes
  | .call (.sink _ (.write data)) (.ok _) => data
  | _ => []

def Event.bytesRead : Event H → Bytes
  | .call (.read ..) (.ok b) => b
  | _ => []

def written (es : List (Event H)) : Bytes := es.flatMap Event.written

def bytesRead (es : List (Event H)) : Bytes := es.flatMap Event.bytesRead

@[simp] lemma written_nil : written ([] : List (Event H)) = [] := rfl

@[simp] lemma written_cons (e : Event H) (es : List (Event H)) :
    written (e :: es) = e.written ++ written es := rfl

def Event.IsFeeding (h : H) : Event H → Prop
  | .note _ => True
  | .call (.sink h' (.write _)) _ => h' = h
  | _ => False

/-- The component was erased, written to and flushed, and what it took has the digest. -/
def Fetched (F : Hash.Algorithm → Bytes → Bytes) (d : Digest) (h : H) (es : List (Event H)) : Prop :=
  ∃ during, es =
      [.call (.checkOperation h .fetch) (.ok ()), .call (.openSink h) (.ok ()),
        .call (.sink h .erase) (.ok ())] ++ during ++ [.call (.sink h .flush) (.ok ())] ∧
    (∀ e ∈ during, e.IsFeeding h) ∧ F d.algorithm (written during) = d.value

inductive Relayed (source target : H) : Nat → List (Event H) → Prop
  | full {offset : Nat} : Relayed source target offset []
  | ended {offset want : Nat} : Relayed source target offset [.call (.read source offset want) (.ok [])]
  | piece {offset want : Nat} {b : Bytes} {es : List (Event H)} :
      Relayed source target (offset + b.length) es → Relayed source target offset
        (.call (.read source offset want) (.ok b) :: .call (.openSink target) (.ok ()) ::
          .call (.sink target (.write b)) (.ok ()) :: es)

lemma Relayed.written_eq {source target : H} {offset : Nat} {es : List (Event H)}
    (h : Relayed source target offset es) : written es = bytesRead es := by
  induction h with
  | full => rfl
  | ended => rfl
  | piece _ ih => exact congrArg _ ih

/-- The component was erased, and took what was read from another one, which has the digest and, if one
is given, the size. -/
def Copied (F : Hash.Algorithm → Bytes → Bytes) (d : Digest) (size : Option UInt32) (source target : H)
    (es : List (Event H)) : Prop :=
  ∃ during, es =
      [.call (.checkOperation source .read) (.ok ()), .call (.checkOperation target .copy) (.ok ()),
        .call (.openSink target) (.ok ()), .call (.sink target .erase) (.ok ())] ++ during ++
        [.call (.openSink target) (.ok ()), .call (.sink target .flush) (.ok ())] ∧
    Relayed source target 0 during ∧ written during = bytesRead during ∧
    F d.algorithm (written during) = d.value ∧ ∀ n ∈ size, (written during).length = n.toNat

def FetchOf (F : Hash.Algorithm → Bytes → Bytes) (_ : List (Member H)) (m : Member H)
    (es : List (Event H)) : Prop :=
  ∀ d, m.parameters.imageDigest = some d → ∃ h, m.target = .component h ∧ Fetched F d h es

def CopyOf (F : Hash.Algorithm → Bytes → Bytes) (ms : List (Member H)) (m : Member H)
    (es : List (Event H)) : Prop :=
  ∀ d, m.parameters.imageDigest = some d → ∃ j x source target,
    m.parameters.sourceComponent = some j ∧ ms[j.toNat]? = some x ∧ x.target = .component source ∧
    m.target = .component target ∧ Copied F d m.parameters.imageSize source target es

variable [Platform π H] [Flash δ]

namespace Run

section Hashing

variable {F : Hash.Algorithm → Bytes → Bytes} [Hash.Engine η] [Hash.Sound F η]
variable {r s : Run π H δ η τ} {a : Hash.Algorithm} {b x : Bytes} {h : H}

omit [Platform π H] [Flash δ] [Hash.Sound F η] in
lemma processor_hash (c : SinkCall) (r : Run π H δ η τ) :
    (stateAfter (hash c r)).processor = r.processor := by
  simp only [hash]
  split
  · rw [stateAfter_onPart]
  · rfl

omit [Platform π H] [Flash δ] [Hash.Sound F η] in
lemma hash_raises (c : SinkCall) :
    Raises (· ≠ .notFound) (hash c : EStateM Failure (Run π H δ η τ) Unit) := by
  have hw (c : SinkCall) :
      Raises (· ≠ .notFound) (Sink.call c : EStateM Failure (DigestSink η) Unit) := by
    cases c with
    | write data =>
      have he : Raises (· ≠ .notFound) ((DigestSink.onEngine (Hash.Engine.write data)).adaptExcept
          Hash.Error.failure : EStateM Failure (DigestSink η) Unit) :=
        .adaptExcept fun e => by cases e <;> decide
      change Raises _ (DigestSink.write data)
      rw [DigestSink.write]
      refine .bind .get fun k => ?_
      split
      · exact .throw (e := Failure.incorrectState) (by decide)
      · exact he
    | erase | flush => exact .pure _
    | seek n => exact .throw (e := Failure.unsupported) (by decide)
  intro r e s hs
  simp only [hash] at hs
  split at hs
  · exact Raises.onPart (hw c) r e s hs
  · cases hs

omit [Platform π H] [Flash δ] in
lemma hash_seek (n : Nat) (hr : Hashes F a b x r) : ∃ t, hash (.seek n) r = .error .unsupported t := by
  obtain ⟨k, hk, -⟩ := hr
  simp only [hash, hk]
  exact ⟨_, rfl⟩

omit [Flash δ] [Hash.Sound F η] in
lemma tee_run (h : H) (c : SinkCall) (r : Run π H δ η τ) :
    tee h c r =
      match Processor.ask (.sink h c) r.processor with
      | .ok _ q => hash c (r.putProcessor q)
      | .error e q => .error e (r.putProcessor q) := by
  simp only [tee, EStateM.bind_run, onPart]
  cases Processor.ask (.sink h c) r.processor <;> rfl

/-- After `b` was hashed, what the component takes on the way from one run to another is hashed too. -/
def Feeds (F : Hash.Algorithm → Bytes → Bytes) [Hash.Sound F η] (h : H) (a : Hash.Algorithm) (b x : Bytes)
    (r s : Run π H δ η τ) : Prop :=
  ∃ es, Account es r.processor s.processor ∧ (∀ e ∈ es, e.IsFeeding h) ∧ Hashes F a (b ++ written es) x s

lemma Feeds.cons {e : Event H} {t : Run π H δ η τ} {c : Bytes} (he : Account [e] r.processor t.processor)
    (hi : e.IsFeeding h) (hc : b ++ e.written = c) (ht : Feeds F h a c x t s) : Feeds F h a b x r s := by
  obtain ⟨es, hes, hw, hh⟩ := ht
  refine ⟨e :: es, he.trans hes, List.forall_mem_cons.mpr ⟨hi, hw⟩, ?_⟩
  rwa [written_cons, ← List.append_assoc, hc]

def observe (n : Note) (r : Run π H δ η τ) : Run π H δ η τ := r.putProcessor (r.processor.log (.note n))

lemma run_heeds {P : α → Prop} {f : Feed α} (hf : f.Heeds P) (hr : Hashes F a b x r) :
    P (f.run (tee h) observe r).1 ∨ Feeds F h a b x r (f.run (tee h) observe r).2 := by
  induction f generalizing b r with
  | done y => exact .inr ⟨[], .refl _, fun _ he => (by cases he), (List.append_nil b).symm ▸ hr⟩
  | note n next ih =>
    have hn : Account [.note n] r.processor (observe n r).processor := .log _ fun _ _ h => by cases h
    exact (ih (r := observe n r) hf hr).imp_right (Feeds.cons hn trivial (List.append_nil b))
  | call c next ih =>
    rw [Feed.run, tee_run]
    cases c with
    | erase | flush => cases hf
    | seek n =>
      refine .inl ?_
      cases hp : Processor.ask (.sink h (.seek n)) r.processor with
      | error e q => exact (hf e).run ..
      | ok u q =>
        -- The component may have sought, the digest never does.
        obtain ⟨t, ht⟩ := hash_seek (r := r.putProcessor q) n hr
        simp only [ht]
        exact (hf _).run ..
    | write data =>
      obtain ⟨ho, hn, he⟩ := hf
      cases hp : Processor.ask (.sink h (.write data)) r.processor with
      | error e q =>
        by_cases hne : e = .notFound
        · subst hne
          have hi : Event.IsFeeding h (.call (.sink h (.write data)) (.error .notFound)) := rfl
          exact (ih _ (r := r.putProcessor q) hn hr).imp_right
            (Feeds.cons (ask_eq_error hp) hi (List.append_nil b))
        · exact .inl ((he e hne).run ..)
      | ok u q =>
        dsimp only
        cases hh : hash (.write data) (r.putProcessor q) with
        | error e t => exact .inl ((he e (hash_raises _ _ _ _ hh)).run ..)
        | ok u t =>
          have hq := ask_eq_ok hp
          have ht := processor_hash (.write data) (r.putProcessor q)
          rw [hh] at ht
          have hw : Account [.call (.sink h (.write data)) (.ok u)] r.processor t.processor :=
            (show t.processor = q from ht) ▸ hq
          have hi : Event.IsFeeding h (.call (.sink h (.write data)) (.ok u)) := rfl
          exact (ih _ ho (hash_eq_ok (r := r.putProcessor q) hr hh)).imp_right (Feeds.cons hw hi rfl)

lemma checkDigest_eq_ok (hr : Hashes F a b x r) (h : checkDigest r = .ok () s) :
    F a b = x ∧ Account [] r.processor s.processor := by
  have ha : Account [] r.processor s.processor := quiet_eq_ok (Steps.along steps_checkDigest) h
  obtain ⟨y, t, hy, h⟩ := EStateM.bind_eq_ok h
  cases y with
  | true => exact ⟨digestMatches_eq_true hr hy, ha⟩
  | false => cases h

variable [Source τ] [Heeding τ] {ps : Payloads} {uri : Text} {type : ComponentType}

omit [Flash δ] [Hash.Engine η] [Platform π H] in
lemma heeds_payloadFeed (o : StreamOptions) (sources : List τ) :
    (payloadFeed ps type uri o sources).Heeds fun x => Stops x.1 := by
  refine (Heeding.heeds ps uri o).bind ?_ ?_
  · rintro ⟨r, p⟩ hr
    cases r with
    | ok u => cases hr
    | error e =>
      cases e with
      | notFound => exact absurd rfl hr
      | _ => exact hr
  · rintro ⟨r, p⟩
    cases r with
    | ok u => trivial
    | error e =>
      cases e with
      | notFound => exact Source.heeds_fetch ..
      | _ => trivial

omit [Flash δ] [Hash.Sound F η] [Heeding τ] in
lemma streamInto_run (r : Run π H δ η τ) :
    streamInto ps type uri h r =
      match (payloadFeed ps type uri r.processor.options.stream r.processor.sources).run (tee h) observe r with
      | ((.ok (), sources), t) => .ok () (t.putProcessor { t.processor with sources })
      | ((.error e, sources), t) => .error (.platform e) (t.putProcessor { t.processor with sources }) := by
  have hn : observe = fun n (r : Run π H δ η τ) => r.putProcessor (r.processor.log (.note n)) := rfl
  simp only [streamInto]
  rw [← hn]
  cases (payloadFeed ps type uri r.processor.options.stream r.processor.sources).run (tee h) observe r with
  | mk y t =>
    obtain ⟨result, sources⟩ := y
    cases result <;> rfl

lemma streamInto_eq_ok (hr : Hashes F a b x r) (hs : streamInto ps type uri h r = .ok () s) :
    Feeds F h a b x r s := by
  have hp : (payloadFeed ps type uri r.processor.options.stream r.processor.sources).Heeds fun x => Stops x.1 :=
    heeds_payloadFeed _ _
  have hf := run_heeds (h := h) hp hr
  rw [streamInto_run] at hs
  generalize (payloadFeed ps type uri r.processor.options.stream r.processor.sources).run (tee h)
    observe r = y at hf hs
  obtain ⟨⟨result, sources⟩, t⟩ := y
  cases result with
  | error e => cases hs
  | ok u =>
    cases hs
    obtain ⟨es, hes, hi, hh⟩ := hf.resolve_left id
    have ha : Account [] t.processor { t.processor with sources } := .aside rfl rfl rfl rfl rfl rfl
    refine ⟨es, ?_, hi, hh⟩
    have he := hes.trans ha
    rwa [List.append_nil] at he

lemma fetch_eq_ok {d : Digest} {m : Member H} (hd : m.parameters.imageDigest = some d)
    (hf : fetch .execute ps m r = .ok () s) :
    ∃ h es, m.target = .component h ∧ Account es r.processor s.processor ∧ Fetched F d h es := by
  obtain ⟨uri, r₁, h₁, hf₁⟩ := EStateM.bind_eq_ok hf
  obtain ⟨-, rfl⟩ := need_eq_ok h₁
  obtain ⟨h, r₂, h₂, hf₂⟩ := EStateM.bind_eq_ok hf₁
  obtain ⟨ht, rfl⟩ := handle_eq_ok h₂
  obtain ⟨_, r₃, h₃, hf₃⟩ := EStateM.bind_eq_ok hf₂
  obtain ⟨p, hp, rfl⟩ := call_eq_ok h₃
  dsimp only at hf₃
  rw [hd] at hf₃
  obtain ⟨r₄, r₅, ho, hh, hb, hc⟩ := withDigest_eq_ok (F := F) hf₃
  obtain ⟨_, r₆, h₆, hb₆⟩ := EStateM.bind_eq_ok hb
  obtain ⟨q, hq, rfl⟩ := sink_eq_ok h₆
  obtain ⟨_, r₇, h₇, hb₇⟩ := EStateM.bind_eq_ok hb₆
  obtain ⟨es, hes, hi, hh₇⟩ := streamInto_eq_ok (r := r₄.putProcessor q) hh h₇
  obtain ⟨_, r₈, h₈, hb₈⟩ := EStateM.bind_eq_ok hb₇
  obtain ⟨q', hq', rfl⟩ := call_eq_ok h₈
  obtain ⟨hv, hm⟩ := checkDigest_eq_ok (r := r₇.putProcessor q') hh₇ hb₈
  refine ⟨h, _, ht, hp.trans (ho.trans (hq.trans (hes.trans (hq'.trans (hm.trans hc))))), es, ?_, hi, hv⟩
  simp

omit [Source τ] [Heeding τ] in
lemma pump_eq_ok {source target : H} {chunk limit offset n : Nat} (hr : Hashes F a b x r)
    (hp : pump chunk source (fun c => do
      sink target (.write c)
      (hash (.write c)).adaptExcept .platform) limit offset r = .ok n s) :
    ∃ es, Account es r.processor s.processor ∧ Relayed source target offset es ∧
      Hashes F a (b ++ written es) x s ∧ n = offset + (written es).length := by
  -- On what is left to read. What was hashed so far grows with every piece.
  induction hk : limit - offset using Nat.strongRecOn generalizing offset b r with
  | _ k ih =>
    rw [pump] at hp
    split at hp
    · cases hp
      exact ⟨[], .refl _, .full, (List.append_nil b).symm ▸ hr, rfl⟩
    obtain ⟨c, r₁, h₁, hp₁⟩ := EStateM.bind_eq_ok hp
    obtain ⟨p, hread, rfl⟩ := call_eq_ok h₁
    split at hp₁
    · split at hp₁
      · obtain ⟨_, r₂, h₂, hp₂⟩ := EStateM.bind_eq_ok hp₁
        obtain ⟨_, r₃, h₃, h₂'⟩ := EStateM.bind_eq_ok h₂
        obtain ⟨q, hwrite, rfl⟩ := sink_eq_ok h₃
        have hw := EStateM.adaptExcept_eq_ok h₂'
        have hq := processor_hash (.write c) ((r.putProcessor p).putProcessor q)
        rw [hw] at hq
        have hwrite := (show r₂.processor = q from hq) ▸ hwrite
        obtain ⟨es, hes, hrel, hh, hn⟩ := ih _ (by omega) (hash_eq_ok (by exact hr) hw) hp₂ rfl
        refine ⟨_, hread.trans (hwrite.trans hes), .piece hrel, ?_, ?_⟩
        · simpa [Event.written] using hh
        · simp [Event.written, hn]
          omega
      · rename_i h0
        cases hp₁
        rw [List.length_eq_zero_iff.mp (Nat.eq_zero_of_not_pos h0)] at hread
        exact ⟨_, hread, .ended, (List.append_nil b).symm ▸ hr, rfl⟩
    · cases hp₁

omit [Source τ] [Heeding τ] in
lemma copy_eq_ok {d : Digest} {i : Nat} {m : Member H} (hd : m.parameters.imageDigest = some d)
    (hf : copy .execute i m r = .ok () s) :
    ∃ j y source target es, m.parameters.sourceComponent = some j ∧ r.members[j.toNat]? = some y ∧
      y.target = .component source ∧ m.target = .component target ∧
      Account es r.processor s.processor ∧ Copied F d m.parameters.imageSize source target es := by
  obtain ⟨⟨target, source⟩, r₁, h₁, hf₁⟩ := EStateM.bind_eq_ok hf
  obtain ⟨ht, ⟨j, y, hj, hy, hs⟩, rfl⟩ := pair_eq_ok h₁
  obtain ⟨_, r₂, h₂, hf₂⟩ := EStateM.bind_eq_ok hf₁
  obtain ⟨p, hp, rfl⟩ := call_eq_ok h₂
  obtain ⟨_, r₃, h₃, hf₃⟩ := EStateM.bind_eq_ok hf₂
  obtain ⟨p', hp', rfl⟩ := call_eq_ok h₃
  dsimp only at hf₃
  rw [hd] at hf₃
  obtain ⟨r₄, r₅, ho, hh, hb, hc⟩ := withDigest_eq_ok (F := F) hf₃
  obtain ⟨_, r₆, h₆, hb₆⟩ := EStateM.bind_eq_ok hb
  obtain ⟨q, hq, rfl⟩ := sink_eq_ok h₆
  obtain ⟨n, r₇, h₇, hb₇⟩ := EStateM.bind_eq_ok hb₆
  obtain ⟨_, _, hg, h₇'⟩ := EStateM.bind_eq_ok h₇
  cases hg
  obtain ⟨es, hes, hrel, hh₇, hn⟩ := pump_eq_ok (r := r₄.putProcessor q) hh h₇'
  split at hb₇
  · cases hb₇
  rename_i hsize
  obtain ⟨_, r₈, h₈, hb₈⟩ := EStateM.bind_eq_ok hb₇
  obtain ⟨q', hq', rfl⟩ := sink_eq_ok h₈
  obtain ⟨hv, hm⟩ := checkDigest_eq_ok (r := r₇.putProcessor q') hh₇ hb₈
  refine ⟨j, y, source, target, _, hj, hy, hs, ht,
    hp.trans (hp'.trans (ho.trans (hq.trans (hes.trans (hq'.trans (hm.trans hc)))))), es, by simp, hrel,
    hrel.written_eq, hv, fun k hk => ?_⟩
  rw [Option.mem_def.mp hk] at hsize
  simp only [Option.any_some, decide_not, Bool.not_eq_true', decide_eq_false_iff_not, not_not] at hsize
  omega

end Hashing

section Commands

variable {r s : Run π H δ η τ}

/-- Between two runs, `Q` tells of each selected component what was done to it, in their order. -/
def Treats (c : Command) (Q : List (Member H) → Member H → List (Event H) → Prop)
    (r s : Run π H δ η τ) : Prop :=
  ∃ ess, Account (.command c :: ess.flatten) r.processor s.processor ∧
    List.Forall₂ (fun i es => ∃ m, r.members[i]? = some m ∧ Q r.members m es) r.selected ess

lemma treats_of_eq_ok {c : Command} {f : Nat → Member H → Act π H δ η τ Unit}
    {Q : List (Member H) → Member H → Digest → List (Event H) → Prop}
    (hs : ∀ i m, Follows (Steps (fun _ => True) (Does (Permitted .execute))) (f i m))
    (hf : ∀ i m d t u, m.parameters.imageDigest = some d → f i m t = .ok () u →
      ∃ es, Account es t.processor u.processor ∧ Q t.members m d es)
    (h : (do log (.command c); forSelected fun i => do f i (← member i) : Act π H δ η τ Unit) r = .ok () s) :
    Treats c (fun ms m es => ∀ d, m.parameters.imageDigest = some d → Q ms m d es) r s := by
  obtain ⟨_, t, ht, h'⟩ := EStateM.bind_eq_ok h
  cases ht
  have hq (i : Nat) (m : Member H) (t u : Run π H δ η τ) (ht : t.members = r.members)
      (hu : f i m t = .ok () u) : u.members = r.members ∧ ∃ es, Account es t.processor u.processor ∧
        ∀ d, m.parameters.imageDigest = some d → Q r.members m d es := by
    obtain ⟨⟨es, he, -⟩, hm, -⟩ := (hs i m).of_ok hu fun _ _ _ _ => trivial
    refine ⟨hm.trans ht, ?_⟩
    -- Without a digest nothing is known but that there is an account.
    cases hd : m.parameters.imageDigest with
    | none => exact ⟨es, he, fun d hd => by cases hd⟩
    | some d =>
      obtain ⟨es, he, hq⟩ := hf i m d t u hd hu
      refine ⟨es, he, fun d' hd' => ?_⟩
      cases hd'
      exact ht ▸ hq
  obtain ⟨ess, ha, hq⟩ := forSelected_eq_ok (r := r.putProcessor (r.processor.log (.command c))) hq h'
  exact ⟨ess, (Account.log r.processor fun _ _ h => by cases h).trans ha, hq⟩

end Commands

end Run

open Run in
/-- When components with a digest were fetched or copied, they were erased, and what they took since has
the digest. All of a copy was read from its source, and it has the size if there is one. -/
theorem transfers_have_digest {δ' θ : Type} [Flash δ'] [Transport θ] (F : Hash.Algorithm → Bytes → Bytes)
    [Hash.Engine η] [Hash.Sound F η] (k : Pass) (hk : k.mode = .execute)
    (nested : Bytes → Act π H δ η (Tier δ' θ) Unit) (r s : Run π H δ η (Tier δ' θ)) :
    (runCommand k nested .fetch r = .ok () s → Treats .fetch (FetchOf F) r s) ∧
      (runCommand k nested .copy r = .ok () s → Treats .copy (CopyOf F) r s) := by
  have hg (c : Command) : Guarded .execute c (fun _ => True) fun _ =>
      (Does (Permitted .execute) : Processor π H δ η (Tier δ' θ) → Processor π H δ η (Tier δ' θ) → Prop) :=
    (permits_does .execute).toAllows.guarded c
  constructor
  · intro h
    simp only [runCommand, hk] at h
    refine treats_of_eq_ok (Q := fun _ m d es => ∃ h, m.target = .component h ∧ Fetched F d h es)
      (fun i m => steps_fetch (fun _ _ => trivial) (hg _) _) (fun i m d t u hd hu => ?_) h
    obtain ⟨h, es, ht, he, hes⟩ := fetch_eq_ok (F := F) hd hu
    exact ⟨es, he, h, ht, hes⟩
  · intro h
    simp only [runCommand, hk] at h
    refine treats_of_eq_ok (Q := fun ms m d es => ∃ j x source target,
        m.parameters.sourceComponent = some j ∧ ms[j.toNat]? = some x ∧ x.target = .component source ∧
        m.target = .component target ∧ Copied F d m.parameters.imageSize source target es)
      (fun i m => steps_copy (fun _ _ => trivial) (hg _) i) (fun i m d t u hd hu => ?_) h
    obtain ⟨j, x, source, target, es, hj, hx, hs, ht, he, hes⟩ := copy_eq_ok (F := F) hd hu
    exact ⟨es, he, j, x, source, target, hj, hx, hs, ht, hes⟩

structure Shelf where
  contents : Nat → Bytes

instance : Platform Shelf Nat where
  perform
    | .checkOperation .. | .openSink _ | .sink _ .flush => pure ()
    | .sink h .erase => modify fun s => ⟨fun i => if i = h then [] else s.contents i⟩
    | .sink h (.write b) => modify fun s => ⟨fun i => if i = h then s.contents i ++ b else s.contents i⟩
    | .read h offset want => do return ((← get).contents h).drop offset |>.take want
    | c => liftM c.byDefault

/-- Tells data apart as long as they are short. -/
def padded (a : Hash.Algorithm) (b : Bytes) : Bytes := (b ++ List.replicate a.size 0).take a.size

/-- A peer has three bytes for the first component, and the second is a copy of that. -/
def shelf (selected : List Nat) : Run Shelf Nat Ram (Hash.Digester padded) (Tier Ram Service) :=
  let p : Parameters :=
    { imageDigest := some ⟨.sha256, padded .sha256 [1, 2, 3]⟩, uri := some ⟨[0x41], rfl⟩
      imageSize := some 3, sourceComponent := some 0 }
  let peer : Service := ⟨.ofCapacity 1, [1, 2, 3], [[2]], []⟩
  { processor :=
      ⟨oneClass, .usual, ⟨fun _ => []⟩, ⟨blank.store.device, default⟩, blank.vars, .ofEngines [default],
        [.payloads ⟨[]⟩, .peer (.ofTransport peer 8)], []⟩
    report := .initial
    members := [⟨⟨.memory, []⟩, .component 0, p⟩, ⟨⟨.memory, []⟩, .component 1, p⟩]
    selected
    digest := none }

open Run in
theorem transfers_have_digest_shelf :
    let k : Pass := ⟨.execute, .zero, ⟨0, [], none, none, []⟩, []⟩
    let fetched := runCommand k (fun _ => pure ()) .fetch (shelf [0])
    let filled := { stateAfter fetched with selected := [1] }
    let copied := runCommand k (fun _ => pure ()) .copy filled
    (answer fetched = .ok () ∧ answer copied = .ok ()) ∧
      Treats .fetch (FetchOf padded) (shelf [0]) (stateAfter fetched) ∧
      Treats .copy (CopyOf padded) filled (stateAfter copied) := by
  intro k fetched filled copied
  have ha : answer fetched = .ok () ∧ answer copied = .ok () := by decide +kernel
  refine ⟨ha, ?_, ?_⟩
  · exact (transfers_have_digest padded k rfl _ _ _).1 (answer_eq_ok ha.1)
  · exact (transfers_have_digest padded k rfl _ _ _).2 (answer_eq_ok ha.2)

end Firmware.Processor
