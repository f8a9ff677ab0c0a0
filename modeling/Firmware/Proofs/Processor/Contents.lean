import Firmware.Proofs.Processor.Engines
import Firmware.Proofs.Processor.Transfer

/-!
What conditions and commands see of the content of a component. However the platform cuts a content into pieces,
and whatever the size of a chunk, it is read from its start to its end or to the size that is asked for.
-/

namespace Firmware

open Flash Manifest

def DigestPool.Ready {η : Type} [Hash.Engine η] (p : DigestPool η) (d : Digest) : Prop :=
  d.value.length = d.algorithm.size ∧
    ∃ i e, firstFree p.slots = some (i, e) ∧ Hash.Engine.supports d.algorithm e

namespace Processor

variable {π H δ η τ α : Type}

def imageOf (size : Option UInt32) (content : Bytes) : Bytes :=
  match size with
  | some n => content.take n.toNat
  | none => content

def Suffices (size : Option UInt32) (content : Bytes) : Prop := ∀ n ∈ size, n.toNat ≤ content.length

def Matches (F : Hash.Algorithm → Bytes → Bytes) (d : Option Digest) (b : Bytes) : Prop :=
  ∀ x ∈ d, F x.algorithm b = x.value

instance (size : Option UInt32) (content : Bytes) : Decidable (Suffices size content) :=
  Option.decidableForallMem size

instance (F : Hash.Algorithm → Bytes → Bytes) (d : Option Digest) (b : Bytes) : Decidable (Matches F d b) :=
  Option.decidableForallMem d

variable [Platform π H]

/-- Where `I` holds, a call gets the reply `a`, and `I` still holds then. -/
def Replies (I : π → Prop) (c : Call H) (a : c.Reply) : Prop :=
  ∀ s, I s → ∃ t, Platform.perform c s = .ok a t ∧ I t

/-- A component has a content. Who asks for bytes of it gets some of them, if there are any. -/
def Supplies (I : π → Prop) (h : H) (content : Bytes) : Prop :=
  ∀ s, I s → ∀ offset want, 0 < want → ∃ n t, n ≤ want ∧ (offset < content.length → 0 < n) ∧
    Platform.perform (.read h offset want) s = .ok ((content.drop offset).take n) t ∧ I t

structure Accepts (I : π → Prop) (h : H) : Prop where
  opens : Replies I (.openSink h) ()
  erase : Replies I (.sink h .erase) ()
  write : ∀ b, Replies I (.sink h (.write b)) ()
  flush : Replies I (.sink h .flush) ()

variable [Flash δ]

structure Served (I : π → Prop) (es : List (Event H)) (p q : Processor π H δ η τ) : Prop where
  account : Account es p q
  digests : q.digests = p.digests
  holds : I q.platform

lemma Served.trans {I : π → Prop} {es fs : List (Event H)} {p q r : Processor π H δ η τ} (h : Served I es p q)
    (h' : Served I fs q r) : Served I (es ++ fs) p r :=
  ⟨h.account.trans h'.account, h'.digests.trans h.digests, h'.holds⟩

namespace Run

variable {I : π → Prop} {r s : Run π H δ η τ} {p q : Processor π H δ η τ} {h target : H} {content b : Bytes}

lemma ask_served {c : Call H} {a : c.Reply} (hc : ∃ t, Platform.perform c p.platform = .ok a t ∧ I t) :
    ∃ q, Processor.ask c p = .ok a q ∧ Served I [.call c (.ok a)] p q := by
  obtain ⟨t, ht, hI⟩ := hc
  have ha : answer (Processor.ask c p) = .ok a := by rw [answer_ask, ht, answer_ok]
  have hq := answer_eq_ok ha
  have hs := stateAfter_ask c p
  rw [ht] at hs
  refine ⟨_, hq, ask_eq_ok hq, ?_, ?_⟩
  · rw [hs]
  · rw [hs]
    exact hI

omit [Platform π H] [Flash δ] in
lemma within_of_ok {cause : Failure → Error} {f : EStateM Failure (Processor π H δ η τ) α} {a : α}
    (h : f r.processor = .ok a q) : within cause f r = .ok a (r.putProcessor q) := by
  simp only [within, onPart, EStateM.adaptExcept_run, h]

lemma within_served {c : Call H} {a : c.Reply} (hc : Replies I c a) (hr : I r.processor.platform)
    (cause : Failure → Error) :
    ∃ q, within cause (Processor.ask c) r = .ok a (r.putProcessor q) ∧
      Served I [.call c (.ok a)] r.processor q := by
  obtain ⟨q, hq, hs⟩ := ask_served (hc _ hr)
  exact ⟨q, within_of_ok hq, hs⟩

lemma sink_served {c : SinkCall} (ho : Replies I (.openSink h) ()) (hc : Replies I (.sink h c) ())
    (hr : I r.processor.platform) :
    ∃ q, sink h c r = .ok () (r.putProcessor q) ∧
      Served I [.call (.openSink h) (.ok ()), .call (.sink h c) (.ok ())] r.processor q := by
  obtain ⟨q, hq, hs⟩ := within_served ho hr .platform
  obtain ⟨q', hq', hs'⟩ := within_served (r := r.putProcessor q) hc hs.holds .platform
  exact ⟨q', (EStateM.bind_of_ok _ _ _ hq).trans hq', hs.trans hs'⟩

/-! ## Reading -/

lemma read_ok (hc : Supplies I h content) (hs : I s.processor.platform) (offset : Nat) {want : Nat} (hw : 0 < want) :
    ∃ c q, ask (.read h offset want) s = .ok c (s.putProcessor q) ∧
      Served I [.call (.read h offset want) (.ok c)] s.processor q ∧ c.length ≤ want ∧
      content.drop offset = c ++ content.drop (offset + c.length) ∧ (c.length = 0 → content.length ≤ offset) := by
  obtain ⟨n, t, hn, hsome, hread, ht⟩ := hc _ hs offset want hw
  obtain ⟨q, hq, hs⟩ := ask_served (p := s.processor) ⟨t, hread, ht⟩
  have hlen : ((content.drop offset).take n).length = min n (content.length - offset) := by
    rw [List.length_take, List.length_drop]
  refine ⟨_, q, within_of_ok hq, hs, by omega, ?_, fun h0 => ?_⟩
  · rw [← List.drop_drop]
    exact (List.prefix_iff_eq_append.mp (List.take_prefix ..)).symm
  · by_contra hlt
    have := hsome (by omega)
    omega

/-- What reading keeps for the bytes so far, as `J`, it reaches for all that there are up to the limit, as `K`. -/
lemma pump_ok {J K : Bytes → Run π H δ η τ → Prop} {write : Bytes → Act π H δ η τ Unit}
    (hc : Supplies I h content) (hI : ∀ {b s}, J b s → I s.processor.platform)
    (hround : ∀ {b c want s q}, J b s → Served I [.call (.read h b.length want) (.ok c)] s.processor q →
      ∃ t, write c (s.putProcessor q) = .ok () t ∧ J (b ++ c) t)
    (hfull : ∀ {b s}, J b s → K b s)
    (hended : ∀ {b want s q}, J b s → Served I [.call (.read h b.length want) (.ok [])] s.processor q →
      K b (s.putProcessor q))
    {chunk limit : Nat} (hk : 0 < chunk) (hb : b = content.take b.length) (hl : b.length ≤ limit) (hJ : J b s) :
    ∃ t, pump chunk h write limit b.length s = .ok (min limit content.length) t ∧ K (content.take limit) t := by
  have hle : b.length ≤ content.length := by
    rw [hb, List.length_take]
    exact Nat.min_le_right _ _
  -- On what is left to read.
  induction hn : limit - b.length using Nat.strongRecOn generalizing b s with
  | _ n ih =>
    rw [pump]
    split
    · rename_i h0
      have hbl : b.length = limit := by omega
      refine ⟨s, ?_, ?_⟩
      · rw [EStateM.pure_run, hbl, Nat.min_eq_left (hbl ▸ hle)]
      · rw [← hbl, ← hb]
        exact hfull hJ
    · rename_i h0
      obtain ⟨c, q, hask, hs, hcl, hrest, hnone⟩ := read_ok hc (hI hJ) b.length (Nat.pos_of_ne_zero h0)
      rw [EStateM.bind_of_ok _ _ _ hask, dif_pos hcl]
      have happ : b ++ c = content.take (b ++ c).length := by
        rw [List.length_append, List.take_add, ← hb, hrest, List.take_left]
      split
      · rename_i h1
        obtain ⟨t, ht, hJt⟩ := hround hJ hs
        rw [EStateM.bind_of_ok _ _ _ ht, ← List.length_append]
        have hlen : (b ++ c).length = b.length + c.length := List.length_append
        have hbc := List.length_take_le' (b ++ c).length content
        rw [← happ] at hbc
        exact ih _ (by omega) happ (by omega) hJt hbc rfl
      · rename_i h1
        have hc0 : c.length = 0 := Nat.eq_zero_of_not_pos h1
        have hbl : b.length = content.length := le_antisymm hle (hnone hc0)
        refine ⟨s.putProcessor q, ?_, ?_⟩
        · rw [EStateM.pure_run, hbl, Nat.min_eq_right (hbl ▸ hl)]
        · have hall : content.take limit = b := by
            rw [List.take_of_length_le (hbl ▸ hl), hb, hbl, List.take_length]
          rw [hall]
          exact hended hJ (List.length_eq_zero_iff.mp hc0 ▸ hs)

lemma readThrough_ok {J K : Bytes → Run π H δ η τ → Prop} {write : Bytes → Act π H δ η τ Unit}
    (hc : Supplies I h content) (hl : content.length < 2 ^ 32) (size : Option UInt32)
    (hI : ∀ {b s}, J b s → I s.processor.platform)
    (hround : ∀ {b c want s q}, J b s → Served I [.call (.read h b.length want) (.ok c)] s.processor q →
      ∃ t, write c (s.putProcessor q) = .ok () t ∧ J (b ++ c) t)
    (hfull : ∀ {b s}, J b s → K b s)
    (hended : ∀ {b want s q}, J b s → Served I [.call (.read h b.length want) (.ok [])] s.processor q →
      K b (s.putProcessor q))
    (hJ : J [] s) :
    ∃ t, readThrough h size write s = .ok (imageOf size content).length t ∧ K (imageOf size content) t := by
  have hk : 0 < min (max 1 s.processor.options.copyChunk) maxCopyChunk := by
    simp only [maxCopyChunk]
    omega
  obtain ⟨t, ht, hK⟩ := pump_ok (b := []) hc hI hround hfull hended hk rfl
    (Nat.zero_le ((size.map UInt32.toNat).getD maxLength)) hJ
  have hi : content.take ((size.map UInt32.toNat).getD maxLength) = imageOf size content := by
    cases size with
    | some n => rfl
    | none =>
      refine List.take_of_length_le ?_
      simp only [Option.map_none, Option.getD_none, maxLength]
      omega
  rw [← List.length_take, hi] at ht
  exact ⟨t, ht, hi ▸ hK⟩

omit [Platform π H] [Flash δ] in
lemma size_any_iff (size : Option UInt32) :
    (size.any fun n => n.toNat ≠ (imageOf size content).length) = true ↔ ¬ Suffices size content := by
  cases size with
  | none => simp [Suffices]
  | some n =>
    simp only [Option.any_some, decide_eq_true_eq, imageOf, List.length_take, Suffices, Option.mem_some_iff,
      forall_eq']
    omega

lemma startsWith_ok (hc : Supplies I h content) (expected : Bytes) (offset : Nat) (hs : I s.processor.platform) :
    answer (startsWith (fun offset want => (ask (.read h offset want) : Act π H δ η τ Bytes)) offset expected s) =
      .ok (decide (expected <+: content.drop offset)) := by
  -- On what is left to compare.
  induction hn : expected.length using Nat.strongRecOn generalizing expected offset s with
  | _ n ih =>
    rw [startsWith]
    split
    · rename_i h0
      rw [List.isEmpty_iff.mp h0]
      simp
    · rename_i h0
      have hne : expected ≠ [] := fun he => h0 (List.isEmpty_iff.mpr he)
      have hpos : 0 < min expected.length comparedAtOnce :=
        lt_min (List.length_pos_iff.mpr hne) (by decide)
      obtain ⟨c, q, hask, hs', hcl, hrest, hnone⟩ := read_ok hc hs offset hpos
      have hce : c.length ≤ expected.length := hcl.trans (Nat.min_le_left _ _)
      rw [EStateM.bind_of_ok _ _ _ hask]
      split
      · split
        · rename_i hsame
          have hdrop : (expected.drop c.length).length = expected.length - c.length := List.length_drop
          rw [ih _ (by omega) _ _ hs'.holds rfl]
          congr 1
          rw [decide_eq_decide, hrest]
          conv_rhs => rw [← List.take_append_drop c.length expected, ← hsame]
          exact (List.prefix_append_right_inj c).symm
        · rename_i hother
          refine congrArg _ (decide_eq_false fun he => hother ?_).symm
          have hpre : c <+: content.drop offset := ⟨_, hrest.symm⟩
          exact List.prefix_iff_eq_take.mp (List.prefix_of_prefix_length_le hpre he hce)
      · rename_i h1
        have hend : content.drop offset = [] := List.drop_eq_nil_of_le (hnone (by omega))
        refine congrArg _ (decide_eq_false fun he => hne ?_).symm
        exact List.prefix_nil.mp (hend ▸ he)

lemma hasContent_ok (hc : Supplies I h content) {expected : Bytes} (hn : Replies I (.checkContent h expected) none)
    (hs : I s.processor.platform) :
    answer (hasContent (m := Act π H δ η τ) ask h expected s) = .ok (decide (expected <+: content)) := by
  obtain ⟨q, hq, hq'⟩ := within_served hn hs .platform
  rw [hasContent, ask, EStateM.bind_of_ok _ _ _ hq]
  exact startsWith_ok hc expected 0 hq'.holds

/-! ## Hashing -/

section Digests

variable {F : Hash.Algorithm → Bytes → Bytes} [Hash.Engine η] [Hash.Reliable F η] {d : Option Digest}

def Digesting (F : Hash.Algorithm → Bytes → Bytes) [Hash.Reliable F η] (d : Option Digest) (b : Bytes)
    (r : Run π H δ η τ) : Prop :=
  match d with
  | none => r.digest = none
  | some d => d.value.length = d.algorithm.size ∧ ∃ k, r.digest = some k ∧ k.expected = d.value ∧
      k.finished = false ∧ Hash.Sound.making F k.engine = some (d.algorithm, b)

omit [Platform π H] [Flash δ] in
lemma hash_ok (hr : Digesting F d b r) (data : Bytes) :
    ∃ t, hash (.write data) r = .ok () t ∧ t.processor = r.processor ∧ Digesting F d (b ++ data) t := by
  cases d with
  | none =>
    refine ⟨r, ?_, rfl, hr⟩
    have hr : r.digest = none := hr
    simp only [hash, hr]
  | some d =>
    obtain ⟨hd, k, hk, hx, hf, hm⟩ := hr
    obtain ⟨e, hw, he⟩ := DigestSink.write_ok hf hm data
    refine ⟨{ r with digest := some { k with engine := e } }, ?_, rfl, hd, _, rfl, hx, hf, he⟩
    simp only [hash, hk]
    change onPart (fun _ => k) _ (DigestSink.write data) r = _
    rw [onPart, hw]

omit [Platform π H] [Flash δ] in
lemma digestMatches_ok (hr : Digesting F d b r) :
    ∃ t, digestMatches r = .ok (decide (Matches F d b)) t ∧ t.processor = r.processor := by
  cases d with
  | none =>
    refine ⟨r, ?_, rfl⟩
    have hr : r.digest = none := hr
    have hm : Matches F none b := fun _ hx => by cases hx
    simp only [digestMatches, hr, hm, decide_true]
  | some d =>
    obtain ⟨hd, k, hk, hx, hf, hm⟩ := hr
    have hw : ∃ k', DigestSink.digestMatch k = .ok (decide (Matches F (some d) b)) k' := by
      have hd' : Matches F (some d) b ↔ F d.algorithm b = k.expected := by
        simp only [Matches, Option.mem_some_iff, forall_eq', hx]
      obtain ⟨e, he⟩ := DigestSink.digestMatch_ok hf hm (hx ▸ hd)
      simp only [hd']
      exact ⟨_, he⟩
    obtain ⟨k', hw⟩ := hw
    refine ⟨{ r with digest := some k' }, ?_, rfl⟩
    simp only [digestMatches, hk, onPart, EStateM.adaptExcept_run, hw]

lemma withDigest_ok (hd : ∀ x ∈ d, r.processor.digests.Ready x) (hr : r.digest = none) :
    ∃ t, Digesting F d [] t ∧ Account [] r.processor t.processor ∧ t.processor.platform = r.processor.platform ∧
      ∀ {α : Type} (f : Act π H δ η τ α), withDigest d f r = relocate closeDigest (f t) := by
  have hn {α : Type} (f : Act π H δ η τ α) (t : Run π H δ η τ) :
      withDigest none f t = relocate closeDigest (f t) := by
    unfold withDigest
    dsimp only
    cases f t <;> rfl
  cases d with
  | none => exact ⟨r, hr, .refl _, rfl, fun f => hn f r⟩
  | some d =>
    obtain ⟨hx, i, e, hi, hs⟩ := hd d rfl
    obtain ⟨e', he⟩ := Hash.Reliable.starts (F := F) hs
    have hg : DigestPool.get d.algorithm d.value r.processor.digests =
        .ok ⟨i, e', d.value, false⟩ (r.processor.digests.put i none) := by
      simp only [DigestPool.get, hx, hi, hs, he, ne_eq, not_true_eq_false, if_false, if_true]
    refine ⟨{ r with
      processor := { r.processor with digests := r.processor.digests.put i none }
      digest := some ⟨i, e', d.value, false⟩ }, ⟨hx, _, rfl, rfl, rfl, Hash.Sound.start he⟩,
      .aside rfl rfl rfl rfl rfl rfl, rfl, fun f => ?_⟩
    have ho : withDigest (some d) f r =
        ((openDigest d).adaptExcept .platform >>= fun _ => withDigest none f) r := rfl
    rw [ho, EStateM.bind_run, EStateM.adaptExcept_run, openDigest_run, hg]
    exact hn f _

/-! ## Conditions and copies -/

lemma answer_imageMatches (hc : Supplies I h content) (hl : content.length < 2 ^ 32) {d : Digest}
    (size : Option UInt32) (hd : r.processor.digests.Ready d) (hr : r.digest = none)
    (hI : I r.processor.platform) :
    answer (imageMatches h d size r) =
      .ok (decide (Suffices size content ∧ F d.algorithm (imageOf size content) = d.value)) := by
  have hd' : ∀ x ∈ some d, r.processor.digests.Ready x := by
    rintro x ⟨⟩
    exact hd
  obtain ⟨s, hs, -, hp, hw⟩ := withDigest_ok (F := F) hd' hr
  rw [imageMatches, hw, answer_relocate]
  let J (b : Bytes) (s : Run π H δ η τ) : Prop := Digesting F (some d) b s ∧ I s.processor.platform
  have hround {b c : Bytes} {want : Nat} {s : Run π H δ η τ} {q : Processor π H δ η τ} (hJ : J b s)
      (hq : Served I [.call (.read h b.length want) (.ok c)] s.processor q) :
      ∃ t, ((hash (.write c)).adaptExcept .platform : Act π H δ η τ Unit) (s.putProcessor q) = .ok () t ∧
        J (b ++ c) t := by
    obtain ⟨t, ht, hp, hD⟩ := hash_ok (F := F) (r := s.putProcessor q) (d := some d) hJ.1 c
    refine ⟨t, by rw [EStateM.adaptExcept_run, ht], hD, ?_⟩
    rw [hp]
    exact hq.holds
  obtain ⟨t, ht, hJ⟩ := readThrough_ok (J := J) (K := J) hc hl size (fun hJ => hJ.2) hround id
    (fun hJ hq => ⟨hJ.1, hq.holds⟩) ⟨hs, hp ▸ hI⟩
  rw [EStateM.bind_of_ok _ _ _ ht]
  by_cases hz : Suffices size content
  · obtain ⟨u, hu, -⟩ := digestMatches_ok hJ.1
    rw [if_neg (fun ha => (size_any_iff size).mp ha hz), hu, answer_ok]
    simp only [hz, true_and, Matches, Option.mem_some_iff, forall_eq']
  · rw [if_pos ((size_any_iff size).mpr hz)]
    simp only [hz, false_and, decide_false]
    rfl

lemma checkDigest_ok (hr : Digesting F d b r) :
    answer (checkDigest r) = (if Matches F d b then .ok () else .error .digestMismatch) ∧
      Account [] r.processor (stateAfter (checkDigest r)).processor := by
  obtain ⟨t, ht, hp⟩ := digestMatches_ok hr
  have ha : Account [] r.processor t.processor := hp ▸ .refl _
  rw [checkDigest, EStateM.bind_of_ok _ _ _ ht]
  by_cases hm : Matches F d b
  · simp only [hm, decide_true, if_true]
    exact ⟨rfl, ha⟩
  · simp only [hm, decide_false, if_false]
    exact ⟨rfl, ha⟩

lemma relay_ok (hc : Supplies I h content) (hl : content.length < 2 ^ 32) (ha : Accepts I target)
    (size : Option UInt32) (hD : Digesting F d [] s) (hI : I s.processor.platform) :
    ∃ t es, readThrough h size (fun b => do
        sink target (.write b)
        (hash (.write b)).adaptExcept .platform) s = .ok (imageOf size content).length t ∧
      (Digesting F d (imageOf size content) t ∧ I t.processor.platform) ∧ Account es s.processor t.processor ∧
      Relayed h target 0 es ∧ written es = imageOf size content := by
  -- What comes next goes on from where the bytes so far end.
  let J (b : Bytes) (t : Run π H δ η τ) : Prop := (Digesting F d b t ∧ I t.processor.platform) ∧
    ∃ es, Account es s.processor t.processor ∧ written es = b ∧
      ∀ fs, Relayed h target b.length fs → Relayed h target 0 (es ++ fs)
  let K (b : Bytes) (t : Run π H δ η τ) : Prop := (Digesting F d b t ∧ I t.processor.platform) ∧
    ∃ es, Account es s.processor t.processor ∧ written es = b ∧ Relayed h target 0 es
  have hround {b c : Bytes} {want : Nat} {t : Run π H δ η τ} {q : Processor π H δ η τ} (hJ : J b t)
      (hq : Served I [.call (.read h b.length want) (.ok c)] t.processor q) :
      ∃ u, (do
        sink target (.write c)
        (hash (.write c)).adaptExcept .platform : Act π H δ η τ Unit) (t.putProcessor q) = .ok () u ∧
        J (b ++ c) u := by
    obtain ⟨⟨hD, -⟩, es, hes, rfl, hrel⟩ := hJ
    obtain ⟨q', hw, hq'⟩ := sink_served (r := t.putProcessor q) ha.opens (ha.write c) hq.holds
    obtain ⟨u, hu, hp, hD⟩ := hash_ok (F := F) (r := (t.putProcessor q).putProcessor q') (d := d) hD c
    have hp : u.processor = q' := hp
    refine ⟨u, ?_, ⟨hD, hp ▸ hq'.holds⟩, _, hes.trans (hp ▸ (hq.trans hq').account), ?_, fun fs hfs => ?_⟩
    · rw [EStateM.bind_of_ok _ _ _ hw, EStateM.adaptExcept_run, hu]
    · simp [written, Event.written]
    · rw [List.append_assoc]
      exact hrel _ (.piece (by rwa [List.length_append] at hfs))
  have hfull {b : Bytes} {t : Run π H δ η τ} (hJ : J b t) : K b t := by
    obtain ⟨hD, es, hes, hw, hrel⟩ := hJ
    exact ⟨hD, es, hes, hw, by simpa using hrel _ .full⟩
  have hended {b : Bytes} {want : Nat} {t : Run π H δ η τ} {q : Processor π H δ η τ} (hJ : J b t)
      (hq : Served I [.call (.read h b.length want) (.ok [])] t.processor q) : K b (t.putProcessor q) := by
    obtain ⟨⟨hD, -⟩, es, hes, hw, hrel⟩ := hJ
    refine ⟨⟨hD, hq.holds⟩, _, hes.trans hq.account, ?_, hrel _ .ended⟩
    simpa [written, Event.written] using hw
  obtain ⟨t, ht, hK, es, hes, hw, hrel⟩ := readThrough_ok hc hl size (fun hJ => hJ.1.2) hround hfull hended
    ⟨⟨hD, hI⟩, [], .refl _, rfl, fun _ => id⟩
  exact ⟨t, es, ht, hK, hes, hrel, hw⟩

/-- What happens after the digest of a copy was opened. The target is flushed only if the source was long enough. -/
def Refills (size : Option UInt32) (source target : H) (content : Bytes) (es : List (Event H)) : Prop :=
  ∃ during, es = [.call (.openSink target) (.ok ()), .call (.sink target .erase) (.ok ())] ++ during ++
      (if Suffices size content then [.call (.openSink target) (.ok ()), .call (.sink target .flush) (.ok ())]
        else []) ∧
    Relayed source target 0 during ∧ written during = imageOf size content

/-- How a copy ends if the platform refuses nothing. Without a digest, only a source that is too short fails it. -/
def copied (F : Hash.Algorithm → Bytes → Bytes) (d : Option Digest) (size : Option UInt32) (content : Bytes) :
    Except Error Unit :=
  if Suffices size content then if Matches F d (imageOf size content) then .ok () else .error .digestMismatch
  else .error (.platform .size)

lemma refill_ok (hc : Supplies I h content) (hl : content.length < 2 ^ 32) (ha : Accepts I target)
    (size : Option UInt32) (hD : Digesting F d [] s) (hI : I s.processor.platform) :
    ∃ x es, (do
        sink target .erase
        let n ← readThrough h size fun b => do
          sink target (.write b)
          (hash (.write b)).adaptExcept .platform
        if size.any fun s => s.toNat ≠ n then throw (.platform .size)
        sink target .flush
        checkDigest : Act π H δ η τ Unit) s = x ∧
      answer x = copied F d size content ∧ Account es s.processor (stateAfter x).processor ∧
      Refills size h target content es := by
  obtain ⟨q, he, hq⟩ := sink_served (r := s) ha.opens ha.erase hI
  obtain ⟨t, during, ht, ⟨hD, hI⟩, hdur, hrel, hw⟩ := relay_ok (F := F) (d := d) hc hl ha size
    (s := s.putProcessor q) hD hq.holds
  rw [EStateM.bind_of_ok _ _ _ he, EStateM.bind_of_ok _ _ _ ht, copied]
  by_cases hz : Suffices size content
  · obtain ⟨q', hf, hq'⟩ := sink_served (r := t) ha.opens ha.flush hI
    obtain ⟨hans, hend⟩ := checkDigest_ok (r := t.putProcessor q') (d := d) hD
    rw [if_neg fun ha => (size_any_iff size).mp ha hz, if_pos hz]
    exact ⟨_, _, EStateM.bind_of_ok _ _ _ hf, hans, hq.account.trans (hdur.trans (hq'.account.trans hend)), during,
      by simp [hz], hrel, hw⟩
  · rw [if_pos ((size_any_iff size).mpr hz), if_neg hz]
    exact ⟨_, _, rfl, rfl, hq.account.trans hdur, during, by simp [hz], hrel, hw⟩

lemma copy_ok (hc : Supplies I h content) (hl : content.length < 2 ^ 32) (ha : Accepts I target) {i : Nat}
    {m : Member H} (hp : pair i m r = .ok (target, h) r) (hread : Replies I (.checkOperation h .read) ())
    (hcopy : Replies I (.checkOperation target .copy) ())
    (hd : ∀ d ∈ m.parameters.imageDigest, r.processor.digests.Ready d) (hr : r.digest = none)
    (hI : I r.processor.platform) :
    answer (copy .execute i m r) = copied F m.parameters.imageDigest m.parameters.imageSize content ∧
      ∃ es, Account (.call (.checkOperation h .read) (.ok ()) :: .call (.checkOperation target .copy) (.ok ()) :: es)
          r.processor (stateAfter (copy .execute i m r)).processor ∧
        Refills m.parameters.imageSize h target content es := by
  obtain ⟨p, hp₁, hs₁⟩ := within_served hread hI fun _ => .denied
  obtain ⟨p', hp₂, hs₂⟩ := within_served (r := r.putProcessor p) hcopy hs₁.holds fun _ => .denied
  have hs := hs₁.trans hs₂
  have hd' : ∀ d ∈ m.parameters.imageDigest, p'.digests.Ready d := by
    rw [hs.digests]
    exact hd
  obtain ⟨s, hD, hs₃, hpl, hw⟩ := withDigest_ok (F := F) (r := (r.putProcessor p).putProcessor p') hd' hr
  obtain ⟨x, es, hx, hans, hes, hrel⟩ := refill_ok hc hl ha m.parameters.imageSize hD (hpl ▸ hs.holds)
  rw [copy, EStateM.bind_of_ok _ _ _ hp]
  dsimp only
  rw [authorize, EStateM.bind_of_ok _ _ _ hp₁, authorize, EStateM.bind_of_ok _ _ _ hp₂, hw, hx, answer_relocate,
    stateAfter_relocate]
  have hall := hs.account.trans (hs₃.trans (hes.trans (account_closeDigest (stateAfter x))))
  exact ⟨hans, es, by simpa using hall, hrel⟩

end Digests

end Run

open Run in
/-- However a platform cuts the content of a component into pieces, and whatever the size of a chunk is: the content
has a digest exactly if so many bytes of it as are asked for are there and have it; it starts with exactly its prefixes;
and a copy writes just so many bytes as are asked for, in their order, and ends as these bytes tell. -/
theorem content_read_in_any_pieces (F : Hash.Algorithm → Bytes → Bytes) [Hash.Engine η] [Hash.Reliable F η]
    {I : π → Prop} {h : H} {content : Bytes} (hc : Supplies I h content) (hl : content.length < 2 ^ 32)
    (hread : Replies I (.checkOperation h .read) ()) (r : Run π H δ η τ) (hr : r.digest = none)
    (hI : I r.processor.platform) :
    (∀ m d, m.target = .component h → m.parameters.imageDigest = some d → r.processor.digests.Ready d →
      answer (holds .execute .imageMatch m r) = .ok (decide (Suffices m.parameters.imageSize content ∧
        F d.algorithm (imageOf m.parameters.imageSize content) = d.value))) ∧
    (∀ m expected, m.target = .component h → m.parameters.content = some expected →
      Replies I (.checkContent h expected) none →
      answer (holds .execute .checkContent m r) = .ok (decide (expected <+: content))) ∧
    ∀ i m target, pair i m r = .ok (target, h) r → Replies I (.checkOperation target .copy) () →
      Accepts I target → (∀ d ∈ m.parameters.imageDigest, r.processor.digests.Ready d) →
      answer (copy .execute i m r) = copied F m.parameters.imageDigest m.parameters.imageSize content ∧
        ∃ es, Account
            (.call (.checkOperation h .read) (.ok ()) :: .call (.checkOperation target .copy) (.ok ()) :: es)
            r.processor (stateAfter (copy .execute i m r)).processor ∧
          Refills m.parameters.imageSize h target content es := by
  obtain ⟨p, hp, hs⟩ := within_served hread hI fun _ => .denied
  refine ⟨fun m d ht hd hready => ?_, fun m expected ht he hn => ?_, fun i m target hpair hcopy ha hready => ?_⟩
  · rw [holds, ht]
    dsimp only [componentHolds]
    rw [hd, need, EStateM.bind_of_ok _ _ _ (EStateM.pure_run ..), authorize, EStateM.bind_of_ok _ _ _ hp]
    exact answer_imageMatches hc hl _ (hs.digests ▸ hready) hr hs.holds
  · rw [holds, ht]
    dsimp only [componentHolds]
    rw [he, need, EStateM.bind_of_ok _ _ _ (EStateM.pure_run ..), authorize, EStateM.bind_of_ok _ _ _ hp]
    exact hasContent_ok hc hn hs.holds
  · exact copy_ok hc hl ha hpair hread hcopy hready hr hI

/-- A component that is read in pieces of one, two and three bytes, in turn, and another one that is written to. -/
structure Trickle where
  content : Bytes
  reads : Nat
  written : Bytes

instance : Platform Trickle Nat where
  perform
    | .checkOperation .. | .openSink _ | .sink _ .flush => pure ()
    | .sink _ .erase => modify fun s => { s with written := [] }
    | .sink _ (.write b) => modify fun s => { s with written := s.written ++ b }
    | .read _ offset want => do
      let s ← get
      set { s with reads := s.reads + 1 }
      return (s.content.drop offset).take (min want (s.reads % 3 + 1))
    | c => liftM c.byDefault

lemma Trickle.supplies (h : Nat) (content : Bytes) : Supplies (fun s : Trickle => s.content = content) h content := by
  rintro s rfl offset want hw
  refine ⟨min want (s.reads % 3 + 1), { s with reads := s.reads + 1 }, Nat.min_le_left _ _, fun _ => ?_, rfl, rfl⟩
  exact lt_min hw (Nat.succ_pos _)

lemma Trickle.accepts (h : Nat) (content : Bytes) : Accepts (fun s : Trickle => s.content = content) h where
  opens s hs := ⟨s, rfl, hs⟩
  erase s hs := ⟨{ s with written := [] }, rfl, hs⟩
  write b s hs := ⟨{ s with written := s.written ++ b }, rfl, hs⟩
  flush s hs := ⟨s, rfl, hs⟩

def trickling : Run Trickle Nat Ram (Hash.Digester padded) Unit :=
  let p : Parameters :=
    { imageDigest := some ⟨.sha256, padded .sha256 [1, 2, 3, 4]⟩, imageSize := some 4, content := some [1, 2, 3]
      sourceComponent := some 0 }
  { processor :=
      ⟨oneClass, ⟨0, 0, .usual⟩, ⟨[1, 2, 3, 4, 5], 0, []⟩, ⟨blank.store.device, default⟩, blank.vars,
        .ofEngines [default], [], []⟩
    report := .initial
    members := [⟨⟨.memory, []⟩, .component 0, p⟩, ⟨⟨.memory, []⟩, .component 1, p⟩]
    selected := []
    digest := none }

open Run in
theorem content_read_in_any_pieces_trickling :
    let source : Member Nat := trickling.members[0]
    let target : Member Nat := trickling.members[1]
    answer (holds .execute .imageMatch source trickling) = .ok true ∧
      answer (holds .execute .checkContent source trickling) = .ok true ∧
      answer (copy .execute 1 target trickling) = .ok () ∧
      ∃ es, Account (.call (.checkOperation 0 .read) (.ok ()) :: .call (.checkOperation 1 .copy) (.ok ()) :: es)
          trickling.processor (stateAfter (copy .execute 1 target trickling)).processor ∧
        Refills (some 4) 0 1 [1, 2, 3, 4, 5] es := by
  intro source target
  have hready : ∀ d ∈ target.parameters.imageDigest, trickling.processor.digests.Ready d := by
    rintro d ⟨⟩
    exact ⟨by decide, 0, default, rfl, rfl⟩
  obtain ⟨hm, hs, hcopy⟩ := content_read_in_any_pieces padded (Trickle.supplies 0 [1, 2, 3, 4, 5]) (by decide)
    (fun s hs => ⟨s, rfl, hs⟩) trickling rfl rfl
  obtain ⟨ha, es, he⟩ := hcopy 1 target 1 rfl (fun s hs => ⟨s, rfl, hs⟩) (Trickle.accepts 1 _) hready
  refine ⟨?_, ?_, ?_, es, he⟩
  · rw [hm source _ rfl rfl (hready _ rfl)]
    decide +kernel
  · rw [hs source _ rfl rfl fun s hs => ⟨s, rfl, hs⟩]
    decide +kernel
  · rw [ha]
    decide +kernel

end Processor

end Firmware
