import Firmware.Proofs.Hash.Sound
import Firmware.Proofs.Processor.Pass
import Firmware.Proofs.Processor.Results
import Firmware.Proofs.Storage.Installed

namespace Firmware.Processor

open Flash Manifest Storage

variable {π H δ η τ α : Type} [Platform π H] [Flash δ]

/-- What may happen before an envelope is accepted, with changes to some regions of the device. -/
def Preliminary (exempt : List Region) : Event H → Prop
  | .call (.authenticate ..) _ | .call (.authorizeUnsigned ..) _
  | .call (.authorizeSequence ..) _ | .reported _ => True
  | .device e => ∃ r ∈ exempt, e.mutation.Inside r
  | _ => False

/-- The replies that authenticate an envelope, in their order. -/
def authentications (e : Envelope) (c : Uuid) (p : Policy) (t : Trigger) : List (Event H) :=
  if e.signatures.isEmpty then [.call (.authorizeUnsigned c p t) (.ok ())]
  else e.signatures.map fun s => .call (.authenticate c s e.digestBytes) (.ok ())

structure Authentic (F : Hash.Algorithm → Bytes → Bytes) (b : Bytes) (c : Uuid) (e : Envelope) :
    Prop where
  parsed : Envelope.parse b = .ok e
  classId : e.manifest.classId? = some c
  digest : F e.digest.algorithm (e.manifestHead ++ e.manifestBytes) = e.digest.value

lemma device_notMem_authentications {e : Envelope} {c : Uuid} {p : Policy} {t : Trigger} (x : Entry) :
    (.device x : Event H) ∉ authentications e c p t := by
  simp only [authentications]
  split <;> simp

def Call.IsAuthorization : Call H → Prop
  | .authenticate .. | .authorizeUnsigned .. | .authorizeSequence .. => True
  | _ => False

lemma does_authorization {exempt : List Region} (c : Call H) (h : c.IsAuthorization) :
    Follows (Does fun _ => Preliminary exempt)
      (ask c : EStateM Failure (Processor π H δ η τ) c.Reply) :=
  does_ask c fun _ _ => by cases c <;> trivial

namespace Run

section Digests

variable {F : Hash.Algorithm → Bytes → Bytes} [Hash.Engine η] [Hash.Sound F η]
variable {r s : Run π H δ η τ} {a : Hash.Algorithm} {b x data : Bytes}

def Hashes (F : Hash.Algorithm → Bytes → Bytes) [Hash.Sound F η] (a : Hash.Algorithm)
    (b x : Bytes) (r : Run π H δ η τ) : Prop :=
  ∃ k, r.digest = some k ∧ k.expected = x ∧ Hash.Sound.making F k.engine = some (a, b)

omit [Platform π H] [Flash δ] in
lemma openDigest_eq_ok {d : Digest} (h : openDigest d r = .ok () s) :
    Hashes F d.algorithm [] d.value s := by
  obtain ⟨k, t, hk, hm⟩ := EStateM.bind_eq_ok h
  obtain ⟨pool, hg, -⟩ := onPart_eq_ok hk
  cases hm
  refine ⟨k, rfl, ?_⟩
  simp only [DigestPool.get] at hg
  repeat' split at hg
  all_goals cases hg
  rename_i hs
  exact ⟨rfl, Hash.Sound.start hs⟩

omit [Platform π H] [Flash δ] in
lemma hash_eq_ok (hr : Hashes F a b x r) (h : hash (.write data) r = .ok () s) :
    Hashes F a (b ++ data) x s := by
  obtain ⟨k, hk, hx, hm⟩ := hr
  simp only [hash] at h
  rw [hk] at h
  obtain ⟨k', hw, rfl⟩ := onPart_eq_ok h
  change DigestSink.write data k = .ok () k' at hw
  rw [DigestSink.write, EStateM.bind_run, EStateM.get_run] at hw
  dsimp only at hw
  split at hw
  · cases hw
  · obtain ⟨e, he, rfl⟩ := onPart_eq_ok (EStateM.adaptExcept_eq_ok hw)
    exact ⟨_, rfl, hx, Hash.Sound.write hm he⟩

omit [Platform π H] [Flash δ] in
lemma digestMatches_eq_true (hr : Hashes F a b x r) (h : digestMatches r = .ok true s) :
    F a b = x := by
  obtain ⟨k, hk, hx, hm⟩ := hr
  simp only [digestMatches] at h
  rw [hk] at h
  obtain ⟨k', hd, -⟩ := onPart_eq_ok h
  have hd := EStateM.adaptExcept_eq_ok hd
  rw [DigestSink.digestMatch] at hd
  split at hd
  · cases hd
  · dsimp only at hd
    split at hd
    · rename_i hc
      obtain ⟨e, he, -⟩ := onPart_eq_ok hc
      rw [← hx]
      exact Hash.Sound.compare hm he
    · cases hd
    · cases hd

omit [Hash.Sound F η] in
lemma account_closeDigest (r : Run π H δ η τ) : Account [] r.processor (closeDigest r).processor := by
  have hs := steps_closeDigest (K := fun _ => True) (lends_does (P := fun _ _ => False)) r
  exact Does.account (hs fun _ _ _ _ => trivial).1

lemma withDigest_eq_ok {d : Digest} {f : Act π H δ η τ α} {y : α}
    (h : withDigest (some d) f r = .ok y s) :
    ∃ t u, Account [] r.processor t.processor ∧ Hashes F d.algorithm [] d.value t ∧ f t = .ok y u ∧
      Account [] u.processor s.processor := by
  obtain ⟨_, t, ht, hf⟩ := EStateM.bind_eq_ok h
  have ha : Account [] r.processor t.processor :=
    quiet_eq_ok (Steps.along (.adaptExcept (steps_openDigest lends_does d))) ht
  dsimp only at hf
  split at hf
  · rename_i z u hu
    cases hf
    exact ⟨t, u, ha, openDigest_eq_ok (EStateM.adaptExcept_eq_ok ht), hu, account_closeDigest u⟩
  · cases hf

lemma manifestMatches_eq_true {e : Envelope} (h : manifestMatches e r = .ok true s) :
    F e.digest.algorithm (e.manifestHead ++ e.manifestBytes) = e.digest.value := by
  obtain ⟨t, u, -, ht, hf, -⟩ := withDigest_eq_ok (F := F) h
  obtain ⟨_, v, hv, hf⟩ := EStateM.bind_eq_ok hf
  obtain ⟨_, w, hw, hf⟩ := EStateM.bind_eq_ok hf
  have hv := hash_eq_ok ht (EStateM.adaptExcept_eq_ok hv)
  exact digestMatches_eq_true (hash_eq_ok hv (EStateM.adaptExcept_eq_ok hw)) hf

end Digests

def acceptInstalled [Hash.Engine η] (c : Uuid) (a : Arena) : Act π H δ η τ Envelope := do
  modify fun r => { r with report := { r.report with classId := c } }
  let s ← slot c
  let e ← decode (← installed c a)
  unless e.manifest.classId? = some c do throw .denied
  enter .authenticate
  authenticate e c s.policy .boot
  return e

lemma boot_eq [Hash.Engine η] [Source τ] (c : Uuid) (a : Arena) :
    boot c a = (do
      let e ← acceptInstalled c a
      pass (passOf e c .validate) bootKinds
      pass (passOf e c .execute) bootKinds
      enter .done : Act π H δ η τ Unit) := by
  simp only [boot, acceptInstalled, bind_assoc]
  congr 1; funext _; congr 1; funext s; congr 1; funext b; congr 1; funext e
  by_cases h : e.manifest.classId? = some c
  · simp only [h, ↓reduceIte, bind_assoc, pure_bind]
  · simp only [h, ↓reduceIte]
    rfl

section

variable {R : Run π H δ η τ → Run π H δ η τ → Prop} [IsPreorder (Run π H δ η τ) R]

omit [Platform π H] [Flash δ] in
lemma slot_run (c : Uuid) (r : Run π H δ η τ) :
    slot c r =
      match r.processor.layout.slot c with
      | .ok s => .ok s r
      | .error e => .error (.platform e) r := by
  simp only [slot, within, onPart, EStateM.adaptExcept_run, EStateM.bind_run, EStateM.get_run,
    EStateM.lift_run]
  cases r.processor.layout.slot c <;> rfl

omit [Platform π H] [Flash δ] in
lemma follows_slot (c : Uuid) : Follows R (slot c : Act π H δ η τ Slot) := by
  intro r
  rw [slot_run]
  cases r.processor.layout.slot c <;> exact refl_of R r

omit [Platform π H] in
lemma follows_installedSequence (c : Uuid) (a : Arena) :
    Follows R (installedSequence c a : Act π H δ η τ (Option UInt32)) := by
  refine .bind .get fun r => ?_
  dsimp only
  split
  · exact .pure _
  · exact .pure _
  · exact .throw _

variable (hr : ∀ (r : Run π H δ η τ) x, R r { r with report := x })
include hr

omit [Platform π H] [Flash δ] [IsPreorder (Run π H δ η τ) R] in
lemma follows_enter (s : State) : Follows R (enter s : Act π H δ η τ Unit) := fun r => hr r _

omit [Platform π H] [Flash δ] in
lemma follows_decode (b : Bytes) : Follows R (decode b : Act π H δ η τ Envelope) :=
  .bind (.lift _) fun _ => .bind (fun r => hr r _) fun _ => .pure _

variable [Hash.Engine η] (hm : ∀ e, Follows R (manifestMatches e : Act π H δ η τ Bool))
variable (ha : ∀ c : Call H, c.IsAuthorization → ∀ cause, Follows R (within cause (Processor.ask c)))
include hm ha

omit [Flash δ] hr in
lemma follows_authenticate (e : Envelope) (c : Uuid) (p : Policy) (t : Trigger) :
    Follows R (authenticate e c p t : Act π H δ η τ Unit) := by
  have hs : Follows R (e.signatures.forM fun s =>
      within (fun _ => .unauthenticated) (Processor.ask (.authenticate c s e.digestBytes)) :
      Act π H δ η τ Unit) := .forM fun s _ => ha (.authenticate c s e.digestBytes) trivial _
  refine .bind (hm e) fun _ => .check (.ite (.bind ?_ fun _ => hs) hs)
  exact ha (.authorizeUnsigned c p t) trivial _

lemma follows_accept (b : Bytes) (a : Arena) :
    Follows R (accept b a : Act π H δ η τ (Envelope × Uuid)) := by
  refine .bind (follows_decode hr b) fun e => ?_
  cases e.manifest.classId? with
  | none => exact .throw _
  | some c =>
    refine .bind (fun r => hr r _) fun _ => .bind (follows_enter hr _) fun _ =>
      .bind (follows_slot c) fun s => .bind (follows_authenticate hm ha e c _ _) fun _ =>
        .bind (follows_enter hr _) fun _ => .bind (follows_installedSequence c a) fun n => ?_
    exact .bind (ha (.authorizeSequence c s.policy e.manifest.sequenceNumber n) trivial _) fun _ => .pure _

lemma follows_acceptInstalled (c : Uuid) (a : Arena) :
    Follows R (acceptInstalled c a : Act π H δ η τ Envelope) := by
  refine .bind (fun r => hr r _) fun _ => .bind (follows_slot c) fun s => ?_
  refine .bind (.bind .get fun _ => .lift _) fun b => .bind (follows_decode hr b) fun e => .check ?_
  exact .bind (follows_enter hr _) fun _ => .bind (follows_authenticate hm ha e c _ _) fun _ => .pure _

end

section

variable {T : Processor π H δ η τ → Processor π H δ η τ → Prop}
variable [IsPreorder (Processor π H δ η τ) T]

omit [Platform π H] [Flash δ] in
lemma along_enter (s : State) : Follows (Along T) (enter s : Act π H δ η τ Unit) :=
  along_modify fun _ => rfl

omit [Platform π H] [Flash δ] in
lemma along_slot (c : Uuid) : Follows (Along T) (slot c : Act π H δ η τ Slot) := follows_slot c

omit [Platform π H] [Flash δ] in
lemma along_decode (b : Bytes) : Follows (Along T) (decode b : Act π H δ η τ Envelope) :=
  follows_decode (fun r _ => refl_of T r.processor) b

omit [Platform π H] [Flash δ] in
lemma slot_eq_ok {c : Uuid} {s : Slot} {r t : Run π H δ η τ} (h : slot c r = .ok s t) :
    r.processor.layout.slot c = .ok s := by
  obtain ⟨q, hq, -⟩ := within_eq_ok h
  obtain ⟨p, u, hp, hs⟩ := EStateM.bind_eq_ok hq
  cases hp
  exact (EStateM.lift_eq_ok hs).1

omit [Platform π H] [Flash δ] in
lemma decode_eq_ok {b : Bytes} {e : Envelope} {r s : Run π H δ η τ} (h : decode b r = .ok e s) :
    Envelope.parse b = .ok e := by
  obtain ⟨e', u, hp, h⟩ := EStateM.bind_eq_ok h
  obtain ⟨_, v, -, h⟩ := EStateM.bind_eq_ok h
  cases h
  exact Except.mapError_eq_ok.mp (EStateM.lift_eq_ok hp).1

omit [Platform π H] in
lemma installedSequence_eq_ok {c : Uuid} {a : Arena} {n : Option UInt32} {r s : Run π H δ η τ}
    (h : installedSequence c a r = .ok n s) :
    n = installedNumber r.processor.layout c a r.processor.store.device := by
  obtain ⟨p, t, hp, h⟩ := EStateM.bind_eq_ok h
  cases hp
  simp only [installedNumber]
  revert h
  dsimp only
  cases answer (installedEnvelope r.processor.layout c r.processor.store.device a) with
  | ok b =>
    intro h
    cases h
    rfl
  | error x =>
    cases x with
    | notFound =>
      intro h
      cases h
      rfl
    | _ =>
      intro h
      cases h

variable [Hash.Engine η]

omit [Platform π H] [Flash δ] in
lemma along_manifestMatches (hd : Lends T) (e : Envelope) :
    Follows (Along T) (manifestMatches e : Act π H δ η τ Bool) :=
  Steps.along (steps_withDigest hd (.bind (.adaptExcept (steps_hash _)) fun _ =>
    .bind (.adaptExcept (steps_hash _)) fun _ => steps_digestMatches))

omit [Flash δ] in
lemma along_authenticate (hd : Lends T)
    (ha : ∀ c : Call H, c.IsAuthorization → Follows T (Processor.ask c)) (e : Envelope) (c : Uuid)
    (p : Policy) (t : Trigger) :
    Follows (Along T) (authenticate e c p t : Act π H δ η τ Unit) :=
  follows_authenticate (along_manifestMatches hd) (fun c hc _ => along_within (ha c hc)) e c p t

lemma acts_authenticate (e : Envelope) (c : Uuid) (p : Policy) (t : Trigger) (exempt : List Region) :
    Follows (Acts fun _ => Preliminary exempt) (authenticate e c p t : Act π H δ η τ Unit) :=
  along_authenticate lends_does does_authorization e c p t

lemma authenticate_eq_ok {e : Envelope} {c : Uuid} {p : Policy} {t : Trigger}
    {r s : Run π H δ η τ} (h : authenticate e c p t r = .ok () s) :
    (∃ u v : Run π H δ η τ, manifestMatches e u = .ok true v) ∧
      Account (authentications e c p t) r.processor s.processor := by
  have hask (d : Call H) (u v : Run π H δ η τ) (a : d.Reply) (h : within (fun _ => .unauthenticated)
      (Processor.ask d) u = .ok a v) : Account [.call d (.ok a)] u.processor v.processor := by
    obtain ⟨q, hq, rfl⟩ := call_eq_ok h
    exact hq
  obtain ⟨y, u, hy, h⟩ := EStateM.bind_eq_ok h
  have hu : Account [] r.processor u.processor :=
    quiet_eq_ok (along_manifestMatches lends_does e) hy
  cases y with
  | false => cases h
  | true =>
    refine ⟨⟨r, u, hy⟩, ?_⟩
    simp only [↓reduceIte] at h
    simp only [authentications]
    by_cases he : e.signatures.isEmpty
    · rw [if_pos he] at h ⊢
      obtain ⟨_, v, hv, h⟩ := EStateM.bind_eq_ok h
      rw [List.isEmpty_iff.mp he] at h
      cases h
      exact hu.trans (hask _ _ _ _ hv)
    · rw [if_neg he] at h ⊢
      exact hu.trans (forM_eq_ok (fun s u v hs => hask (.authenticate c s e.digestBytes) u v () hs) h)

lemma along_accept (hd : Lends T) (ha : ∀ c : Call H, c.IsAuthorization → Follows T (Processor.ask c))
    (b : Bytes) (a : Arena) : Follows (Along T) (accept b a : Act π H δ η τ (Envelope × Uuid)) :=
  follows_accept (fun r _ => refl_of T r.processor) (along_manifestMatches hd)
    (fun c hc _ => along_within (ha c hc)) b a

lemma along_acceptInstalled (hd : Lends T)
    (ha : ∀ c : Call H, c.IsAuthorization → Follows T (Processor.ask c)) (c : Uuid) (a : Arena) :
    Follows (Along T) (acceptInstalled c a : Act π H δ η τ Envelope) :=
  follows_acceptInstalled (fun r _ => refl_of T r.processor) (along_manifestMatches hd)
    (fun c hc _ => along_within (ha c hc)) c a

lemma acts_accept (b : Bytes) (a : Arena) (exempt : List Region) :
    Follows (Acts fun _ => Preliminary exempt) (accept b a : Act π H δ η τ (Envelope × Uuid)) :=
  along_accept lends_does does_authorization b a

structure Accepted (b : Bytes) (a : Arena) (e : Envelope) (c : Uuid) (s : Slot)
    (p q : Processor π H δ η τ) : Prop where
  parsed : Envelope.parse b = .ok e
  classId : e.manifest.classId? = some c
  matched : ∃ u v : Run π H δ η τ, manifestMatches e u = .ok true v
  slot : p.layout.slot c = .ok s
  account : Account (authentications e c s.policy .update ++
    [.call (.authorizeSequence c s.policy e.manifest.sequenceNumber
      (installedNumber p.layout c a p.store.device)) (.ok ())]) p q

lemma accept_eq_ok {b : Bytes} {a : Arena} {e : Envelope} {c : Uuid} {r t : Run π H δ η τ}
    (h : accept b a r = .ok (e, c) t) : ∃ s, Accepted b a e c s r.processor t.processor := by
  obtain ⟨e', r₁, h₁, h⟩ := EStateM.bind_eq_ok h
  have a₁ : Account [] r.processor r₁.processor := quiet_eq_ok (along_decode b) h₁
  cases hc : e'.manifest.classId? with
  | none =>
    rw [hc] at h
    cases h
  | some c' =>
    rw [hc] at h
    obtain ⟨_, r₂, h₂, h⟩ := EStateM.bind_eq_ok h
    cases h₂
    obtain ⟨_, r₃, h₃, h⟩ := EStateM.bind_eq_ok h
    cases h₃
    obtain ⟨s, r₄, h₄, h⟩ := EStateM.bind_eq_ok h
    have a₄ : Account [] _ r₄.processor := quiet_eq_ok (along_slot c') h₄
    obtain ⟨_, r₅, h₅, h⟩ := EStateM.bind_eq_ok h
    obtain ⟨hm, a₅⟩ := authenticate_eq_ok h₅
    obtain ⟨_, r₆, h₆, h⟩ := EStateM.bind_eq_ok h
    cases h₆
    obtain ⟨n, r₇, h₇, h⟩ := EStateM.bind_eq_ok h
    have a₇ : Account [] _ r₇.processor :=
      quiet_eq_ok (follows_installedSequence c' a) h₇
    obtain ⟨_, r₈, h₈, h⟩ := EStateM.bind_eq_ok h
    obtain ⟨q, hq, rfl⟩ := call_eq_ok h₈
    cases h
    have hs := slot_eq_ok h₄
    -- Nothing is written before the installed envelope is looked at.
    have before : Account (authentications e c s.policy .update) r.processor r₅.processor :=
      a₁.trans (a₄.trans a₅)
    have hd := before.device_eq device_notMem_authentications
    have hn := installedSequence_eq_ok h₇
    dsimp only at hn
    rw [before.layout, hd] at hn
    subst hn
    exact ⟨s, decode_eq_ok h₁, hc, hm, a₁.layout ▸ hs, before.trans (a₇.trans hq)⟩

end

end Run

end Firmware.Processor
