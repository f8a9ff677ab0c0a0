import Firmware.Stream.Channel
import Mathlib.Tactic.Lemma

/-!
Chunks in flight. An image that is served in a session comes as chunks of consecutive offsets, the
last of which is marked; what is in flight between a provider and a requestor are the rest of one
serving and then whole servings.
-/

namespace Firmware

variable {session : UInt32} {image : Bytes} {cs ds : List Chunk}

inductive Delivers (session : UInt32) (image : Bytes) : Nat → List Chunk → Prop
  | last {p : Nat} (id : UInt32) : p ≤ image.length →
      Delivers session image p [⟨session, id, UInt32.ofNat p, image.drop p, true⟩]
  | more {p n : Nat} {cs : List Chunk} (id : UInt32) : p + n < image.length →
      Delivers session image (p + n) cs →
      Delivers session image p (⟨session, id, UInt32.ofNat p, (image.drop p).take n, false⟩ :: cs)

namespace Channel

/-- Each round takes a byte at least. Within a round that has yet to come to a size that is not zero,
the byte is still to be taken, and a round of fuel less will do. -/
lemma cut_delivers {pattern : List Nat} (hp : pattern.any (· ≠ 0) = true) {fuel p : Nat}
    (sizes : List Nat) (id : Nat) (h : p < image.length)
    (hf : sizes.length + (image.length - p) * (pattern.length + 1) <
      fuel + if sizes.any (· ≠ 0) then pattern.length + 1 else 0) :
    Delivers session image p (cut session pattern fuel sizes id p (image.drop p)) := by
  induction fuel generalizing sizes id p with
  | zero =>
    have hm : pattern.length + 1 ≤ (image.length - p) * (pattern.length + 1) :=
      Nat.le_mul_of_pos_left _ (by omega)
    split at hf <;> omega
  | succ fuel ih =>
    cases sizes with
    | nil =>
      refine ih pattern id h ?_
      rw [if_pos hp]
      simp only [List.any_nil, Bool.false_eq_true, ↓reduceIte, List.length_nil] at hf
      omega
    | cons size sizes =>
      rw [cut, List.length_drop]
      by_cases hl : image.length - p ≤ size
      · have ht : (image.drop p).take size = image.drop p :=
          List.take_of_length_le (by rwa [List.length_drop])
        simp only [hl, ↓reduceIte, decide_true, ht]
        exact .last _ (Nat.le_of_lt h)
      · simp only [hl, ↓reduceIte, decide_false, List.drop_drop]
        refine .more _ (by omega) (ih sizes (id + 1) (by omega) ?_)
        rw [List.length_cons] at hf
        cases size with
        | zero =>
          have ha : (0 :: sizes).any (· ≠ 0) = sizes.any (· ≠ 0) := rfl
          rw [ha] at hf
          rw [Nat.add_zero]
          omega
        | succ size =>
          have hk : (image.length - (p + (size + 1)) + 1) * (pattern.length + 1) ≤
              (image.length - p) * (pattern.length + 1) := Nat.mul_le_mul_right _ (by omega)
          rw [Nat.succ_mul] at hk
          split at hf <;> omega

lemma chunksOf_delivers {pattern : List Nat} (h : chunksOf session image pattern = .ok cs) :
    Delivers session image 0 cs := by
  simp only [chunksOf] at h
  split at h
  · rename_i hp
    cases h
    simp only [progresses, Bool.and_eq_true, Bool.not_eq_true', List.isEmpty_eq_false_iff] at hp
    obtain ⟨h0, hp⟩ := hp
    cases image with
    | nil =>
      cases pattern with
      | nil => exact absurd rfl h0
      | cons size sizes =>
        have h0 : 0 ≤ ([] : Bytes).length := Nat.le_refl 0
        have hf : (([] : Bytes).length + 1) * ((size :: sizes).length + 1) = (size :: sizes).length + 1 :=
          Nat.one_mul _
        rw [hf, cut]
        simp only [List.length_nil, Nat.zero_le, decide_true, ↓reduceIte, List.take_nil]
        exact .last 0 h0
    | cons b image =>
      have hp : pattern.any (· ≠ 0) = true := by simpa using hp
      refine cut_delivers hp pattern 0 (Nat.succ_pos _) ?_
      rw [if_pos hp, Nat.sub_zero, Nat.succ_mul]
      omega
  · cases h

end Channel

section Flight

variable {images : Text → Bytes} {uri : Text} {p q : Nat} {c : Chunk} {es : List Chunk}

/-- What a requestor whose last session was this has asked for. In one session it asks for one image. -/
def Asked (uri : Text) (session : UInt32) (r : Request) : Prop :=
  r.session.toNat ≤ session.toNat ∧ (r.session = session → r.uri = uri)

inductive Servings (images : Text → Bytes) (P : Request → Prop) : List Chunk → Prop
  | nil : Servings images P []
  | cons {r : Request} {cs ds : List Chunk} : P r → Delivers r.session (images r.uri) 0 cs →
      Servings images P ds → Servings images P (cs ++ ds)

/-- What is in flight to a requestor that has got an image up to some offset. As long as it has got
nothing, the rest of a serving for an earlier session may be ahead. -/
inductive Flight (images : Text → Bytes) (uri : Text) (session : UInt32) : Nat → List Chunk → Prop
  | between {cs : List Chunk} : Servings images (Asked uri session) cs → Flight images uri session 0 cs
  | stale {r : Request} {p : Nat} {cs ds : List Chunk} : Asked uri session r → r.session ≠ session →
      Delivers r.session (images r.uri) p cs → Servings images (Asked uri session) ds →
      Flight images uri session 0 (cs ++ ds)
  | within {p : Nat} {cs ds : List Chunk} : Delivers session (images uri) p cs →
      Servings images (Asked uri session) ds → Flight images uri session p (cs ++ ds)

variable {P Q : Request → Prop}

lemma Servings.mono (h : Servings images P cs) (hPQ : ∀ r, P r → Q r) : Servings images Q cs := by
  induction h with
  | nil => exact .nil
  | cons hr hd _ ih => exact .cons (hPQ _ hr) hd ih

lemma Servings.append (h : Servings images P cs) (hd : Servings images P ds) :
    Servings images P (cs ++ ds) := by
  induction h with
  | nil => exact hd
  | cons hr hc _ ih =>
    rw [List.append_assoc]
    exact .cons hr hc ih

/-- A chunk is of another session, or it is the next piece of an image. `S` is what holds behind it, up to
the offset that has been got then. -/
inductive Lands (image : Bytes) (session : UInt32) (p : Nat) (c : Chunk) (S : Nat → Prop) : Prop
  | stale : c.session ≠ session → S p → Lands image session p c S
  | last : c.session = session → c.offset = UInt32.ofNat p → p ≤ image.length → c.data = image.drop p →
      c.last = true → (∃ q, S q) → Lands image session p c S
  | more (n : Nat) : c.session = session → c.offset = UInt32.ofNat p → p + n < image.length →
      c.data = (image.drop p).take n → c.last = false → S (p + n) → Lands image session p c S

lemma Lands.mono {S T : Nat → Prop} (h : Lands image session p c S) (hST : ∀ q, S q → T q) :
    Lands image session p c T := by
  cases h with
  | stale hn hs => exact .stale hn (hST _ hs)
  | last hs ho hp hd hl hr =>
    obtain ⟨q, hq⟩ := hr
    exact .last hs ho hp hd hl ⟨q, hST q hq⟩
  | more n hs ho hp hd hl hr => exact .more n hs ho hp hd hl (hST _ hr)

namespace Flight

lemma append {r : Request} (h : Flight images uri session p cs) (hr : Asked uri session r)
    (hd : Delivers r.session (images r.uri) 0 ds) : Flight images uri session p (cs ++ ds) := by
  have hs : Servings images (Asked uri session) ds := by
    rw [← List.append_nil ds]
    exact .cons hr hd .nil
  cases h with
  | between hc => exact .between (hc.append hs)
  | stale ha hn hc hd =>
    rw [List.append_assoc]
    exact .stale ha hn hc (hd.append hs)
  | within hc hd =>
    rw [List.append_assoc]
    exact .within hc (hd.append hs)

lemma renew {uri' : Text} {session' : UInt32} (h : Flight images uri session p cs)
    (hs : session.toNat < session'.toNat) : Flight images uri' session' 0 cs := by
  have ha {r : Request} (hr : Asked uri session r) : Asked uri' session' r ∧ r.session ≠ session' := by
    have hlt := Nat.lt_of_le_of_lt hr.1 hs
    have hne : r.session ≠ session' := fun he => absurd (he ▸ hlt) (Nat.lt_irrefl _)
    exact ⟨⟨Nat.le_of_lt hlt, fun he => absurd he hne⟩, hne⟩
  cases h with
  | between hc => exact .between (hc.mono fun r hr => (ha hr).1)
  | stale hr _ hc hd => exact .stale (ha hr).1 (ha hr).2 hc (hd.mono fun r hr => (ha hr).1)
  | within hc hd =>
    have hr : Asked uri session ⟨uri, session⟩ := ⟨Nat.le_refl _, fun _ => rfl⟩
    exact .stale (r := ⟨uri, session⟩) (ha hr).1 (ha hr).2 hc (hd.mono fun r hr => (ha hr).1)

lemma lands_within (hd : Delivers session (images uri) p ds) (hs : Servings images (Asked uri session) cs)
    (he : ds ++ cs = c :: es) :
    Lands (images uri) session p c fun q => Flight images uri session q es := by
  cases hd with
  | last id hp =>
    cases he
    exact .last rfl rfl hp rfl rfl ⟨0, .between hs⟩
  | more id hn hd =>
    cases he
    exact .more _ rfl rfl hn rfl rfl (.within hd hs)

lemma lands_stale {r : Request} (hr : Asked uri session r) (hn : r.session ≠ session)
    (hd : Delivers r.session (images r.uri) q ds) (hs : Servings images (Asked uri session) cs)
    (he : ds ++ cs = c :: es) :
    Lands (images uri) session 0 c fun q => Flight images uri session q es := by
  cases hd with
  | last id hp =>
    cases he
    exact .stale hn (.between hs)
  | more id hp hd =>
    cases he
    exact .stale hn (.stale hr hn hd hs)

lemma lands (h : Flight images uri session p (c :: cs)) :
    Lands (images uri) session p c fun q => Flight images uri session q cs := by
  generalize he : c :: cs = es at h
  cases h with
  | between hs =>
    cases hs with
    | nil => cases he
    | @cons r _ _ hr hd hs =>
      by_cases hn : r.session = session
      · rw [hn, hr.2 hn] at hd
        exact lands_within hd hs he.symm
      · exact lands_stale hr hn hd hs he.symm
  | stale hr hn hd hs => exact lands_stale hr hn hd hs he.symm
  | within hd hs => exact lands_within hd hs he.symm

end Flight

end Flight

end Firmware
