import Firmware.Flash.Window
import Firmware.Proofs.Flash.Slice

/-!
What an operation on a device can do to it: a list of calls that program and erase, each of which may
fail. Where the calls aim at decides which bytes can change.
-/

namespace Firmware.Flash

variable {δ : Type} [Flash δ]

namespace Region

def Apart (r s : Region) : Prop := r.stop ≤ s.start ∨ s.stop ≤ r.start

lemma Apart.symm {r s : Region} (h : r.Apart s) : s.Apart r := Or.symm h

lemma Apart.of_getElem? {rs : List Region} (h : rs.Pairwise Apart) {i j : Nat}
    {r s : Region} (hi : rs[i]? = some r) (hj : rs[j]? = some s) (hn : i ≠ j) : r.Apart s := by
  obtain ⟨hil, rfl⟩ := List.getElem?_eq_some_iff.mp hi
  obtain ⟨hjl, rfl⟩ := List.getElem?_eq_some_iff.mp hj
  rcases Nat.lt_or_gt_of_ne hn with hlt | hlt
  · exact List.pairwise_iff_getElem.mp h i j hil hjl hlt
  · exact (List.pairwise_iff_getElem.mp h j i hjl hil hlt).symm

end Region

namespace Mutation

def perform : Mutation → EStateM Flash.Error δ Unit
  | program address data => Flash.program address data
  | erase address len => Flash.erase address len
  | flush => Flash.flush

def Inside (r : Region) : Mutation → Prop
  | program address data => r.start ≤ address ∧ address + data.length ≤ r.stop
  | erase address len => r.start ≤ address ∧ address + len ≤ r.stop
  | flush => True

def Spares (a n : Nat) : Mutation → Prop
  | program address data => address + data.length ≤ a ∨ a + n ≤ address
  | erase address len => address + len ≤ a ∨ a + n ≤ address
  | flush => True

lemma Inside.spares {r : Region} {m : Mutation} (h : m.Inside r) {a n : Nat}
    (ha : r.stop ≤ a ∨ a + n ≤ r.start) : m.Spares a n := by
  cases m <;> simp only [Inside, Spares] at h ⊢ <;> omega

lemma Inside.spares_region {r s : Region} {m : Mutation} (h : m.Inside r) (ha : r.Apart s) :
    m.Spares s.start s.size := h.spares (ha.imp id id)

lemma Inside.mono {r s : Region} {m : Mutation} (h : m.Inside r) (hl : s.start ≤ r.start)
    (hr : r.stop ≤ s.stop) : m.Inside s := by
  cases m <;> simp only [Inside] at h ⊢ <;> omega

/-- A mutation that programs more bytes than 32 bits can count. -/
def Long : Mutation → Prop
  | program _ data => 0x100000000 ≤ data.length
  | erase _ _ | flush => False

end Mutation

/-- A device that can tell its size, which takes 32 bits. -/
def Sized (d : δ) : Prop := ∃ n, size d = .ok n

/-- A device gets into a state by mutations that satisfy `P`. -/
def Reach (P : Mutation → Prop) : δ → δ → Prop :=
  Relation.ReflTransGen fun d d' => ∃ m, P m ∧ d' = stateAfter (Mutation.perform m d)

namespace Reach

variable {P Q : Mutation → Prop} {d d' : δ}

instance : IsPreorder δ (Reach P) where
  refl _ := .refl
  trans _ _ _ := .trans

lemma single {m : Mutation} (h : P m) : Reach P d (stateAfter (m.perform d)) :=
  Relation.ReflTransGen.single ⟨m, h, rfl⟩

lemma mono (hPQ : ∀ m, P m → Q m) (h : Reach P d d') : Reach Q d d' := by
  induction h with
  | refl => exact .refl
  | tail _ hs ih =>
    obtain ⟨m, hm, rfl⟩ := hs
    exact ih.tail ⟨m, hPQ m hm, rfl⟩

lemma eq (h : Reach (fun _ => False) d d') : d' = d := by
  induction h with
  | refl => rfl
  | tail _ hs _ =>
    obtain ⟨m, hm, -⟩ := hs
    exact hm.elim

end Reach

/-- Devices on which programming and erasing leave all bytes alone that they do not aim at. -/
class Local (δ : Type) [Flash δ] : Prop where
  read_perform : ∀ (m : Mutation) (a n : Nat), m.Spares a n →
    ∀ d : δ, read a n (stateAfter (m.perform d)) = read a n d

lemma Reach.read_eq [Local δ] {P : Mutation → Prop} {d d' : δ} {a n : Nat}
    (h : Reach P d d') (hP : ∀ m, P m → m.Spares a n) : read a n d' = read a n d := by
  induction h with
  | refl => rfl
  | tail _ hs ih =>
    obtain ⟨m, hm, rfl⟩ := hs
    rw [Local.read_perform m a n (hP m hm), ih]

namespace Journaled

def entryOf (m : Mutation) (d : δ) : Entry :=
  ⟨m, match m.perform d with
    | .ok () _ => none
    | .error e _ => some e⟩

lemma stateAfter_perform (m : Mutation) (j : Journaled δ) :
    stateAfter (m.perform j) =
      ⟨stateAfter (m.perform j.device), j.entries ++ [entryOf m j.device]⟩ := by
  cases m <;> simp only [Mutation.perform, Flash.program, Flash.erase, Flash.flush, record, entryOf]
  all_goals split <;> simp_all

end Journaled

namespace Ram

structure Shaped (d d' : Ram) : Prop where
  writeUnit : d'.writeUnit = d.writeUnit
  eraseUnit : d'.eraseUnit = d.eraseUnit
  ready : d'.ready = d.ready
  length : d'.contents.length = d.contents.length

structure Alike (d d' : Ram) : Prop extends Shaped d d' where
  faulty : d'.faulty = d.faulty

instance : IsPreorder Ram Shaped where
  refl _ := ⟨rfl, rfl, rfl, rfl⟩
  trans _ _ _ h h' := ⟨h'.1.trans h.1, h'.2.trans h.2, h'.3.trans h.3, h'.4.trans h.4⟩

instance : IsPreorder Ram Alike where
  refl d := ⟨refl_of Shaped d, rfl⟩
  trans _ _ _ h h' := ⟨trans_of Shaped h.1 h'.1, h'.2.trans h.2⟩

lemma program_run (a : Nat) (data : Bytes) (d : Ram) :
    (Flash.program a data : EStateM Flash.Error Ram Unit) d =
      if d.contents.length < a + data.length then .error .outOfRange d
      else if !(isMultiple a d.writeUnit && isMultiple data.length d.writeUnit) then
        .error .misaligned d
      else change (fun b => splice b a data.length (List.zipWith (· &&& ·) · data)) d := by
  simp only [Flash.program, EStateM.bind_run, EStateM.get_run]
  by_cases h : a + data.length ≤ d.contents.length
  · cases hm : isMultiple a d.writeUnit && isMultiple data.length d.writeUnit <;>
      simp [h, EStateM.bind_run, Nat.not_lt.mpr h]
  · simp [h, Nat.lt_of_not_le h, EStateM.bind_run]

lemma erase_run (a n : Nat) (d : Ram) :
    (Flash.erase a n : EStateM Flash.Error Ram Unit) d =
      if d.contents.length < a + n then .error .outOfRange d
      else if !(isMultiple a d.eraseUnit && isMultiple n d.eraseUnit) then .error .misaligned d
      else change (fun b => splice b a n fun _ => Bytes.erased n) d := by
  simp only [Flash.erase, EStateM.bind_run, EStateM.get_run]
  by_cases h : a + n ≤ d.contents.length
  · cases hm : isMultiple a d.eraseUnit && isMultiple n d.eraseUnit <;>
      simp [h, EStateM.bind_run, Nat.not_lt.mpr h]
  · simp [h, Nat.lt_of_not_le h, EStateM.bind_run]

lemma change_alike (f : Bytes → Bytes) (d : Ram) (h : (f d.contents).length = d.contents.length) :
    d.Alike (stateAfter (change f d)) := by
  simp only [change]
  split
  · exact refl_of Alike d
  · split <;> exact ⟨⟨rfl, rfl, rfl, by simp [h]⟩, rfl⟩

lemma contents_change (f : Bytes → Bytes) (d : Ram) :
    (stateAfter (change f d)).contents = d.contents ∨
      (stateAfter (change f d)).contents = f d.contents := by
  simp only [change]
  repeat' split
  all_goals simp

lemma change_eq_ok {f : Bytes → Bytes} {d d' : Ram} {u : Unit} (h : change f d = .ok u d') :
    d'.changes = d.changes + 1 := by
  simp only [change] at h
  split at h
  · cases h
  · split at h
    · cases h
    · cases h
      rfl

lemma changes_of_program {a : Nat} {data : Bytes} {d d' : Ram} {u : Unit}
    (h : (Flash.program a data : EStateM Flash.Error Ram Unit) d = .ok u d') : d'.changes = d.changes + 1 := by
  rw [program_run] at h
  split at h
  · cases h
  · split at h
    · cases h
    · exact change_eq_ok h

lemma changes_of_erase {a n : Nat} {d d' : Ram} {u : Unit}
    (h : (Flash.erase a n : EStateM Flash.Error Ram Unit) d = .ok u d') : d'.changes = d.changes + 1 := by
  rw [erase_run] at h
  split at h
  · cases h
  · split at h
    · cases h
    · exact change_eq_ok h

lemma changes_le_change (f : Bytes → Bytes) (d : Ram) : d.changes ≤ (stateAfter (change f d)).changes := by
  simp only [change]
  repeat' split
  all_goals simp

lemma changes_le_perform (m : Mutation) (d : Ram) : d.changes ≤ (stateAfter (m.perform d)).changes := by
  cases m with
  | program a data =>
    simp only [Mutation.perform, program_run]
    repeat' split
    all_goals first | exact Nat.le_refl _ | exact changes_le_change _ d
  | erase a n =>
    simp only [Mutation.perform, erase_run]
    repeat' split
    all_goals first | exact Nat.le_refl _ | exact changes_le_change _ d
  | flush => exact Nat.le_refl _

lemma perform_cases (m : Mutation) (d : Ram) :
    d.Alike (stateAfter (m.perform d)) ∧
      ((stateAfter (m.perform d)).contents = d.contents ∨
        ∃ a n f, a + n ≤ d.contents.length ∧ (f (slice d.contents a n)).length = n ∧
          (∀ b k, m.Spares b k → a + n ≤ b ∨ b + k ≤ a) ∧
          (stateAfter (m.perform d)).contents = splice d.contents a n f) := by
  cases m with
  | program a data =>
    simp only [Mutation.perform, program_run]
    split
    · exact ⟨refl_of Alike d, .inl rfl⟩
    · rename_i ha
      split
      · exact ⟨refl_of Alike d, .inl rfl⟩
      · have hn : (List.zipWith (· &&& ·) (slice d.contents a data.length) data).length =
            data.length := by
          simp [length_slice_of_le (Nat.not_lt.mp ha)]
        refine ⟨change_alike _ d (length_splice (Nat.not_lt.mp ha) hn), ?_⟩
        rcases contents_change _ d with h | h
        · exact .inl h
        · exact .inr ⟨a, data.length, _, Nat.not_lt.mp ha, hn, fun _ _ hs => hs, h⟩
  | erase a n =>
    simp only [Mutation.perform, erase_run]
    split
    · exact ⟨refl_of Alike d, .inl rfl⟩
    · rename_i ha
      split
      · exact ⟨refl_of Alike d, .inl rfl⟩
      · have hn : (Bytes.erased n).length = n := Bytes.length_erased n
        refine ⟨change_alike _ d (length_splice (Nat.not_lt.mp ha) hn), ?_⟩
        rcases contents_change (fun b => splice b a n fun _ => Bytes.erased n) d with h | h
        · exact .inl h
        · exact .inr ⟨a, n, _, Nat.not_lt.mp ha, hn, fun _ _ hs => hs, h⟩
  | flush => exact ⟨refl_of Alike d, .inl rfl⟩

lemma slice_perform {m : Mutation} {a n : Nat} (h : m.Spares a n) (d : Ram) :
    slice (stateAfter (m.perform d)).contents a n = slice d.contents a n := by
  obtain ⟨-, hc | ⟨b, k, f, hb, hf, hs, hc⟩⟩ := perform_cases m d
  · rw [hc]
  · rw [hc, slice_splice_of_disjoint hb hf (hs a n h)]

instance : Local Ram where
  read_perform m a n h d := by
    have hd := (perform_cases m d).1
    simp only [Flash.read, hd.ready, hd.length, slice_perform h]

variable {P : Mutation → Prop} {d d' : Ram}

lemma alike_of_reach (h : Reach P d d') : d.Alike d' := by
  induction h with
  | refl => exact refl_of Alike d
  | tail _ hs ih =>
    obtain ⟨m, -, rfl⟩ := hs
    exact trans_of Alike ih (perform_cases m _).1

lemma changes_le_of_reach (h : Reach P d d') : d.changes ≤ d'.changes := by
  induction h with
  | refl => exact Nat.le_refl _
  | tail _ hs ih =>
    obtain ⟨m, -, rfl⟩ := hs
    exact Nat.le_trans ih (changes_le_perform m _)

lemma slice_of_reach (h : Reach P d d') {a n : Nat} (hP : ∀ m, P m → m.Spares a n) :
    slice d'.contents a n = slice d.contents a n := by
  induction h with
  | refl => rfl
  | tail _ hs ih =>
    obtain ⟨m, hm, rfl⟩ := hs
    rw [slice_perform (hP m hm), ih]

lemma sized_iff : Sized d ↔ d.contents.length < 0x100000000 := by
  simp only [Sized, Flash.size]
  split <;> simp [*]

lemma Shaped.sized (h : Shaped d d') (hs : Sized d) : Sized d' :=
  sized_iff.mpr (h.length ▸ sized_iff.mp hs)

lemma program_long {data : Bytes} (hs : Sized d) (hl : 0x100000000 ≤ data.length) (a : Nat) :
    (Flash.program a data : EStateM Flash.Error Ram Unit) d = .error .outOfRange d := by
  have := sized_iff.mp hs
  rw [program_run, if_pos (by omega)]

lemma perform_long {m : Mutation} (hs : Sized d) (hm : m.Long) : m.perform d = .error .outOfRange d := by
  cases m with
  | program a data => exact program_long hs hm a
  | erase a n | flush => exact hm.elim

lemma reach_of_sized (hs : Sized d) (h : Reach (fun m => P m ∨ m.Long) d d') : Reach P d d' := by
  induction h with
  | refl => exact .refl
  | @tail d₁ d₂ _ ht ih =>
    obtain ⟨m, hm | hm, rfl⟩ := ht
    · exact ih.tail ⟨m, hm, rfl⟩
    · rw [perform_long ((alike_of_reach ih).sized hs) hm]
      exact ih

end Ram

end Firmware.Flash
