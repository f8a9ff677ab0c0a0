import Firmware.Proofs.Flash.Programming
import Mathlib.Data.List.Forall2

namespace Firmware

/-- There is room for `n` bytes, wherever the next multiple of `align` is. -/
def Arena.Fits (n align : Nat) (arena : Arena) : Prop :=
  ∃ block arena', Arena.allocate n align arena = .ok block arena'

namespace Flash

variable {δ : Type} [Flash δ]

inductive Call where
  | read (address len : Nat)
  | readDirect (address len align : Nat) (arena : Arena)
  | change (m : Mutation)

namespace Call

def perform : Call → δ → Except Flash.Error Bytes × δ
  | read address len, d => (Flash.read address len d, d)
  | readDirect address len align arena, d => (answer (Flash.readDirect address len align d arena), d)
  | change m, d => ((answer (m.perform d)).map fun _ => [], stateAfter (m.perform d))

def run : List Call → δ → List (Except Flash.Error Bytes) × δ
  | [], d => ([], d)
  | c :: cs, d => ((c.perform d).1 :: (run cs (c.perform d).2).1, (run cs (c.perform d).2).2)

/-- Calls that differ in nothing but the arena they read through, which has room in either. -/
inductive Same : Call → Call → Prop
  | read (address len : Nat) : Same (read address len) (read address len)
  | readDirect {address len align : Nat} {arena arena' : Arena} : arena.Fits len align →
      arena'.Fits len align → Same (readDirect address len align arena) (readDirect address len align arena')
  | change (m : Mutation) : Same (change m) (change m)

end Call

namespace Mutation

def moved (k : Nat) : Mutation → Mutation
  | program address data => program (k + address) data
  | erase address len => erase (k + address) len
  | flush => flush

def fits (n : Nat) : Mutation → Bool
  | program address data => address + data.length ≤ n
  | erase address len => address + len ≤ n
  | flush => true

lemma inside_moved {r : Region} {m : Mutation} (h : m.fits r.size = true) : (m.moved r.start).Inside r := by
  cases m <;> simp only [fits, moved, Inside, Region.stop, decide_eq_true_eq] at h ⊢
  all_goals omega

end Mutation

namespace Window

def reframe (frames : List Region) (w : Window δ) : Window δ := { w with frames }

lemma addressOf_single {r : Region} (h : r.stop < 0x100000000) (address len : Nat) :
    addressOf [r] address len =
      if address + len ≤ r.size then .ok (r.start + address) else .error .outOfRange := by
  simp only [addressOf, Region.stop] at h ⊢
  split <;> split <;> first | rfl | omega

lemma addressOf_cons_cons {r s t : Region} (h : s.part? r.start r.size = some t) (outer : List Region)
    (address len : Nat) : addressOf (r :: s :: outer) address len = addressOf (t :: outer) address len := by
  simp only [Region.part?] at h
  split at h
  · rename_i hp
    cases h
    have hs : (UInt32.ofNat (s.start + r.start)).toNat = s.start + r.start :=
      UInt32.toNat_ofNat_of_lt' hp.2
    have hn : (UInt32.ofNat r.size).toNat = r.size := UInt32.toNat_ofNat_of_lt' r.len.toNat_lt
    simp only [addressOf, Region.start, Region.size] at hp hs hn ⊢
    grind
  · cases h

def translate (frames : List Region) : Mutation → Except Flash.Error Mutation
  | .program address data => (addressOf frames address data.length).map fun a => .program a data
  | .erase address len => (addressOf frames address len).map fun a => .erase a len
  | .flush => .ok .flush

lemma translate_single {r : Region} (h : r.stop < 0x100000000) (m : Mutation) :
    translate [r] m = if m.fits r.size then .ok (m.moved r.start) else .error .outOfRange := by
  cases m with
  | program address data | erase address len =>
    simp only [translate, addressOf_single h, Mutation.fits, Mutation.moved, decide_eq_true_eq]
    split <;> rfl
  | flush => rfl

omit [Flash δ] in
lemma through_run (address len : Nat) (f : Nat → EStateM Flash.Error δ Unit) (w : Window δ) :
    through address len f w =
      match addressOf w.frames address len with
      | .ok a => onPart device (fun w d => { w with device := d }) (f a) w
      | .error e => .error e w := by
  simp only [through, EStateM.bind_run, EStateM.get_run, EStateM.lift_run]
  cases addressOf w.frames address len <;> rfl

lemma perform_run (m : Mutation) (w : Window δ) :
    m.perform w =
      match translate w.frames m with
      | .ok m => onPart device (fun w d => { w with device := d }) m.perform w
      | .error e => .error e w := by
  cases m with
  | program address data =>
    simp only [Mutation.perform, translate, Flash.program, through_run]
    cases addressOf w.frames address data.length <;> rfl
  | erase address len =>
    simp only [Mutation.perform, translate, Flash.erase, through_run]
    cases addressOf w.frames address len <;> rfl
  | flush => rfl

lemma perform_reframe {frames frames' : List Region} (h : addressOf frames = addressOf frames') (c : Call)
    (d : δ) :
    c.perform (⟨d, frames⟩ : Window δ) =
      ((c.perform (⟨d, frames'⟩ : Window δ)).1, reframe frames (c.perform (⟨d, frames'⟩ : Window δ)).2) := by
  cases c with
  | read address len => simp only [Call.perform, Flash.read, h, reframe]
  | readDirect address len align arena => simp only [Call.perform, Flash.readDirect, h, reframe]
  | change m =>
    have ht : translate frames m = translate frames' m := by
      cases m <;> simp only [translate, h]
    simp only [Call.perform, perform_run, ht]
    cases translate frames' m with
    | error e => rfl
    | ok m => simp only [answer_onPart, stateAfter_onPart, reframe]

lemma perform_stays (c : Call) (d : δ) (frames : List Region) :
    ∃ x d', c.perform (⟨d, frames⟩ : Window δ) = (x, ⟨d', frames⟩) := by
  cases c with
  | read | readDirect => exact ⟨_, _, rfl⟩
  | change m =>
    simp only [Call.perform, perform_run]
    cases translate frames m with
    | error e => exact ⟨_, _, rfl⟩
    | ok m =>
      rw [stateAfter_onPart]
      exact ⟨_, _, rfl⟩

lemma run_reframe {frames frames' : List Region} (h : addressOf frames = addressOf frames') (cs : List Call)
    (d : δ) :
    Call.run cs (⟨d, frames⟩ : Window δ) =
      ((Call.run cs (⟨d, frames'⟩ : Window δ)).1, reframe frames (Call.run cs (⟨d, frames'⟩ : Window δ)).2) := by
  induction cs generalizing d with
  | nil => rfl
  | cons c cs ih =>
    obtain ⟨x, d', hc⟩ := perform_stays c d frames'
    have hc' : c.perform (⟨d, frames⟩ : Window δ) = (x, ⟨d', frames⟩) := by
      rw [perform_reframe h, hc]
      rfl
    simp only [Call.run, hc, hc', ih]

end Window

namespace Ram

/-- A device that holds nothing but what is in the region. -/
def alone (r : Region) (d : Ram) : Ram := { d with contents := image r d }

/-- A region ends on the device, and starts at an address from which both units count anew. -/
structure Carries (d : Ram) (r : Region) : Prop where
  ready : d.ready = true
  end_lt : r.stop < 0x100000000
  end_le : r.stop ≤ d.contents.length
  writes : d.writeUnit ∣ r.start
  erases : d.eraseUnit ∣ r.start

namespace Carries

variable {r : Region} {d : Ram}

lemma of_alike {d' : Ram} (h : d.Carries r) (ha : d.Alike d') : d'.Carries r where
  ready := ha.ready.trans h.ready
  end_lt := h.end_lt
  end_le := ha.length ▸ h.end_le
  writes := ha.writeUnit ▸ h.writes
  erases := ha.eraseUnit ▸ h.erases

lemma length_alone (h : d.Carries r) : (alone r d).contents.length = r.size := length_image h.end_le

lemma slice_image {a n : Nat} (ha : a + n ≤ r.size) :
    slice (image r d) a n = slice d.contents (r.start + a) n := by
  have h := slice_slice (x := d.contents) (Nat.le_add_right r.start a)
    (Nat.add_assoc r.start a n ▸ Nat.add_le_add_left ha r.start)
  rwa [Nat.add_sub_cancel_left] at h

lemma change_alone (h : d.Carries r) {a n : Nat} {f : Bytes → Bytes} (ha : a + n ≤ r.size)
    (hf : (f (slice d.contents (r.start + a) n)).length = n) :
    change (fun b => splice b a n f) (alone r d) =
      relocate (alone r) (change (fun b => splice b (r.start + a) n f) d) := by
  have hs : slice (splice d.contents (r.start + a) n f) r.start r.size = splice (image r d) a n f := by
    have hl := h.end_le
    simp only [Region.stop] at hl
    rw [slice_splice_of_inside (by omega) hf (by omega) (by omega) hl, Nat.add_sub_cancel_left, image]
  simp only [change]
  cases hr : d.ready
  · simp [alone, hr, relocate]
  · cases hf : d.faulty d.attempts <;> simp [alone, hr, hf, relocate, image, hs]

lemma isMultiple_add {k a u : Nat} (h : u ∣ k) : isMultiple (k + a) u = isMultiple a u := by
  rw [Bool.eq_iff_iff, isMultiple_iff, isMultiple_iff, Nat.dvd_add_right h]

lemma perform_alone (h : d.Carries r) (m : Mutation) :
    m.perform (alone r d) =
      if m.fits r.size then relocate (alone r) ((m.moved r.start).perform d)
      else .error .outOfRange (alone r d) := by
  have hl := h.end_le
  simp only [Region.stop] at hl
  cases m with
  | program a data =>
    simp only [Mutation.perform, Mutation.moved, Mutation.fits, program_run, h.length_alone, decide_eq_true_eq]
    by_cases ha : a + data.length ≤ r.size
    · have hb : r.start + a + data.length ≤ d.contents.length := by omega
      have hf : (List.zipWith (· &&& ·) (slice d.contents (r.start + a) data.length) data).length =
          data.length := by
        simp [length_slice_of_le hb]
      rw [if_neg (Nat.not_lt.mpr ha), if_pos ha, if_neg (Nat.not_lt.mpr hb), isMultiple_add h.writes,
        apply_ite (relocate (alone r)), ← h.change_alone ha hf]
      rfl
    · rw [if_pos (Nat.lt_of_not_le ha), if_neg ha]
  | erase a n =>
    simp only [Mutation.perform, Mutation.moved, Mutation.fits, erase_run, h.length_alone, decide_eq_true_eq]
    by_cases ha : a + n ≤ r.size
    · have hb : r.start + a + n ≤ d.contents.length := by omega
      rw [if_neg (Nat.not_lt.mpr ha), if_pos ha, if_neg (Nat.not_lt.mpr hb), isMultiple_add h.erases,
        apply_ite (relocate (alone r)), ← h.change_alone ha (Bytes.length_erased n)]
      rfl
    · rw [if_pos (Nat.lt_of_not_le ha), if_neg ha]
  | flush => rfl

lemma read_alone (h : d.Carries r) (a n : Nat) :
    Flash.read a n (alone r d) =
      if a + n ≤ r.size then Flash.read (r.start + a) n d else .error .outOfRange := by
  have hl := h.end_le
  simp only [Region.stop] at hl
  have hr : (alone r d).ready = true := h.ready
  simp only [Flash.read, hr, h.ready, h.length_alone]
  by_cases ha : a + n ≤ r.size
  · have hb : r.start + a + n ≤ d.contents.length := by omega
    simp [ha, hb, alone, slice_image ha]
  · simp [ha]

lemma answer_directSlice {x : Bytes} {a n align : Nat} {arena : Arena} (h : arena.Fits n align) :
    answer (directSlice x a n align arena) =
      if a + n ≤ x.length then .ok (slice x a n) else .error .outOfRange := by
  obtain ⟨address, arena', h⟩ := h
  by_cases ha : a + n ≤ x.length <;> by_cases hm : a % align = 0 <;>
    simp [directSlice, EStateM.bind_run, h, ha, hm]

lemma perform_same (h : d.Carries r) {c c' : Call} (hc : c.Same c') :
    ∃ x d', c.perform (⟨d, [r]⟩ : Window Ram) = (x, ⟨d', [r]⟩) ∧ c'.perform (alone r d) = (x, alone r d') ∧
      Reach (·.Inside r) d d' := by
  have hl := h.end_le
  simp only [Region.stop] at hl
  cases hc with
  | read a n =>
    refine ⟨_, d, rfl, ?_, .refl⟩
    simp only [Call.perform, h.read_alone]
    simp only [Flash.read, Window.addressOf_single h.end_lt]
    split <;> rfl
  | @readDirect a n align arena arena' hf hf' =>
    refine ⟨_, d, rfl, ?_, .refl⟩
    have hr : (alone r d).ready = true := h.ready
    simp only [Call.perform, Flash.readDirect, Window.addressOf_single h.end_lt, hr, h.ready]
    by_cases ha : a + n ≤ r.size
    · have hb : r.start + a + n ≤ d.contents.length := by omega
      have hs : slice (alone r d).contents a n = slice d.contents (r.start + a) n := slice_image ha
      simp [ha, hb, EStateM.bind_run, answer_directSlice hf, answer_directSlice hf', h.length_alone, hs]
    · simp [ha, EStateM.bind_run, answer_directSlice hf', h.length_alone]
  | change m =>
    simp only [Call.perform, Window.perform_run, Window.translate_single h.end_lt, h.perform_alone]
    cases hm : m.fits r.size with
    | false => exact ⟨_, d, rfl, rfl, .refl⟩
    | true =>
      refine ⟨(answer ((m.moved r.start).perform d)).map fun _ => [], _, ?_, ?_,
        .single (Mutation.inside_moved hm)⟩
      · simp only [↓reduceIte, answer_onPart, stateAfter_onPart]
      · simp only [↓reduceIte, answer_relocate, stateAfter_relocate]

lemma run_same (h : d.Carries r) {cs cs' : List Call} (hc : List.Forall₂ Call.Same cs cs') :
    ∃ xs d', Call.run cs (⟨d, [r]⟩ : Window Ram) = (xs, ⟨d', [r]⟩) ∧
      Call.run cs' (alone r d) = (xs, alone r d') ∧ Reach (·.Inside r) d d' := by
  induction hc generalizing d with
  | nil => exact ⟨[], d, rfl, rfl, .refl⟩
  | cons hc _ ih =>
    obtain ⟨x, d', hw, ha, hd⟩ := h.perform_same hc
    obtain ⟨xs, d'', hws, has, hds⟩ := ih (h.of_alike (alike_of_reach hd))
    refine ⟨x :: xs, d'', ?_, ?_, hd.trans hds⟩
    · simp only [Call.run, hw, hws]
    · simp only [Call.run, ha, has]

end Carries
end Ram

open Ram

/-- A window that ends on a device and starts at a multiple of its units is a device of its own. Through any
calls it answers what the device would that has its bytes alone, and these stay the bytes of the window. The
bytes outside stay as they were. Where a frame lies in the next, both are one frame at the sum of their
offsets. -/
theorem window_alone {d : Ram} {r : Region} {stop : Nat} (hd : d.ready = true) (hr : r.end? = some stop)
    (hl : stop ≤ d.contents.length) (hw : d.writeUnit ∣ r.start) (he : d.eraseUnit ∣ r.start)
    {cs cs' : List Call} (hc : List.Forall₂ Call.Same cs cs') :
    ∃ xs d', Call.run cs (⟨d, [r]⟩ : Window Ram) = (xs, ⟨d', [r]⟩) ∧
      Call.run cs' (alone r d) = (xs, alone r d') ∧
      size (⟨d', [r]⟩ : Window Ram) = size (alone r d') ∧
      d'.contents.length = d.contents.length ∧
      (∀ a n, a + n ≤ r.start ∨ stop ≤ a → slice d'.contents a n = slice d.contents a n) ∧
      ∀ (p q s : Region) (outer : List Region), q.part? p.start p.size = some s →
        Call.run cs (⟨d, p :: q :: outer⟩ : Window Ram) =
          ((Call.run cs (⟨d, s :: outer⟩ : Window Ram)).1,
            ⟨(Call.run cs (⟨d, s :: outer⟩ : Window Ram)).2.device, p :: q :: outer⟩) := by
  obtain ⟨hlt, rfl⟩ : r.stop < 0x100000000 ∧ r.stop = stop := by
    simpa [Region.end?] using hr
  have h : d.Carries r := ⟨hd, hlt, hl, hw, he⟩
  obtain ⟨xs, d', hrun, halone, hreach⟩ := h.run_same hc
  have h' := h.of_alike (alike_of_reach hreach)
  have hsize : r.size < 0x100000000 := r.len.toNat_lt
  refine ⟨xs, d', hrun, halone, ?_, (alike_of_reach hreach).length, ?_, ?_⟩
  · simp [size, h'.length_alone, hsize]
  · exact fun a n ha => slice_of_reach hreach fun _ hm => hm.spares ha.symm
  · exact fun p q s outer hp => Window.run_reframe (funext₂ (Window.addressOf_cons_cons hp outer)) cs d

theorem window_alone_quarter :
    ∃ d', Call.run [.change (.program 0 [1, 2]), .readDirect 1 2 4 (.ofSize 8), .change (.erase 0xfffffff0 0x20)]
        (⟨Ram.ofBytes (Bytes.erased 16) 2 4, [⟨4, 4⟩]⟩ : Window Ram) =
          ([.ok [], .ok [2, 0xff], .error .outOfRange], ⟨d', [⟨4, 4⟩]⟩) ∧
      (alone ⟨4, 4⟩ d').contents = [1, 2, 0xff, 0xff] ∧
      slice d'.contents 8 8 = Bytes.erased 8 := by
  have hf : (Arena.ofSize 8).Fits 2 4 := ⟨_, _, rfl⟩
  have hc : List.Forall₂ Call.Same
      [.change (.program 0 [1, 2]), .readDirect 1 2 4 (.ofSize 8), .change (.erase 0xfffffff0 0x20)]
      [.change (.program 0 [1, 2]), .readDirect 1 2 4 (.ofSize 8), .change (.erase 0xfffffff0 0x20)] :=
    .cons (.change _) (.cons (.readDirect hf hf) (.cons (.change _) .nil))
  have hr : Region.end? ⟨4, 4⟩ = some 8 := by decide
  obtain ⟨xs, d', hw, ha, -, -, ho, -⟩ := window_alone (d := Ram.ofBytes (Bytes.erased 16) 2 4)
    rfl hr (by decide) (by decide) (by decide) hc
  have hx : [.ok [], .ok [2, 0xff], .error .outOfRange] = xs := congrArg Prod.fst ha
  have hd : [1, 2, 0xff, 0xff] = (alone ⟨4, 4⟩ d').contents := congrArg (fun x => x.2.contents) ha
  exact ⟨d', hx ▸ hw, hd.symm, ho 8 8 (.inr (Nat.le_refl 8))⟩

end Flash
end Firmware
