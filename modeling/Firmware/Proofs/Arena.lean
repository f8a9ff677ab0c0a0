import Firmware.Arena
import Firmware.Proofs.Computation
import Mathlib.Algebra.Group.Nat.Defs
import Mathlib.Order.Bounds.Basic

namespace Firmware.Arena

def IsNext (m x p : Nat) : Prop := IsLeast {q | x ≤ q ∧ m ∣ q} p

section Rounding

variable {m x p : Nat} {k : Fin 64}

lemma isNext_sub_mod (hm : 0 < m) (x : Nat) : IsNext m x (x + (m - 1) - (x + (m - 1)) % m) := by
  have hr : (x + (m - 1)) % m < m := Nat.mod_lt _ hm
  refine ⟨⟨by omega, Nat.dvd_sub_mod _⟩, fun q ⟨hx, hq⟩ => ?_⟩
  exact Nat.le_of_lt_add_of_dvd (by omega) (Nat.dvd_sub_mod _) hq

lemma exists_isNext (k : Fin 64) (x : Nat) : ∃ p, IsNext (2 ^ k.val) x p :=
  ⟨_, isNext_sub_mod (Nat.two_pow_pos _) x⟩

lemma IsNext.lt_add (h : IsNext (2 ^ k.val) x p) : p < x + 2 ^ k.val := by
  have hm : 0 < 2 ^ k.val := Nat.two_pow_pos _
  rw [h.unique (isNext_sub_mod hm x)]
  omega

/-- Where the sum overflows, the next multiple is no address, since it is one of the number of addresses. -/
lemma alignUp_eq (h : IsNext (2 ^ k.val) x p) : alignUp x (2 ^ k.val) = min p (addresses - 1) := by
  have hm : 0 < 2 ^ k.val := Nat.two_pow_pos _
  have hd : 2 ^ k.val ∣ addresses := Nat.pow_dvd_pow 2 k.isLt.le
  have hp : p = x + (2 ^ k.val - 1) - (x + (2 ^ k.val - 1)) % 2 ^ k.val := h.unique (isNext_sub_mod hm x)
  rw [alignUp, Nat.and_two_pow_sub_one_eq_mod, ← hp]
  by_cases hs : x + (2 ^ k.val - 1) < addresses
  · rw [if_pos hs]
    omega
  · have hx : x ≤ p := h.1.1
    have hle : addresses ≤ p := Nat.le_of_lt_add_of_dvd (by omega) hd h.1.2
    rw [if_neg hs]
    omega

end Rounding

inductive Serves (n m : Nat) (a : Arena) : EStateM.Result OutOfMemory Arena Block → Prop
  | empty : n = 0 → Serves n m a (.ok ⟨m, 0⟩ a)
  | given {p : Nat} : n ≠ 0 → IsNext m (a.base + a.cursor) p → p + n ≤ a.base + a.room →
      Serves n m a (.ok ⟨p, n⟩ { a with cursor := p + n - a.base })
  /-- The padding is not given back, if it was there. -/
  | refused {p c : Nat} : n ≠ 0 → IsNext m (a.base + a.cursor) p → a.base + a.room < p + n →
      a.cursor ≤ c → c ≤ a.room → Serves n m a (.error .outOfMemory { a with cursor := c })

lemma Serves.exact {n m : Nat} {a a' : Arena} {b : Block} (h : Serves n m a (.ok b a')) :
    b.len = n ∧ m ∣ b.address := by
  cases h with
  | empty hn => exact ⟨hn.symm, Nat.dvd_refl m⟩
  | given hn hp hf => exact ⟨rfl, hp.1.2⟩

section Allocate

variable {a : Arena} {n p : Nat} {k : Fin 64}

lemma take_of_le (h : a.cursor + n ≤ a.room) :
    take n a = .ok ⟨a.base + a.cursor, n⟩ { a with cursor := a.cursor + n } :=
  if_pos (.inr h)

lemma take_of_lt (hn : n ≠ 0) (h : a.room < a.cursor + n) : take n a = .error .outOfMemory a :=
  if_neg (not_or.mpr ⟨hn, Nat.not_le.mpr h⟩)

lemma allocate_zero (m : Nat) (a : Arena) : allocate 0 m a = .ok ⟨m, 0⟩ a := rfl

lemma allocate_run (hn : n ≠ 0) (hp : IsNext (2 ^ k.val) (a.base + a.cursor) p) :
    allocate n (2 ^ k.val) a =
      match take (min p (addresses - 1) - (a.base + a.cursor)) a with
      | .ok _ a' => take n a'
      | .error e a' => .error e a' := by
  rw [allocate, if_neg hn, EStateM.bind_run, EStateM.get_run]
  dsimp only
  rw [alignUp_eq hp, EStateM.bind_run, EStateM.discard_run]
  cases take (min p (addresses - 1) - (a.base + a.cursor)) a <;> rfl

lemma allocate_of_le (hn : n ≠ 0) (hb : a.base + a.room ≤ addresses)
    (hp : IsNext (2 ^ k.val) (a.base + a.cursor) p) (h : p + n ≤ a.base + a.room) :
    allocate n (2 ^ k.val) a = .ok ⟨p, n⟩ { a with cursor := p + n - a.base } := by
  have hx : a.base + a.cursor ≤ p := hp.1.1
  have hmin : min p (addresses - 1) = p := by omega
  rw [allocate_run hn hp, hmin, take_of_le (by omega)]
  dsimp only
  rw [take_of_le (by dsimp only; omega)]
  congr 2 <;> dsimp only <;> omega

lemma serves_allocate (hc : a.cursor ≤ a.room) (hb : a.base + a.room < addresses) (n : Nat) (k : Fin 64) :
    Serves n (2 ^ k.val) a (allocate n (2 ^ k.val) a) := by
  by_cases hn : n = 0
  · subst hn
    exact .empty rfl
  obtain ⟨p, hp⟩ := exists_isNext k (a.base + a.cursor)
  have hx : a.base + a.cursor ≤ p := hp.1.1
  by_cases hf : p + n ≤ a.base + a.room
  · rw [allocate_of_le hn hb.le hp hf]
    exact .given hn hp hf
  · rw [allocate_run hn hp]
    by_cases hs : a.cursor + (min p (addresses - 1) - (a.base + a.cursor)) ≤ a.room
    · rw [take_of_le hs]
      dsimp only
      rw [take_of_lt hn (by dsimp only; omega)]
      exact .refused hn hp (Nat.not_le.mp hf) (Nat.le_add_right _ _) hs
    · rw [take_of_lt (by omega) (Nat.not_le.mp hs)]
      exact .refused hn hp (Nat.not_le.mp hf) le_rfl hc

end Allocate

structure Item where
  size : Nat
  exponent : Fin 64
  pos : 0 < size
  whole : 2 ^ exponent.val ∣ size

lemma Item.stride_eq (i : Item) : stride i.size (2 ^ i.exponent.val) = i.size := by
  obtain ⟨size, k, -, c, rfl⟩ := i
  have hm : 0 < 2 ^ k.val := Nat.two_pow_pos _
  have hc : (2 ^ k.val * c + 2 ^ k.val - 1) / 2 ^ k.val = c := by
    rw [Nat.add_sub_assoc hm, Nat.mul_add_div hm, Nat.div_eq_of_lt (by omega), Nat.add_zero]
  rw [stride, hc, Nat.mul_comm]

section Items

variable {i : Item} {n : Nat} {a : Arena}

lemma allocateItems_of_lt (hn : i.size * n < addresses) (a : Arena) :
    allocateItems i.size (2 ^ i.exponent.val) n a =
      match allocate (i.size * n) (2 ^ i.exponent.val) a with
      | .ok b a' =>
        if b.len % i.size = 0 ∧ b.address % 2 ^ i.exponent.val = 0 then .ok b a' else .error .outOfMemory a'
      | .error e a' => .error e a' := by
  simp only [allocateItems, i.stride_eq, hn, if_true]
  rw [EStateM.bind_run]
  cases allocate (i.size * n) (2 ^ i.exponent.val) a with
  | ok b a' =>
    dsimp only
    split <;> rfl
  | error e a' => rfl

lemma allocateItems_of_le (hn : addresses ≤ i.size * n) (a : Arena) :
    allocateItems i.size (2 ^ i.exponent.val) n a = .error .outOfMemory a := by
  simp only [allocateItems, i.stride_eq, Nat.not_lt.mpr hn, if_false]
  rfl

lemma serves_allocateItems (hc : a.cursor ≤ a.room) (hb : a.base + a.room < addresses) (i : Item) (n : Nat) :
    Serves (i.size * n) (2 ^ i.exponent.val) a (allocateItems i.size (2 ^ i.exponent.val) n a) := by
  by_cases hl : i.size * n < addresses
  · rw [allocateItems_of_lt hl]
    have h := serves_allocate hc hb (i.size * n) i.exponent
    cases hx : allocate (i.size * n) (2 ^ i.exponent.val) a with
    | ok b a' =>
      rw [hx] at h
      obtain ⟨hlen, haddress⟩ := h.exact
      have hcheck : b.len % i.size = 0 ∧ b.address % 2 ^ i.exponent.val = 0 :=
        ⟨hlen ▸ Nat.mul_mod_right _ _, Nat.mod_eq_zero_of_dvd haddress⟩
      dsimp only
      rwa [if_pos hcheck]
    | error e a' => rwa [hx] at h
  · rw [allocateItems_of_le (Nat.not_lt.mp hl)]
    obtain ⟨p, hp⟩ := exists_isNext i.exponent (a.base + a.cursor)
    exact .refused (by omega) hp (by omega) le_rfl hc

end Items

inductive Request where
  | bytes (n : Nat) (exponent : Fin 64)
  | items (i : Item) (n : Nat)

namespace Request

def len : Request → Nat
  | bytes n _ => n
  | items i n => i.size * n

def align : Request → Nat
  | bytes _ k => 2 ^ k.val
  | items i _ => 2 ^ i.exponent.val

def perform : Request → EStateM OutOfMemory Arena Block
  | bytes n k => allocate n (2 ^ k.val)
  | items i n => allocateItems i.size (2 ^ i.exponent.val) n

variable {a : Arena}

lemma serves_perform (hc : a.cursor ≤ a.room) (hb : a.base + a.room < addresses) (r : Request) :
    Serves r.len r.align a (r.perform a) := by
  cases r with
  | bytes n k => exact serves_allocate hc hb n k
  | items i n => exact serves_allocateItems hc hb i n

structure Due (a : Arena) (r : Request) : Prop where
  exact : ∀ b, answer (r.perform a) = .ok b → b.len = r.len ∧ r.align ∣ b.address
  nothing : r.len = 0 → ∃ b, r.perform a = .ok b a
  fails_iff : r.len ≠ 0 → ∃ p, IsNext r.align (a.base + a.cursor) p ∧
    (answer (r.perform a) = .error .outOfMemory ↔ a.base + a.room < p + r.len)

lemma due (hc : a.cursor ≤ a.room) (hb : a.base + a.room < addresses) (r : Request) : Due a r := by
  have h := r.serves_perform hc hb
  constructor
  case exact =>
    intro b hok
    cases hx : r.perform a with
    | ok b' a' =>
      rw [hx] at h hok
      exact Except.ok.inj hok ▸ h.exact
    | error e a' => simp [hx, answer] at hok
  case nothing =>
    intro hz
    generalize r.perform a = x at h ⊢
    cases h with
    | empty _ => exact ⟨_, rfl⟩
    | given hn _ _ => exact absurd hz hn
    | refused hn _ _ _ _ => exact absurd hz hn
  case fails_iff =>
    intro hn
    generalize r.perform a = x at h ⊢
    cases h with
    | empty hz => exact absurd hz hn
    | given _ hp hf => exact ⟨_, hp, by simpa [answer] using hf⟩
    | refused _ hp hf _ _ => exact ⟨_, hp, by simpa [answer] using hf⟩

end Request

instance : Membership Nat Block := ⟨fun b x => b.address ≤ x ∧ x < b.address + b.len⟩

/-- An arena with the blocks that it gave since it was last reset, oldest first. -/
structure Lease where
  arena : Arena
  blocks : List Block

namespace Lease

inductive Call where
  | request (r : Request)
  | reset

def step (s : Lease) : Call → Lease
  | .request r =>
    match r.perform s.arena with
    | .ok b a => ⟨a, s.blocks ++ [b]⟩
    | .error _ a => ⟨a, s.blocks⟩
  | .reset => ⟨s.arena.reset, []⟩

def run (base room : Nat) (cs : List Call) : Lease := cs.foldl step ⟨ofBuffer base room, []⟩

structure Kept (base room : Nat) (s : Lease) : Prop where
  starts : s.arena.base = base
  holds : s.arena.room = room
  cursor : s.arena.cursor ≤ room
  inside : ∀ b ∈ s.blocks, ∀ x ∈ b, base ≤ x ∧ x < base + s.arena.cursor
  apart : s.blocks.Pairwise fun b c => ∀ x ∈ b, x ∉ c

namespace Kept

variable {base room c : Nat} {s : Lease} {b : Block}

lemma start (base room : Nat) : Kept base room ⟨ofBuffer base room, []⟩ where
  starts := rfl
  holds := rfl
  cursor := Nat.zero_le _
  inside := List.forall_mem_nil _
  apart := .nil

lemma reset (h : Kept base room s) : Kept base room ⟨s.arena.reset, []⟩ where
  starts := h.starts
  holds := h.holds
  cursor := Nat.zero_le _
  inside := List.forall_mem_nil _
  apart := .nil

lemma move (h : Kept base room s) (hs : s.arena.cursor ≤ c) (hc : c ≤ room) :
    Kept base room ⟨{ s.arena with cursor := c }, s.blocks⟩ where
  starts := h.starts
  holds := h.holds
  cursor := hc
  inside b hb x hx :=
    have hin := h.inside b hb x hx
    ⟨hin.1, hin.2.trans_le (Nat.add_le_add_left hs base)⟩
  apart := h.apart

lemma give (h : Kept base room s) (hs : s.arena.cursor ≤ c) (hc : c ≤ room)
    (hb : ∀ x ∈ b, base + s.arena.cursor ≤ x ∧ x < base + c) :
    Kept base room ⟨{ s.arena with cursor := c }, s.blocks ++ [b]⟩ where
  starts := h.starts
  holds := h.holds
  cursor := hc
  inside := by
    rw [List.forall_mem_append, List.forall_mem_singleton]
    exact ⟨(h.move hs hc).inside, fun x hx => ⟨Nat.le_of_add_right_le (hb x hx).1, (hb x hx).2⟩⟩
  apart := by
    refine List.pairwise_append.mpr ⟨h.apart, List.pairwise_singleton _ _, ?_⟩
    rintro d hd e he x hx hn
    obtain rfl := List.mem_singleton.mp he
    exact Nat.not_lt.mpr (hb x hn).1 (h.inside d hd x hx).2

lemma step (h : Kept base room s) (hb : base + room < addresses) (c : Call) : Kept base room (s.step c) := by
  obtain rfl := h.starts
  obtain rfl := h.holds
  cases c with
  | reset => exact h.reset
  | request r =>
    have hr := r.serves_perform h.cursor hb
    rw [Lease.step]
    generalize r.perform s.arena = x at hr ⊢
    cases hr with
    | empty _ => exact h.give le_rfl h.cursor fun x hx => absurd hx.2 (Nat.not_lt.mpr hx.1)
    | @given p _ hp hf =>
      have hnext : s.arena.base + s.arena.cursor ≤ p := hp.1.1
      refine h.give (by omega) (by omega) fun x hx => ⟨hnext.trans hx.1, ?_⟩
      have hlt : x < p + r.len := hx.2
      omega
    | refused _ _ _ hle hc => exact h.move hle hc

lemma run (hb : base + room < addresses) (cs : List Call) : Kept base room (run base room cs) :=
  List.foldlRecOn cs Lease.step (start base room) fun _ h c _ => h.step hb c

end Kept

/-- After any calls to the arena over a buffer, whose end is an address, the blocks that were given since the last
reset lie in the buffer and are apart, the cursor has not left the buffer, and the next request, whatever it is,
is answered as it is due. -/
theorem blocks_apart {base room : Nat} (h : base + room < addresses) (cs : List Call) :
    let s := run base room cs
    s.arena.base = base ∧ s.arena.room = room ∧ s.arena.cursor ≤ room ∧
      (∀ b ∈ s.blocks, ∀ x ∈ b, base ≤ x ∧ x < base + room) ∧
      s.blocks.Pairwise (fun b c => ∀ x ∈ b, x ∉ c) ∧
      ∀ r, Request.Due s.arena r := by
  have hk := Kept.run h cs
  refine ⟨hk.starts, hk.holds, hk.cursor, fun b hb x hx => ?_, hk.apart, fun r => ?_⟩
  · have hin := hk.inside b hb x hx
    have hc := hk.cursor
    omega
  · exact Request.due (hk.cursor.trans_eq hk.holds.symm) (by rwa [hk.starts, hk.holds]) r

/-- A buffer at an odd address. What does not fit leaves its padding behind, and a length that overflows fails. -/
theorem blocks_apart_padded :
    let s := run 0x1001 20 [.request (.bytes 1 0), .request (.bytes 4 3), .request (.bytes 40 4)]
    0x1001 + 20 < addresses ∧ s.arena = ⟨0x1001, 20, 15⟩ ∧ s.blocks = [⟨0x1001, 1⟩, ⟨0x1008, 4⟩] ∧
      (∀ x ∈ (⟨0x1001, 1⟩ : Block), x ∉ (⟨0x1008, 4⟩ : Block)) ∧
      answer (Request.perform (.items ⟨2, 1, by decide, by decide⟩ (2 ^ 63)) s.arena) = .error .outOfMemory ∧
      Request.Due s.arena (.items ⟨2, 1, by decide, by decide⟩ 2) := by
  intro s
  have h : 0x1001 + 20 < addresses := by decide
  obtain ⟨hb, hr, -, -, ha, hd⟩ := blocks_apart h [.request (.bytes 1 0), .request (.bytes 4 3), .request (.bytes 40 4)]
  have hs : s.blocks = [⟨0x1001, 1⟩, ⟨0x1008, 4⟩] := by decide +kernel
  refine ⟨h, by decide +kernel, hs, ?_, ?_, hd _⟩
  · rw [hs] at ha
    exact List.rel_of_pairwise_cons ha (List.mem_singleton_self _)
  · obtain ⟨p, -, hf⟩ := (hd (.items ⟨2, 1, by decide, by decide⟩ (2 ^ 63))).fails_iff (by decide)
    rw [hb, hr] at hf
    exact hf.mpr (Nat.lt_of_lt_of_le (by decide) (Nat.le_add_left _ p))

end Lease

/-- Up to the very last address there is no end for a buffer to have, and the padding is cut short. -/
example : answer (allocate 1 2 (ofBuffer (addresses - 1) 1)) = .ok ⟨addresses - 1, 1⟩ := by decide +kernel

end Firmware.Arena
