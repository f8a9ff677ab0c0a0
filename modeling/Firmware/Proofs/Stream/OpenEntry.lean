import Firmware.Proofs.Stream.Partition
import Firmware.Stream.Sink

/-!
What is written for an entry lies behind the whole ones. Until its length is written the whole
entries are as they were, and closing the entry adds it to them.
-/

namespace Firmware.Cache

open Flash Ram

def payloadAfter (b : Bytes) : SinkCall → Bytes
  | .write data => b ++ data
  | .erase => []
  | .seek _ | .flush => b

def payloadOf (calls : List SinkCall) : Bytes := calls.foldl payloadAfter []

variable {r : Region} {es : List (Text × Bytes)} {b x : Bytes} {name : Text} {p : Bytes}

namespace OpenEntry

structure Placed (r : Region) (es : List (Text × Bytes)) (b : Bytes) (name : Text) (e : OpenEntry Ram) :
    Prop where
  suits : Suits r e.writer.device
  body : Body es b
  aligned : e.writer.device.eraseUnit ∣ b.length
  inside : b.length < r.size
  short : name.length ≤ maxName
  front : slice e.writer.device.contents r.start b.length = b
  region : e.writer.region = rest r b.length
  head : e.head = entryHead b.length name
  block : e.block = e.writer.device.eraseUnit
  lengthAt : e.lengthAt = r.start + b.length + (entryHead b.length name).length - 4

structure Writing (r : Region) (es : List (Text × Bytes)) (b : Bytes) (name : Text) (p : Bytes)
    (e : OpenEntry Ram) : Prop extends Placed r es b name e where
  written : e.written = p.length
  holds : Writer.Holds (entryHead b.length name ++ p) e.writer

/-- A step gets to an entry that satisfies `P`, or it leaves the whole entries as they were. -/
inductive Leaves (r : Region) (es : List (Text × Bytes)) (e : OpenEntry Ram) (P : OpenEntry Ram → Prop) :
    EStateM.Result Failure (OpenEntry Ram) Unit → Prop
  | ok {e' : OpenEntry Ram} : Reach (·.Inside r) e.writer.device e'.writer.device → P e' →
      Leaves r es e P (.ok () e')
  | error {f : Failure} {e' : OpenEntry Ram} : Reach (·.Inside r) e.writer.device e'.writer.device →
      Holds r es e'.writer.device → Leaves r es e P (.error f e')

variable {e : OpenEntry Ram} {w : Writer Ram} {P Q : OpenEntry Ram → Prop}

lemma Leaves.bind {f g : EStateM Failure (OpenEntry Ram) Unit} (hf : Leaves r es e P (f e))
    (hg : ∀ e', Reach (·.Inside r) e.writer.device e'.writer.device → P e' → Leaves r es e' Q (g e')) :
    Leaves r es e Q ((do f; g) e) := by
  rw [EStateM.bind_run]
  cases h : f e with
  | ok u e' =>
    rw [h] at hf
    obtain ⟨hr, hp⟩ := hf
    have hq := hg e' hr hp
    dsimp only
    revert hq
    cases g e' with
    | ok v e₂ =>
      rintro ⟨hr', hq⟩
      exact .ok (hr.trans hr') hq
    | error i e₂ =>
      rintro (_ | ⟨hr', hh⟩)
      exact .error (hr.trans hr') hh
  | error i e' =>
    rw [h] at hf
    obtain _ | ⟨hr, hh⟩ := hf
    exact .error hr hh

lemma Leaves.mono {y : EStateM.Result Failure (OpenEntry Ram) Unit} (h : Leaves r es e P y)
    (hp : ∀ e', P e' → Q e') : Leaves r es e Q y := by
  cases h with
  | ok hr hq => exact .ok hr (hp _ hq)
  | error hr hh => exact .error hr hh

lemma Placed.measured (h : Placed r es b name e) (data : Bytes) : Writer.Measured e.writer.device data :=
  .inr h.suits.checked.sized

lemma Placed.reach (h : Placed r es b name e) (hm : e.writer.Moves w) :
    Reach (·.Inside r) e.writer.device w.device := by
  refine hm.reach.mono fun m hi => inside_of_rest (Nat.le_of_lt h.inside) h.suits.stop_lt ?_
  exact h.region ▸ hi

lemma Placed.moved (h : Placed r es b name e) (hm : e.writer.Moves w) :
    Placed r es b name { e with writer := w } where
  suits := h.suits.of_alike hm.alike
  body := h.body
  aligned := hm.alike.eraseUnit ▸ h.aligned
  inside := h.inside
  short := h.short
  front := by
    have hr := hm.reach
    rw [h.region] at hr
    exact (front_of_reach (Nat.le_of_lt h.inside) h.suits.stop_lt hr).trans h.front
  region := hm.region.trans h.region
  head := h.head
  block := h.block.trans hm.alike.eraseUnit.symm
  lengthAt := h.lengthAt

lemma Placed.counted (h : Placed r es b name e) (n : Nat) :
    Placed r es b name { e with written := n } := { h with }

lemma Placed.holds_of_torn (h : Placed r es b name e)
    (ht : Torn e.writer.region (entryHead b.length name ++ x) e.writer.device) :
    Holds r es e.writer.device := by
  rw [h.region] at ht
  exact Cache.holds_of_torn h.suits h.body h.aligned (Nat.le_of_lt h.inside) h.front h.short ht

lemma Writing.holds_whole (h : Writing r es b name p e) : Holds r es e.writer.device :=
  h.holds_of_torn ⟨_, List.take_prefix _ _, h.holds.image⟩

lemma Placed.leaves_onWriter (h : Placed r es b name e) {f : EStateM Failure (Writer Ram) Unit}
    {R : Writer Ram → Prop} {y : Bytes} (hm : e.writer.Moves (stateAfter (f e.writer)))
    (hy : y <+: entryHead b.length name ++ x)
    (he : Writer.Ends e.writer.region e.writer.device y R (f e.writer)) :
    Leaves r es e (fun e' => Placed r es b name e' ∧ e'.written = e.written ∧ R e'.writer)
      (onWriter f e) := by
  revert hm he
  simp only [onWriter, onPart]
  cases f e.writer with
  | ok u w =>
    rintro hm ⟨hr⟩
    exact .ok (h.reach hm) ⟨h.moved hm, rfl, hr⟩
  | error i w =>
    rintro hm (_ | ⟨⟨q, hq, hi⟩, -⟩)
    refine .error (h.reach hm) ((h.moved hm).holds_of_torn (x := x) ⟨q, hq.trans hy, ?_⟩)
    rwa [hm.region]

lemma Writing.leaves_write (h : Writing r es b name p e) (data : Bytes) :
    Leaves r es e (Writing r es b name (p ++ data)) (write data e) := by
  have he := Writer.ends_write h.holds (h.measured data)
  rw [List.append_assoc] at he
  refine (h.leaves_onWriter (Writer.moves_write (h.measured data)) (List.prefix_refl _) he).bind
    fun e' _ ⟨hp, hn, hh⟩ => .ok .refl { hp.counted _ with written := ?_, holds := hh }
  rw [List.length_append, ← h.written, ← hn]

lemma Placed.erase_holds (h : Placed r es b name e) (hs : e.writer.Sound) :
    ∃ w, Writer.erase e.writer = .ok () w ∧ Writer.Holds [] w := by
  have hr := h.suits.rest h.inside h.aligned
  exact Writer.erase_holds hs (h.region ▸ hr.checked.start) (h.region ▸ hr.checked.size) hr.faultless

lemma Placed.leaves_erase (h : Placed r es b name e) (hs : e.writer.Sound) :
    Leaves r es e (fun e' => Placed r es b name e' ∧ e'.written = e.written ∧ Writer.Holds [] e'.writer)
      (onWriter Writer.erase e) := by
  obtain ⟨w, hw, hh⟩ := h.erase_holds hs
  apply h.leaves_onWriter (x := []) (Writer.follows_erase _) List.nil_prefix
  rw [hw]
  exact .ok hh

lemma Placed.leaves_restart (h : Placed r es b name e) (hs : e.writer.Sound) :
    Leaves r es e (Writing r es b name []) (restart e) := by
  refine (h.leaves_erase hs).bind fun e₁ _ ⟨hp₁, _, hh₁⟩ => ?_
  refine Leaves.bind (P := fun e₂ => Placed r es b name e₂ ∧ e₂.written = 0 ∧ Writer.Holds [] e₂.writer)
    (.ok .refl ⟨hp₁.counted 0, rfl, hh₁⟩) fun e₂ _ ⟨hp₂, hn₂, hh₂⟩ => ?_
  have hw₂ := Writer.ends_write hh₂ (hp₂.measured e₂.head)
  rw [List.nil_append, hp₂.head] at hw₂
  have hl := hp₂.leaves_onWriter (x := []) (Writer.moves_write (hp₂.measured _)) (List.prefix_append _ _) hw₂
  rw [EStateM.bind_run, EStateM.get_run]
  dsimp only
  rw [hp₂.head]
  refine hl.mono fun e₃ ⟨hp₃, hn₃, hh₃⟩ => { hp₃ with written := hn₃.trans hn₂, holds := ?_ }
  rwa [List.append_nil]

lemma Writing.leaves_call (h : Writing r es b name p e) (k : SinkCall) :
    Leaves r es e (Writing r es b name (payloadAfter p k)) (Sink.call k e) := by
  cases k with
  | write data => exact h.leaves_write data
  | erase => exact h.leaves_restart h.holds.toSound
  | seek n => exact .error .refl h.holds_whole
  | flush => exact .ok .refl h

lemma Writing.leaves_calls (h : Writing r es b name p e) (calls : List SinkCall) :
    Leaves r es e (Writing r es b name (calls.foldl payloadAfter p)) (calls.forM Sink.call e) := by
  induction calls generalizing p e with
  | nil => exact .ok .refl h
  | cons k calls ih => exact (h.leaves_call k).bind fun _ _ h' => ih h'

lemma paddingFor_eq_ok {used block n : Nat} (hb : block = 1 ∨ 5 ≤ block)
    (h : paddingFor used block = .ok n) : block ∣ used + n ∧ (n = 0 ∨ minPadding ≤ n) := by
  simp only [paddingFor] at h
  cases hr : roundUp used block with
  | none =>
    rw [hr] at h
    cases h
  | some stop =>
    obtain ⟨hle, hlt, hd⟩ := of_roundUp hr
    rw [hr] at h
    have hm : minPadding = 6 := rfl
    simp only [Except.ok.injEq] at h
    split at h
    · have hs : used + n = stop + block := by omega
      exact ⟨hs ▸ Nat.dvd_add hd (Nat.dvd_refl block), by omega⟩
    · have hs : used + n = stop := by omega
      exact ⟨hs ▸ hd, by omega⟩

lemma paddingFor_add {s used block n : Nat} (hs : block ∣ s) (h : paddingFor used block = .ok n)
    (hn : s + used + n < 0x100000000) : paddingFor (s + used) block = .ok n := by
  obtain ⟨j, rfl⟩ := hs
  simp only [paddingFor, roundUp] at h ⊢
  rw [Nat.mul_add_mod]
  by_cases h0 : block = 0
  · simp only [h0, ↓reduceIte] at h
    cases h
  · simp only [h0, ↓reduceIte] at h ⊢
    by_cases hm : used % block = 0
    · simp only [hm, ↓reduceIte, Nat.sub_self] at h ⊢
      exact h
    · simp only [hm, ↓reduceIte] at h ⊢
      generalize block - used % block = q at h ⊢
      by_cases hq : used + q < 0x100000000
      · rw [if_pos hq] at h
        simp only [Nat.add_sub_cancel_left, Except.ok.injEq] at h
        have hle : q ≤ n := by
          rw [← h]
          split
          · exact Nat.le_add_right q block
          · exact Nat.le_refl q
        rw [if_pos (by omega)]
        simp only [Nat.add_sub_cancel_left, Except.ok.injEq]
        exact h
      · rw [if_neg hq] at h
        cases h

def paddingEntries (n : Nat) : List (Text × Bytes) :=
  if n = 0 then [] else [(.empty, List.replicate (n - minPadding) 0)]

lemma flatten_padding {n : Nat} : (padding n).flatten = (paddingEntries n).flatMap entry := by
  rw [padding, paddingEntries]
  split
  · rfl
  · generalize hz : n - minPadding = z
    have hdiv := Nat.div_add_mod' z 32
    have hp : (if z % 32 = 0 then [] else [List.replicate (z % 32) (0 : UInt8)]).flatten =
        List.replicate (z % 32) 0 := by
      split
      · rename_i h0
        rw [h0]
        rfl
      · rw [List.flatten_cons, List.flatten_nil, List.append_nil]
    have hk : key .empty = [0x60] := rfl
    dsimp only
    rw [List.flatten_append, List.flatten_cons, List.flatten_replicate_replicate, hp, List.append_assoc,
      List.replicate_append_replicate, hdiv, List.flatMap_cons, List.flatMap_nil, List.append_nil, entry, hk,
      List.length_replicate, List.singleton_append]

lemma length_flatten_padding {n : Nat} (h : n = 0 ∨ minPadding ≤ n) : (padding n).flatten.length = n := by
  rw [flatten_padding]
  simp only [paddingEntries]
  split
  · rename_i h0
    exact h0.symm
  · have hk : (key .empty).length = 1 := rfl
    have hl (k : Nat) : (longHead k).length = 5 := rfl
    simp only [minPadding] at h ⊢
    simp only [List.flatMap_cons, List.flatMap_nil, List.append_nil, entry, List.length_append, hk, hl,
      List.length_replicate]
    omega

lemma mem_paddingEntries {n : Nat} {x : Text × Bytes} (h : x ∈ paddingEntries n) :
    x = (.empty, List.replicate (n - minPadding) 0) := by
  simp only [paddingEntries] at h
  split at h
  · cases h
  · exact List.mem_singleton.mp h

def finish (block : Nat) (es : List (Text × Bytes)) (x : Text × Bytes) : List (Text × Bytes) :=
  es ++ x ::
    match paddingFor (1 + (es.flatMap entry).length + (opening x.1).length + x.2.length) block with
    | .ok n => paddingEntries n
    | .error _ => []

lemma finish_of_body {block n : Nat} (hb : Body es b) (ha : block ∣ b.length)
    (hn : paddingFor ((entryHead b.length name).length + p.length) block = .ok n)
    (hlt : b.length + ((entryHead b.length name).length + p.length) + n < 0x100000000) :
    finish block es (name, p) = es ++ (name, p) :: paddingEntries n := by
  have hl : 1 + (es.flatMap entry).length + (opening name).length =
      b.length + (entryHead b.length name).length := by
    rw [entryHead_eq]
    cases hb with
    | fresh => simp [Nat.add_comm]
    | started hes =>
      have h0 : (mapStart :: es.flatMap entry).length ≠ 0 := Nat.succ_ne_zero _
      rw [if_neg h0, List.nil_append, List.length_cons, Nat.add_comm 1]
  have hp := paddingFor_add ha hn hlt
  rw [finish]
  dsimp only
  rw [hl, Nat.add_assoc, hp]

lemma proper_padding {n : Nat} (hn : n < 0x100000000) : ∀ x ∈ paddingEntries n, Proper x := by
  intro x hx
  rw [mem_paddingEntries hx]
  exact ⟨Nat.zero_le _, by simp only [List.length_replicate]; omega⟩

lemma Placed.closed (h : Placed r es b name e) {pad : List (Text × Bytes)} (hpad : ∀ x ∈ pad, Proper x)
    (hp : p.length < 0x100000000)
    (ha : e.writer.device.eraseUnit ∣ (entryHead b.length name ++ p ++ pad.flatMap entry).length)
    (hi : image e.writer.region e.writer.device =
      filled (entryHead b.length name ++ p ++ pad.flatMap entry) e.writer.region.size) :
    ∃ d, programOver e.lengthAt (Bytes.be32 (UInt32.ofNat p.length)) e.writer.device = .ok () d ∧
      (∃ b', Ready r (es ++ (name, p) :: pad) b' d) ∧ Reach (·.Inside r) e.writer.device d := by
  have hs := entryHead_split b.length name
  have hproper : ∀ x ∈ (name, p) :: pad, Proper x := List.forall_mem_cons.mpr ⟨⟨h.short, hp⟩, hpad⟩
  have hb := h.body.append hproper
  revert hb hs
  generalize (if b.length = 0 then [mapStart] else []) = m
  intro hs hb
  generalize hk : r.size - b.length - (entryHead b.length name ++ p ++ pad.flatMap entry).length = k
  have hi' : image r e.writer.device = b ++ (m ++ key name ++ [longBytes]) ++ Bytes.erased 4 ++
      (p ++ pad.flatMap entry ++ Bytes.erased k) := by
    rw [image_split (Nat.le_of_lt h.inside) h.suits.stop_lt, h.front, ← h.region, hi, filled, h.region,
      rest_size, hk, hs]
    simp only [List.append_assoc]
  have hat : e.lengthAt = r.start + (b ++ (m ++ key name ++ [longBytes])).length := by
    rw [h.lengthAt, hs]
    simp only [List.length_append, Bytes.length_erased]
    omega
  have he : b ++ m ++ ((name, p) :: pad).flatMap entry = b ++ (m ++ key name ++ [longBytes]) ++
      Bytes.be32 (UInt32.ofNat p.length) ++ (p ++ pad.flatMap entry) := by
    simp only [List.flatMap_cons, entry, longHead, List.append_assoc, List.cons_append, List.nil_append]
  obtain ⟨d, hd, hd', hr⟩ := programOver_run h.suits (Bytes.length_be32 (UInt32.ofNat p.length)) hi'
  have hl : (b ++ m ++ ((name, p) :: pad).flatMap entry).length =
      b.length + (entryHead b.length name ++ p ++ pad.flatMap entry).length := by
    rw [he, hs]
    simp only [List.length_append, Bytes.length_be32, Bytes.length_erased]
    omega
  refine ⟨d, hat ▸ hd, ⟨_, hb, ?_, ?_⟩, hr⟩
  · rw [(alike_of_reach hr).eraseUnit, hl]
    exact Nat.dvd_add h.aligned ha
  · rw [filled, hl, ← Nat.sub_sub, hk, hd', he]
    simp only [List.append_assoc]

lemma forM_onWriter (parts : List Bytes) :
    (parts.forM fun piece => (onWriter (Writer.write piece) : EStateM Failure (OpenEntry Ram) Unit)) =
      onWriter (parts.forM Writer.write) := by
  funext e
  induction parts generalizing e with
  | nil => rfl
  | cons data parts ih =>
    have hl : ((data :: parts).forM fun piece =>
        (onWriter (Writer.write piece) : EStateM Failure (OpenEntry Ram) Unit)) = (do
          onWriter (Writer.write data)
          parts.forM fun piece => onWriter (Writer.write piece)) := rfl
    have hr : (data :: parts).forM (Writer.write (δ := Ram)) = (do
      Writer.write data
      parts.forM Writer.write) := rfl
    rw [hl, hr, EStateM.bind_run]
    simp only [onWriter, onPart]
    rw [EStateM.bind_run]
    cases Writer.write data e.writer with
    | ok u w => exact ih { e with writer := w }
    | error i w => rfl

lemma Writing.leaves_close (h : Writing r es b name p e) (hp : Paddable e.writer.device) :
    Leaves r es e
      (fun e' => ∃ b', Ready r (finish e.writer.device.eraseUnit es (name, p)) b' e'.writer.device)
      (close e) := by
  simp only [close]
  rw [EStateM.bind_run, EStateM.get_run]
  dsimp only
  rw [EStateM.bind_run, EStateM.lift_run]
  cases hn : paddingFor (e.head.length + e.written) e.block with
  | error i => exact .error .refl h.holds_whole
  | ok n =>
    have hroom := rest_size r b.length
    have hlt := h.suits.stop_lt
    have hin := h.inside
    obtain ⟨hd, hmin⟩ := paddingFor_eq_ok (h.block ▸ hp) hn
    rw [h.head, h.block, h.written] at hd
    dsimp only
    split
    · rename_i hfit
      rw [h.head, h.region, hroom, h.written] at hfit
      simp only [Region.stop] at hlt
      have hm : ∀ x ∈ padding n, Writer.Measured e.writer.device x := fun x _ => h.measured x
      have hw := Writer.ends_forM_write h.holds hm
      rw [List.append_assoc] at hw
      rw [forM_onWriter]
      refine (h.leaves_onWriter (Writer.moves_forM_write hm) (List.prefix_refl _) hw).bind
        fun e₁ hr₁ hp₁ => ?_
      obtain ⟨h₁, -, hh₁⟩ := hp₁
      refine (h₁.leaves_onWriter (Writer.follows_flush _) (List.prefix_refl _) (Writer.ends_flush hh₁)).bind
        fun e₂ hr₂ hp₂ => ?_
      obtain ⟨h₂, -, hi⟩ := hp₂
      have hu := (alike_of_reach (hr₁.trans hr₂)).eraseUnit
      rw [flatten_padding, ← List.append_assoc, h₁.region, ← h₂.region] at hi
      have hl := length_flatten_padding hmin
      rw [flatten_padding] at hl
      obtain ⟨d, hd, hh, hr⟩ := h₂.closed (proper_padding (by omega)) (by omega)
        (by rw [hu, List.length_append, List.length_append, hl]; exact hd) hi
      have hat : e.lengthAt = e₂.lengthAt := h.lengthAt.trans h₂.lengthAt.symm
      simp only [onWriter, onPart, hat, h.written, hd]
      rw [finish_of_body h.body h.aligned (h.head ▸ h.block ▸ h.written ▸ hn) (by omega)]
      exact .ok hr hh
    · exact .error .refl h.holds_whole

lemma Writing.leaves_abandon (h : Writing r es b name p e) :
    Leaves r es e (fun e' => Holds r es e'.writer.device) (abandon e) := by
  refine (h.leaves_erase h.holds.toSound).mono fun e' ⟨hp, _, hh⟩ => hp.holds_of_torn (x := []) ⟨[], List.nil_prefix, ?_⟩
  rw [hh.image, List.take_nil]

end OpenEntry

end Firmware.Cache
