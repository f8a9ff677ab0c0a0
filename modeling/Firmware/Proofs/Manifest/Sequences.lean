import Firmware.Proofs.Manifest.Parameters

namespace Firmware.Manifest

open Cbor Cbor.Decoder

def word (n : UInt32) : Value := .scalar (Parameters.key n)

def Index.value (bare : Bool) : Index → Value
  | .all => .scalar (.bool true)
  | .list [i] => if bare then word i else .array [word i]
  | .list is => .array (is.map word)

namespace Command

def alternativeScalar : Option Bytes → Scalar
  | some s => .bytes s
  | none => .null

def code : Command → UInt32
  | condition c => Coded.code c
  | setComponentIndex _ => Coded.code Directive.setComponentIndex
  | tryEach _ => Coded.code Directive.tryEach
  | overrideParameters _ => Coded.code Directive.overrideParameters
  | write => Coded.code Directive.write
  | fetch => Coded.code Directive.fetch
  | copy => Coded.code Directive.copy
  | invoke => Coded.code Directive.invoke
  | swap => Coded.code Directive.swap
  | runSequence _ => Coded.code Directive.runSequence

def argument (policy : UInt32) (bare : Bool) : Command → Value
  | setComponentIndex i => i.value bare
  | tryEach as => .array (as.map fun a => .scalar (alternativeScalar a))
  | overrideParameters p => .map (Parameters.entries p.fields)
  | runSequence s => .scalar (.bytes s)
  | _ => word policy

/-- Lists are no longer than they may be, and byte strings have a length that can be written. -/
def Fits : Command → Prop
  | setComponentIndex (.list is) => is.length ≤ maxComponents
  | tryEach as => as.length ≤ maxAlternatives ∧ ∀ a ∈ as, ∀ s ∈ a, s.length < 0x100000000
  | overrideParameters p => p.Fits
  | runSequence s => s.length < 0x100000000
  | _ => True

end Command

/-- A command with what its encoding leaves open: the policy of most commands, and the form of an index. -/
structure Written where
  command : Command
  policy : UInt32
  bare : Bool

def Written.pair (w : Written) : List Value :=
  [word w.command.code, w.command.argument w.policy w.bare]

def Sequence.encode (ws : List Written) : Bytes := (Value.array (ws.flatMap Written.pair)).encode

section Reading

variable {b t s : Bytes} {i : Item}

namespace Command

lemma parse_condition (c : Condition) (h : Item.parse b = .ok (i, t)) :
    parse ((word (Coded.code c)).encode ++ b) = policy i (condition c) t := by
  have hp := parse_encode_scalar (k := Parameters.key (Coded.code c)) trivial b
  refine (bind_of_ok (liftReader_eq_ok.mpr hp)).trans ?_
  refine (bind_of_ok (a := .ofUInt32 (Coded.code c)) rfl).trans ?_
  refine (bind_of_ok (liftReader_eq_ok.mpr h)).trans ?_
  cases c <;> rfl

lemma parse_directive (d : Directive) (h : Item.parse b = .ok (i, t)) :
    parse ((word (Coded.code d)).encode ++ b) = ofDirective i d t := by
  have hp := parse_encode_scalar (k := Parameters.key (Coded.code d)) trivial b
  refine (bind_of_ok (liftReader_eq_ok.mpr hp)).trans ?_
  refine (bind_of_ok (a := .ofUInt32 (Coded.code d)) rfl).trans ?_
  refine (bind_of_ok (liftReader_eq_ok.mpr h)).trans ?_
  cases d <;> rfl

lemma atMost_scalars {α : Type} {body : List α → Item → Decoder (List α)} (g : α → Scalar) {capacity : Nat}
    (hc : capacity < 0x100000000) {xs : List α} (hl : xs.length ≤ capacity) (hg : ∀ x ∈ xs, (g x).Fits)
    (hb : ∀ ys x s, body ys (.scalar (g x)) s = .ok (ys ++ [x], s)) (s : Bytes) :
    (do atMost capacity (← foldElements body (UInt32.ofNat xs.length).toNat []) : Decoder (List α))
      (Value.encodeAll (xs.map fun x => .scalar (g x)) ++ s) = .ok (xs, s) := by
  have hn : (UInt32.ofNat xs.length).toNat = xs.length := UInt32.toNat_ofNat_of_lt' (hl.trans_lt hc)
  have hf := foldElements_scalars xs hg hb [] s
  rw [hn]
  refine (bind_of_ok hf).trans ?_
  rw [List.nil_append, atMost, if_pos hl]
  rfl

lemma parse_index {is : List UInt32} (h : is.length ≤ maxComponents) (s : Bytes) :
    Index.parse (.array (UInt32.ofNat is.length)) (Value.encodeAll (is.map word) ++ s) = .ok (.list is, s) := by
  let body (is : List UInt32) (i : Item) : Decoder (List UInt32) := do return is ++ [← i.toUInt32]
  have hb (is : List UInt32) (i : UInt32) (s : Bytes) :
      body is (.scalar (Parameters.key i)) s = .ok (is ++ [i], s) := rfl
  obtain ⟨ys, t, hf, hr⟩ :=
    bind_eq_ok.mp (atMost_scalars Parameters.key (by decide) h (fun _ _ => trivial) hb s)
  exact (bind_of_ok hf).trans (bind_of_ok hr)

lemma parse_alternatives {as : List (Option Bytes)} (h : (tryEach as).Fits) (s : Bytes) :
    ofDirective (.array (UInt32.ofNat as.length)) .tryEach
      (Value.encodeAll (as.map fun a => .scalar (alternativeScalar a)) ++ s) = .ok (tryEach as, s) := by
  have hg (a : Option Bytes) (ha : a ∈ as) : (alternativeScalar a).Fits := by
    cases a with
    | none => trivial
    | some b => exact h.2 _ ha b rfl
  have hb (as : List (Option Bytes)) (a : Option Bytes) (s : Bytes) :
      alternative as (.scalar (alternativeScalar a)) s = .ok (as ++ [a], s) := by
    cases a <;> rfl
  obtain ⟨ys, t, hf, hr⟩ := bind_eq_ok.mp (atMost_scalars alternativeScalar (by decide) h.1 hg hb s)
  refine (bind_of_ok (a := UInt32.ofNat as.length) rfl).trans ?_
  exact (bind_of_ok hf).trans (bind_of_ok hr)

lemma parse_written {w : Written} (h : w.command.Fits) (s : Bytes) :
    parse ((word w.command.code).encode ++ ((w.command.argument w.policy w.bare).encode ++ s)) =
      .ok (w.command, s) := by
  obtain ⟨c, n, bare⟩ := w
  have hn (n : UInt32) := parse_encode_scalar (k := Parameters.key n) trivial s
  cases c with
  | condition c => exact parse_condition c (hn n)
  | write => exact parse_directive .write (hn n)
  | fetch => exact parse_directive .fetch (hn n)
  | copy => exact parse_directive .copy (hn n)
  | invoke => exact parse_directive .invoke (hn n)
  | swap => exact parse_directive .swap (hn n)
  | runSequence b => exact parse_directive .runSequence (parse_encode_scalar (k := .bytes b) h s)
  | tryEach as =>
    have ha := parse_encode_array (as.map fun a => .scalar (alternativeScalar a)) s
    rw [List.length_map] at ha
    exact (parse_directive .tryEach ha).trans (parse_alternatives h s)
  | overrideParameters p =>
    refine (parse_directive .overrideParameters (parse_encode_map _ s)).trans ?_
    exact bind_of_ok (Parameters.parse_encode h s)
  | setComponentIndex i =>
    cases i with
    | all => exact parse_directive .setComponentIndex (parse_encode_scalar (k := .bool true) trivial s)
    | list is =>
      have hl : parse ((word (code (setComponentIndex (.list is)))).encode ++ ((Value.array (is.map word)).encode ++ s)) =
          .ok (setComponentIndex (.list is), s) := by
        have ha := parse_encode_array (is.map word) s
        rw [List.length_map] at ha
        exact (parse_directive .setComponentIndex ha).trans (bind_of_ok (parse_index h s))
      match is, bare with
      | [i], true => exact parse_directive .setComponentIndex (hn i)
      | [i], false => exact hl
      | [], bare => exact hl
      | i :: j :: is, bare => exact hl

end Command

lemma Sequence.read_encode {ws : List Written} (h : ∀ w ∈ ws, w.command.Fits) :
    Sequence.read ws.length (Value.encodeAll (ws.flatMap Written.pair)) =
      ⟨ws.map Written.command, none⟩ := by
  induction ws with
  | nil => rfl
  | cons w ws ih =>
    rw [List.forall_mem_cons] at h
    have hp := Command.parse_written h.1 (Value.encodeAll (ws.flatMap Written.pair))
    rw [List.flatMap_cons, Written.pair, List.cons_append, List.cons_append, List.nil_append,
      Value.encodeAll, Value.encodeAll, List.length_cons, Sequence.read, hp]
    simp only [ih h.2, List.map_cons]

lemma Sequence.decode_encode {ws : List Written} (h : ∀ w ∈ ws, w.command.Fits)
    (hl : 2 * ws.length < 0x100000000) :
    Sequence.decode (Sequence.encode ws) = .ok ⟨ws.map Written.command, none⟩ := by
  have hn : (ws.flatMap Written.pair).length = 2 * ws.length := by
    simp [List.length_flatMap, Written.pair, Nat.mul_comm]
  have hp := parse_encode_array (ws.flatMap Written.pair) []
  have hc : (UInt32.ofNat (2 * ws.length)).toNat = 2 * ws.length := UInt32.toNat_ofNat_of_lt' hl
  rw [List.append_nil, List.append_nil, hn] at hp
  have ha : (do return (← (← Item.parse).arrayCount) : Decoder UInt32) (Sequence.encode ws) = .ok
      (UInt32.ofNat (2 * ws.length), Value.encodeAll (ws.flatMap Written.pair)) :=
    (bind_of_ok (liftReader_eq_ok.mpr hp)).trans rfl
  simp only [Sequence.decode, ha, Except.ok_bind, hc, Nat.mul_mod_right, ↓reduceIte,
    Nat.mul_div_cancel_left ws.length Nat.two_pos, Sequence.read_encode h]
  rfl

end Reading

namespace Sequence

/-- A sequence that is decoded one command at a time, as it is asked for them. -/
structure Cursor where
  rest : Bytes
  left : Nat
  done : Bool

namespace Cursor

def start (s : Bytes) : Except Error Cursor := do
  let (n, rest) ← (do return (← (← Item.parse).arrayCount) : Decoder UInt32) s
  if n.toNat % 2 = 0 then return ⟨rest, n.toNat / 2, false⟩ else throw .wrongShape

def next (c : Cursor) : Option (Except Error Command) × Cursor :=
  if c.done then (none, c)
  else
    match c.left with
    | 0 => (if c.rest.isEmpty then none else some (.error .badEncoding), { c with done := true })
    | left + 1 =>
      match Command.parse c.rest with
      | .ok (d, rest) => (some (.ok d), ⟨rest, left, false⟩)
      | .error e => (some (.error e), ⟨c.rest, left, true⟩)

def answer (c : Cursor) (k : Nat) : Option (Except Error Command) := ((·.next.2)^[k] c).next.1

lemma answer_succ (c : Cursor) (k : Nat) : c.answer (k + 1) = c.next.2.answer k := by
  rw [answer, Function.iterate_succ_apply, answer]

lemma answer_done {c : Cursor} (h : c.done = true) (k : Nat) : c.answer k = none := by
  have hn : c.next = (none, c) := by rw [next, if_pos h]
  induction k with
  | zero => exact congrArg Prod.fst hn
  | succ k ih => rw [answer_succ, hn, ih]

lemma answer_last {c d : Cursor} {o : Option (Except Error Command)} (h : c.next = (o, d))
    (hd : d.done = true) (k : Nat) : c.answer k = o.toList[k]? := by
  cases k with
  | zero =>
    change c.next.1 = _
    rw [h]
    cases o <;> rfl
  | succ k =>
    rw [answer_succ, h, answer_done hd]
    cases o <;> rfl

lemma answer_read (left : Nat) (s : Bytes) (k : Nat) :
    answer ⟨s, left, false⟩ k =
      ((read left s).commands.map .ok ++ (read left s).failure.toList.map .error)[k]? := by
  induction left generalizing s k with
  | zero =>
    cases s with
    | nil => exact answer_last rfl rfl k
    | cons x s => exact answer_last rfl rfl k
  | succ left ih =>
    cases hp : Command.parse s with
    | error e =>
      have hn : next ⟨s, left + 1, false⟩ = (some (.error e), ⟨s, left, true⟩) := by simp [next, hp]
      rw [read, hp]
      exact answer_last hn rfl k
    | ok r =>
      obtain ⟨c, t⟩ := r
      have hn : next ⟨s, left + 1, false⟩ = (some (.ok c), ⟨t, left, false⟩) := by simp [next, hp]
      rw [read, hp]
      cases k with
      | zero => exact congrArg Prod.fst hn
      | succ k =>
        rw [answer_succ, hn]
        exact ih t k

end Cursor

inductive Within : Nat → Bytes → Bytes → Prop
  | self {s : Bytes} : Within 0 s s
  | nested {n : Nat} {s t u : Bytes} {q : Sequence} {c : Command} :
      decode s = .ok q → c ∈ q.commands → t ∈ nested c → Within n t u → Within (n + 1) s u

def WellFormed (s : Bytes) : Prop := ∃ cs, decode s = .ok ⟨cs, none⟩

lemma checkTo_succ {levels : Nat} {s : Bytes} :
    checkTo (levels + 1) s = .ok () ↔
      ∃ cs, decode s = .ok ⟨cs, none⟩ ∧ ∀ c ∈ cs, ∀ t ∈ nested c, checkTo levels t = .ok () := by
  simp only [checkTo, Except.bind_eq_ok, Except.forM_eq_ok]
  constructor
  · rintro ⟨⟨cs, failure⟩, hd, u, hc, hf⟩
    cases failure with
    | none => exact ⟨cs, hd, hc⟩
    | some e => cases hf
  · rintro ⟨cs, hd, hc⟩
    exact ⟨⟨cs, none⟩, hd, (), hc, rfl⟩

lemma checkTo_eq_ok {levels : Nat} {s : Bytes} :
    checkTo levels s = .ok () ↔ ∀ n t, Within n s t → n < levels ∧ WellFormed t := by
  induction levels generalizing s with
  | zero =>
    constructor
    · intro h
      cases h
    · intro h
      exact absurd (h 0 s .self).1 (Nat.not_lt_zero 0)
  | succ levels ih =>
    rw [checkTo_succ]
    constructor
    · rintro ⟨cs, hd, hc⟩ n u hw
      cases hw with
      | self => exact ⟨Nat.succ_pos levels, cs, hd⟩
      | nested hd' hm ht hw =>
        cases hd.symm.trans hd'
        obtain ⟨hn, hu⟩ := ih.mp (hc _ hm _ ht) _ u hw
        exact ⟨Nat.succ_lt_succ hn, hu⟩
    · intro h
      obtain ⟨-, cs, hd⟩ := h 0 s .self
      refine ⟨cs, hd, fun c hc t ht => ih.mpr fun n u hw => ?_⟩
      obtain ⟨hn, hu⟩ := h (n + 1) u (.nested hd hc ht hw)
      exact ⟨Nat.lt_of_succ_lt_succ hn, hu⟩

lemma start_eq (s : Bytes) :
    (∃ e, decode s = .error e ∧ Cursor.start s = .error e) ∨
      ∃ left rest, 2 * left < 0x100000000 ∧ decode s = .ok (read left rest) ∧
        Cursor.start s = .ok ⟨rest, left, false⟩ := by
  simp only [decode, Cursor.start]
  cases (do return (← (← Item.parse).arrayCount) : Decoder UInt32) s with
  | error e => exact .inl ⟨e, rfl, rfl⟩
  | ok r =>
    obtain ⟨n, rest⟩ := r
    have hn : n.toNat < 0x100000000 := n.toNat_lt
    simp only [Except.ok_bind]
    split
    · exact .inr ⟨n.toNat / 2, rest, by omega, rfl, rfl⟩
    · exact .inl ⟨.wrongShape, rfl, rfl⟩

lemma length_read (left : Nat) (s : Bytes) : (read left s).commands.length ≤ left := by
  induction left generalizing s with
  | zero => cases s <;> exact Nat.le_refl 0
  | succ left ih =>
    rw [read]
    split
    · exact Nat.succ_le_succ (ih _)
    · exact Nat.zero_le _

/-- An encoded sequence is decoded to the commands that were written. The check accepts what is well formed
however deep it is looked into, and nests no deeper than sequences may. From any bytes, decoding is
refused, or answers some commands one by one, then what is wrong if anything is, and nothing after that. -/
theorem encode_decodes :
    (∀ ws : List Written, (∀ w ∈ ws, w.command.Fits) → 2 * ws.length < 0x100000000 →
      decode (encode ws) = .ok ⟨ws.map Written.command, none⟩) ∧
    (∀ s, check s = .ok () ↔ ∀ n t, Within n s t → n < maxNesting ∧ WellFormed t) ∧
    ∀ s, (∃ e, decode s = .error e ∧ Cursor.start s = .error e) ∨
      ∃ cs failure c, 2 * cs.length < 0x100000000 ∧ decode s = .ok ⟨cs, failure⟩ ∧
        Cursor.start s = .ok c ∧ ∀ k, c.answer k = (cs.map .ok ++ failure.toList.map .error)[k]? := by
  refine ⟨fun ws h hl => decode_encode h hl, fun s => checkTo_eq_ok, fun s => ?_⟩
  obtain h | ⟨left, rest, hl, hd, hc⟩ := start_eq s
  · exact .inl h
  · have hr := length_read left rest
    exact .inr ⟨_, _, _, by omega, hd, hc, Cursor.answer_read left rest⟩

theorem encode_decodes_alternatives :
    let p : Parameters := { imageSize := some 4096, uri := some ⟨[0x23, 0x61], rfl⟩ }
    let ws : List Written := [⟨.setComponentIndex (.list [1]), 0, true⟩, ⟨.condition .vendorIdentifier, 15, false⟩,
      ⟨.overrideParameters p, 0, false⟩, ⟨.tryEach [some [0x82, 0x0e, 0x00], none], 0, false⟩]
    let b : Bytes := [0x88, 0x0c, 0x01, 0x01, 0x0f, 0x14, 0xa2, 0x0e, 0x19, 0x10, 0x00, 0x15, 0x62, 0x23, 0x61,
      0x0f, 0x82, 0x43, 0x82, 0x0e, 0x00, 0xf6]
    (∀ w ∈ ws, w.command.Fits) ∧ 2 * ws.length < 0x100000000 ∧ encode ws = b ∧
      decode b = .ok ⟨ws.map Written.command, none⟩ ∧ check b = .ok () := by
  intro p ws b
  have hp : p.Fits := by
    refine ⟨fun _ h => (by cases h), fun t ht => ?_, fun _ h => by cases h⟩
    cases ht
    exact (by decide : 2 < 0x100000000)
  have hf : ∀ w ∈ ws, w.command.Fits := by
    simp only [ws, List.forall_mem_cons]
    refine ⟨(by decide : 1 ≤ 8), trivial, hp, ⟨(by decide : 2 ≤ 8), ?_⟩, fun _ h => by cases h⟩
    intro a ha s hs
    simp only [List.mem_cons, List.not_mem_nil, or_false] at ha
    rcases ha with rfl | rfl
    · cases hs
      exact (by decide : 3 < 0x100000000)
    · cases hs
  have hl : 2 * ws.length < 0x100000000 := by decide
  have he : encode ws = b := by decide +kernel
  refine ⟨hf, hl, he, he ▸ encode_decodes.1 ws hf hl, ?_⟩
  rfl

end Sequence

end Firmware.Manifest
