import Firmware.Processor.Platform
import Firmware.Proofs.Cbor.Canonical
import Firmware.Proofs.Stream.Foreign

/-!
What a signature covers. The bytes tell where the headers end and where the payload starts, so that no byte can
move from one to the other under a signature.
-/

namespace Firmware

open Cbor Cbor.Value Feed

def TakesWrites {ω : Type} (perform : SinkCall → EStateM Failure ω Unit) : Prop :=
  ∀ data w, ∃ v, perform (.write data) w = .ok () v

namespace Feed

variable {ω : Type} {perform : SinkCall → EStateM Failure ω Unit}

variable (perform) in
/-- All that a feed does is to write the pieces, none of which is refused. -/
def Emits (f : Feed (Except Failure Unit)) (w : ω) (parts : List Bytes) : Prop :=
  ∃ v, f.Plays perform w (parts.map fun data => .call (.write data) (.ok ())) (.ok ()) v

lemma emits_writeAll (hp : TakesWrites perform) (parts : List Bytes) (w : ω) :
    (writeAll parts).Emits perform w parts := by
  induction parts generalizing w with
  | nil => exact ⟨w, plays_done _ w⟩
  | cons data parts ih =>
    obtain ⟨u, hu⟩ := hp data w
    obtain ⟨v, ht, ho⟩ := ih u
    refine ⟨v, ?_, ?_⟩
    · rw [writeAll, transcript, hu, List.map_cons, ← ht]
    · rw [outcome, writeAll, run, hu]
      exact ho

end Feed

namespace Sign1

def signedBytes (s : Sign1) (payload : Bytes) : Bytes := (s.signed payload).flatten

def tree (s : Sign1) (payload : Bytes) : Value :=
  .array [.scalar (.text (Text.ofString "Signature1")), .scalar (.bytes s.headers), .scalar (.bytes []),
    .scalar (.bytes payload)]

lemma bytes_context : (Text.ofString "Signature1").bytes = context := by
  decide +kernel

variable {s t : Sign1} {payload q : Bytes}

lemma encode_tree (s : Sign1) (payload : Bytes) : (s.tree payload).encode = s.signedBytes payload := by
  simp only [tree, encode, encodeAll, Scalar.encode, lengthHead, Text.length, bytes_context, signedBytes, signed,
    List.flatten_cons, List.flatten_nil, List.length_cons, List.length_nil, List.append_assoc, List.append_nil]

lemma derives_tree (hs : s.headers.length < 0x100000000) (hl : payload.length < 0x100000000) :
    Derives maxTags (.item (s.tree payload)) (s.signedBytes payload) := by
  have hc : (Text.ofString "Signature1").length < 0x100000000 := by
    rw [Text.length, bytes_context]
    decide
  have h0 : ([] : Bytes).length < 0x100000000 := by decide
  have hw : (s.tree payload).WellFormed := by
    refine .array (by decide : 4 < 0x100000000) ?_
    simp only [List.forall_mem_cons, List.not_mem_nil, IsEmpty.forall_iff, implies_true, and_true]
    exact ⟨.scalar hc, .scalar hs, .scalar h0, .scalar hl⟩
  rw [← encode_tree]
  exact hw.derives.mono (Nat.zero_le maxTags)

lemma tree_inj (h : s.tree payload = t.tree q) : s.headers = t.headers ∧ payload = q := by
  simpa [tree] using h

/-- What is signed is read back to its end as headers and payload, so that it belongs to one pair of them and is
no beginning of what is signed for another one. Whoever takes all writes gets these bytes. -/
theorem signedBytes_bind (hs : s.headers.length < 0x100000000) (hl : payload.length < 0x100000000) :
    (∀ {ω : Type} {perform : SinkCall → EStateM Failure ω Unit}, TakesWrites perform → ∀ w,
        ∃ parts, (s.writeSigned payload).Emits perform w parts ∧ parts.flatten = s.signedBytes payload) ∧
      readValue.all .badEncoding (s.signedBytes payload) = .ok (s.tree payload) ∧
      ∀ t : Sign1, t.headers.length < 0x100000000 → ∀ q : Bytes, q.length < 0x100000000 →
        (s.signedBytes payload = t.signedBytes q → s.headers = t.headers ∧ payload = q) ∧
          (s.signedBytes payload <+: t.signedBytes q → s.signedBytes payload = t.signedBytes q) ∧
          (t.signedBytes q <+: s.signedBytes payload → t.signedBytes q = s.signedBytes payload) := by
  have hd := derives_tree hs hl
  refine ⟨fun {ω perform} hp w => ?_, ?_, fun t ht q hq => ?_⟩
  · exact ⟨s.signed payload, emits_writeAll hp _ w, rfl⟩
  · have hr := readValue_eq_ok.mpr ⟨s.signedBytes payload, (List.append_nil _).symm, hd⟩
    rw [Decoder.all, hr]
  · have hd' := derives_tree ht hq
    -- Where an item ends does not depend on what stands behind it.
    have hu (x y : Bytes) (h : s.signedBytes payload ++ x = t.signedBytes q ++ y) := hd.unique hd' h
    refine ⟨fun h => ?_, fun ⟨x, hx⟩ => ?_, fun ⟨x, hx⟩ => ?_⟩
    · exact tree_inj (hu [] [] (by rw [h])).2
    · exact (hu x [] (by rw [hx, List.append_nil])).1
    · exact (hu [] x (by rw [hx, List.append_nil])).1.symm

lemma takesWrites_buffer : TakesWrites (Sink.call : SinkCall → EStateM Failure Buffer Unit) :=
  fun data b => ⟨⟨b.contents ++ data⟩, rfl⟩

theorem signedBytes_bind_movedByte :
    let s : Sign1 := ⟨[0xa1, 0x01, 0x26], some (-7), none, []⟩
    let t : Sign1 := ⟨[0xa1, 0x01], none, none, []⟩
    let payload := List.replicate 24 0xaa
    s.headers.length < 0x100000000 ∧ payload.length < 0x100000000 ∧
      (∃ parts, (s.writeSigned payload).Emits Sink.call (⟨[]⟩ : Buffer) parts ∧
        parts.flatten = s.signedBytes payload) ∧
      readValue.all .badEncoding (s.signedBytes payload) = .ok (s.tree payload) ∧
      s.signedBytes payload ≠ t.signedBytes (0x26 :: payload) := by
  intro s t payload
  have hs : s.headers.length < 0x100000000 := by decide
  have hl : payload.length < 0x100000000 := by decide
  obtain ⟨hw, hr, hb⟩ := signedBytes_bind hs hl
  refine ⟨hs, hl, hw takesWrites_buffer ⟨[]⟩, hr, fun h => ?_⟩
  have ht : s.headers = t.headers := ((hb t (by decide) (0x26 :: payload) (by decide)).1 h).1
  exact absurd ht (by decide)

end Sign1

end Firmware
