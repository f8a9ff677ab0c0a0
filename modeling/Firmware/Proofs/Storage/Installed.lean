import Firmware.Envelope
import Firmware.Proofs.Cbor.Skip
import Firmware.Proofs.Flash.Journal
import Firmware.Proofs.Storage.Layout
import Firmware.Storage.Envelopes

namespace Firmware.Storage

open Flash

section

variable {δ : Type} [Flash δ]

lemma Record.mirrors_write (r : Region) (m : Magic) (parts : List Bytes) :
    Mirrors Journaled.device (write r m parts : EStateM Failure (Journaled δ) Unit)
      (write r m parts) := by
  refine .get_bind fun j => .bind (.discard (.lift (checkRegion r j))) fun _ => .check ?_
  refine .bind (.adaptExcept (Journaled.mirrors_record _ _) _) fun _ => mirrors_writing r ?_
  exact .bind (.forM fun b => Writer.mirrors_write b) fun _ => Writer.mirrors_flush

def installedNumber (l : Layout) (c : Uuid) (a : Arena) (d : δ) : Option UInt32 :=
  (answer (installedEnvelope l c d a)).toOption.bind fun b =>
    (Envelope.parse b).toOption.map (·.manifest.sequenceNumber)

end

def envelopeIn (b : Bytes) : Except Failure Bytes :=
  match Record.decode b with
  | some (.binary body) =>
    match Cbor.itemLength body with
    | .ok n => .ok (body.take n)
    | .error _ => .error .notFound
  | _ => .error .notFound

open Ram

variable {l : Layout} {c : Uuid} {s : Slot} {d d' : Ram} {b : Bytes} {e : Envelope}

lemma installedEnvelope_answer (hs : l.slot c = .ok s) (h : Record.Checked s.region d) (a : Arena) :
    answer (installedEnvelope l c d a) = envelopeIn (image s.region d) := by
  have hr := h.readDirect_run a
  have hc := Record.checkRegion_eq_ok.mpr ⟨rfl, h⟩
  simp only [installedEnvelope, envelopeIn]
  rw [hs]
  simp only [Record.readBinary, Record.read, EStateM.bind_run, EStateM.lift_run, hc, hr,
    EStateM.discard_run, EStateM.adaptExcept_run]
  cases Record.decode (image s.region d) with
  | none => rfl
  | some r =>
    cases r with
    | binary body =>
      simp only [EStateM.pure_run]
      cases Cbor.itemLength body <;> rfl
    | _ => rfl

lemma envelopeIn_filled_of {n : Nat} (hb : ∀ t, Cbor.itemLength (b ++ t) = .ok b.length) :
    envelopeIn (filled (Record.bytes .binary [b]) n) = .ok b := by
  rw [envelopeIn, Record.decode_filled, List.flatten_cons, List.flatten_nil, List.append_nil, filled]
  dsimp only
  rw [hb]
  dsimp only
  rw [List.take_left' rfl]

lemma envelopeIn_filled {n : Nat} (he : Envelope.parse b = .ok e) :
    envelopeIn (filled (Record.bytes .binary [b]) n) = .ok b :=
  envelopeIn_filled_of (Envelope.itemLength_of_parse he)

lemma save_cases {r : Region} (h : Record.Checked r d) (hu : d.writeUnit ∣ d.eraseUnit) (hb : b ≠ []) :
    (∃ e d', Record.save r b d = .error e d' ∧ image r d' = image r d) ∨
      (∃ e d', Record.save r b d = .error e d' ∧ Torn r (Record.bytes .binary [b]) d' ∧
        ∃ k, d.faulty k = true) ∨
      ∃ d', Record.save r b d = .ok () d' ∧ image r d' = filled (Record.bytes .binary [b]) r.size := by
  have hw := Record.wrote_write (r := r) hu .binary [b]
  by_cases hn : [b].flatten.length ≤ r.size - Record.headLen
  · have hl : (Record.bytes .binary [b]).length ≤ r.size := by
      have := List.length_pos_iff.mpr hb
      simp only [Record.headLen, List.flatten_cons, List.flatten_nil, List.append_nil] at hn
      simp only [Record.bytes, List.length_append, Bytes.length_le32, List.flatten_cons,
        List.flatten_nil, List.append_nil]
      omega
    simp only [Record.save]
    cases hr : Record.write r .binary [b] d with
    | ok u d' =>
      rw [hr] at hw
      obtain ⟨hi⟩ := hw
      exact .inr (.inr ⟨d', rfl, hi⟩)
    | error e d' =>
      rw [hr] at hw
      obtain _ | ⟨hi | ht, hx⟩ := hw
      · exact .inl ⟨e, d', rfl, hi⟩
      · refine .inr (.inl ⟨e, d', rfl, ht, (hx h).resolve_left fun hx => ?_⟩)
        omega
  · refine .inl ⟨.size, d, ?_, rfl⟩
    rw [Record.save, Record.write_run, Record.checkRegion_eq_ok.mpr ⟨rfl, h⟩]
    exact if_neg hn

lemma installedNumber_of_image (hs : l.slot c = .ok s) (h : Record.Checked s.region d)
    (hi : image s.region d = filled (Record.bytes .binary [b]) s.region.size)
    (he : Envelope.parse b = .ok e) (a : Arena) :
    installedNumber l c a d = some e.manifest.sequenceNumber := by
  rw [installedNumber, installedEnvelope_answer hs h, hi, envelopeIn_filled he]
  simp [Except.toOption, he]

lemma installedNumber_congr (hs : l.slot c = .ok s) (h : Record.Checked s.region d)
    (h' : Record.Checked s.region d') (hi : image s.region d' = image s.region d) (a a' : Arena) :
    installedNumber l c a' d' = installedNumber l c a d := by
  rw [installedNumber, installedNumber, installedEnvelope_answer hs h,
    installedEnvelope_answer hs h', hi]

end Firmware.Storage
