import Firmware.Proofs.Cbor.Reading
import Firmware.Proofs.Storage.Healthy

namespace Firmware.Storage

open Flash Ram

variable {l : Layout} {c : Uuid} {r : Region} {b : Bytes} {d d' : Ram}

/-- What a write of `b` may change, and what it may leave in the region when it is cut off. -/
structure Tears (r : Region) (b : Bytes) (d : Ram) (x : EStateM.Result Failure Ram Unit) : Prop where
  confined : Confined [r] d (stateAfter x)
  torn : (stateAfter x).contents = d.contents ∨ TornBetween r (filled b r.size) (stateAfter x)
  whole : answer x = .ok () → image r (stateAfter x) = filled b r.size

lemma tears_write (r : Region) (m : Magic) (parts : List Bytes) (d : Ram) :
    Tears r (Record.bytes m parts) d (Record.write r m parts d) := by
  have hr := Record.follows_write r m parts d
  have hw := Record.leaves_write r m parts d
  generalize Record.write r m parts d = x at hr hw ⊢
  refine ⟨confined_of_inside hr fun m hm => ⟨r, List.mem_singleton_self _, hm⟩, ?_, ?_⟩
  · cases hw with
    | ok hi => exact .inr hi.tornBetween
    | error ht _ => exact ht.imp_right (·.mono (List.prefix_append _ _))
  · cases hw with
    | ok hi => exact fun _ => hi.1
    | error _ _ => exact fun h => by cases h

lemma tears_refused {e : Failure} : Tears r b d (.error e d) where
  confined := confined_of_inside (P := fun _ => False) .refl fun _ => False.elim
  torn := .inl rfl
  whole h := by cases h

/-- A region is erased before its record is written in whole units. So, wherever a fault of the device
cuts the write off, old bytes are never left beside new ones. -/
theorem records_tear_at_units (l : Layout) (r : Region) (d : Ram) :
    (∀ m parts, Tears r (Record.bytes m parts) d (Record.write r m parts d)) ∧
    (∀ payload, Tears r (Record.bytes .binary [payload]) d (Record.save r payload d)) ∧
    (∀ value, Tears r (Record.bytes .flag [Bytes.le32 value]) d (Record.saveFlag r value d)) ∧
    ∀ rs, Tears l.candidate (Record.bytes .binary (candidateParts rs)) d (setCandidate l rs d) := by
  refine ⟨fun m parts => tears_write r m parts d, fun b => tears_write r _ _ d,
    fun v => tears_write r _ _ d, fun rs => ?_⟩
  rw [setCandidate_run]
  split
  · exact tears_refused
  · split
    · exact tears_write l.candidate _ _ d
    · exact tears_refused

/-- With units of 3 bytes, a fault after the first unit leaves three bytes of the head. -/
example :
    (stateAfter (Record.save ⟨0, 10⟩ [1, 2, 3]
      ((Ram.ofBytes (List.replicate 20 0) 3 10).failAfter 2))).contents =
      [0x53, 0x55, 0x42] ++ Bytes.erased 7 ++ List.replicate 10 0 := by
  decide +kernel

lemma itemLength_of_derives {v : Cbor.Value} (h : Cbor.Derives Cbor.maxTags (.item v) b) (t : Bytes) :
    Cbor.itemLength (b ++ t) = .ok b.length := by
  refine Cbor.itemLength_eq_ok.mpr ⟨by simp, v, ?_⟩
  rwa [List.take_left]

lemma installEnvelope_eq_ok (h : installEnvelope l c b d = .ok () d') :
    ∃ s, l.slot c = .ok s ∧ Record.Checked s.region d' ∧
      image s.region d' = filled (Record.bytes .binary [b]) s.region.size := by
  obtain ⟨s, d₁, hl, hw⟩ := EStateM.bind_eq_ok h
  obtain ⟨hs, rfl⟩ := EStateM.lift_eq_ok hl
  change Record.write s.region .binary [b] d₁ = .ok () d' at hw
  have hd : d₁.Alike d' := alike_of_reach ((Record.follows_write s.region .binary [b]).of_ok hw)
  have ht := tears_write s.region .binary [b] d₁
  rw [hw] at ht
  exact ⟨s, hs, (Record.checked_of_write hw).of_shaped hd.toShaped, ht.whole rfl⟩

/-- An envelope is read back as it was installed, and so is any other item, for it says itself where
it ends. -/
theorem installedEnvelope_exact (l : Layout) (c : Uuid) (d d' : Ram) (b : Bytes)
    (hb : (∃ e, Envelope.parse b = .ok e) ∨ ∃ v, Cbor.Derives Cbor.maxTags (.item v) b)
    (h : installEnvelope l c b d = .ok () d') (a : Arena) :
    answer (installedEnvelope l c d' a) = .ok b := by
  obtain ⟨s, hs, hc, hi⟩ := installEnvelope_eq_ok h
  rw [installedEnvelope_answer hs hc, hi]
  refine envelopeIn_filled_of fun t => ?_
  rcases hb with ⟨e, he⟩ | ⟨v, hv⟩
  · exact Envelope.itemLength_of_parse he t
  · exact itemLength_of_derives hv t

theorem installedEnvelope_exact_oddUnits :
    let d := Ram.ofBytes (List.replicate 170 0) 3 10
    let b : Bytes := [0x43, 1, 2, 3]
    let x := installEnvelope twoClasses Uuid.zero b d
    (∃ v, Cbor.Derives Cbor.maxTags (.item v) b) ∧ answer x = .ok () ∧
      ∀ a, answer (installedEnvelope twoClasses Uuid.zero (stateAfter x) a) = .ok b := by
  intro d b x
  have hn : Cbor.itemLength b = .ok 4 := by decide +kernel
  have hv := (Cbor.itemLength_eq_ok.mp hn).2
  have hx : answer x = .ok () := by decide +kernel
  exact ⟨hv, hx, installedEnvelope_exact twoClasses Uuid.zero d _ b (.inr hv) (answer_eq_ok hx)⟩

end Firmware.Storage
