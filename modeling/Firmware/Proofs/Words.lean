import Firmware.Proofs.Cbor.Grammar

namespace Firmware.Bytes

lemma toNat_ofNat_toNatLe {b : Bytes} (h : b.length = 4) :
    (UInt32.ofNat (toNatLe b)).toNat = toNatLe b := by
  have hb := Cbor.toNatLe_lt b
  rw [h] at hb
  exact UInt32.toNat_ofNat_of_lt' hb

lemma exists_le32 {b : Bytes} (h : b.length = 4) : ∃ w, le32 w = b := by
  refine ⟨UInt32.ofNat (toNatLe b), Cbor.toNatLe_inj ?_ ?_⟩
  · rw [length_le32, h]
  · rw [toNatLe_le32, toNat_ofNat_toNatLe h]

lemma le16_of_word16? {b : Bytes} {n : UInt16} (h : word16? b = some n) : le16 n = b.take 2 := by
  obtain ⟨hl, h⟩ := Option.ite_none_right_eq_some.mp h
  cases h
  have hb : (b.take 2).length = 2 := List.length_take_of_le hl
  have hlt := Cbor.toNatLe_lt (b.take 2)
  rw [hb] at hlt
  refine Cbor.toNatLe_inj (by rw [length_le16, hb]) ?_
  rw [toNatLe_le16, UInt16.toNat_ofNat_of_lt' hlt]

lemma le32_of_word32? {b : Bytes} {n : UInt32} (h : word32? b = some n) : le32 n = b.take 4 := by
  obtain ⟨hl, h⟩ := Option.ite_none_right_eq_some.mp h
  cases h
  have hb : (b.take 4).length = 4 := List.length_take_of_le hl
  refine Cbor.toNatLe_inj (by rw [length_le32, hb]) ?_
  rw [toNatLe_le32, toNat_ofNat_toNatLe hb]

end Firmware.Bytes
