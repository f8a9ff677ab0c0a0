import Firmware.Proofs.Flash.Journal
import Firmware.Proofs.Flash.Programming
import Firmware.Stream.Sink
import Mathlib.Data.Nat.ModEq

namespace Firmware.Flash

def programmed (p : Nat × Bytes) : Entry := ⟨.program p.1 p.2, none⟩

def unitsOf (unit : Nat) (p : Nat × Bytes) : List Nat := List.range' (p.1 / unit) (p.2.length / unit)

/-- The calls programmed `n` whole units from the `k`th on, each of them once and in order. -/
structure Covers (unit : Nat) (ps : List (Nat × Bytes)) (k n : Nat) : Prop where
  whole : ∀ p ∈ ps, unit ∣ p.1 ∧ unit ∣ p.2.length
  units : ps.flatMap (unitsOf unit) = List.range' k n

lemma Covers.append {unit k n address : Nat} {ps : List (Nat × Bytes)} {data : Bytes}
    (h : Covers unit ps k n) (ha : unit ∣ address) (hk : address / unit = k + n) (hd : unit ∣ data.length) :
    Covers unit (ps ++ [(address, data)]) k (n + data.length / unit) where
  whole := by
    simp only [List.forall_mem_append, List.forall_mem_singleton]
    exact ⟨h.whole, ha, hd⟩
  units := by
    rw [List.flatMap_append, h.units, List.flatMap_singleton, unitsOf, hk, ← List.range'_append_1]

namespace Writer

def writeAll {δ : Type} [Flash δ] (parts : List Bytes) : EStateM Failure (Writer δ) Unit := do
  parts.forM write
  flush

section Journal

open Ram

/-- A writer that has taken `n` bytes and programmed each unit in front of it once, in order. -/
structure Ascends (n : Nat) (w : Writer (Journaled Ram)) : Prop where
  sized : Sized w.device.device
  pos : 0 < w.unit
  start : w.unit ∣ w.region.start
  aligned : w.unit ∣ w.offset
  short : w.staged.length ≤ w.unit
  position : w.position = n
  entries : ∃ ps, w.device.entries = ps.map programmed ∧
    Covers w.unit ps (w.region.start / w.unit) (w.offset / w.unit)

variable {w w' : Writer (Journaled Ram)} {data : Bytes} {n k : Nat} {u : Unit}

lemma programUnits_journaled (hs : Sized w.device.device) (h : programUnits k data w = .ok u w') :
    data.length < 0x100000000 ∧ ∃ d, Sized d ∧ w' = { w with
      device := ⟨d, w.device.entries ++ [programmed (w.region.start + w.offset, data)]⟩
      offset := w.offset + k } := by
  have hp : (program (w.region.start + w.offset) data : EStateM Flash.Error (Journaled Ram) Unit) w.device =
      Journaled.record (.program (w.region.start + w.offset) data)
        (program (w.region.start + w.offset) data) w.device := rfl
  rw [programUnits_run] at h
  split at h
  · cases h
  · rw [hp, Journaled.record] at h
    cases hd : program (w.region.start + w.offset) data w.device.device with
    | error e d =>
      rw [hd] at h
      cases h
    | ok v d =>
      have ha := (perform_cases (.program (w.region.start + w.offset) data) w.device.device).1
      rw [Mutation.perform, hd] at ha
      refine ⟨Nat.not_le.mp fun hl => ?_, d, ha.toShaped.sized hs, ?_⟩
      · rw [program_long hs hl] at hd
        cases hd
      · rw [hd] at h
        cases h
        rfl

lemma Ascends.programUnits (h : Ascends n w) (hk : data.length < 0x100000000 → k = data.length)
    (hd : w.unit ∣ data.length) (hx : Writer.programUnits k data w = .ok u w') {s : Bytes}
    (hs : s.length ≤ w.unit) :
    Ascends (w.offset + data.length + s.length) { w' with staged := s } := by
  obtain ⟨hl, d, hsized, rfl⟩ := programUnits_journaled h.sized hx
  obtain rfl := hk hl
  obtain ⟨ps, he, hu⟩ := h.entries
  have hn : (w.offset + data.length) / w.unit = w.offset / w.unit + data.length / w.unit :=
    Nat.add_div_of_dvd_right h.aligned
  refine ⟨hsized, h.pos, h.start, Nat.dvd_add h.aligned hd, hs, rfl,
    ps ++ [(w.region.start + w.offset, data)], by rw [List.map_append, he]; rfl, ?_⟩
  rw [hn]
  exact hu.append (Nat.dvd_add h.start h.aligned) (Nat.add_div_of_dvd_right h.start) hd

lemma Ascends.writeUnits (h : Ascends n w) (hs : w.staged = []) (hx : Writer.writeUnits data w = .ok u w') :
    Ascends (n + data.length) w' := by
  have hp : w.offset = n := by simpa [Writer.position, hs] using h.position
  have hle : data.length - data.length % w.unit ≤ data.length := Nat.sub_le _ _
  have hmod : data.length % w.unit < w.unit := Nat.mod_lt _ h.pos
  have hdvd : w.unit ∣ data.length - data.length % w.unit := Nat.dvd_sub_mod _
  rw [writeUnits_run] at hx
  generalize hk : data.length - data.length % w.unit = k at hx hle hdvd
  have hrest : (data.drop k).length ≤ w.unit := by
    rw [List.length_drop]
    omega
  split at hx
  · obtain ⟨v, w₁, h₁, hx⟩ := EStateM.bind_eq_ok hx
    cases hx
    have hl : (data.take k).length = k := List.length_take_of_le hle
    have ha := h.programUnits (fun h => by rw [hl] at h ⊢; exact Nat.mod_eq_of_lt h) (hl.symm ▸ hdvd) h₁ hrest
    rwa [hp, Nat.add_assoc, ← List.length_append, List.take_append_drop] at ha
  · cases hx
    have h0 : k = 0 := by omega
    subst h0
    exact { h with short := hrest, position := by simp [Writer.position, hp] }

lemma Ascends.programStaged (h : Ascends n w) (hx : Writer.programStaged w = .ok u w') :
    Ascends (w.offset + w.unit) w' ∧ w'.staged = [] := by
  have hl : (w.staged ++ Bytes.erased (w.unit - w.staged.length)).length = w.unit := by
    have := h.short
    simp
    omega
  obtain ⟨v, w₁, h₁, hx⟩ := EStateM.bind_eq_ok (f := get) hx
  cases h₁
  obtain ⟨v, w₁, h₁, hx⟩ := EStateM.bind_eq_ok hx
  cases hx
  have ha := h.programUnits (s := []) (fun _ => rfl) (hl.symm ▸ Nat.dvd_refl _) h₁ (Nat.zero_le _)
  rw [hl] at ha
  exact ⟨ha, rfl⟩

lemma Ascends.write (h : Ascends n w) (hx : Writer.write data w = .ok u w') :
    Ascends (n + data.length) w' := by
  rw [write_run] at hx
  split at hx
  · exact h.writeUnits (List.isEmpty_iff.mp ‹_›) hx
  · have hp := h.position
    have hshort := h.short
    obtain ⟨v, w₁, h₁, hx⟩ := EStateM.bind_eq_ok hx
    cases h₁
    have hl : (w.staged ++ data.take (w.unit - w.staged.length)).length =
        w.staged.length + min (w.unit - w.staged.length) data.length := by simp
    have h₂ : Ascends (n + min (w.unit - w.staged.length) data.length)
        { w with staged := w.staged ++ data.take (w.unit - w.staged.length) } :=
      { h with
        short := by
          dsimp only
          omega
        position := by
          simp only [Writer.position] at hp ⊢
          omega }
    split at hx
    · rename_i hle
      obtain ⟨v, w₂, h₃, hx⟩ := EStateM.bind_eq_ok hx
      obtain ⟨h₄, hs⟩ := h₂.programStaged h₃
      have ha := h₄.writeUnits hs hx
      have hn : n + data.length =
          w.offset + w.unit + (data.drop (w.unit - w.staged.length)).length := by
        simp only [Writer.position] at hp
        rw [List.length_drop]
        omega
      rwa [hn]
    · cases hx
      rwa [Nat.min_eq_right (by omega)] at h₂

lemma Ascends.forM_write (h : Ascends n w) {parts : List Bytes} (hx : parts.forM Writer.write w = .ok u w') :
    Ascends (n + parts.flatten.length) w' := by
  induction parts generalizing n w with
  | nil =>
    cases hx
    exact h
  | cons data parts ih =>
    obtain ⟨v, w₁, h₁, hx⟩ := EStateM.bind_eq_ok hx
    have ha := ih (h.write h₁) hx
    rwa [Nat.add_assoc, ← List.length_append] at ha

lemma Ascends.pad (h : Ascends n w) (hx : Writer.pad w = .ok u w') :
    ∃ m, Ascends m w' ∧ w'.staged = [] ∧ m / w.unit = (n + (w.unit - 1)) / w.unit := by
  obtain ⟨k, hk⟩ := h.aligned
  have hp := h.position
  have hu := h.pos
  simp only [Writer.position] at hp
  obtain ⟨v, w₁, h₁, hx⟩ := EStateM.bind_eq_ok (f := get) hx
  cases h₁
  split at hx
  · have hs := List.isEmpty_iff.mp ‹_›
    cases hx
    rw [hs, List.length_nil] at hp
    refine ⟨n, h, hs, ?_⟩
    rw [← hp, Nat.add_zero, hk, Nat.mul_add_div hu, Nat.mul_div_cancel_left k hu,
      Nat.div_eq_of_lt (Nat.sub_lt hu Nat.one_pos), Nat.add_zero]
  · obtain ⟨ha, hs⟩ := h.programStaged hx
    refine ⟨_, ha, hs, ?_⟩
    have h1 : 0 < w.staged.length := List.length_pos_iff.mpr (by simp_all)
    have h2 := h.short
    have hd : (w.staged.length + (w.unit - 1)) / w.unit = 1 :=
      Nat.div_eq_of_lt_le (by omega) (by omega)
    rw [← hp, hk, Nat.add_assoc, Nat.mul_add_div hu, Nat.mul_add_div hu, hd, Nat.div_self hu]

lemma Ascends.flush (h : Ascends n w) (hx : Writer.flush w = .ok u w') :
    w'.offset / w.unit = (n + (w.unit - 1)) / w.unit ∧
      ∃ ps, w'.device.entries = ps.map programmed ++ [⟨.flush, none⟩] ∧
        Covers w.unit ps (w.region.start / w.unit) ((n + (w.unit - 1)) / w.unit) := by
  obtain ⟨v, w₁, h₁, hx⟩ := EStateM.bind_eq_ok hx
  have hm : Moves w w₁ := follows_pad.of_ok h₁
  obtain ⟨m, ha, hs, hn⟩ := h.pad h₁
  obtain ⟨ps, he, hp⟩ := ha.entries
  have ho : w₁.offset = m := by simpa [Writer.position, hs] using ha.position
  rw [hm.unit, hm.region, ho, hn] at hp
  obtain ⟨j, hj, rfl⟩ := onPart_eq_ok hx
  have hj := EStateM.adaptExcept_eq_ok hj
  have hf : (Flash.flush : EStateM Flash.Error (Journaled Ram) Unit) w₁.device =
      Journaled.record .flush Flash.flush w₁.device := rfl
  rw [hf, Journaled.record] at hj
  cases hd : (Flash.flush : EStateM Flash.Error Ram Unit) w₁.device.device with
  | error e d =>
    rw [hd] at hj
    cases hj
  | ok v d =>
    rw [hd] at hj
    cases hj
    exact ⟨by rw [ho, hn], ps, by rw [he], hp⟩

end Journal

section Memory

open Ram

def Stalls (w w' : Writer Ram) : Prop :=
  w.device.ready = false → w'.device.ready = false ∧ w'.device.contents = w.device.contents ∧
    w'.offset = w.offset

instance : IsPreorder (Writer Ram) Stalls where
  refl _ hr := ⟨hr, rfl, rfl⟩
  trans _ _ _ h h' hr := by
    obtain ⟨hr, hc, ho⟩ := h hr
    obtain ⟨hr', hc', ho'⟩ := h' hr
    exact ⟨hr', hc'.trans hc, ho'.trans ho⟩

lemma program_unready {d : Ram} (hr : d.ready = false) (a : Nat) (data : Bytes) :
    ∃ e, (program a data : EStateM Flash.Error Ram Unit) d = .error e d := by
  rw [program_run]
  split
  · exact ⟨_, rfl⟩
  · split
    · exact ⟨_, rfl⟩
    · exact ⟨.notReady, by simp only [change, hr, Bool.not_false, ↓reduceIte]⟩

lemma stalls_programUnits (n : Nat) (data : Bytes) : Follows Stalls (programUnits n data) := by
  intro w hr
  obtain ⟨e, he⟩ := program_unready hr (w.region.start + w.offset) data
  rw [programUnits_run, he]
  split <;> exact ⟨hr, rfl, rfl⟩

lemma stalls_writeAll (parts : List Bytes) : Follows Stalls (writeAll parts) := by
  have hs (w : Writer Ram) (s : Bytes) : Stalls w { w with staged := s } := fun hr => ⟨hr, rfl, rfl⟩
  have hf : Follows Stalls (flush : EStateM Failure (Writer Ram) Unit) :=
    .bind (follows_pad_of (fun x => stalls_programUnits _ x) hs) fun _ w hr => ⟨hr, rfl, rfl⟩
  exact .bind (.forM fun _ _ => follows_write_of (fun x => stalls_programUnits _ x)
    (fun x _ => stalls_programUnits _ x) hs) fun _ => hf

lemma moves_writeAll {parts : List Bytes} {w : Writer Ram} (hd : ∀ x ∈ parts, Measured w.device x) :
    Moves w (stateAfter (writeAll parts w)) :=
  Follows.of_bind (moves_forM_write hd) fun _ v _ => follows_flush v

lemma mirrors_writeAll {δ : Type} [Flash δ] (parts : List Bytes) :
    Mirrors plain (writeAll parts : EStateM Failure (Writer (Journaled δ)) Unit) (writeAll parts) :=
  .bind (.forM mirrors_write) fun _ => mirrors_flush

lemma journaled_eq_ok {δ : Type} [Flash δ] {f : EStateM Failure (Writer (Journaled δ)) Unit}
    {g : EStateM Failure (Writer δ) Unit} (h : Mirrors plain f g) {j : Writer (Journaled δ)}
    {w : Writer δ} (hg : g j.plain = .ok () w) : ∃ j', f j = .ok () j' ∧ w = j'.plain := by
  rw [h j] at hg
  cases hf : f j with
  | ok v j' =>
    rw [hf] at hg
    cases hg
    exact ⟨j', rfl, rfl⟩
  | error e j' =>
    rw [hf] at hg
    cases hg

lemma writeAll_nil {parts : List Bytes} (hb : parts.flatten = []) {w : Writer Ram} (hs : w.staged = []) :
    writeAll parts w = .ok () w := by
  obtain ⟨d, r, u, n, s⟩ := w
  cases hs
  induction parts with
  | nil => rfl
  | cons data parts ih =>
    obtain ⟨rfl, hb⟩ := List.append_eq_nil_iff.mp hb
    exact ih hb

end Memory

end Writer

namespace Ram

variable {r : Region} {d d' : Ram}

lemma contents_of_reach (h : Reach (·.Inside r) d d') (hr : r.stop ≤ d.contents.length) :
    d'.contents = d.contents.take r.start ++ image r d' ++ d.contents.drop r.stop := by
  have hl := (alike_of_reach h).length
  obtain ⟨n, hn⟩ := Nat.exists_eq_add_of_le hr
  have hw (x : Ram) (hx : x.contents.length = d.contents.length) :
      x.contents = slice x.contents 0 r.start ++ image r x ++ slice x.contents r.stop n := by
    have h0 : slice x.contents 0 (r.start + r.size + n) = x.contents :=
      List.take_of_length_le (by simp [hx, hn, Region.stop])
    rw [slice_add, slice_add, Nat.zero_add, Nat.zero_add] at h0
    exact h0.symm
  have hd : slice d.contents r.stop n = d.contents.drop r.stop :=
    List.take_of_length_le (by simp [hn])
  rw [← hd]
  have hfront := slice_of_reach h (a := 0) (n := r.start) fun _ hm => hm.spares (.inr (Nat.le_of_eq (Nat.zero_add _)))
  have hback := slice_of_reach h (a := r.stop) (n := n) fun _ hm => hm.spares (.inl (Nat.le_refl _))
  rw [hw d' hl, hfront, hback]
  rfl

/-- An erased region that is made of units, on a device without faults. -/
structure Blank (r : Region) (d : Ram) : Prop where
  faultless : ∀ k, d.faulty k = false
  unit : d.writeUnit ≠ 0 ∧ d.writeUnit ≤ maxWriteUnit
  start : d.writeUnit ∣ r.start
  size : d.writeUnit ∣ r.size
  inside : r.stop ≤ d.contents.length
  erased : image r d = Bytes.erased r.size

namespace Blank

open Writer

variable {parts : List Bytes} {w : Writer Ram}

lemma writer_start (h : Blank r d) : Writer.start r d = .ok ⟨d, r, d.writeUnit, 0, []⟩ :=
  start_eq_ok h.unit

lemma writing_eq_ok (h : Blank r d) {f : EStateM Failure (Writer Ram) Unit} :
    writing r f d = .ok () d' ↔ ∃ w, f ⟨d, r, d.writeUnit, 0, []⟩ = .ok () w ∧ w.device = d' := by
  simp only [writing, h.writer_start]
  cases f ⟨d, r, d.writeUnit, 0, []⟩ with
  | ok u w => simp
  | error e w => simp

lemma accepts (h : Blank r d) (hr : d.ready = true) : Accepts [] ⟨d, r, d.writeUnit, 0, []⟩ :=
  .nil h.unit.1 h.inside hr h.erased

lemma ascends (h : Blank r d) (hs : Sized d) :
    Ascends 0 (⟨⟨d, []⟩, r, d.writeUnit, 0, []⟩ : Writer (Journaled Ram)) where
  sized := hs
  pos := Nat.pos_of_ne_zero h.unit.1
  start := h.start
  aligned := Nat.dvd_zero _
  short := Nat.zero_le _
  position := rfl
  entries := ⟨[], rfl, by simp, by simp⟩

lemma journal (h : Blank r d) (hs : Sized d) (hx : writeAll parts ⟨d, r, d.writeUnit, 0, []⟩ = .ok () w) :
    w.offset / d.writeUnit = (parts.flatten.length + (d.writeUnit - 1)) / d.writeUnit ∧
      ∃ ps, writing r (writeAll parts) (⟨d, []⟩ : Journaled Ram) =
          .ok () ⟨w.device, ps.map programmed ++ [⟨.flush, none⟩]⟩ ∧
        Covers d.writeUnit ps (r.start / d.writeUnit)
          ((parts.flatten.length + (d.writeUnit - 1)) / d.writeUnit) := by
  obtain ⟨j, hj, rfl⟩ := journaled_eq_ok (mirrors_writeAll parts)
    (j := ⟨⟨d, []⟩, r, d.writeUnit, 0, []⟩) hx
  obtain ⟨v, j₁, h₁, h₂⟩ := EStateM.bind_eq_ok hj
  have hm : Roams _ j₁ := (Follows.forM fun data _ => roams_write data).of_ok h₁
  obtain ⟨ho, ps, he, hp⟩ := ((h.ascends hs).forM_write h₁).flush h₂
  rw [hm.unit] at ho hp
  rw [hm.region] at hp
  rw [Nat.zero_add] at ho hp
  refine ⟨ho, ps, ?_, hp⟩
  have hstart : Writer.start r (⟨d, []⟩ : Journaled Ram) = .ok ⟨⟨d, []⟩, r, d.writeUnit, 0, []⟩ :=
    start_eq_ok h.unit
  simp only [writing, hstart, hj, ← he]
  rfl

lemma written_ready (h : Blank r d) (hr : d.ready = true) (hd : ∀ x ∈ parts, Measured d x)
    (hx : writeAll parts ⟨d, r, d.writeUnit, 0, []⟩ = .ok () w) :
    parts.flatten.length ≤ r.size ∧ image r w.device = filled parts.flatten r.size := by
  have hs := stops_write_flush (h.accepts hr) hd
  rw [← writeAll, hx] at hs
  obtain ⟨-, hi, n, hb, hn, -⟩ := hs
  exact ⟨Nat.le_trans hb hn, hi⟩

lemma written (h : Blank r d) (hsized : Sized d) (hx : writeAll parts ⟨d, r, d.writeUnit, 0, []⟩ = .ok () w) :
    parts.flatten.length ≤ r.size ∧ (d.ready = true ∨ parts.flatten = []) ∧
      image r w.device = filled parts.flatten r.size := by
  cases hr : d.ready with
  | true =>
    obtain ⟨hl, hi⟩ := h.written_ready hr (fun _ _ => .inr hsized) hx
    exact ⟨hl, .inl rfl, hi⟩
  | false =>
    obtain ⟨-, hc, ho⟩ := (stalls_writeAll parts).of_ok hx hr
    have hn := (h.journal hsized hx).1
    rw [ho, Nat.zero_div] at hn
    have hb : parts.flatten = [] := by
      have hu := Nat.pos_of_ne_zero h.unit.1
      have := (Nat.div_eq_zero_iff.mp hn.symm).resolve_left h.unit.1
      exact List.eq_nil_of_length_eq_zero (by omega)
    refine ⟨hb ▸ Nat.zero_le _, .inr hb, ?_⟩
    rw [image, hc, hb, filled_nil]
    exact h.erased

lemma writeAll_succeeds (h : Blank r d) (hn : parts.flatten.length ≤ r.size)
    (hr : d.ready = true ∨ parts.flatten = []) :
    ∃ w, writeAll parts ⟨d, r, d.writeUnit, 0, []⟩ = .ok () w := by
  rcases hr with hr | hb
  · have hs := stops_write_flush (h.accepts hr) (measured_of_flatten (Nat.lt_of_le_of_lt hn r.len.toNat_lt))
    rw [← writeAll] at hs
    cases hx : writeAll parts ⟨d, r, d.writeUnit, 0, []⟩ with
    | ok u w => exact ⟨w, rfl⟩
    | error e w =>
      rw [hx] at hs
      obtain _ | ⟨-, hh⟩ := hs
      rcases hh.excused h.start h.size with hl | ⟨k, hk⟩
      · exact absurd hl (Nat.not_lt.mpr hn)
      · rw [h.faultless] at hk
        cases hk
  · exact ⟨_, writeAll_nil hb rfl⟩

lemma position (h : Blank r d) (hs : Sized d) (hx : parts.forM write ⟨d, r, d.writeUnit, 0, []⟩ = .ok () w) :
    w.position = parts.flatten.length := by
  obtain ⟨j, hj, rfl⟩ := journaled_eq_ok (.forM mirrors_write)
    (j := ⟨⟨d, []⟩, r, d.writeUnit, 0, []⟩) hx
  have hp : j.position = 0 + parts.flatten.length := ((h.ascends hs).forM_write hj).position
  rwa [Nat.zero_add] at hp

end Blank

end Ram

open Ram Writer

lemma forM_call {δ : Type} [Flash δ] (parts : List Bytes) :
    ((parts.map SinkCall.write ++ [SinkCall.flush]).forM Sink.call : EStateM Failure (Writer δ) Unit) =
      writeAll parts := by
  rw [writeAll]
  induction parts with
  | nil => exact bind_pure_unit
  | cons data parts ih =>
    exact (congrArg (write data >>= fun _ => ·) ih).trans (bind_assoc _ _ _).symm

/-- How bytes are cut makes no difference to a writer, nor to a sink that is one: the calls succeed
if the bytes fit, which are in the region then and nowhere else, and each unit that they take has been
programmed once, in order. The device has to be one that can tell its size: on a larger one, a slice that is
too long to be counted is programmed wherever it gets to. -/
theorem chunking_irrelevant {r : Region} {d : Ram} (h : Blank r d) (hs : Sized d) (parts : List Bytes) :
    ((parts.map SinkCall.write ++ [SinkCall.flush]).forM Sink.call : EStateM Failure (Writer Ram) Unit) =
        writeAll parts ∧
      ((∃ d', writing r (writeAll parts) d = .ok () d') ↔
        parts.flatten.length ≤ r.size ∧ (d.ready = true ∨ parts.flatten = [])) ∧
      (∀ d', writing r (writeAll parts) d = .ok () d' →
        d'.contents = d.contents.take r.start ++ filled parts.flatten r.size ++
          d.contents.drop r.stop ∧
        ∃ ps, writing r (writeAll parts) (⟨d, []⟩ : Journaled Ram) =
            .ok () ⟨d', ps.map programmed ++ [⟨.flush, none⟩]⟩ ∧
          Covers d.writeUnit ps (r.start / d.writeUnit)
            ((parts.flatten.length + (d.writeUnit - 1)) / d.writeUnit)) ∧
      ∀ w w', Writer.start r d = .ok w → parts.forM write w = .ok () w' →
        w'.position = parts.flatten.length ∧ Sink.used w' = .ok parts.flatten.length := by
  refine ⟨forM_call parts, ?_, fun d' hx => ?_, fun w w' hw hx => ?_⟩
  · simp only [h.writing_eq_ok]
    constructor
    · rintro ⟨d', w, hx, -⟩
      exact ⟨(h.written hs hx).1, (h.written hs hx).2.1⟩
    · rintro ⟨hn, hr⟩
      obtain ⟨w, hx⟩ := h.writeAll_succeeds hn hr
      exact ⟨w.device, w, hx, rfl⟩
  · obtain ⟨w, hw, rfl⟩ := h.writing_eq_ok.mp hx
    have hm : Moves ⟨d, r, d.writeUnit, 0, []⟩ w := by
      have hm := moves_writeAll (w := ⟨d, r, d.writeUnit, 0, []⟩) fun x (_ : x ∈ parts) => .inr hs
      rwa [hw] at hm
    refine ⟨?_, (h.journal hs hw).2⟩
    rw [contents_of_reach hm.reach h.inside, (h.written hs hw).2.2]
  · cases h.writer_start.symm.trans hw
    have hp := h.position hs hx
    exact ⟨hp, congrArg Except.ok hp⟩

theorem chunking_irrelevant_pieces :
    Blank ⟨4, 8⟩ (Ram.ofBytes (Bytes.erased 16) 4 8) ∧ Sized (Ram.ofBytes (Bytes.erased 16) 4 8) ∧
      ∃ d', writing ⟨4, 8⟩ (writeAll [[1], [], [2, 3, 4, 5, 6]]) (Ram.ofBytes (Bytes.erased 16) 4 8) =
          .ok () d' ∧
        d'.contents = Bytes.erased 4 ++ [1, 2, 3, 4, 5, 6, 0xff, 0xff] ++ Bytes.erased 4 := by
  have h : Blank ⟨4, 8⟩ (Ram.ofBytes (Bytes.erased 16) 4 8) :=
    { faultless := fun _ => rfl
      unit := by decide
      start := by decide
      size := by decide
      inside := by decide
      erased := rfl }
  have hs : Sized (Ram.ofBytes (Bytes.erased 16) 4 8) := ⟨16, rfl⟩
  obtain ⟨-, hok, hrun, -⟩ := chunking_irrelevant h hs [[1], [], [2, 3, 4, 5, 6]]
  obtain ⟨d', hx⟩ := hok.mpr ⟨by decide, .inl rfl⟩
  exact ⟨h, hs, d', hx, (hrun d' hx).1⟩

end Firmware.Flash
