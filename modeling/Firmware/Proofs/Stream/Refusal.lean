import Firmware.Proofs.Stream.Directory

/-!
Entries that refuse some of the calls they get. A call that is refused before anything of it has been
programmed does no harm: closing the entry enters what the other calls wrote.
-/

namespace Firmware

namespace Flash.Writer

open Ram

variable {w w' : Writer Ram} {b data : Bytes} {e : Failure} {u : Unit}

lemma changes_of_programUnits {n : Nat} (h : programUnits n data w = .ok u w') :
    w'.device.changes = w.device.changes + 1 := by
  rw [programUnits_run] at h
  split at h
  · cases h
  · split at h
    · rename_i hp
      cases h
      exact changes_of_program hp
    · cases h

lemma Accepts.programUnits_refused {n : Nat} (h : Accepts b w) (hc : Counted w.device n data)
    (hs : w.unit ∣ w.region.start) (hf : ∀ k, w.device.faulty k = false) (hd : w.unit ∣ data.length)
    (hx : programUnits n data w = .error e w') : w' = w ∧ w.region.size < w.offset + data.length := by
  obtain rfl | ⟨hl, hsized⟩ := hc
  case inr =>
    obtain ⟨f, hw⟩ := programUnits_long hl hsized
    cases hx.symm.trans hw
    have hr : w.region.size < 0x100000000 := w.region.len.toNat_lt
    exact ⟨rfl, by omega⟩
  have hn := h.programmed
  rcases programUnits_cases h.toPlaced (.inl rfl) hn.symm (hn.symm ▸ h.aligned) hd h.image with
    ⟨f, v, -, hc, -⟩ | ⟨v, hv, -⟩
  · rw [hn] at hc
    rcases hc with hsize | hs' | ⟨k, hk⟩
    · rw [programUnits_run, if_pos hsize] at hx
      cases hx
      exact ⟨rfl, hsize⟩
    · exact absurd hs hs'
    · rw [hf] at hk
      cases hk
  · cases hv.symm.trans hx

lemma changes_of_programStaged (h : programStaged w = .ok u w') :
    w'.device.changes = w.device.changes + 1 := by
  obtain ⟨_, v, hv, h⟩ := EStateM.bind_eq_ok h
  cases hv
  obtain ⟨_, v, hv, h⟩ := EStateM.bind_eq_ok h
  have hc := changes_of_programUnits hv
  cases h
  exact hc

lemma Accepts.programStaged_refused (h : Accepts b w) (hs : w.unit ∣ w.region.start)
    (hf : ∀ k, w.device.faulty k = false) (hx : programStaged w = .error e w') :
    w.region.size < w.offset + w.unit := by
  have hl := h.length_padded
  obtain hx | ⟨_, v, hv, hx⟩ := EStateM.bind_eq_error hx
  · cases hx
  · cases hv
    obtain hx | ⟨_, v, -, hx⟩ := EStateM.bind_eq_error hx
    · have hn := (h.programUnits_refused (.inl rfl) hs hf (hl.symm ▸ Nat.dvd_refl _) hx).2
      rwa [hl] at hn
    · cases hx

lemma Holds.write_refused (h : Holds b w) (hf : ∀ k, w.device.faulty k = false)
    (hdata : Measured w.device data) (hx : write data w = .error e w') (hd : w'.device = w.device) : w' = w ∨ w.region.size < b.length := by
  rw [write_run] at hx
  split at hx
  · rw [writeUnits_run] at hx
    split at hx
    · obtain hx | ⟨_, v, -, hx⟩ := EStateM.bind_eq_error hx
      · have hl : (data.take (data.length - data.length % w.unit)).length = data.length - data.length % w.unit :=
          List.length_take_of_le (Nat.sub_le _ _)
        have hc := (hdata.mono (List.length_take_le' (data.length - data.length % w.unit) data)).counted
        rw [hl] at hc
        exact .inl (h.programUnits_refused hc h.start hf (hl.symm ▸ Nat.dvd_sub_mod _) hx).1
      · cases hx
    · cases hx
  · rename_i hs
    have hv := h.stage (data.take (w.unit - w.staged.length)) (by
      have := h.short
      rw [List.length_take]
      omega)
    obtain hx | ⟨_, v, hv', hx⟩ := EStateM.bind_eq_error hx
    · cases hx
    · cases hv'
      split at hx
      · obtain hx | ⟨_, v, hp, hx⟩ := EStateM.bind_eq_error hx
        · -- Offset and size of the region are multiples of the unit, and something was staged.
          have hn : w.region.size ≤ w.offset :=
            Nat.le_of_lt_add_of_dvd (hv.programStaged_refused h.start hf hx) h.size h.aligned
          have h1 : 0 < w.staged.length := List.length_pos_iff.mpr (mt List.isEmpty_iff.mpr hs)
          right
          rw [h.length]
          omega
        · have h1 := changes_of_programStaged hp
          have h2 := changes_le_of_reach ((roams_writeUnits _).of_error hx).reach
          rw [hd, h1] at h2
          exact absurd h2 (Nat.not_succ_le_self _)
      · cases hx

lemma changes_of_erase (h : erase w = .ok u w') : w'.device.changes = w.device.changes + 1 := by
  rw [erase_run] at h
  split at h
  · rename_i hd
    cases h
    exact Ram.changes_of_erase hd
  · cases h

end Flash.Writer

namespace Cache

open Flash Ram OpenEntry

section

variable {δ : Type} [Flash δ]

/-- An entry and its payload after a call. A call that is refused leaves the payload as it is. -/
def offer (s : OpenEntry δ × Bytes) (k : SinkCall) : OpenEntry δ × Bytes :=
  match Sink.call k s.1 with
  | .ok _ e => (e, payloadAfter s.2 k)
  | .error _ e => (e, s.2)

/-- Opens an entry, makes calls of which it may refuse some, and closes it. Answers the payload. -/
def fill (i : Nat) (name : Text) (calls : List SinkCall) : EStateM Failure (Cache δ) Bytes := do
  let s := calls.foldl offer (← openEntry i name, [])
  onEntry s.1 close
  return s.2

/-- The calls that are refused leave the device alone. -/
def Quiet : List SinkCall → OpenEntry δ × Bytes → Prop
  | [], _ => True
  | k :: calls, s =>
    (∀ f e, Sink.call k s.1 = .error f e → e.writer.device = s.1.writer.device) ∧ Quiet calls (offer s k)

end

variable {r : Region} {es : List (Text × Bytes)} {b p data : Bytes} {name : Text} {e e' : OpenEntry Ram}
  {f : Failure} {u : Unit}

/-- The payload `p` was taken. It has been written, unless there is no room for it. -/
structure Kept (r : Region) (es : List (Text × Bytes)) (b : Bytes) (name : Text) (p : Bytes)
    (e : OpenEntry Ram) : Prop extends Placed r es b name e where
  sound : e.writer.Sound
  written : e.written = p.length
  held : Writer.Holds (entryHead b.length name ++ p) e.writer ∨
    e.writer.region.size < (entryHead b.length name ++ p).length

inductive Yields (r : Region) (es : List (Text × Bytes)) (b : Bytes) (name : Text) (p : Bytes) (k : SinkCall)
    (e : OpenEntry Ram) : EStateM.Result Failure (OpenEntry Ram) Unit → Prop
  | ok {e' : OpenEntry Ram} : Reach (·.Inside r) e.writer.device e'.writer.device →
      Kept r es b name (payloadAfter p k) e' → Yields r es b name p k e (.ok () e')
  | error {f : Failure} {e' : OpenEntry Ram} : Reach (·.Inside r) e.writer.device e'.writer.device →
      (e'.writer.device = e.writer.device → Kept r es b name p e') → Yields r es b name p k e (.error f e')

namespace OpenEntry

lemma Writing.kept (h : Writing r es b name p e) : Kept r es b name p e where
  toPlaced := h.toPlaced
  sound := h.holds.toSound
  written := h.written
  held := .inl h.holds

lemma write_run {δ : Type} [Flash δ] (data : Bytes) (e : OpenEntry δ) :
    write data e =
      match Writer.write data e.writer with
      | .ok _ w => .ok () { e with writer := w, written := e.written + data.length }
      | .error f w => .error f { e with writer := w } := by
  rw [write, EStateM.bind_run, onWriter, onPart]
  cases Writer.write data e.writer <;> rfl

end OpenEntry

namespace Kept

lemma yields_write (h : Kept r es b name p e) (data : Bytes) :
    Yields r es b name p (.write data) e (write data e) := by
  have hm := Writer.moves_write (h.measured data)
  rw [write_run]
  cases hx : Writer.write data e.writer with
  | ok u w =>
    rw [hx] at hm
    refine .ok (h.reach hm) { (h.moved hm).counted (e.written + data.length) with
      sound := hm.sound h.sound
      written := ?_
      held := ?_ }
    · rw [payloadAfter, List.length_append, ← h.written]
    · rcases h.held with hh | hn
      · have hw := Writer.ends_write hh (h.measured data)
        rw [hx, List.append_assoc] at hw
        obtain ⟨hw⟩ := hw
        exact .inl hw
      · right
        have hg : w.region = e.writer.region := hm.region
        simp only [payloadAfter, List.length_append, hg] at hn ⊢
        omega
  | error f w =>
    rw [hx] at hm
    refine .error (h.reach hm) fun hd => { h.moved hm with
      sound := hm.sound h.sound
      written := h.written
      held := ?_ }
    have hg : w.region = e.writer.region := hm.region
    rcases h.held with hh | hn
    · rcases hh.write_refused h.suits.faultless (h.measured data) hx hd with rfl | hn
      · exact .inl hh
      · exact .inr (hg ▸ hn)
    · exact .inr (hg ▸ hn)

lemma changes_of_restart (h : Kept r es b name p e) (hx : restart e = .error f e') :
    e.writer.device.changes < e'.writer.device.changes := by
  obtain ⟨w, hw, -⟩ := h.erase_holds h.sound
  have he : (onWriter Writer.erase : EStateM Failure (OpenEntry Ram) Unit) e = .ok () { e with writer := w } := by
    simp only [onWriter, onPart, hw]
  rw [restart, EStateM.bind_run, he] at hx
  obtain hx | ⟨_, e₁, h₁, hx⟩ := EStateM.bind_eq_error hx
  · cases hx
  · cases h₁
    obtain hx | ⟨_, e₂, h₂, hx⟩ := EStateM.bind_eq_error hx
    · cases hx
    · cases h₂
      have hm := Writer.roams_write e.head w
      simp only [onWriter, onPart] at hx
      cases hw' : Writer.write e.head w with
      | ok v w' =>
        rw [hw'] at hx
        cases hx
      | error f w' =>
        rw [hw'] at hx hm
        cases hx
        have h1 := Writer.changes_of_erase hw
        have h2 := changes_le_of_reach hm.reach
        dsimp only [stateAfter_error] at h2 ⊢
        omega

lemma yields (h : Kept r es b name p e) (k : SinkCall) : Yields r es b name p k e (Sink.call k e) := by
  cases k with
  | write data => exact h.yields_write data
  | erase =>
    have hl := h.leaves_restart h.sound
    change Yields r es b name p .erase e (restart e)
    cases hx : restart e with
    | ok u e' =>
      rw [hx] at hl
      obtain ⟨hr, hw⟩ := hl
      exact .ok hr hw.kept
    | error f e' =>
      rw [hx] at hl
      obtain _ | ⟨hr, -⟩ := hl
      have hlt := h.changes_of_restart hx
      exact .error hr fun hd => absurd (congrArg Ram.changes hd) (Nat.ne_of_gt hlt)
  | seek n => exact .error .refl fun _ => h
  | flush => exact .ok .refl h

lemma offers {s : OpenEntry Ram × Bytes} (h : Kept r es b name s.2 s.1) {calls : List SinkCall}
    (hq : Quiet calls s) :
    Kept r es b name (calls.foldl offer s).2 (calls.foldl offer s).1 ∧
      Reach (·.Inside r) s.1.writer.device (calls.foldl offer s).1.writer.device := by
  induction calls generalizing s with
  | nil => exact ⟨h, .refl⟩
  | cons k calls ih =>
    obtain ⟨hk, hq⟩ := hq
    have ho : Kept r es b name (offer s k).2 (offer s k).1 ∧
        Reach (·.Inside r) s.1.writer.device (offer s k).1.writer.device := by
      have hy := h.yields k
      simp only [offer]
      cases hx : Sink.call k s.1 with
      | ok u e =>
        rw [hx] at hy
        obtain ⟨hr, he⟩ := hy
        exact ⟨he, hr⟩
      | error f e =>
        rw [hx] at hy
        obtain _ | ⟨hr, he⟩ := hy
        exact ⟨he (hk f e hx), hr⟩
    obtain ⟨hs, hr⟩ := ih ho.1 hq
    exact ⟨hs, ho.2.trans hr⟩

lemma writing_of_close (h : Kept r es b name p e) (hx : close e = .ok u e') : Writing r es b name p e where
  toPlaced := h.toPlaced
  written := h.written
  holds := h.held.resolve_right fun hn => by
    rw [List.length_append, ← h.head, ← h.written] at hn
    rw [close, EStateM.bind_run, EStateM.get_run] at hx
    dsimp only at hx
    rw [EStateM.bind_run, EStateM.lift_run] at hx
    cases hp : paddingFor (e.head.length + e.written) e.block with
    | error f =>
      rw [hp] at hx
      cases hx
    | ok n =>
      rw [hp] at hx
      dsimp only at hx
      rw [if_neg (by omega)] at hx
      cases hx

end Kept

variable {c c' : Cache Ram} {i : Nat} {calls : List SinkCall}

lemma fill_eq_ok (h : fill i name calls c = .ok p c') :
    ∃ e c₁ e', openEntry i name c = .ok e c₁ ∧ close (calls.foldl offer (e, [])).1 = .ok () e' ∧
      p = (calls.foldl offer (e, [])).2 ∧ c' = { c₁ with device := e'.writer.device } := by
  obtain ⟨e, c₁, he, h⟩ := EStateM.bind_eq_ok h
  obtain ⟨_, c₂, hc, h⟩ := EStateM.bind_eq_ok h
  cases h
  obtain ⟨e', hx, rfl⟩ := onPart_eq_ok hc
  exact ⟨e, c₁, e', he, hx, rfl, rfl⟩

lemma ready_of_fill (hs : Suits r c.device) (hp : Paddable c.device) (hr : c.partitions[i]? = some r)
    (hh : Holds r es c.device) (hq : ∀ e c₁, openEntry i name c = .ok e c₁ → Quiet calls (e, []))
    (hx : fill i name calls c = .ok p c') :
    Allows i name c r ∧ ∃ b d, c' = { c with device := d } ∧ Reach (·.Inside r) c.device d ∧
      Ready r (finish c.device.eraseUnit es (name, p)) b d := by
  obtain ⟨e, c₁, e', he, hcl, rfl, rfl⟩ := fill_eq_ok hx
  rcases openEntry_cases i name c with ⟨f, hf, -⟩ | ⟨s, ha⟩
  · cases he.symm.trans hf
  · cases hr.symm.trans ha.2.2.2
    have ho := ha.opened hh hs hp
    have hq := hq e c₁ he
    rw [he] at ho
    obtain ⟨-, hw, hre⟩ := ho
    obtain ⟨hk, hre'⟩ := hw.kept.offers (s := (e, [])) hq
    have hre := hre.trans hre'
    have hl := (hk.writing_of_close hcl).leaves_close (hp.of_alike (alike_of_reach hre))
    rw [hcl, (alike_of_reach hre).eraseUnit] at hl
    obtain ⟨hre'', b, hb⟩ := hl
    exact ⟨ha, b, _, rfl, hre.trans hre'', hb⟩

lemma openEntry_holds (hs : Suits r c.device) (hp : Paddable c.device) (hr : c.partitions[i]? = some r)
    (hh : Holds r es c.device) (name : Text) :
    ∃ d, stateAfter (openEntry i name c) = { c with device := d } ∧ Reach (·.Inside r) c.device d ∧
      Holds r es d := by
  rcases openEntry_cases i name c with ⟨f, hf, -⟩ | ⟨s, ha⟩
  · rw [hf]
    exact ⟨c.device, rfl, .refl, hh⟩
  · cases hr.symm.trans ha.2.2.2
    have ho := ha.opened hh hs hp
    revert ho
    cases openEntry i name c with
    | ok e c₁ =>
      rintro ⟨-, hw, hre⟩
      exact ⟨_, rfl, hre, hw.holds_whole⟩
    | error f c₁ =>
      rintro (_ | ⟨-, hh', hre⟩)
      exact ⟨_, rfl, hre, hh'⟩

lemma lookup_of_payload (hs : ∀ r ∈ c.partitions, Suits r c.device) (hp : (c.payload name).isOk = false) :
    ∀ r ∈ c.partitions, Cache.lookup name (image r c.device) = none := by
  rw [payload, search, searchIn_run name .empty hs] at hp
  cases hf : c.partitions.findSome? fun r => Cache.lookup name (image r c.device) with
  | none => exact List.findSome?_eq_none_iff.mp hf
  | some b =>
    rw [hf] at hp
    cases hp

lemma search_finished {d : Ram} {block : Nat} (hs : ∀ r ∈ c.partitions, Suits r c.device)
    (hap : c.partitions.Pairwise Region.Apart) (ha : Allows i name c r) (hh : Holds r es c.device)
    (hre : Reach (·.Inside r) c.device d) (hf : Holds r (finish block es (name, p)) d) (a : Arena) :
    ({ c with device := d } : Cache Ram).search name a = .ok p a := by
  obtain ⟨h0, -, hp, hr⟩ := ha
  have hn := lookup_of_payload hs hp
  have hd := alike_of_reach hre
  have hrs := hs r (List.mem_of_getElem? hr)
  refine search_eq_ok (c := { c with device := d }) (fun s hm => (hs s hm).of_alike hd) hr ?_ (fun j s hj hji => ?_) a
  · have he : es.lookup name = none := (hh.lookup hrs h0).symm.trans (hn r (List.mem_of_getElem? hr))
    rw [hf.lookup (hrs.of_alike hd) h0, lookup_finish h0, he, if_pos rfl]
    rfl
  · have hi : image s d = image s c.device :=
      image_of_reach hre (Region.Apart.of_getElem? hap hr hj (Ne.symm hji))
    exact (congrArg (Cache.lookup name) hi).trans (hn s (List.mem_of_getElem? hj))

/-- What an entry refuses does not become part of it: it is found as what its other calls have written, its
partition holds whole entries only, and opening the next one leaves it there. -/
theorem fill_found {d : Ram} {rs : List Region} {c c' : Cache Ram} (h : create d rs = .ok c)
    (hf : ∀ k, d.faulty k = false) (hu : d.writeUnit ∣ d.eraseUnit) (hb : d.eraseUnit = 1 ∨ 5 ≤ d.eraseUnit)
    (ho : rs.Pairwise fun r s => r.overlaps s = false) {i : Nat} {r : Region} {es : List (Text × Bytes)}
    (hr : rs[i]? = some r) (hh : Holds r es d) {name : Text} {calls : List SinkCall} {p : Bytes}
    (hq : ∀ e c₁, openEntry i name c = .ok e c₁ → Quiet calls (e, []))
    (hx : fill i name calls c = .ok p c') :
    (∀ a, answer (c'.search name a) = .ok p) ∧
      (∃ b, Ready r (finish d.eraseUnit es (name, p)) b c'.device) ∧
      ∀ n, Holds r (finish d.eraseUnit es (name, p)) (stateAfter (openEntry i n c')).device ∧
        ∀ a, answer ((stateAfter (openEntry i n c')).search name a) = .ok p := by
  obtain ⟨rfl, hc⟩ := create_eq_ok h
  have hs : ∀ r ∈ rs, Suits r d := fun r hr => ⟨hc r hr, hu, hf⟩
  have hap : rs.Pairwise Region.Apart := ho.imp_of_mem fun hr hs hrs => (hc _ hr).apart (hc _ hs) hrs
  have hsr := hs r (List.mem_of_getElem? hr)
  obtain ⟨ha, b, d₁, rfl, hre, hrd⟩ := ready_of_fill (c := ⟨d, rs⟩) hsr hb hr hh hq hx
  have hd := alike_of_reach hre
  have hfound {d₂ : Ram} (hre : Reach (·.Inside r) d d₂) (hf : Holds r (finish d.eraseUnit es (name, p)) d₂)
      (a : Arena) : answer ((⟨d₂, rs⟩ : Cache Ram).search name a) = .ok p := by
    rw [search_finished (c := ⟨d, rs⟩) hs hap ha hh hre hf a]
    rfl
  refine ⟨hfound hre hrd.holds, ⟨b, hrd⟩, fun n => ?_⟩
  obtain ⟨d₂, he, hre₂, hh₂⟩ :=
    openEntry_holds (c := ⟨d₁, rs⟩) (hsr.of_alike hd) (Paddable.of_alike hb hd) hr hrd.holds n
  rw [he]
  exact ⟨hh₂, hfound (hre.trans hre₂) hh₂⟩

def blankCache : Cache Ram := ⟨blankRam, [⟨0, 64⟩]⟩

theorem fill_found_refusing :
    let calls := [.write [1, 2, 3, 4], .write (List.replicate 64 0), .write [5]]
    let x := fill 0 ⟨[0x61], rfl⟩ calls blankCache
    answer x = .ok [1, 2, 3, 4, 5] ∧
      ∀ a, answer ((stateAfter x).search ⟨[0x61], rfl⟩ a) = .ok [1, 2, 3, 4, 5] := by
  intro calls x
  have hx : answer x = .ok [1, 2, 3, 4, 5] := by decide +kernel
  have hc : create blankRam [⟨0, 64⟩] = .ok blankCache := rfl
  have hq : ∀ e c₁, openEntry 0 ⟨[0x61], rfl⟩ blankCache = .ok e c₁ → Quiet calls (e, []) := by
    intro e c₁ h
    cases h
    refine ⟨fun f e h => ?_, fun f e h => ?_, fun f e h => ?_, trivial⟩
    · cases h
    · cases h
      rfl
    · cases h
  exact ⟨hx, (fill_found hc (fun _ => rfl) (by decide) (.inr (by decide)) (List.pairwise_singleton _ _) rfl
    (holds_erased rfl) hq (answer_eq_ok hx)).1⟩

/-- The second write is refused after it has programmed what was staged. What is taken then lies behind
that, and the next entry that is opened drops this one. -/
theorem fill_shifted :
    let x := fill 0 ⟨[0x61], rfl⟩ [.write [7], .write (List.replicate 60 0), .write [9]] blankCache
    let y := openEntry 0 ⟨[0x62], rfl⟩ (stateAfter x)
    answer x = .ok [7, 9] ∧ answer ((stateAfter x).search ⟨[0x61], rfl⟩ .empty) = .ok [7, 0] ∧
      answer ((stateAfter y).search ⟨[0x61], rfl⟩ .empty) = .error .notFound := by
  decide +kernel

end Cache

end Firmware
