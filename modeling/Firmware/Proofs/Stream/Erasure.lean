import Firmware.Proofs.Flash.Twin
import Firmware.Proofs.Stream.Directory
import Firmware.Stream.DigestPool

namespace Firmware

open Flash Ram

namespace Cache

variable {c c' : Cache Ram} {d : Ram} {r : Region} {i n start : Nat} {name : Text} {e : OpenEntry Ram} {tail : Tail}

/-- Behind what is taken as the free end of a partition, nothing was written. -/
def Tidy (c : Cache Ram) : Prop :=
  ∀ r ∈ c.partitions, ∀ n, (scan (image r c.device)).2 = .free n →
    (image r c.device).drop n = Bytes.erased (r.size - n)

lemma drop_of_holds {es : List (Text × Bytes)} (h : Holds r es d) (hs : Suits r d)
    (ht : (scan (image r d)).2 = .free n) : (image r d).drop n = Bytes.erased (r.size - n) := by
  obtain ⟨b, t, hb, hu, -, hi⟩ := h
  obtain ⟨tail, hsc, htrail⟩ := scan_image hs hb hu hi
  rw [hsc] at ht
  cases ht
  cases htrail with
  | free => rw [hi, List.append_nil, filled, List.drop_left]
  | freeStart => rw [hi]; rfl

lemma Stores.tidy {m : Directory} (h : Stores m c) : c.Tidy := by
  intro r hr n hn
  obtain ⟨i, hi⟩ := List.getElem?_of_mem hr
  exact drop_of_holds (h.holds i r hi) (h.suits r hr) hn

structure Clean (r : Region) (start : Nat) (d : Ram) : Prop where
  sized : Sized d
  faultless : ∀ k, d.faulty k = false
  inside : (rest r start).stop ≤ d.contents.length
  erased : image (rest r start) d = Bytes.erased (rest r start).size

lemma clean_of_rewind (hr : Storage.Record.Checked r c.device) (hf : ∀ k, c.device.faulty k = false)
    (h : nextStart.rewind r start c = .ok n c') (hs : n < r.size) : Clean r n c'.device := by
  obtain ⟨_, c₁, he, h⟩ := EStateM.bind_eq_ok h
  cases h
  simp only [eraseRange, Cache.onDevice] at he
  obtain ⟨d, hd, rfl⟩ := onPart_eq_ok he
  have hd := EStateM.adaptExcept_eq_ok hd
  have hle := Nat.le_of_lt hs
  have hlt := hr.stop_lt
  rw [← rest_start hle hlt, ← rest_size] at hd
  have hp := perform_cases (.erase (rest r n).start (rest r n).size) c.device
  rw [Mutation.perform, hd] at hp
  have ha : c.device.Alike d := hp.1
  obtain ⟨hl, hi⟩ := erase_eq_ok hd
  exact ⟨ha.toShaped.sized hr.sized, fun k => ha.faulty ▸ hf k, ha.length ▸ hl, hi⟩

lemma clean_of_nextStart (hr : Storage.Record.Checked r c.device) (hf : ∀ k, c.device.faulty k = false)
    (ht : ∀ n, tail = .free n → (image r c.device).drop n = Bytes.erased (r.size - n))
    (h : nextStart r tail c = .ok start c') (hs : start < r.size) : Clean r start c'.device := by
  obtain ⟨_, _, hg, h⟩ := EStateM.bind_eq_ok h
  cases hg
  cases tail with
  | dirty n => exact clean_of_rewind hr hf h hs
  | free n =>
    dsimp only at h
    split at h
    · cases h
      have hle := Nat.le_of_lt hs
      have hlt := hr.stop_lt
      refine ⟨hr.sized, hf, rest_stop hle hlt ▸ hr.inside, ?_⟩
      rw [image, rest_start hle hlt, rest_size, ← drop_slice]
      exact ht _ rfl
    · exact clean_of_rewind hr hf h hs

def OpenEntry.Begun (e : OpenEntry Ram) : Prop :=
  ∃ w : Writer Ram, Sized w.device ∧ (∀ k, w.device.faulty k = false) ∧ w.blank = w ∧
    Writer.write e.head w = .ok () e.writer ∧ e.written = 0

lemma begun_of_openEntry (hc : create c.device c.partitions = .ok c) (ht : c.Tidy)
    (hf : ∀ k, c.device.faulty k = false) (h : openEntry i name c = .ok e c') : e.Begun := by
  simp only [openEntry] at h
  obtain ⟨-, h⟩ := EStateM.refuse_eq_ok h
  obtain ⟨-, h⟩ := EStateM.check_eq_ok h
  replace h := EStateM.get_bind_eq_ok h
  obtain ⟨-, h⟩ := EStateM.refuse_eq_ok h
  obtain ⟨r, hp, h⟩ := EStateM.lift_bind_eq_ok h
  have hr := List.mem_of_getElem? (partition_eq_ok.mp hp)
  have hk := (create_eq_ok hc).2 r hr
  obtain ⟨b, hb, h⟩ := EStateM.lift_bind_eq_ok h
  rw [contents_run hk] at hb
  cases hb
  obtain ⟨start, c₁, hst, h⟩ := EStateM.bind_eq_ok h
  obtain ⟨hs, h⟩ := EStateM.check_eq_ok h
  have hcl := clean_of_nextStart hk hf (ht r hr) hst hs
  replace h := EStateM.get_bind_eq_ok h
  obtain ⟨w, hw, h⟩ := EStateM.lift_bind_eq_ok h
  cases Writer.eq_of_start hw
  obtain ⟨d, h, -⟩ := onPart_eq_ok h
  dsimp only at h
  split at h
  · rename_i w' hw'
    cases h
    refine ⟨⟨c₁.device, rest r start, c₁.device.writeUnit, 0, []⟩, hcl.sized, hcl.faultless, ?_, hw', rfl⟩
    simp only [Writer.blank, blanked_of_erased hcl.inside hcl.erased]
  · cases h

namespace OpenEntry

inductive Twin : OpenEntry Ram → OpenEntry Ram → Prop
  | mk {e : OpenEntry Ram} {w : Writer Ram} : e.writer.Twin w → Twin e { e with writer := w }

lemma Twin.writer {e e' : OpenEntry Ram} (h : e.Twin e') : e.writer.Twin e'.writer := by
  cases h
  assumption

lemma Twin.symm {e e' : OpenEntry Ram} (h : e.Twin e') : e'.Twin e := by
  cases h with
  | mk h => exact .mk (e := { e with writer := _ }) h.symm

lemma respects_onWriter {f : EStateM Failure (Writer Ram) Unit} (hf : Respects Writer.Twin f) :
    Respects Twin (onWriter f) := by
  refine hf.onPart (fun _ _ h => h.writer) ?_
  rintro e _ w w' ⟨-⟩ hw
  exact .mk (e := { e with writer := w }) hw

lemma respects_get_bind {α : Type} {f : OpenEntry Ram → EStateM Failure (OpenEntry Ram) α}
    (hd : ∀ e w, e.writer.Twin w → f { e with writer := w } = f e) (hf : ∀ e, Respects Twin (f e)) :
    Respects Twin (get >>= f) := by
  refine .get_bind ?_ hf
  rintro e _ ⟨h⟩
  exact hd e _ h

lemma respects_count (f : Nat → Nat) :
    Respects Twin (modify fun e => { e with written := f e.written } : EStateM Failure (OpenEntry Ram) PUnit) := by
  refine .modify ?_
  rintro e _ ⟨h⟩
  exact .mk (e := { e with written := f e.written }) h

lemma respects_write (data : Bytes) : Respects Twin (write data) :=
  .bind (respects_onWriter (Writer.respects_write data)) fun _ => respects_count (· + data.length)

lemma respects_programOver (address : Nat) (data : Bytes) :
    Respects Ram.Twin (programOver address data : EStateM Failure Ram Unit) := by
  refine .get_bind ?_ fun d => ?_
  · rintro d _ ⟨⟩
    rfl
  · dsimp only
    split
    · exact .check (.bind (.lift _) fun _ => .adaptExcept (respects_perform (.program _ _)))
    · exact .throw _

lemma respects_close : Respects Twin close := by
  refine respects_get_bind ?_ fun e => ?_
  · rintro e _ ⟨⟩
    rfl
  · refine .bind (.lift _) fun n => .check (.bind ?_ fun _ => ?_)
    · exact .forM fun piece _ => respects_onWriter (Writer.respects_write piece)
    · refine .bind (respects_onWriter Writer.respects_flush) fun _ => respects_onWriter ?_
      refine (respects_programOver _ _).onPart (fun _ _ h => h.device) ?_
      rintro w _ d d' ⟨-⟩ hd
      exact .mk (w := { w with device := d }) hd

structure Stays (e e' : OpenEntry Ram) : Prop where
  writer : e.writer.Roams e'.writer
  head : e'.head = e.head
  block : e'.block = e.block
  lengthAt : e'.lengthAt = e.lengthAt

instance : IsPreorder (OpenEntry Ram) Stays where
  refl e := ⟨refl_of Writer.Roams e.writer, rfl, rfl, rfl⟩
  trans _ _ _ h h' :=
    ⟨trans_of Writer.Roams h.writer h'.writer, h'.head.trans h.head, h'.block.trans h.block,
      h'.lengthAt.trans h.lengthAt⟩

lemma stays_write (data : Bytes) : Follows Stays (write data) :=
  .bind (.onPart (Writer.roams_write data) fun _ _ h => ⟨h, rfl, rfl, rfl⟩) fun _ =>
    .modify fun e => ⟨refl_of Writer.Roams e.writer, rfl, rfl, rfl⟩

lemma twin_of_restart {e e₁ e₂ : OpenEntry Ram} (h : e.Begun) (hs : e.Stays e₁)
    (hr : restart e₁ = .ok () e₂) : e.Twin e₂ := by
  obtain ⟨w, hsized, hf, hb, hw, h0⟩ := h
  obtain ⟨hm, hh, hblock, hat⟩ := hs
  obtain ⟨_, e₃, hx, hr⟩ := EStateM.bind_eq_ok hr
  obtain ⟨w₃, he, rfl⟩ := onPart_eq_ok hx
  have hm' : w.Moves e₁.writer := (trans_of Writer.Roams ((Writer.roams_write e.head).of_ok hw) hm).moves hsized
  have ht := Writer.twin_of_erase hf hm' he
  rw [hb] at ht
  obtain ⟨w₄, hw₄, ht₄⟩ := (Writer.respects_write e.head).of_ok hw ht
  obtain ⟨_, e₄, hset, hr⟩ := EStateM.bind_eq_ok hr
  cases hset
  replace hr := EStateM.get_bind_eq_ok hr
  obtain ⟨w₅, hw₅, rfl⟩ := onPart_eq_ok hr
  dsimp only at hw₅
  rw [hh, hw₄] at hw₅
  cases hw₅
  rw [hh, hblock, hat, ← h0]
  exact .mk ht₄

end OpenEntry

end Cache

def SinkCall.rewrite (as bs : List Bytes) : List SinkCall := as.map .write ++ .erase :: bs.map .write

namespace Sink

inductive Kind where
  | buffer
  | flash
  | entry
  | digest
  | tee (first second : Kind)

/-- What can be seen of sinks in the end: how much is used, what is there before and after they are flushed
or closed, and whether a digest matches. -/
inductive View where
  | contents (used : Except Failure Nat) (now : Bytes) (ending : Except Failure Unit) (after : Bytes)
  | verdict (used : Except Failure Nat) (found : Except Failure Bool)
  | both (used : Except Failure Nat) (first second : View)

def View.used : View → Except Failure Nat
  | .contents used _ _ _ | .verdict used _ | .both used _ _ => used

namespace Kind

variable {η : Type}

def State (η : Type) : Kind → Type
  | buffer => Buffer
  | flash => Writer Ram
  | entry => Cache.OpenEntry Ram
  | digest => DigestSink η
  | tee a b => Tee (a.State η) (b.State η)

def digestFree : Kind → Bool
  | buffer | flash | entry => true
  | digest => false
  | tee a b => a.digestFree && b.digestFree

variable [Hash.Engine η]

instance sink : (k : Kind) → Sink (k.State η)
  | buffer => inferInstanceAs (Sink Buffer)
  | flash => inferInstanceAs (Sink (Writer Ram))
  | entry => inferInstanceAs (Sink (Cache.OpenEntry Ram))
  | digest => inferInstanceAs (Sink (DigestSink η))
  | tee a b =>
    have := sink a
    have := sink b
    inferInstanceAs (Sink (Tee (a.State η) (b.State η)))

/-- Sinks that were just made: a writer of a device without faults, an entry that was opened in a tidy cache,
and a digest sink out of a pool. -/
def Fresh : (k : Kind) → k.State η → Prop
  | buffer, _ => True
  | flash, w => ∃ r d, Writer.start r d = .ok w ∧ ∀ n, d.faulty n = false
  | entry, e => ∃ c c' i name, Cache.create c.device c.partitions = .ok c ∧ c.Tidy ∧
      (∀ n, c.device.faulty n = false) ∧ Cache.openEntry i name c = .ok e c'
  | digest, t => ∃ p q a expected, DigestPool.get a expected p = .ok t q
  | tee a b, t => a.Fresh t.first ∧ b.Fresh t.second

/-- Writers are on devices that can tell their size. -/
def Sized : (k : Kind) → k.State η → Prop
  | flash, w => Flash.Sized w.device
  | tee a b, t => a.Sized t.first ∧ b.Sized t.second
  | buffer, _ | entry, _ | digest, _ => True

/-- The sinks with nothing in their memory or region. -/
def blank : (k : Kind) → k.State η → k.State η
  | buffer, _ => ⟨[]⟩
  | flash, w => w.blank
  | entry, e => e
  | digest, t => t
  | tee a b, t => ⟨a.blank t.first, b.blank t.second⟩

/-- Writes `bs`, and into digest sinks `as` before. -/
def refill (as bs : List Bytes) : (k : Kind) → EStateM Failure (k.State η) Unit
  | digest => ((as ++ bs).map SinkCall.write).forM (Sink.call (σ := digest.State η))
  | tee a b => Tee.pass (a.refill as bs) (b.refill as bs)
  | k => (bs.map SinkCall.write).forM (Sink.call (σ := k.State η))

def view : (k : Kind) → k.State η → View
  | buffer, b => .contents (Sink.used b) b.contents (.ok ()) b.contents
  | flash, w =>
    .contents (Sink.used w) w.device.contents (answer (Writer.flush w))
      (stateAfter (Writer.flush w)).device.contents
  | entry, e =>
    .contents (Sink.used e) e.writer.device.contents (answer (Cache.OpenEntry.close e))
      (stateAfter (Cache.OpenEntry.close e)).writer.device.contents
  | digest, t => .verdict (Sink.used t) (answer (DigestSink.digestMatch t))
  | tee a b, t => .both (Sink.used t) (a.view t.first) (b.view t.second)

end Kind

section Calls

variable {σ τ : Type} [Sink σ] [Sink τ] {as bs : List Bytes}

lemma rewrite_eq_ok {s s' : σ} (h : (SinkCall.rewrite as bs).forM Sink.call s = .ok () s') :
    ∃ s₁ s₂, (as.map SinkCall.write).forM Sink.call s = .ok () s₁ ∧ Sink.call .erase s₁ = .ok () s₂ ∧
      (bs.map SinkCall.write).forM Sink.call s₂ = .ok () s' := by
  obtain ⟨s₁, ha, h⟩ := EStateM.forM_append_eq_ok h
  obtain ⟨_, s₂, he, hb⟩ := EStateM.bind_eq_ok h
  exact ⟨s₁, s₂, ha, he, hb⟩

omit [Sink σ] [Sink τ] in
lemma pass_eq_ok {f : EStateM Failure σ Unit} {g : EStateM Failure τ Unit} {t t' : Tee σ τ} :
    Tee.pass f g t = .ok () t' ↔ f t.first = .ok () t'.first ∧ g t.second = .ok () t'.second := by
  simp only [Tee.pass, EStateM.bind_run, onPart]
  obtain ⟨x, y⟩ := t
  obtain ⟨x', y'⟩ := t'
  cases f x with
  | error e s => simp
  | ok u s => cases hg : g y <;> simp [hg]

lemma forM_tee_eq_ok {calls : List SinkCall} {t t' : Tee σ τ} :
    calls.forM Sink.call t = .ok () t' ↔
      calls.forM Sink.call t.first = .ok () t'.first ∧ calls.forM Sink.call t.second = .ok () t'.second := by
  induction calls generalizing t with
  | nil =>
    obtain ⟨x, y⟩ := t
    obtain ⟨x', y'⟩ := t'
    change EStateM.Result.ok () _ = _ ↔ EStateM.Result.ok () _ = _ ∧ EStateM.Result.ok () _ = _
    simp
  | cons c calls ih =>
    constructor
    · intro h
      obtain ⟨_, u, hc, h⟩ := EStateM.bind_eq_ok h
      obtain ⟨hf, hs⟩ := pass_eq_ok.mp hc
      obtain ⟨hfs, hss⟩ := ih.mp h
      exact ⟨(EStateM.bind_of_ok _ _ _ hf).trans hfs, (EStateM.bind_of_ok _ _ _ hs).trans hss⟩
    · rintro ⟨hf, hs⟩
      obtain ⟨_, x, hcf, hf⟩ := EStateM.bind_eq_ok hf
      obtain ⟨_, y, hcs, hs⟩ := EStateM.bind_eq_ok hs
      have hc : Sink.call c t = .ok () (⟨x, y⟩ : Tee σ τ) := pass_eq_ok.mpr ⟨hcf, hcs⟩
      exact (EStateM.bind_of_ok _ _ _ hc).trans (ih.mpr ⟨hf, hs⟩)

end Calls

namespace Kind

variable {η : Type} [Hash.Engine η] {as bs : List Bytes}

lemma view_flash {w w' : Writer Ram} (h : w.Twin w') :
    flash.view (η := η) w = flash.view (η := η) w' := by
  have hf := Writer.respects_flush h
  have hu : Sink.used w = Sink.used w' := by
    cases h
    rfl
  change View.contents (Sink.used w) _ _ _ = View.contents (Sink.used w') _ _ _
  rw [hu, h.device.contents, hf.answer, hf.stateAfter.device.contents]

lemma view_entry {e e' : Cache.OpenEntry Ram} (h : e.Twin e') :
    entry.view (η := η) e = entry.view (η := η) e' := by
  have hc := Cache.OpenEntry.respects_close h
  have hu : Sink.used e = Sink.used e' := by
    cases h
    rfl
  change View.contents (Sink.used e) _ _ _ = View.contents (Sink.used e') _ _ _
  rw [hu, h.writer.device.contents, hc.answer, hc.stateAfter.writer.device.contents]

lemma used_view (k : Kind) (s : k.State η) : (k.view s).used = Sink.used s := by
  cases k <;> rfl

/-- What writing, erasing and writing again comes to, for one kind of sinks. -/
def Renews (k : Kind) (as bs : List Bytes) : Prop :=
  ∀ s s' : k.State η, k.Fresh s → (k.Sized s ∨ ∀ a ∈ as, a.length < 0x100000000) → (SinkCall.rewrite as bs).forM Sink.call s = .ok () s' →
    ∃ t, k.refill as bs (k.blank s) = .ok () t ∧ k.view t = k.view s'

lemma renews_buffer : Renews (η := η) buffer as bs := by
  intro s s' _ _ h
  obtain ⟨s₁, s₂, -, he, hb⟩ := rewrite_eq_ok h
  cases he
  exact ⟨s', hb, rfl⟩

lemma renews_of_respects {k : Kind} {R : k.State η → k.State η → Prop}
    (hk : k.refill (η := η) as bs = (bs.map SinkCall.write).forM Sink.call)
    (hw : ∀ b, Respects R (Sink.call (.write b) : EStateM Failure (k.State η) Unit))
    (hv : ∀ s t, R s t → k.view s = k.view t)
    (he : ∀ s s₁ s₂ : k.State η, k.Fresh s → (k.Sized s ∨ ∀ a ∈ as, a.length < 0x100000000) → (as.map SinkCall.write).forM Sink.call s = .ok () s₁ →
      Sink.call .erase s₁ = .ok () s₂ → R s₂ (k.blank s)) :
    Renews (η := η) k as bs := by
  intro s s' hs hm h
  obtain ⟨s₁, s₂, ha, hx, hb⟩ := rewrite_eq_ok h
  have hr : Respects R ((bs.map SinkCall.write).forM (Sink.call (σ := k.State η))) := by
    refine .forM fun c hc => ?_
    obtain ⟨b, -, rfl⟩ := List.mem_map.mp hc
    exact hw b
  obtain ⟨t, ht, htw⟩ := hr.of_ok hb (he s s₁ s₂ hs hm ha hx)
  exact ⟨t, hk ▸ ht, (hv s' t htw).symm⟩

lemma renews_flash : Renews (η := η) flash as bs := by
  refine renews_of_respects (R := Writer.Twin) rfl Writer.respects_write (fun _ _ => view_flash) ?_
  rintro s s₁ s₂ ⟨r, d, hs, hf⟩ hm ha he
  cases Writer.eq_of_start hs
  have hmoves : Writer.Moves ⟨d, r, d.writeUnit, 0, []⟩ s₁ := by
    rcases hm with hsized | hshort
    · have hr : Follows Writer.Roams ((as.map SinkCall.write).forM (Sink.call (σ := Writer Ram))) :=
        .forM fun c _ => Writer.roams_call c
      exact (hr.of_ok ha).moves hsized
    · refine Follows.of_ok (.forM fun c hc => Writer.follows_call ?_) ha
      obtain ⟨a, ha, rfl⟩ := List.mem_map.mp hc
      exact hshort a ha
  exact (Writer.twin_of_erase hf hmoves he).symm

lemma renews_entry : Renews (η := η) entry as bs := by
  refine renews_of_respects (R := Cache.OpenEntry.Twin) rfl Cache.OpenEntry.respects_write
    (fun _ _ => view_entry) ?_
  rintro s s₁ s₂ ⟨c, c', i, name, hc, ht, hf, hs⟩ - ha he
  have hm : Follows Cache.OpenEntry.Stays ((as.map SinkCall.write).forM (Sink.call (σ := Cache.OpenEntry Ram))) := by
    refine .forM fun c hc => ?_
    obtain ⟨b, -, rfl⟩ := List.mem_map.mp hc
    exact Cache.OpenEntry.stays_write b
  exact (Cache.OpenEntry.twin_of_restart (Cache.begun_of_openEntry hc ht hf hs) (hm.of_ok ha) he).symm

lemma renews_digest : Renews (η := η) digest as bs := by
  intro s s' _ _ h
  obtain ⟨s₁, s₂, ha, he, hb⟩ := rewrite_eq_ok h
  cases he
  refine ⟨s', ?_, rfl⟩
  have hl : ((as ++ bs).map SinkCall.write).forM (Sink.call (σ := digest.State η)) =
      (do (as.map SinkCall.write).forM Sink.call; (bs.map SinkCall.write).forM Sink.call) := by
    rw [List.map_append]
    exact List.forM_append
  change ((as ++ bs).map SinkCall.write).forM Sink.call s = _
  rw [hl, EStateM.bind_of_ok _ _ _ ha, hb]

lemma Renews.tee {a b : Kind} (ha : Renews (η := η) a as bs) (hb : Renews (η := η) b as bs) :
    Renews (η := η) (tee a b) as bs := by
  rintro s s' ⟨hsa, hsb⟩ hm h
  obtain ⟨hfa, hfb⟩ := forM_tee_eq_ok.mp h
  obtain ⟨x, hx, hvx⟩ := ha _ _ hsa (hm.imp_left And.left) hfa
  obtain ⟨y, hy, hvy⟩ := hb _ _ hsb (hm.imp_left And.right) hfb
  refine ⟨⟨x, y⟩, pass_eq_ok.mpr ⟨hx, hy⟩, ?_⟩
  have hu : Sink.used x = Sink.used s'.first := by
    rw [← used_view, hvx, used_view]
  change View.both (Sink.used x) _ _ = View.both (Sink.used s'.first) _ _
  rw [hu, hvx, hvy]

lemma renews (k : Kind) (as bs : List Bytes) : Renews (η := η) k as bs := by
  induction k with
  | buffer => exact renews_buffer
  | flash => exact renews_flash
  | entry => exact renews_entry
  | digest => exact renews_digest
  | tee a b ha hb => exact ha.tee hb

lemma refill_eq_ok {k : Kind} (hk : k.digestFree = true) {s t : k.State η}
    (h : k.refill as bs s = .ok () t) : (bs.map SinkCall.write).forM Sink.call s = .ok () t := by
  induction k with
  | buffer | flash | entry => exact h
  | digest => cases hk
  | tee a b iha ihb =>
    obtain ⟨ha, hb⟩ := Bool.and_eq_true_iff.mp hk
    obtain ⟨hx, hy⟩ := pass_eq_ok.mp h
    exact forM_tee_eq_ok.mpr ⟨iha ha hx, ihb hb hy⟩

end Kind

variable {η : Type} [Hash.Engine η]

/-- If a fresh sink is written, erased and written again, and nothing fails, then in the end it looks as a blank
one does that was only written the second time. This holds of all sinks but those that make digests, and of
these behind a tee too; a digest sink looks as if it had never been erased. What is discarded must not have gone
behind the region of a writer, as a slice may that is too long to be counted, on a device that is larger still. -/
theorem rewrite_as_blank (k : Kind) {s s' : k.State η} (hs : k.Fresh s) (as bs : List Bytes)
    (hm : k.Sized s ∨ ∀ a ∈ as, a.length < 0x100000000)
    (h : (SinkCall.rewrite as bs).forM Sink.call s = .ok () s') :
    (∃ t, k.refill as bs (k.blank s) = .ok () t ∧ k.view t = k.view s') ∧
      (k.digestFree = true →
        ∃ t, (bs.map SinkCall.write).forM Sink.call (k.blank s) = .ok () t ∧ k.view t = k.view s') := by
  obtain ⟨t, ht, hv⟩ := k.renews as bs s s' hs hm h
  exact ⟨⟨t, ht, hv⟩, fun hk => ⟨t, Kind.refill_eq_ok hk ht, hv⟩⟩

def entryFlashDigest : (Kind.tee (.tee .entry .flash) .digest).State Hash.Software :=
  (⟨⟨⟨⟨{ Cache.blankRam with contents := [0xbf, 0x61, 0x61, 0x5a] ++ Bytes.erased 60, changes := 1, attempts := 1 },
          ⟨0, 32⟩, 4, 8, []⟩, [0xbf, 0x61, 0x61, 0x5a] ++ Bytes.erased 4, 16, 4, 0⟩,
      ⟨.ofBytes (Bytes.erased 8) 4 8, ⟨0, 8⟩, 4, 0, []⟩⟩,
    ⟨0, ⟨some (.sha256, [])⟩, Bytes.erased 32, false⟩⟩ :
    Tee (Tee (Cache.OpenEntry Ram) (Writer Ram)) (DigestSink Hash.Software))

lemma fresh_entryFlashDigest : Kind.Fresh _ entryFlashDigest := by
  have hc : Cache.create Cache.blankRam Cache.halves = .ok ⟨Cache.blankRam, Cache.halves⟩ := rfl
  have ht : (⟨Cache.blankRam, Cache.halves⟩ : Cache Ram).Tidy :=
    (Cache.stores_empty (Cache.create_eq_ok hc).2 (fun _ => rfl) (by decide) (.inr (by decide)) (by decide)
      (by decide)).tidy
  exact ⟨⟨⟨⟨Cache.blankRam, Cache.halves⟩, _, 0, ⟨[0x61], rfl⟩, hc, ht, fun _ => rfl, rfl⟩,
    ⟨0, 8⟩, .ofBytes (Bytes.erased 8) 4 8, rfl, fun _ => rfl⟩, .ofEngines [.idle], ⟨[none]⟩, .sha256,
    Bytes.erased 32, rfl⟩

theorem rewrite_as_blank_entryFlashDigest :
    (∃ s', (SinkCall.rewrite [[1, 2], [3]] [[4]]).forM Sink.call entryFlashDigest = .ok () s' ∧
      ∃ t, Kind.refill [[1, 2], [3]] [[4]] _ (Kind.blank _ entryFlashDigest) = .ok () t ∧
        Kind.view _ t = Kind.view _ s') ∧
    ∃ s', (SinkCall.rewrite [[1, 2], [3]] [[4]]).forM Sink.call (Tee.first entryFlashDigest) = .ok () s' ∧
      ∃ t, ([[4]].map SinkCall.write).forM Sink.call
          (Kind.blank (.tee .entry .flash) (Tee.first entryFlashDigest)) = .ok () t ∧
        Kind.view (.tee .entry .flash) t = Kind.view (η := Hash.Software) _ s' := by
  have hm : ∀ a ∈ [([1, 2] : Bytes), [3]], a.length < 0x100000000 := by decide
  have h : answer ((SinkCall.rewrite [[1, 2], [3]] [[4]]).forM Sink.call entryFlashDigest) = .ok () := by
    decide +kernel
  have h' : answer ((SinkCall.rewrite [[1, 2], [3]] [[4]]).forM Sink.call (Tee.first entryFlashDigest)) = .ok () := by
    decide +kernel
  exact ⟨⟨_, answer_eq_ok h, (rewrite_as_blank _ fresh_entryFlashDigest _ _ (.inr hm) (answer_eq_ok h)).1⟩,
    ⟨_, answer_eq_ok h', (rewrite_as_blank (.tee .entry .flash) fresh_entryFlashDigest.1 _ _ (.inr hm)
      (answer_eq_ok h')).2 rfl⟩⟩

/-- A sink for the digest of "b" that was written "a", erased and written "b" finds another digest, though a
fresh one that is only written "b" finds the digest it is for. -/
theorem digest_not_erased :
    ∃ t s u : DigestSink Hash.Software,
      (∃ q, DigestPool.get .sha256 (Hash.digest .sha256 [0x62]) (.ofEngines [(.idle : Hash.Software)]) = .ok t q) ∧
      (SinkCall.rewrite [[0x61]] [[0x62]]).forM Sink.call t = .ok () s ∧
      ([[0x62]].map SinkCall.write).forM Sink.call t = .ok () u ∧
      answer (DigestSink.digestMatch s) = .ok false ∧ answer (DigestSink.digestMatch u) = .ok true := by
  refine ⟨⟨0, ⟨some (.sha256, [])⟩, Hash.digest .sha256 [0x62], false⟩,
    ⟨0, ⟨some (.sha256, [0x61, 0x62])⟩, Hash.digest .sha256 [0x62], false⟩,
    ⟨0, ⟨some (.sha256, [0x62])⟩, Hash.digest .sha256 [0x62], false⟩, ⟨⟨[none]⟩, ?_⟩, rfl, rfl, ?_, ?_⟩
  · have hl : (Hash.digest .sha256 [0x62]).length = Hash.Algorithm.size .sha256 := by decide +kernel
    simp only [DigestPool.get, hl, ne_eq, not_true_eq_false, if_false]
    rfl
  · decide +kernel
  · decide +kernel

end Sink

end Firmware
