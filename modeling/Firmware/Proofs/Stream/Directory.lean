import Firmware.Proofs.Storage.Layout
import Firmware.Proofs.Stream.Opening

namespace Firmware.Cache

open Flash Ram OpenEntry

section

variable {δ : Type} [Flash δ]

inductive Ending where
  | close
  | abandon
  | drop
deriving DecidableEq

def Ending.perform : Ending → EStateM Failure (OpenEntry δ) Unit
  | close => OpenEntry.close
  | abandon => OpenEntry.abandon
  | drop => pure ()

inductive Use where
  | clear (i : Nat)
  /-- An entry is opened, gets calls of its sink, and ends. It is dropped at the first call that fails. -/
  | entry (i : Nat) (name : Text) (calls : List SinkCall) (ending : Ending)

def onEntry (e : OpenEntry δ) (f : EStateM Failure (OpenEntry δ) Unit) :
    EStateM Failure (Cache δ) Unit :=
  onPart (fun _ => e) (fun c e => { c with device := e.writer.device }) f

def Use.perform : Use → EStateM Failure (Cache δ) Unit
  | clear i => Cache.clear i
  | entry i name calls ending => do
    onEntry (← openEntry i name) do
      calls.forM Sink.call
      ending.perform

structure Directory where
  find : Text → Option (Nat × Bytes)
  /-- What has been closed in each partition since it was cleared. -/
  closed : Nat → List (Text × Bytes)

def Directory.empty : Directory := ⟨fun _ => none, fun _ => []⟩

def Use.enter : Use → Directory → Directory
  | clear i, m => ⟨fun name => (m.find name).filter (·.1 ≠ i), fun j => if j = i then [] else m.closed j⟩
  | entry i name calls .close, m =>
    ⟨fun n => if n = name then some (i, payloadOf calls) else m.find n,
      fun j => if j = i then m.closed i ++ [(name, payloadOf calls)] else m.closed j⟩
  | entry .., m => m

def Use.step (s : Cache δ × Directory) (u : Use) : Cache δ × Directory :=
  match u.perform s.1 with
  | .ok () c => (c, u.enter s.2)
  | .error _ c => (c, s.2)

def Use.Unfinished (c : Cache δ) : Use → Prop
  | clear _ => False
  | entry i name calls ending =>
    ending = .close → ∃ f c', (entry i name calls .close).perform c = .error f c'

end

/-- The entries of a partition in which `es` have been closed, the padding among them. -/
def padded (block : Nat) (es : List (Text × Bytes)) : List (Text × Bytes) :=
  es.foldl (OpenEntry.finish block) []

structure Keeps (es : Nat → List (Text × Bytes)) (m : Text → Option (Nat × Bytes)) (c : Cache Ram) :
    Prop where
  suits : ∀ r ∈ c.partitions, Suits r c.device
  paddable : Paddable c.device
  apart : c.partitions.Pairwise Region.Apart
  holds : ∀ i r, c.partitions[i]? = some r → Holds r (es i) c.device
  found : ∀ i < c.partitions.length, ∀ name, name.isEmpty = false →
    (es i).lookup name = (m name).bind fun p => if p.1 = i then some p.2 else none
  entered : ∀ name i b, m name = some (i, b) →
    i < c.partitions.length ∧ name.isEmpty = false ∧ name.length ≤ maxName

variable {c : Cache Ram} {r : Region} {d : Ram} {name : Text} {i : Nat}

section

variable {es : Nat → List (Text × Bytes)} {m : Text → Option (Nat × Bytes)}

lemma Keeps.suits_at (h : Keeps es m c) (hr : c.partitions[i]? = some r) : Suits r c.device :=
  h.suits r (List.mem_of_getElem? hr)

lemma lt_of_getElem? (hr : c.partitions[i]? = some r) : i < c.partitions.length :=
  (List.getElem?_eq_some_iff.mp hr).1

lemma Keeps.lookup (h : Keeps es m c) (hr : c.partitions[i]? = some r) (name : Text) :
    lookup name (image r c.device) = (m name).bind fun p => if p.1 = i then some p.2 else none := by
  cases hn : name.isEmpty with
  | true =>
    have hm : m name = none := by
      cases hm : m name with
      | none => rfl
      | some p =>
        rw [(h.entered name p.1 p.2 hm).2.1] at hn
        cases hn
    rw [hm, Cache.lookup, hn]
    rfl
  | false => rw [(h.holds i r hr).lookup (h.suits_at hr) hn, h.found i (lt_of_getElem? hr) name hn]

lemma searchIn_run (name : Text) (a : Arena) {rs : List Region} (h : ∀ r ∈ rs, Suits r d) :
    searchIn d name rs a =
      match rs.findSome? fun r => lookup name (image r d) with
      | some b => .ok b a
      | none => .error .notFound a := by
  induction rs with
  | nil => rfl
  | cons r rs ih =>
    obtain ⟨hr, hrs⟩ := List.forall_mem_cons.mp h
    rw [searchIn, EStateM.bind_run, contents_run hr.checked, List.findSome?_cons]
    dsimp only
    cases Cache.lookup name (image r d) with
    | none => exact ih hrs
    | some b => rfl

lemma search_eq_ok {b : Bytes} (hs : ∀ r ∈ c.partitions, Suits r c.device) (hr : c.partitions[i]? = some r)
    (hb : Cache.lookup name (image r c.device) = some b)
    (ho : ∀ j s, c.partitions[j]? = some s → j ≠ i → Cache.lookup name (image s c.device) = none) (a : Arena) :
    c.search name a = .ok b a := by
  rw [Cache.search, searchIn_run name a hs]
  cases hf : c.partitions.findSome? fun r => Cache.lookup name (image r c.device) with
  | none =>
    have hn := List.findSome?_eq_none_iff.mp hf r (List.mem_of_getElem? hr)
    cases hb.symm.trans hn
  | some b' =>
    obtain ⟨s, hs, hb'⟩ := List.exists_of_findSome?_eq_some hf
    obtain ⟨j, hj⟩ := List.mem_iff_getElem?.mp hs
    by_cases hji : j = i
    · subst hji
      cases hr.symm.trans hj
      cases hb.symm.trans hb'
      rfl
    · cases hb'.symm.trans (ho j s hj hji)

lemma Keeps.search (h : Keeps es m c) (name : Text) (a : Arena) :
    c.search name a =
      match m name with
      | some p => .ok p.2 a
      | none => .error .notFound a := by
  cases hm : m name with
  | none =>
    have hn : c.partitions.findSome? (fun r => Cache.lookup name (image r c.device)) = none := by
      rw [List.findSome?_eq_none_iff]
      intro r hr
      obtain ⟨i, hi⟩ := List.mem_iff_getElem?.mp hr
      rw [h.lookup hi, hm]
      rfl
    rw [Cache.search, searchIn_run name a h.suits, hn]
  | some p =>
    have hp := List.getElem?_eq_getElem (h.entered name p.1 p.2 hm).1
    refine search_eq_ok h.suits hp ?_ (fun j s hs hj => ?_) a
    · rw [h.lookup hp, hm, Option.bind_some, if_pos rfl]
    · rw [h.lookup hs, hm, Option.bind_some, if_neg (Ne.symm hj)]

lemma Keeps.payload (h : Keeps es m c) (name : Text) : (c.payload name).isOk = (m name).isSome := by
  rw [Cache.payload, h.search]
  cases m name <;> rfl

lemma Paddable.of_alike {d' : Ram} (h : Paddable d) (ha : d.Alike d') : Paddable d' := by
  rw [Paddable] at h ⊢
  rwa [ha.eraseUnit]

lemma Keeps.changed (h : Keeps es m c) (hr : c.partitions[i]? = some r)
    (hd : Reach (·.Inside r) c.device d) {l : List (Text × Bytes)} (hl : Holds r l d)
    {m' : Text → Option (Nat × Bytes)}
    (hf : ∀ name, name.isEmpty = false →
      l.lookup name = (m' name).bind fun p => if p.1 = i then some p.2 else none)
    (ho : ∀ j ≠ i, ∀ name, ((m' name).bind fun p => if p.1 = j then some p.2 else none) =
      (m name).bind fun p => if p.1 = j then some p.2 else none)
    (he : ∀ name j b, m' name = some (j, b) →
      j < c.partitions.length ∧ name.isEmpty = false ∧ name.length ≤ maxName) :
    Keeps (fun j => if j = i then l else es j) m' { c with device := d } where
  suits s hs := (h.suits s hs).of_alike (alike_of_reach hd)
  paddable := h.paddable.of_alike (alike_of_reach hd)
  apart := h.apart
  holds j s hs := by
    by_cases hj : j = i
    · subst hj
      cases hr.symm.trans hs
      simpa only [↓reduceIte] using hl
    · simp only [hj, ↓reduceIte]
      exact (h.holds j s hs).of_apart (Region.Apart.of_getElem? h.apart hr hs (Ne.symm hj)) hd
  found j hj name hn := by
    by_cases hji : j = i
    · subst hji
      simpa only [↓reduceIte] using hf name hn
    · simp only [hji, ↓reduceIte]
      rw [h.found j hj name hn, ho j hji name]
  entered := he

lemma Keeps.unchanged (h : Keeps es m c) (hr : c.partitions[i]? = some r)
    (hd : Reach (·.Inside r) c.device d) (hl : Holds r (es i) d) :
    Keeps es m { c with device := d } := by
  have hk := h.changed hr hd hl (fun name hn => h.found i (lt_of_getElem? hr) name hn)
    (fun _ _ _ => rfl) h.entered
  have he : (fun j => if j = i then es i else es j) = es := by
    funext j
    split
    · rename_i hj
      rw [hj]
    · rfl
  rwa [he] at hk

lemma lookup_finish (hn : name.isEmpty = false) (block : Nat) (l : List (Text × Bytes)) (x : Text × Bytes) :
    (OpenEntry.finish block l x).lookup name = (l.lookup name).or (if name = x.1 then some x.2 else none) := by
  have hp (n : Nat) : (OpenEntry.paddingEntries n).lookup name = none := by
    rw [List.lookup_eq_none_iff]
    intro x hx
    rw [OpenEntry.mem_paddingEntries hx, bne_iff_ne]
    rintro rfl
    cases hn
  simp only [OpenEntry.finish]
  rw [List.lookup_append, List.lookup_cons]
  congr 1
  by_cases hx : name = x.1
  · simp only [hx, beq_self_eq_true, ↓reduceIte]
  · simp only [hx, beq_eq_false_iff_ne.mpr hx, ↓reduceIte]
    split
    · exact hp _
    · rfl

lemma Keeps.closed (h : Keeps es m c) (hr : c.partitions[i]? = some r) (hm : m name = none)
    (h0 : name.isEmpty = false) (hn : name.length ≤ maxName) (hd : Reach (·.Inside r) c.device d)
    {p : Bytes} {block : Nat} (hl : Holds r (OpenEntry.finish block (es i) (name, p)) d) :
    Keeps (fun j => if j = i then OpenEntry.finish block (es i) (name, p) else es j)
      (fun x => if x = name then some (i, p) else m x) { c with device := d } := by
  refine h.changed hr hd hl (fun x hx => ?_) (fun j hj x => ?_) fun x j b hx => ?_
  · rw [lookup_finish hx, h.found i (lt_of_getElem? hr) x hx]
    by_cases hxn : x = name
    · subst hxn
      simp only [hm, Option.bind_none, Option.none_or, ↓reduceIte, Option.bind_some]
    · simp only [hxn, ↓reduceIte, Option.or_none]
  · by_cases hxn : x = name
    · subst hxn
      simp only [hm, ↓reduceIte, Option.bind_some, Option.bind_none, Ne.symm hj]
    · simp only [hxn, ↓reduceIte]
  · by_cases hxn : x = name
    · subst hxn
      rw [if_pos rfl] at hx
      cases hx
      exact ⟨lt_of_getElem? hr, h0, hn⟩
    · rw [if_neg hxn] at hx
      exact h.entered x j b hx

lemma bind_filter (o : Option (Nat × Bytes)) (i j : Nat) :
    ((o.filter (·.1 ≠ i)).bind fun p => if p.1 = j then some p.2 else none) =
      if j = i then none else o.bind fun p => if p.1 = j then some p.2 else none := by
  cases o with
  | none => simp
  | some p =>
    by_cases hp : p.1 = i
    · have hf : (some p).filter (·.1 ≠ i) = none := by simp [hp]
      rw [hf, Option.bind_none, Option.bind_some, hp]
      by_cases hj : j = i
      · rw [if_pos hj]
      · rw [if_neg hj, if_neg (Ne.symm hj)]
    · have hf : (some p).filter (·.1 ≠ i) = some p := by simp [hp]
      rw [hf, Option.bind_some]
      by_cases hj : j = i
      · rw [if_pos hj, hj, if_neg hp]
      · rw [if_neg hj]

lemma Keeps.cleared (h : Keeps es m c) (hr : c.partitions[i]? = some r)
    (hd : Reach (·.Inside r) c.device d) (hi : image r d = Bytes.erased r.size) :
    Keeps (fun j => if j = i then [] else es j) (fun x => (m x).filter (·.1 ≠ i))
      { c with device := d } := by
  refine h.changed hr hd (holds_erased hi) (fun x _ => ?_) (fun j hj x => ?_) fun x j b hx => ?_
  · rw [bind_filter, if_pos rfl]
    rfl
  · rw [bind_filter, if_neg hj]
  · exact h.entered x j b (Option.eq_some_of_filter_eq_some hx)

lemma openEntry_cached (h0 : name.isEmpty = false) (hn : name.length ≤ maxName)
    (hp : (c.payload name).isOk = true) (i : Nat) : openEntry i name c = .error .invalid c := by
  simp [openEntry, h0, hn, hp, EStateM.bind_run]

lemma partition_eq_ok : c.partition i = .ok r ↔ c.partitions[i]? = some r := by
  simp only [partition]
  cases c.partitions[i]? <;> simp

/-- The name can be cached, is not yet, and there is such a partition. -/
def Allows (i : Nat) (name : Text) (c : Cache Ram) (r : Region) : Prop :=
  name.isEmpty = false ∧ name.length ≤ maxName ∧ (c.payload name).isOk = false ∧ c.partitions[i]? = some r

lemma openEntry_cases (i : Nat) (name : Text) (c : Cache Ram) :
    (∃ f, openEntry i name c = .error f c ∧ ∀ r, ¬ Allows i name c r) ∨ ∃ r, Allows i name c r := by
  cases h0 : name.isEmpty with
  | true =>
    refine .inl ⟨.invalid, by simp [openEntry, h0, EStateM.bind_run], fun r ha => ?_⟩
    rw [ha.1] at h0
    cases h0
  | false =>
    by_cases hn : name.length ≤ maxName
    · cases hp : (c.payload name).isOk with
      | true => exact .inl ⟨.invalid, openEntry_cached h0 hn hp i, fun r ha => by cases hp.symm.trans ha.2.2.1⟩
      | false =>
        cases hr : c.partitions[i]? with
        | none =>
          have hpt : c.partition i = .error .notFound := by
            simp only [partition]
            rw [hr]
          refine .inl ⟨.notFound, ?_, fun r ha => ?_⟩
          · simp [openEntry, h0, hn, hp, hpt, EStateM.bind_run]
          · cases hr.symm.trans ha.2.2.2
        | some r => exact .inr ⟨r, h0, hn, hp, hr⟩
    · refine .inl ⟨.size, by simp [openEntry, h0, hn, EStateM.bind_run], fun r ha => hn ha.2.1⟩

lemma Allows.opened {l : List (Text × Bytes)} (ha : Allows i name c r) (h : Holds r l c.device)
    (hs : Suits r c.device) (hp : Paddable c.device) : Opened r l name c (openEntry i name c) :=
  opened_openEntry h hs hp ha.1 ha.2.1 ha.2.2.1 (partition_eq_ok.mpr ha.2.2.2)

def Admits (i : Nat) (name : Text) (m : Text → Option (Nat × Bytes)) (c : Cache Ram) (r : Region) : Prop :=
  name.isEmpty = false ∧ name.length ≤ maxName ∧ m name = none ∧ c.partitions[i]? = some r

lemma Keeps.allows_iff (h : Keeps es m c) : Allows i name c r ↔ Admits i name m c r := by
  rw [Allows, Admits, h.payload, Option.isSome_eq_false_iff, Option.isNone_iff_eq_none]

lemma Keeps.openEntry_cases (h : Keeps es m c) (i : Nat) (name : Text) :
    (∃ f, openEntry i name c = .error f c ∧ ∀ r, ¬ Admits i name m c r) ∨
      ∃ r, Admits i name m c r ∧ Opened r (es i) name c (openEntry i name c) := by
  rcases Cache.openEntry_cases i name c with ⟨f, hf, hn⟩ | ⟨r, ha⟩
  · exact .inl ⟨f, hf, fun r hr => hn r (h.allows_iff.mpr hr)⟩
  · have hr := ha.2.2.2
    exact .inr ⟨r, h.allows_iff.mp ha, ha.opened (h.holds i r hr) (h.suits_at hr) h.paddable⟩

lemma Keeps.opens_iff (h : Keeps es m c) (i : Nat) (name : Text) :
    (∃ e c', openEntry i name c = .ok e c') ↔
      ∃ r, Admits i name m c r ∧ Room r (es i) name c.device.writeUnit := by
  rcases h.openEntry_cases i name with ⟨f, hf, hn⟩ | ⟨r, ha, ho⟩
  · rw [hf]
    exact ⟨fun ⟨_, _, he⟩ => (by cases he), fun ⟨r, ha, _⟩ => (hn r ha).elim⟩
  · revert ho
    cases openEntry i name c with
    | ok e c' =>
      rintro ⟨hroom, -, -⟩
      exact ⟨fun _ => ⟨r, ha, hroom⟩, fun _ => ⟨_, _, rfl⟩⟩
    | error f c' =>
      rintro (_ | ⟨hroom, -, -⟩)
      refine ⟨fun ⟨_, _, he⟩ => (by cases he), fun ⟨s, hs, hx⟩ => ?_⟩
      cases ha.2.2.2.symm.trans hs.2.2.2
      exact (hroom hx).elim

lemma leaves_perform {b : Bytes} {l : List (Text × Bytes)} {e : OpenEntry Ram}
    (h : Writing r l b name [] e) (hp : Paddable e.writer.device) (calls : List SinkCall)
    (ending : Ending) :
    Leaves r l e (fun e' => Holds r
        (if ending = .close then OpenEntry.finish e.writer.device.eraseUnit l (name, payloadOf calls) else l)
        e'.writer.device)
      ((do calls.forM Sink.call; ending.perform : EStateM Failure (OpenEntry Ram) Unit) e) := by
  refine (h.leaves_calls calls).bind fun e' hr hw => ?_
  cases ending with
  | close =>
    rw [← (alike_of_reach hr).eraseUnit]
    exact (hw.leaves_close (hp.of_alike (alike_of_reach hr))).mono fun _ ⟨_, hb⟩ => hb.holds
  | abandon => exact hw.leaves_abandon
  | drop => exact .ok .refl hw.holds_whole

lemma clear_run (hr : c.partitions[i]? = some r) (hs : Suits r c.device) :
    ∃ d, clear i c = .ok () { c with device := d } ∧ Reach (·.Inside r) c.device d ∧
      image r d = Bytes.erased r.size := by
  obtain ⟨d, hd, hi, hre⟩ := hs.erase
  refine ⟨d, ?_, hre, hi⟩
  simp only [clear, EStateM.bind_run, EStateM.get_run, EStateM.lift_run, partition_eq_ok.mpr hr,
    eraseRange, onDevice, onPart, EStateM.adaptExcept_run, hd]

end

structure Use.Stays (c c' : Cache Ram) : Prop where
  partitions : c'.partitions = c.partitions
  device : c.device.Alike c'.device

def Stores (m : Directory) (c : Cache Ram) : Prop :=
  Keeps (fun i => padded c.device.eraseUnit (m.closed i)) m.find c

variable {m : Directory}

lemma padded_append (block : Nat) (l : List (Text × Bytes)) (x : Text × Bytes) :
    padded block (l ++ [x]) = OpenEntry.finish block (padded block l) x := by
  rw [padded, List.foldl_append]
  rfl

lemma padded_ite (block : Nat) (l : List (Text × Bytes)) (f : Nat → List (Text × Bytes)) :
    (fun j => padded block (if j = i then l else f j)) =
      fun j => if j = i then padded block l else padded block (f j) := by
  funext j
  split <;> rfl

lemma Stores.unchanged (h : Stores m c) (hr : c.partitions[i]? = some r)
    (hd : Reach (·.Inside r) c.device d) (hl : Holds r (padded c.device.eraseUnit (m.closed i)) d) :
    Stores m { c with device := d } := by
  simp only [Stores]
  rw [(alike_of_reach hd).eraseUnit]
  exact Keeps.unchanged h hr hd hl

lemma Stores.closed (h : Stores m c) (hr : c.partitions[i]? = some r) (hm : m.find name = none)
    (h0 : name.isEmpty = false) (hn : name.length ≤ maxName) (hd : Reach (·.Inside r) c.device d)
    {calls : List SinkCall} (hl : Holds r (OpenEntry.finish c.device.eraseUnit
      (padded c.device.eraseUnit (m.closed i)) (name, payloadOf calls)) d) :
    Stores ((Use.entry i name calls .close).enter m) { c with device := d } := by
  have hk := Keeps.closed h hr hm h0 hn hd hl
  simp only [Stores]
  rw [(alike_of_reach hd).eraseUnit, Use.enter]
  dsimp only
  rwa [padded_ite, padded_append]

lemma Stores.cleared (h : Stores m c) (hr : c.partitions[i]? = some r)
    (hd : Reach (·.Inside r) c.device d) (hi : image r d = Bytes.erased r.size) :
    Stores ((Use.clear i).enter m) { c with device := d } := by
  have hk := Keeps.cleared h hr hd hi
  simp only [Stores]
  rw [(alike_of_reach hd).eraseUnit, Use.enter]
  dsimp only
  rwa [padded_ite]

lemma Use.Stays.refl (c : Cache Ram) : Use.Stays c c := ⟨rfl, refl_of Alike c.device⟩

lemma Use.Stays.of_reach (hd : Reach (·.Inside r) c.device d) : Use.Stays c { c with device := d } :=
  ⟨rfl, alike_of_reach hd⟩

lemma Stores.step_clear (h : Stores m c) (i : Nat) :
    Stores ((Use.clear i).step (c, m)).2 ((Use.clear i).step (c, m)).1 ∧
      Use.Stays c ((Use.clear i).step (c, m)).1 := by
  rw [Use.step]
  dsimp only
  cases hr : c.partitions[i]? with
  | none =>
    have hpt : c.partition i = .error .notFound := by
      simp only [partition]
      rw [hr]
    have hrun : (Use.clear i).perform c = .error .notFound c := by
      simp [Use.perform, Cache.clear, EStateM.bind_run, hpt]
    rw [hrun]
    exact ⟨h, .refl c⟩
  | some r =>
    obtain ⟨d, hd, hre, hi⟩ := clear_run hr (h.suits_at hr)
    have hrun : (Use.clear i).perform c = .ok () { c with device := d } := hd
    rw [hrun]
    exact ⟨h.cleared hr hre hi, .of_reach hre⟩

lemma Stores.step_entry (h : Stores m c) (i : Nat) (name : Text) (calls : List SinkCall) (ending : Ending) :
    Stores ((Use.entry i name calls ending).step (c, m)).2 ((Use.entry i name calls ending).step (c, m)).1 ∧
      Use.Stays c ((Use.entry i name calls ending).step (c, m)).1 := by
  have hrun : (Use.entry i name calls ending).perform c =
      (openEntry i name >>= fun e => onEntry e (do calls.forM Sink.call; ending.perform)) c := rfl
  rw [EStateM.bind_run] at hrun
  rw [Use.step]
  dsimp only
  rw [hrun]
  rcases h.openEntry_cases i name with ⟨f, hf, -⟩ | ⟨r, ha, ho⟩
  · rw [hf]
    exact ⟨h, .refl c⟩
  · have hr := ha.2.2.2
    revert ho
    cases openEntry i name c with
    | error f c' =>
      rintro (_ | ⟨-, hh, hre⟩)
      exact ⟨h.unchanged hr hre hh, .of_reach hre⟩
    | ok e c' =>
      rintro ⟨-, hw, hre⟩
      have hl := leaves_perform hw (h.paddable.of_alike (alike_of_reach hre)) calls ending
      rw [(alike_of_reach hre).eraseUnit] at hl
      dsimp only [onEntry, onPart]
      revert hl
      cases (do calls.forM Sink.call; ending.perform : EStateM Failure (OpenEntry Ram) Unit) e with
      | error f e' =>
        rintro (_ | ⟨hre', hh⟩)
        have hre' := hre.trans hre'
        exact ⟨h.unchanged hr hre' hh, .of_reach hre'⟩
      | ok v e' =>
        rintro (⟨hre', hh⟩ | _)
        have hre' := hre.trans hre'
        refine ⟨?_, .of_reach hre'⟩
        cases ending with
        | close => exact h.closed hr ha.2.2.1 ha.1 ha.2.1 hre' hh
        | abandon => exact h.unchanged hr hre' hh
        | drop => exact h.unchanged hr hre' hh

lemma Stores.step (h : Stores m c) (u : Use) :
    Stores (u.step (c, m)).2 (u.step (c, m)).1 ∧ Use.Stays c (u.step (c, m)).1 := by
  cases u with
  | clear i => exact h.step_clear i
  | entry i name calls ending => exact h.step_entry i name calls ending

lemma Stores.run {s : Cache Ram × Directory} (h : Stores s.2 s.1) (us : List Use) :
    Stores (us.foldl Use.step s).2 (us.foldl Use.step s).1 := by
  induction us generalizing s with
  | nil => exact h
  | cons u us ih => exact ih (h.step u).1

structure IsMap (m : Directory) (c : Cache Ram) : Prop where
  search : ∀ name a, answer (c.search name a) =
    match m.find name with
    | some p => .ok p.2
    | none => .error .notFound
  cached : ∀ name i, (m.find name).isSome → openEntry i name c = .error .invalid c
  /-- Only what has been closed can keep an entry from being opened. -/
  opens : ∀ i name, (∃ e c', openEntry i name c = .ok e c') ↔
    ∃ r, Admits i name m.find c r ∧
      Room r (padded c.device.eraseUnit (m.closed i)) name c.device.writeUnit
  /-- An unfinished entry is not seen, and neither drops an entry nor keeps one from being opened. -/
  unfinished : ∀ u : Use, u.Unfinished c →
    (∀ name a, answer ((stateAfter (u.perform c)).search name a) = answer (c.search name a)) ∧
      ∀ i name, (∃ e c', openEntry i name (stateAfter (u.perform c)) = .ok e c') ↔
        ∃ e c', openEntry i name c = .ok e c'

lemma Stores.search (h : Stores m c) (name : Text) (a : Arena) : answer (c.search name a) =
    match m.find name with
    | some p => .ok p.2
    | none => .error .notFound := by
  rw [Keeps.search h]
  cases m.find name <;> rfl

lemma Stores.of_unfinished (h : Stores m c) {u : Use} (hu : u.Unfinished c) :
    Stores m (stateAfter (u.perform c)) ∧ Use.Stays c (stateAfter (u.perform c)) := by
  have hs := h.step u
  have he : u.step (c, m) = (stateAfter (u.perform c), m) := by
    cases u with
    | clear i => exact hu.elim
    | entry i name calls ending =>
      cases ending with
      | close =>
        obtain ⟨f, c', hx⟩ := hu rfl
        simp only [Use.step, hx, stateAfter_error]
      | abandon =>
        rw [Use.step]
        dsimp only
        cases (Use.entry i name calls .abandon).perform c <;> rfl
      | drop =>
        rw [Use.step]
        dsimp only
        cases (Use.entry i name calls .drop).perform c <;> rfl
  rwa [he] at hs

lemma Stores.isMap (h : Stores m c) : IsMap m c where
  search := h.search
  cached name i hm := by
    obtain ⟨p, hp⟩ := Option.isSome_iff_exists.mp hm
    obtain ⟨-, h0, hn⟩ := h.entered name p.1 p.2 hp
    exact openEntry_cached h0 hn ((h.payload name).trans hm) i
  opens := h.opens_iff
  unfinished u hu := by
    obtain ⟨hs, hp, ha⟩ := h.of_unfinished hu
    refine ⟨fun name a => by rw [hs.search, h.search], fun i name => ?_⟩
    rw [hs.opens_iff, h.opens_iff, ha.writeUnit, ha.eraseUnit]
    simp only [Admits, hp]

lemma create_eq_ok {rs : List Region} (h : create d rs = .ok c) :
    c = ⟨d, rs⟩ ∧ ∀ r ∈ rs, Storage.Record.Checked r d := by
  have hc (rs : List Region) (u : PUnit)
      (hf : (rs.forM fun r => discard (Storage.Record.checkRegion r d)) = Except.ok u) :
      ∀ r ∈ rs, Storage.Record.Checked r d := by
    induction rs with
    | nil => exact fun r hr => (List.not_mem_nil hr).elim
    | cons r rs ih =>
      obtain ⟨v, hr, hrs⟩ := Except.bind_eq_ok.mp hf
      obtain ⟨n, hn⟩ := Except.discard_eq_ok.mp hr
      exact List.forall_mem_cons.mpr ⟨(Storage.Record.checkRegion_eq_ok.mp hn).2, ih hrs⟩
  obtain ⟨u, hf, hc'⟩ := Except.bind_eq_ok.mp h
  cases hc'
  exact ⟨rfl, hc rs u hf⟩

lemma stores_empty {rs : List Region} (hc : ∀ r ∈ rs, Storage.Record.Checked r d)
    (hf : ∀ k, d.faulty k = false) (hu : d.writeUnit ∣ d.eraseUnit) (hb : Paddable d)
    (ho : rs.Pairwise fun r s => r.overlaps s = false) (he : ∀ r ∈ rs, image r d = Bytes.erased r.size) :
    Stores .empty ⟨d, rs⟩ where
  suits r hr := ⟨hc r hr, hu, hf⟩
  paddable := hb
  apart := ho.imp_of_mem fun hr hs hrs => (hc _ hr).apart (hc _ hs) hrs
  holds i r hr := holds_erased (he r (List.mem_of_getElem? hr))
  found i _ name _ := rfl
  entered name i b h := by cases h

/-- However its entries are written and broken off, a cache is the map of what was closed. -/
theorem isMap_run {d : Ram} {rs : List Region} {c : Cache Ram} (h : create d rs = .ok c)
    (hf : ∀ k, d.faulty k = false) (hu : d.writeUnit ∣ d.eraseUnit)
    (hb : d.eraseUnit = 1 ∨ 5 ≤ d.eraseUnit) (ho : rs.Pairwise fun r s => r.overlaps s = false)
    (he : ∀ r ∈ rs, image r d = Bytes.erased r.size) (us : List Use) :
    IsMap (us.foldl Use.step (c, .empty)).2 (us.foldl Use.step (c, .empty)).1 := by
  obtain ⟨rfl, hc⟩ := create_eq_ok h
  exact (Stores.run (s := (⟨d, rs⟩, .empty)) (stores_empty hc hf hu hb ho he) us).isMap

def halves : List Region := [⟨0, 32⟩, ⟨32, 32⟩]

def blankRam : Ram := .ofBytes (Bytes.erased 64) 4 16

def restarted (name : Text) : List Use :=
  [.entry 0 name [.write [7]] .drop, .entry 1 name [.write [1, 2], .erase, .write [3]] .close]

theorem isMap_run_restarted :
    create blankRam halves = .ok ⟨blankRam, halves⟩ ∧ (∀ k, blankRam.faulty k = false) ∧
      (halves.Pairwise fun r s => r.overlaps s = false) ∧
      (∀ r ∈ halves, image r blankRam = Bytes.erased r.size) ∧
      ((restarted ⟨[0x61], rfl⟩).foldl Use.step (⟨blankRam, halves⟩, .empty)).2.find ⟨[0x61], rfl⟩ =
        some (1, [3]) ∧
      IsMap ((restarted ⟨[0x61], rfl⟩).foldl Use.step (⟨blankRam, halves⟩, .empty)).2
        ((restarted ⟨[0x61], rfl⟩).foldl Use.step (⟨blankRam, halves⟩, .empty)).1 := by
  have hc : create blankRam halves = .ok ⟨blankRam, halves⟩ := rfl
  have hf (k : Nat) : blankRam.faulty k = false := rfl
  have ho : halves.Pairwise fun r s => r.overlaps s = false := by decide
  have he : ∀ r ∈ halves, image r blankRam = Bytes.erased r.size := by decide
  have hm : ((restarted ⟨[0x61], rfl⟩).foldl Use.step (⟨blankRam, halves⟩, .empty)).2.find
      ⟨[0x61], rfl⟩ = some (1, [3]) := by decide +kernel
  exact ⟨hc, hf, ho, he, hm, isMap_run hc hf (by decide) (.inr (by decide)) ho he _⟩

end Firmware.Cache
