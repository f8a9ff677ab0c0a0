import Firmware.Proofs.Stream.Foreign
import Firmware.Stream.Tier

/-!
Sources say it when a call on the sink was refused, and say that they do not have a payload before they call the
sink. The exception is a `notFound` of the sink or of the transport, which a source passes on as its own. Without
it, a search through tiers takes a payload from one of them.
-/

namespace Firmware

open Manifest

namespace Happening

def refused : Happening → Bool
  | call _ (.error _) => true
  | _ => false

/-- Something was not found that has nothing to do with whether a source has a payload. -/
def misses : Happening → Bool
  | call (.write _) (.error .notFound) => true
  | note (.receive _ _ (.error .notFound)) => true
  | note (.status _ _ _ (.error .notFound)) => true
  | _ => false

end Happening

def Silent (es : List Happening) : Prop := ∀ e ∈ es, e.ofSink = false

def Clean (es : List Happening) : Prop := ∀ e ∈ es, e.refused = false

section Courses

variable {es es' : List Happening} {n : Note}

@[simp] lemma silent_nil : Silent [] := List.forall_mem_nil _

@[simp] lemma clean_nil : Clean [] := List.forall_mem_nil _

@[simp] lemma silent_note : Silent (.note n :: es) ↔ Silent es := by simp [Silent, Happening.ofSink]

@[simp] lemma clean_note : Clean (.note n :: es) ↔ Clean es := by simp [Clean, Happening.refused]

@[simp] lemma silent_append : Silent (es ++ es') ↔ Silent es ∧ Silent es' := by
  simp only [Silent, List.forall_mem_append]

@[simp] lemma clean_append : Clean (es ++ es') ↔ Clean es ∧ Clean es' := by
  simp only [Clean, List.forall_mem_append]

@[simp] lemma not_silent_call {c : SinkCall} {r : Except Failure Unit} : ¬ Silent (.call c r :: es) := by
  simp [Silent, Happening.ofSink]

@[simp] lemma clean_call {c : SinkCall} {u : Unit} : Clean (.call c (.ok u) :: es) ↔ Clean es := by
  simp [Clean, Happening.refused]

lemma Silent.clean (h : Silent es) : Clean es := by
  intro e he
  have hs := h e he
  cases e with
  | note n => rfl
  | call c r => cases hs

end Courses

/-- Only the last call was refused, if any, and then the stream fails. -/
inductive Heard {α : Type} (es : List Happening) (r : Except Failure α) : Prop
  | clean : Clean es → Heard es r
  | refused (before : List Happening) {after : List Happening} {c : SinkCall} {e e' : Failure} :
      es = before ++ .call c (.error e) :: after → Clean before → Silent after → r = .error e' →
      (e' = .notFound → e = .notFound) → Heard es r

def Misled (es : List Happening) : Prop := ∃ e ∈ es.getLast?, e.misses = true

/-- A stream heeds the sink, and says that there is no payload before it calls it, unless it is misled. -/
structure Candid (es : List Happening) (r : Except Failure Unit) : Prop where
  heard : Heard es r
  missing : r = .error .notFound → Silent es ∨ Misled es

lemma candid_of_silent {es : List Happening} {r : Except Failure Unit} (h : Silent es) : Candid es r :=
  ⟨.clean h.clean, fun _ => .inl h⟩

section Courses

variable {α β : Type} {es es' : List Happening} {r : Except Failure α}

lemma Misled.append (h : Misled es') : Misled (es ++ es') := by
  obtain ⟨e, he, hm⟩ := h
  refine ⟨e, ?_, hm⟩
  rw [List.getLast?_append, he]
  rfl

lemma Heard.append (h : Clean es) (h' : Heard es' r) : Heard (es ++ es') r := by
  cases h' with
  | clean h' => exact .clean (clean_append.mpr ⟨h, h'⟩)
  | refused _ he hb ha hr hn =>
    exact .refused _ (by rw [he, List.append_assoc]) (clean_append.mpr ⟨h, hb⟩) ha hr hn

lemma Heard.clean_of_ok {a : α} (h : Heard es (.ok a : Except Failure α)) : Clean es := by
  cases h with
  | clean h => exact h
  | refused _ _ _ _ hr => cases hr

lemma Heard.then_fails {e e' : Failure} (h : Heard es (.error e : Except Failure α)) (hs : Silent es')
    (he : e' = .notFound → e = .notFound) : Heard (es ++ es') (.error e' : Except Failure β) := by
  cases h with
  | clean h => exact .clean (clean_append.mpr ⟨h, hs.clean⟩)
  | refused _ hx hb ha hr hn =>
    cases hr
    exact .refused _ (by rw [hx, List.append_assoc, List.cons_append]) hb (silent_append.mpr ⟨ha, hs⟩) rfl
      fun h => hn (he h)

end Courses

namespace Feed

variable {α β ω : Type} (perform : SinkCall → EStateM Failure ω Unit)

/-- A feed takes a course in `Q`, whatever the state of the sink. -/
structure Always (f : Feed α) (Q : List Happening → α → Prop) : Prop where
  course : ∀ w, Q (f.transcript perform w) (f.outcome perform w).1

variable {perform} {f : Feed α} {Q R : List Happening → α → Prop} {P : List Happening → β → Prop}

lemma always_pure {a : α} (h : Q [] a) : (pure a : Feed α).Always perform Q := ⟨fun _ => h⟩

lemma always_note {n : Note} (h : f.Always perform fun es a => Q (.note n :: es) a) :
    (note n f).Always perform Q := ⟨h.course⟩

lemma always_call {c : SinkCall} {g : Except Failure Unit → Feed α}
    (h : ∀ r, (g r).Always perform fun es a => Q (.call c r :: es) a) : (call c g).Always perform Q := by
  refine ⟨fun w => ?_⟩
  rw [transcript, outcome, run]
  cases perform c w with
  | ok u v => exact (h (.ok u)).course v
  | error e v => exact (h (.error e)).course v

lemma Always.mono (h : f.Always perform R) (hq : ∀ es a, R es a → Q es a) : f.Always perform Q :=
  ⟨fun w => hq _ _ (h.course w)⟩

lemma Always.bind {g : α → Feed β} (hf : f.Always perform R)
    (hg : ∀ es a, R es a → (g a).Always perform fun es' b => P (es ++ es') b) : (f >>= g).Always perform P := by
  refine ⟨fun w => ?_⟩
  obtain ⟨es, a, v, hp⟩ := plays_some perform f w
  have hr := hf.course w
  rw [hp.transcript, hp.outcome] at hr
  have hb := hp.bind ⟨rfl, rfl⟩ (g := g)
  rw [hb.transcript, hb.outcome]
  exact (hg es a hr).course v

lemma Always.returns {g : α → β} (hf : f.Always perform fun es a => P es (g a)) :
    (f >>= fun a => pure (g a)).Always perform P :=
  hf.bind fun es a h => always_pure (by rwa [List.append_nil])

lemma always_ask (c : SinkCall) : (ask c).Always perform fun es r => Heard es r := by
  refine always_call fun r => always_pure ?_
  cases r with
  | ok u => exact .clean (by simp)
  | error e => exact .refused [] rfl clean_nil silent_nil rfl id

end Feed

open Feed

namespace Requestor

variable {θ ω : Type} {perform : SinkCall → EStateM Failure ω Unit} {pending : Bool} {es es' : List Happening}

lemma always_writeChunk (c : Chunk) (position : Nat) :
    (writeChunk c position).Always perform fun es r => Heard es r := by
  simp only [writeChunk]
  split
  · exact always_pure (.clean clean_nil)
  split
  · exact always_pure (.clean clean_nil)
  have hp : (pure (.ok ()) : Feed (Except Failure Unit)).Always perform fun es r => Heard es r :=
    always_pure (.clean clean_nil)
  split
  on_goal 1 => refine hp.bind fun es r hr => ?_
  on_goal 2 => refine (always_ask _).bind fun es r hr => ?_
  all_goals
    cases r with
    | error e => exact always_pure (hr.then_fails silent_nil id)
    | ok u =>
      have hc : Clean es := hr.clean_of_ok
      dsimp only
      split
      · exact always_pure (.clean (by simpa using hc))
      · refine (always_ask _).bind fun es' r hr' => ?_
        cases r with
        | error e => exact always_pure ((hr'.then_fails silent_nil id).append hc)
        | ok u => exact always_pure (.clean (by simpa using ⟨hc, hr'.clean_of_ok⟩))

/-- How far a stream has got, which was `pending` before. It has not called the sink while it still is. -/
inductive Gets (pending : Bool) (es : List Happening) : Outcome × Progress θ → Prop
  | onward {p : Progress θ} : Clean es → (p.pending = true → pending = true ∧ Silent es) → Gets pending es (none, p)
  | ended {r : Except Failure Unit} {p : Progress θ} : Heard es r →
      (r = .error .notFound → pending = true ∧ Silent es ∨ Misled es) → Gets pending es (some r, p)

lemma Gets.after {x : Outcome × Progress θ} {middle : Bool} (hc : Clean es)
    (hs : middle = true → pending = true ∧ Silent es) (h : Gets middle es' x) : Gets pending (es ++ es') x := by
  cases h with
  | onward hc' hp =>
    refine .onward (clean_append.mpr ⟨hc, hc'⟩) fun h => ?_
    obtain ⟨hm, hs'⟩ := hp h
    obtain ⟨hp, hs⟩ := hs hm
    exact ⟨hp, silent_append.mpr ⟨hs, hs'⟩⟩
  | ended hh hn =>
    refine .ended (hh.append hc) fun h => ?_
    rcases hn h with ⟨hm, hs'⟩ | hm
    · obtain ⟨hp, hs⟩ := hs hm
      exact .inl ⟨hp, silent_append.mpr ⟨hs, hs'⟩⟩
    · exact .inr hm.append

lemma Gets.missed {e : Failure} {n : Note} {p : Progress θ} (h : e = .notFound → (Happening.note n).misses = true) :
    Gets pending [.note n] (some (.error e), p) :=
  .ended (.clean (by simp)) fun he => .inr ⟨.note n, rfl, h (by simpa using he)⟩

variable [Transport θ]

lemma always_report (session id : UInt32) (s : ChunkStatus) (last : Bool) (p : Progress θ) :
    (report session id s last p).Always perform fun es x => Silent es ∧ Gets p.pending es x := by
  refine always_note ?_
  cases answer (Transport.status session id s p.transport) with
  | error e =>
    refine always_pure ⟨by simp, .missed ?_⟩
    rintro rfl
    rfl
  | ok u =>
    refine always_pure ⟨by simp, ?_⟩
    split
    · exact .ended (.clean (by simp)) fun h => by cases h
    · exact .onward (by simp) fun h => ⟨h, by simp⟩

lemma sinkFailure_ne (e : Failure) : sinkFailure e ≠ .notFound := by
  cases e <;> simp [sinkFailure]

lemma always_handle (session : UInt32) (c : Chunk) (p : Progress θ) :
    (handle session c p).Always perform (Gets p.pending) := by
  simp only [handle]
  split
  · exact (always_report ..).mono fun _ _ h => h.2
  · refine (always_writeChunk ..).bind fun es r hr => ?_
    cases r with
    | ok n =>
      refine (always_report ..).mono fun es' x h => ?_
      exact h.2.after hr.clean_of_ok fun h => by cases h
    | error e =>
      refine (always_report ..).bind fun es' x h => ?_
      refine always_pure (.ended ?_ fun hn => ?_)
      · rw [List.append_nil]
        exact hr.then_fails h.1 fun hn => absurd hn (sinkFailure_ne e)
      · exact absurd (Except.error.inj hn) (sinkFailure_ne e)

lemma always_requestIfDue (uri : Text) (session : UInt32) (period now wait : Nat) (p : Progress θ) :
    (requestIfDue uri session period now wait p).Always perform fun es x => Silent es ∧ x.2.pending = p.pending ∧
      ∀ e, x.1 = .error e → p.pending = true := by
  simp only [requestIfDue]
  split
  · exact always_pure ⟨silent_nil, rfl, fun e h => by cases h⟩
  · rename_i hp
    have hp : p.pending = true := by simpa using hp
    split
    · refine always_note ?_
      cases answer (Transport.request uri session p.transport) with
      | error e => exact always_pure ⟨by simp, rfl, fun _ _ => hp⟩
      | ok u => exact always_pure ⟨by simp, rfl, fun _ _ => hp⟩
    · exact always_pure ⟨silent_nil, rfl, fun _ _ => hp⟩

lemma always_step (uri : Text) (session : UInt32) (o : StreamOptions) (p : Progress θ) :
    (step uri session o p).Always perform (Gets p.pending) := by
  simp only [step]
  split
  · exact always_pure (.ended (.clean clean_nil) fun h => by cases h)
  refine (always_requestIfDue ..).bind fun es x hx => ?_
  obtain ⟨r, q⟩ := x
  obtain ⟨hs, hq, he⟩ := hx
  dsimp only at hq he
  cases r with
  | error e =>
    refine always_pure (.ended ?_ fun _ => .inl ⟨he e rfl, ?_⟩)
    · exact .clean (by simpa using hs.clean)
    · simpa using hs
  | ok wait =>
    have hg {es' : List Happening} {y : Outcome × Progress θ} (h : Gets q.pending es' y) :
        Gets p.pending (es ++ es') y := h.after hs.clean fun h => ⟨hq ▸ h, hs⟩
    refine always_note ?_
    cases answer (Transport.receive wait q.transport) with
    | error e =>
      refine always_pure (hg (.missed ?_))
      rintro rfl
      rfl
    | ok c =>
      cases c with
      | none => exact always_pure (hg (.onward (by simp) fun h => ⟨h, by simp⟩))
      | some c =>
        refine (always_handle session c _).mono fun es' y h => hg ?_
        exact h.after (clean_note.mpr clean_nil) fun h => ⟨h, by simp⟩

lemma always_steps (uri : Text) (session : UInt32) (o : StreamOptions) (n : Nat) (p : Progress θ) :
    (steps uri session o n p).Always perform (Gets p.pending) := by
  induction n generalizing p with
  | zero => exact always_pure (.onward clean_nil fun h => ⟨h, silent_nil⟩)
  | succ n ih =>
    refine (always_step uri session o p).bind fun es x hx => ?_
    cases hx with
    | onward hc hp => exact (ih _).mono fun es' y h => h.after hc hp
    | ended hh hn =>
      refine always_pure ?_
      rw [List.append_nil]
      exact .ended hh hn

lemma always_streamImage (n : Nat) (uri : Text) (o : StreamOptions) (q : Requestor θ) :
    (streamImage n uri o q).Always perform fun es x => Candid es (x.1.getD (.error .timeout)) := by
  simp only [streamImage]
  split
  · exact always_pure (candid_of_silent silent_nil)
  split
  · exact always_pure (candid_of_silent silent_nil)
  refine (always_steps ..).bind fun es x hx => ?_
  cases hx with
  | onward hc _ =>
    refine always_pure ⟨.clean ?_, fun h => by cases h⟩
    simpa using hc
  | ended hh hn =>
    refine always_pure ?_
    rw [List.append_nil]
    exact ⟨hh, fun h => (hn h).imp_left And.right⟩

end Requestor

/-- Sources whose streams are candid with every sink. -/
class Frank (τ : Type) [Source τ] : Prop where
  candid : ∀ {ω : Type} (perform : SinkCall → EStateM Failure ω Unit) (t : τ) uri o,
    (Source.stream t uri o).Always perform fun es x => Candid es x.1

lemma always_writing {ω ρ : Type} {perform : SinkCall → EStateM Failure ω Unit} (data : Bytes) (t : ρ) :
    (do return (← ask (.write data), t) : Feed (Except Failure Unit × ρ)).Always perform
      fun es x => Candid es x.1 := by
  refine always_call fun r => always_pure ?_
  cases r with
  | ok u => exact ⟨.clean (by simp), fun h => by cases h⟩
  | error e =>
    refine ⟨.refused [] rfl clean_nil silent_nil rfl id, ?_⟩
    rintro ⟨⟩
    exact .inr ⟨_, rfl, rfl⟩

instance : Frank Payloads where
  candid perform p uri o := by
    simp only [Source.stream]
    cases p.items.lookup uri with
    | none => exact always_pure (candid_of_silent silent_nil)
    | some data => exact always_writing data p

instance {δ : Type} [Flash δ] : Frank (Cache δ) where
  candid perform c uri o := by
    simp only [Source.stream]
    cases c.payload uri with
    | error e => exact always_pure (candid_of_silent silent_nil)
    | ok data => exact always_writing data c

instance {θ : Type} [Transport θ] : Frank (Requestor θ) where
  candid _ q uri o :=
    (Requestor.always_streamImage q.patience uri o q).returns
      (g := fun x : Option (Except Failure Unit) × Requestor θ => (x.1.getD (.error .timeout), x.2))

instance {δ θ : Type} [Flash δ] [Transport θ] : Frank (Tier δ θ) where
  candid perform t uri o := by
    have hs {σ : Type} [Source σ] [Frank σ] (wrap : σ → Tier δ θ) (s : σ) :
        (Tier.streaming wrap s uri o).Always perform fun es x => Candid es x.1 :=
      (Frank.candid perform s uri o).returns (g := fun x : Except Failure Unit × σ => (x.1, wrap x.2))
    cases t with
    | payloads p => exact hs _ p
    | cache c => exact hs _ c
    | peer q => exact hs _ q

section Search

variable {ω : Type} (perform : SinkCall → EStateM Failure ω Unit)

/-- A stream ends without its payload, and without a call on the sink. -/
structure Declines (f : Feed (Except Failure Unit)) (w : ω) : Prop where
  missing : (f.outcome perform w).1 = .error .notFound
  silent : Silent (f.transcript perform w)

/-- A search does to the sink what a stream does, and ends as it does. -/
structure Relays (f search : Feed (Except Failure Unit)) (w : ω) : Prop where
  outcome : search.outcome perform w = f.outcome perform w
  calls : (search.transcript perform w).filter (·.ofSink) = (f.transcript perform w).filter (·.ofSink)

/-- A search comes to the first stream that does not decline, and relays it, unless that one was misled. -/
inductive Searches (offers : List (Feed (Except Failure Unit))) (search : Feed (Except Failure Unit)) (w : ω) : Prop
  | nowhere : (∀ f ∈ offers, Declines perform f w) → Declines perform search w → Searches offers search w
  | found (before : List (Feed (Except Failure Unit))) {after : List (Feed (Except Failure Unit))}
      {f : Feed (Except Failure Unit)} :
      offers = before ++ f :: after → (∀ g ∈ before, Declines perform g w) → ¬ Declines perform f w →
      f.transcript perform w <:+: search.transcript perform w →
      ((f.outcome perform w).1 ≠ .error .notFound ∧ Relays perform f search w ∨
        (f.outcome perform w).1 = .error .notFound ∧ Misled (f.transcript perform w)) →
      Searches offers search w

variable {perform} {f g search : Feed (Except Failure Unit)} {offers : List (Feed (Except Failure Unit))} {w v : ω}
  {es p : List Happening} {r : Except Failure Unit}

lemma Feed.Plays.sink_of_silent {α : Type} {f : Feed α} {a : α} (h : f.Plays perform w es a v) (hs : Silent es) :
    v = w := by
  obtain ⟨rfl, ho⟩ := h
  induction f with
  | done b => exact (congrArg Prod.snd ho).symm
  | note n next ih => exact ih ho (silent_note.mp hs)
  | call c next ih =>
    rw [Feed.transcript] at hs
    revert hs
    cases perform c w <;> exact fun hs => absurd hs not_silent_call

lemma Feed.Plays.map {α β : Type} {f : Feed α} {a : α} (h : f.Plays perform w es a v) (k : α → β) :
    (k <$> f).Plays perform w es (k a) v := by
  have hd : (done (k a)).Plays perform v [] (k a) v := plays_done _ v
  have hb := h.bind (g := fun a => done (k a)) hd
  rwa [List.append_nil] at hb

lemma Feed.Plays.of_map {α β : Type} {f : Feed α} {k : α → β} {b : β} (h : (k <$> f).Plays perform w es b v) :
    ∃ a, f.Plays perform w es a v ∧ k a = b := by
  obtain ⟨es', a, u, hf⟩ := plays_some perform f w
  obtain ⟨ht, ho⟩ := hf.map k
  obtain rfl : es' = es := ht.symm.trans h.transcript
  obtain ⟨hb, rfl⟩ := Prod.mk.inj (ho.symm.trans h.outcome)
  exact ⟨a, hf, hb⟩

lemma Searches.cons (hf : Declines perform f w) (h : Searches perform offers search w) :
    Searches perform (f :: offers) search w := by
  cases h with
  | nowhere hn hs => exact .nowhere (List.forall_mem_cons.mpr ⟨hf, hn⟩) hs
  | found _ ho hb hd ht hr =>
    exact .found _ (by rw [ho, List.cons_append]) (List.forall_mem_cons.mpr ⟨hf, hb⟩) hd ht hr

lemma Searches.after {u : ω} (hg : g.Plays perform w es r u) (hs : search.Plays perform w (p ++ es) r u)
    (hp : Silent p) (h : Searches perform offers g w) : Searches perform offers search w := by
  have hc : (p ++ es).filter (·.ofSink) = es.filter (·.ofSink) := by
    rw [List.filter_append, List.filter_eq_nil_iff.mpr (by simpa [Silent] using hp), List.nil_append]
  obtain ⟨hgt, hgo⟩ := hg
  obtain ⟨hst, hso⟩ := hs
  cases h with
  | nowhere hn hd =>
    refine .nowhere hn ⟨?_, ?_⟩
    · rw [hso, ← hgo]
      exact hd.missing
    · rw [hst]
      exact silent_append.mpr ⟨hp, hgt ▸ hd.silent⟩
  | found _ ho hb hd ht hr =>
    refine .found _ ho hb hd ?_ (hr.imp_left fun ⟨hn, hr⟩ => ⟨hn, ?_, ?_⟩)
    · rw [hst, ← hgt]
      exact ht.trans (List.suffix_append _ _).isInfix
    · rw [hso, ← hgo]
      exact hr.outcome
    · rw [hst, hc, ← hgt]
      exact hr.calls

lemma Searches.first (hf : f.Always perform Candid) (hp : Silent p)
    (hstop : ∀ es r v, f.Plays perform w es r v → r ≠ .error .notFound → search.Plays perform w (p ++ es) r v)
    (hnext : ∀ es v es' r u, f.Plays perform w es (.error .notFound) v → g.Plays perform v es' r u →
      search.Plays perform w (p ++ es ++ es') r u)
    (hg : Searches perform offers g w) : Searches perform (f :: offers) search w := by
  obtain ⟨es, r, v, hfp⟩ := plays_some perform f w
  have hc := hf.course w
  obtain ⟨hft, hfo⟩ := id hfp
  rw [hft, hfo] at hc
  by_cases hr : r = .error .notFound
  · subst hr
    obtain ⟨es', r', u, hgp⟩ := plays_some perform g v
    have hs := hnext es v es' r' u hfp hgp
    by_cases he : Silent es
    · obtain rfl := hfp.sink_of_silent he
      refine .cons ⟨by rw [hfo], hft ▸ he⟩ (hg.after hgp hs (silent_append.mpr ⟨hp, he⟩))
    · refine .found [] rfl (List.forall_mem_nil _) (fun hd => he (hft ▸ hd.silent)) ?_ (.inr ⟨by rw [hfo], ?_⟩)
      · rw [hft, hs.transcript]
        exact ⟨p, es', rfl⟩
      · exact hft ▸ (hc.missing rfl).resolve_left he
  · have hs := hstop es r v hfp hr
    refine .found [] rfl (List.forall_mem_nil _) (fun hd => hr ?_) ?_ (.inl ⟨by rwa [hfo], ?_, ?_⟩)
    · rw [← hd.missing, hfo]
    · rw [hft, hs.transcript]
      exact (List.suffix_append _ _).isInfix
    · rw [hfo, hs.outcome]
    · rw [hft, hs.transcript, List.filter_append, List.filter_eq_nil_iff.mpr (by simpa [Silent] using hp),
        List.nil_append]

end Search

namespace Source

variable {τ ω : Type} [Source τ]

def offer (uri : Text) (o : StreamOptions) (t : τ) : Feed (Except Failure Unit) := Prod.fst <$> stream t uri o

lemma always_offer [Frank τ] {perform : SinkCall → EStateM Failure ω Unit} (uri : Text) (o : StreamOptions) (t : τ) :
    (offer uri o t).Always perform Candid :=
  (Frank.candid perform t uri o).returns (g := Prod.fst)

lemma plays_fetch_skip {perform : SinkCall → EStateM Failure ω Unit} {w v : ω} {es : List Happening}
    {r : Except Failure Unit} {uri : Text} {type : ComponentType} {o : StreamOptions} {i : Nat} {t : τ} {ts : List τ}
    (hs : supports t type = false)
    (h : (Prod.fst <$> fetch uri type o (i + 1) ts).Plays perform w es r v) :
    (Prod.fst <$> fetch uri type o i (t :: ts)).Plays perform w (.note (.supports i type) :: es) r v := by
  obtain ⟨⟨r, ts'⟩, hf, rfl⟩ := h.of_map
  have hn : (fetch uri type o i (t :: ts)).Plays perform w (.note (.supports i type) :: es) (r, t :: ts') v := by
    refine Plays.note ?_
    rw [hs]
    have hp := hf.bind (g := fun x => done (x.1, t :: x.2)) (plays_done _ v)
    rwa [List.append_nil] at hp
  exact hn.map Prod.fst

lemma plays_fetch_stop {perform : SinkCall → EStateM Failure ω Unit} {w v : ω} {es : List Happening}
    {r : Except Failure Unit} {uri : Text} {type : ComponentType} {o : StreamOptions} {i : Nat} {t : τ} {ts : List τ}
    (hs : supports t type = true) (h : (offer uri o t).Plays perform w es r v) (hr : r ≠ .error .notFound) :
    (Prod.fst <$> fetch uri type o i (t :: ts)).Plays perform w
      ([.note (.supports i type), .note (.tier i uri o)] ++ es) r v := by
  obtain ⟨⟨r, t'⟩, hf, rfl⟩ := h.of_map
  have hn : (fetch uri type o i (t :: ts)).Plays perform w
      (.note (.supports i type) :: .note (.tier i uri o) :: (es ++ [])) (r, t' :: ts) v := by
    refine Plays.note ?_
    rw [hs]
    refine Plays.note (hf.bind ?_)
    cases r with
    | ok u => exact plays_done _ v
    | error e => cases e <;> first | exact plays_done _ v | exact absurd rfl hr
  rw [List.append_nil] at hn
  exact hn.map Prod.fst

lemma plays_fetch_next {perform : SinkCall → EStateM Failure ω Unit} {w v u : ω} {es es' : List Happening}
    {r : Except Failure Unit} {uri : Text} {type : ComponentType} {o : StreamOptions} {i : Nat} {t : τ} {ts : List τ}
    (hs : supports t type = true) (h : (offer uri o t).Plays perform w es (.error .notFound) v)
    (hn : (Prod.fst <$> fetch uri type o (i + 1) ts).Plays perform v es' r u) :
    (Prod.fst <$> fetch uri type o i (t :: ts)).Plays perform w
      ([.note (.supports i type), .note (.tier i uri o)] ++ es ++ es') r u := by
  obtain ⟨⟨r, t'⟩, hf, rfl⟩ := h.of_map
  obtain ⟨⟨r', ts'⟩, hg, rfl⟩ := hn.of_map
  have hn : (fetch uri type o i (t :: ts)).Plays perform w
      (.note (.supports i type) :: .note (.tier i uri o) :: (es ++ (es' ++ []))) (r', t' :: ts') u := by
    refine Plays.note ?_
    rw [hs]
    exact Plays.note (hf.bind (hg.bind (plays_done _ u)))
  rw [List.append_nil] at hn
  exact hn.map Prod.fst

lemma searches_fetch [Frank τ] (perform : SinkCall → EStateM Failure ω Unit) (w : ω) (uri : Text)
    (type : ComponentType) (o : StreamOptions) (i : Nat) (ts : List τ) :
    Searches perform ((ts.filter (supports · type)).map (offer uri o)) (Prod.fst <$> fetch uri type o i ts) w := by
  induction ts generalizing i with
  | nil => exact .nowhere (List.forall_mem_nil _) ⟨rfl, silent_nil⟩
  | cons t ts ih =>
    by_cases hs : supports t type = true
    · rw [List.filter_cons_of_pos (by exact hs), List.map_cons]
      exact .first (p := [_, _]) (always_offer uri o t) (by simp) (fun _ _ _ => plays_fetch_stop hs)
        (fun _ _ _ _ _ => plays_fetch_next hs) (ih (i + 1))
    · obtain ⟨es, r, v, hg⟩ := plays_some perform (Prod.fst <$> fetch uri type o (i + 1) ts) w
      rw [Bool.not_eq_true] at hs
      rw [List.filter_cons_of_neg (by simp [hs])]
      exact (ih (i + 1)).after (p := [_]) hg (plays_fetch_skip hs hg) (by simp)

end Source

end Firmware
