import Firmware.Proofs.Computation
import Firmware.Proofs.Stream.Turn
import Mathlib.Data.List.Chain

namespace Firmware

open Feed Requestor

namespace Happening

def ofReceive : Happening → Bool
  | note (.receive ..) => true
  | _ => false

def ofStatus : Happening → Bool
  | note (.status ..) => true
  | _ => false

def requested : Happening → Option Nat
  | note (.request _ _ now _) => some now
  | _ => none

def called : Happening → Option SinkCall
  | call c _ => some c
  | note _ => none

def advance (session : UInt32) (position : Nat) : Happening → Nat
  | note (.receive _ _ (.ok (some c))) => if c.session = session then c.stop else position
  | _ => position

end Happening

open Happening

/-- Where a stream stands after these happenings: behind the last chunk of its session. -/
def standing (session : UInt32) (es : List Happening) (position : Nat) : Nat := es.foldl (advance session) position

/-- A clock that a transport never sets back. Reading it may take time. -/
structure Steady {θ : Type} [Transport θ] (time : θ → Nat) : Prop where
  before : ∀ t, time t ≤ (Transport.now t).1
  after : ∀ t, (Transport.now t).1 ≤ time (Transport.now t).2
  request : ∀ uri session,
    Follows (fun s t => time s ≤ time t) (Transport.request uri session : EStateM Failure θ Unit)
  receive : ∀ wait, Follows (fun s t => time s ≤ time t) (Transport.receive wait : EStateM Failure θ (Option Chunk))
  status : ∀ session id st,
    Follows (fun s t => time s ≤ time t) (Transport.status session id st : EStateM Failure θ Unit)

/-- Each happening is so, with what came before it and what came after it. -/
def Each (es : List Happening) (P : List Happening → Happening → List Happening → Prop) : Prop :=
  ∀ before e after, es = before ++ e :: after → P before e after

/-- What follows the receipt of a chunk: the calls that write it, if it is of the session, and then a status,
which is the only one before something else is received. There are no requests behind a chunk of the session. -/
structure Answered (session : UInt32) (position : Nat) (c : Chunk) (es : List Happening) : Prop where
  calls : (es.takeWhile ofSink).filterMap called <+: if c.session = session then callsFor position c else []
  status : ∃ st reply later, es.dropWhile ofSink = .note (.status c.session c.id st reply) :: later ∧
    (∀ e ∈ later.takeWhile (!·.ofReceive), e.ofStatus = false) ∧
    (st = .processed ↔ c.session = session ∧ c.stop < 0x100000000 ∧
      es.takeWhile ofSink = (callsFor position c).map accepted)
  served : c.session = session → ∀ e ∈ es, e.ofRequest = false

/-- A chunk of the session was received that is marked last, and the status that says that it was written was
delivered. -/
def Completes (session : UInt32) (es : List Happening) : Prop :=
  ∃ before wait now c after, es = before ++ .note (.receive wait now (.ok (some c))) :: after ∧
    c.session = session ∧ c.last = true ∧
    (after.dropWhile ofSink).head? = some (.note (.status session c.id .processed (.ok ())))

structure Protocol (uri : Text) (session : UInt32) (period : Nat) (es : List Happening) : Prop where
  named : ∀ u s now r, .note (.request u s now r) ∈ es → u = uri ∧ s = session
  asked : Each es fun before e _ => e.ofReceive = true → ∃ a ∈ before, a.ofRequest = true
  spaced : (es.filterMap requested).IsChain fun a b => a + period ≤ b
  answered : Each es fun before e after => ∀ wait now c, e = .note (.receive wait now (.ok (some c))) →
    Answered session (standing session before 0) c after

section Lists

variable {es es' : List Happening} {P : List Happening → Happening → List Happening → Prop}

lemma each_nil : Each [] P := fun before e after h => by cases before <;> cases h

lemma each_append : Each (es ++ es') P ↔
    (Each es fun before e after => P before e (after ++ es')) ∧
      Each es' fun before e after => P (es ++ before) e after := by
  constructor
  · intro h
    refine ⟨fun before e after he => h before e _ ?_, fun before e after he => h _ e after ?_⟩
    · rw [he, List.append_assoc, List.cons_append]
    · rw [he, List.append_assoc]
  · rintro ⟨h, h'⟩ before e after he
    rcases List.append_eq_append_iff.mp he with ⟨as, hb, hs⟩ | ⟨bs, hb, hs⟩
    · rw [hb]
      exact h' as e after hs
    · cases bs with
      | nil =>
        rw [List.append_nil] at hb
        have hp : P (es ++ []) e after := h' [] e after hs.symm
        rwa [List.append_nil, hb] at hp
      | cons b bs =>
        obtain ⟨rfl, rfl⟩ := List.cons.inj hs
        exact h before e bs hb

lemma each_cons {e : Happening} :
    Each (e :: es) P ↔ P [] e es ∧ Each es fun before e' after => P (e :: before) e' after := by
  have h1 : (Each [e] fun before e' after => P before e' (after ++ es)) ↔ P [] e es := by
    constructor
    · intro h
      exact h [] e [] rfl
    · intro h before e' after he
      cases before with
      | nil =>
        cases he
        exact h
      | cons b before =>
        cases before <;> cases (List.cons.inj he).2
  have ha : Each ([e] ++ es) P ↔ _ := each_append
  exact ha.trans (and_congr_left' h1)

lemma Each.mono {Q : List Happening → Happening → List Happening → Prop} (h : Each es P)
    (hPQ : ∀ before e after, P before e after → Q before e after) : Each es Q :=
  fun before e after he => hPQ before e after (h before e after he)

lemma mem_takeWhile_append {α : Type} {p : α → Bool} {xs ys : List α} {a : α} (h : a ∈ (xs ++ ys).takeWhile p) :
    a ∈ xs.takeWhile p ∨ a ∈ ys.takeWhile p := by
  rw [List.takeWhile_append] at h
  split at h
  · rename_i hl
    rcases List.mem_append.mp h with h | h
    · rw [← List.takeWhile_prefix p |>.eq_of_length hl] at h
      exact .inl h
    · exact .inr h
  · exact .inl h

lemma requested_eq_none {e : Happening} (h : e.ofRequest = false) : e.requested = none := by
  cases e with
  | call c r => rfl
  | note n => cases n <;> first | rfl | cases h

lemma not_completes_iff {session : UInt32} : ¬ Completes session es ↔
    Each es fun _ e after => ∀ wait now c, e = .note (.receive wait now (.ok (some c))) → c.session = session →
      c.last = true → (after.dropWhile ofSink).head? ≠ some (.note (.status session c.id .processed (.ok ()))) := by
  constructor
  · rintro hn before _ after he wait now c rfl hs hl hd
    exact hn ⟨before, wait, now, c, after, he, hs, hl, hd⟩
  · rintro h ⟨before, wait, now, c, after, he, hs, hl, hd⟩
    exact h before _ after he wait now c rfl hs hl hd

lemma standing_append (session : UInt32) (es es' : List Happening) (n : Nat) :
    standing session (es ++ es') n = standing session es' (standing session es n) := List.foldl_append

end Lists

lemma Answered.append {session : UInt32} {n : Nat} {c : Chunk} {es es' : List Happening}
    (h : Answered session n c es) (hq : c.session = session → ∀ e ∈ es', e.ofRequest = false)
    (ho : ∀ e ∈ es'.takeWhile (!·.ofReceive), e.ofStatus = false) : Answered session n c (es ++ es') := by
  obtain ⟨st, reply, later, hd, hl, hst⟩ := h.status
  have hdw : (es ++ es').dropWhile ofSink = .note (.status c.session c.id st reply) :: (later ++ es') := by
    rw [List.dropWhile_append, hd, List.isEmpty_cons, if_neg Bool.false_ne_true, List.cons_append]
  have htw : (es ++ es').takeWhile ofSink = es.takeWhile ofSink := by
    rw [List.takeWhile_append, if_neg]
    intro hlen
    have he := congrArg List.length (List.takeWhile_append_dropWhile (p := ofSink) (l := es))
    rw [List.length_append, hlen, hd, List.length_cons] at he
    omega
  refine ⟨htw ▸ h.calls, ⟨st, reply, later ++ es', hdw, fun e he => ?_, htw ▸ hst⟩, fun hc => ?_⟩
  · exact (mem_takeWhile_append he).elim (hl e) (ho e)
  · rw [List.forall_mem_append]
    exact ⟨h.served hc, hq hc⟩

namespace Requestor

variable {θ : Type} {uri : Text} {session : UInt32} {period : Nat} {es es' : List Happening} {c : Chunk} {n : Nat}

/-- What the protocol knows of a stream: whether it still requests, when it has done so last, and where it
stands. -/
structure Phase where
  pending : Bool
  last : Option Nat
  position : Nat

def Progress.phase (p : Progress θ) : Phase := ⟨p.pending, p.lastRequest, p.position⟩

def Phase.Asked (p : Phase) : Prop := p.pending = false ∨ p.last.isSome = true

structure Orderly (uri : Text) (session : UInt32) (period : Nat) (p : Phase) (es : List Happening) : Prop where
  named : ∀ u s now r, .note (.request u s now r) ∈ es → u = uri ∧ s = session
  quiet : p.pending = false → ∀ e ∈ es, e.ofRequest = false
  spaced : (p.last.toList ++ es.filterMap requested).IsChain fun a b => a + period ≤ b
  opens : ∀ e ∈ es.takeWhile (!·.ofReceive), e.ofStatus = false
  asked : Each es fun before e _ => e.ofReceive = true → p.Asked ∨ ∃ a ∈ before, a.ofRequest = true
  answered : Each es fun before e after => ∀ wait now c, e = .note (.receive wait now (.ok (some c))) →
    Answered session (standing session before p.position) c after

structure Brings (session : UInt32) (p : Phase) (es : List Happening) (q : Phase) : Prop where
  pending : p.pending = false → q.pending = false
  served : ∀ wait now c, .note (.receive wait now (.ok (some c))) ∈ es → c.session = session → q.pending = false
  last : q.last = (p.last.toList ++ es.filterMap requested).getLast?
  asked : q.Asked → p.Asked ∨ ∃ a ∈ es, a.ofRequest = true
  position : q.position = standing session es p.position

variable {p q : Phase}

lemma isChain_toList (o : Option Nat) (R : Nat → Nat → Prop) : o.toList.IsChain R := by
  cases o with
  | none => exact .nil
  | some t => exact .singleton t

lemma orderly_nil (p : Phase) : Orderly uri session period p [] where
  named _ _ _ _ h := by cases h
  quiet _ _ h := by cases h
  spaced := by
    rw [List.filterMap_nil, List.append_nil]
    exact isChain_toList _ _
  opens _ h := by cases h
  asked := each_nil
  answered := each_nil

lemma Orderly.append (h : Orderly uri session period p es) (hl : Brings session p es q)
    (h' : Orderly uri session period q es') : Orderly uri session period p (es ++ es') where
  named u s now r hm := (List.mem_append.mp hm).elim (h.named u s now r) (h'.named u s now r)
  quiet hp := List.forall_mem_append.mpr ⟨h.quiet hp, h'.quiet (hl.pending hp)⟩
  spaced := by
    have hs := h'.spaced
    rw [List.filterMap_append, ← List.append_assoc, List.isChain_append]
    rw [List.isChain_append, hl.last] at hs
    refine ⟨h.spaced, hs.2.1, fun a ha => hs.2.2 a ?_⟩
    rw [Option.mem_def.mp ha]
    rfl
  opens e he := (mem_takeWhile_append he).elim (h.opens e) (h'.opens e)
  asked := by
    refine each_append.mpr ⟨h.asked, h'.asked.mono fun before e _ hb he => ?_⟩
    rcases hb he with hq | ⟨a, ha, hr⟩
    · exact (hl.asked hq).imp_right fun ⟨a, ha, hr⟩ => ⟨a, List.mem_append_left _ ha, hr⟩
    · exact .inr ⟨a, List.mem_append_right _ ha, hr⟩
  answered := by
    refine each_append.mpr ⟨fun before e after he wait now c hc => ?_, h'.answered.mono fun before e _ hb => ?_⟩
    · refine (h.answered before e after he wait now c hc).append (fun hs => h'.quiet ?_) h'.opens
      refine hl.served wait now c ?_ hs
      rw [he, hc]
      exact List.mem_append_right _ List.mem_cons_self
    · rwa [standing_append, ← hl.position]

lemma Brings.trans {q' : Phase} (h : Brings session p es q) (h' : Brings session q es' q') :
    Brings session p (es ++ es') q' where
  pending hp := h'.pending (h.pending hp)
  served wait now c hm hc := (List.mem_append.mp hm).elim
    (fun hm => h'.pending (h.served wait now c hm hc)) fun hm => h'.served wait now c hm hc
  last := by
    have hg (o : Option Nat) : o.toList.getLast? = o := by cases o <;> rfl
    rw [h'.last, List.filterMap_append, ← List.append_assoc, List.getLast?_append, List.getLast?_append, hg, h.last]
  asked hq := by
    rcases h'.asked hq with hq | ⟨a, ha, hr⟩
    · exact (h.asked hq).imp_right fun ⟨a, ha, hr⟩ => ⟨a, List.mem_append_left _ ha, hr⟩
    · exact .inr ⟨a, List.mem_append_right _ ha, hr⟩
  position := by rw [h'.position, h.position, standing_append]

lemma orderly_request {now : Nat} {r : Except Failure Unit} (hp : p.pending = true)
    (hl : ∀ t ∈ p.last, t + period ≤ now) : Orderly uri session period p [.note (.request uri session now r)] where
  named u s now r hm := by
    obtain ⟨⟩ := List.mem_singleton.mp hm
    exact ⟨rfl, rfl⟩
  quiet hq := by rw [hp] at hq; cases hq
  spaced := by
    cases h : p.last with
    | none => exact .singleton now
    | some t => exact .cons_cons (hl t h) (.singleton now)
  opens e he := by
    rw [List.mem_singleton.mp ((List.takeWhile_prefix _).subset he)]
    rfl
  asked := each_cons.mpr ⟨fun he => (by cases he), each_nil⟩
  answered := each_cons.mpr ⟨fun _ _ _ he => (by cases he), each_nil⟩

lemma orderly_receive {wait now : Nat} {r : Except Failure (Option Chunk)} (hp : p.Asked)
    (hq : ∀ e ∈ es, e.ofRequest = false ∧ e.ofReceive = false)
    (ha : ∀ c, r = .ok (some c) → Answered session p.position c es) :
    Orderly uri session period p (.note (.receive wait now r) :: es) where
  named u s now r hm := by
    rcases List.mem_cons.mp hm with h | h
    · cases h
    · cases (hq _ h).1
  quiet _ := List.forall_mem_cons.mpr ⟨rfl, fun e he => (hq e he).1⟩
  spaced := by
    have h0 : es.filterMap requested = [] :=
      List.filterMap_eq_nil_iff.mpr fun e he => requested_eq_none (hq e he).1
    rw [List.filterMap_cons_none rfl, h0, List.append_nil]
    exact isChain_toList _ _
  opens e he := by cases he
  asked := fun _ _ _ _ _ => .inl hp
  answered := by
    refine each_cons.mpr ⟨fun _ _ c hc => ?_, fun before e after he wait now c hc => ?_⟩
    · cases hc
      exact ha c rfl
    · have hm : e ∈ es := he ▸ List.mem_append_right _ List.mem_cons_self
      rw [hc] at hm
      cases (hq _ hm).2

lemma brings_nil : Brings session p [] p where
  pending := id
  served _ _ _ hm := by cases hm
  last := by
    cases h : p.last with
    | none => rfl
    | some t => rfl
  asked := .inl
  position := rfl

def Phase.behind (session : UInt32) (p : Phase) : Except Failure (Option Chunk) → Phase
  | .ok (some c) => if c.session = session then ⟨false, p.last, c.stop⟩ else p
  | _ => p

lemma standing_of_no_receive (h : ∀ e ∈ es, e.ofReceive = false) (n : Nat) : standing session es n = n := by
  induction es generalizing n with
  | nil => rfl
  | cons e es ih =>
    obtain ⟨he, hes⟩ := List.forall_mem_cons.mp h
    have ha : advance session n e = n := by
      cases e with
      | call c r => rfl
      | note m => cases m <;> first | rfl | cases he
    exact (congrArg (standing session es) ha).trans (ih hes n)

lemma brings_receive {wait now : Nat} {r : Except Failure (Option Chunk)} (hp : p.Asked)
    (hes : ∀ e ∈ es, e.ofRequest = false ∧ e.ofReceive = false) (hq : q = p.behind session r) :
    Brings session p (.note (.receive wait now r) :: es) q := by
  have h0 : es.filterMap requested = [] :=
    List.filterMap_eq_nil_iff.mpr fun e he => requested_eq_none (hes e he).1
  have hn : q.last = p.last ∧ (p.pending = false → q.pending = false) ∧
      q.position = advance session p.position (.note (.receive wait now r)) := by
    subst hq
    rcases r with e | _ | c
    · exact ⟨rfl, id, rfl⟩
    · exact ⟨rfl, id, rfl⟩
    · rw [Phase.behind, advance]
      split <;> simp
  refine ⟨hn.2.1, fun w m c hm hc => ?_, ?_, fun _ => .inl hp, ?_⟩
  · rcases List.mem_cons.mp hm with h | h
    · cases h
      rw [hq, Phase.behind, if_pos hc]
    · cases (hes _ h).2
  · rw [List.filterMap_cons_none rfl, h0, List.append_nil, hn.1]
    cases p.last <;> rfl
  · rw [hn.2.2]
    exact (standing_of_no_receive (fun e he => (hes e he).2) _).symm

section Steps

variable [Transport θ] {p : Progress θ} {x : Outcome × Progress θ}

omit [Transport θ] in
lemma Writes.ofSink {position : Nat} {r : Except Failure Nat} (h : Writes position c es r) :
    ∀ e ∈ es, e.ofSink = true := by
  have ha (ks : List SinkCall) : ∀ e ∈ ks.map accepted, e.ofSink = true := List.forall_mem_map.mpr fun _ _ => rfl
  cases h with
  | written _ => exact ha _
  | long _ => exact List.forall_mem_nil _
  | refused before _ => exact List.forall_mem_append.mpr ⟨ha _, List.forall_mem_singleton.mpr rfl⟩

omit [Transport θ] in
lemma Writes.called {position : Nat} {r : Except Failure Nat} (h : Writes position c es r) :
    es.filterMap Happening.called <+: callsFor position c := by
  have ha (ks : List SinkCall) : (ks.map accepted).filterMap Happening.called = ks := by
    rw [List.filterMap_map]
    exact List.filterMap_some
  cases h with
  | written _ => exact (ha _).symm ▸ List.prefix_refl _
  | long _ => exact List.nil_prefix
  | refused before hk =>
    rw [List.filterMap_append, ha]
    exact hk

omit [Transport θ] in
lemma Writes.not_accepted {position : Nat} {e : Failure} (h : Writes position c es (.error e))
    (hs : c.stop < 0x100000000) : es ≠ (callsFor position c).map accepted := by
  cases h with
  | long hl => exact absurd hs (Nat.not_lt.mpr hl)
  | @refused before k e hk =>
    intro he
    have hm : Happening.call k (.error e) ∈ (callsFor position c).map accepted :=
      he ▸ List.mem_append_right _ List.mem_cons_self
    obtain ⟨_, -, hk⟩ := List.mem_map.mp hm
    cases hk

lemma Reports.cases {id : UInt32} {st : ChunkStatus} {last : Bool} (h : Reports session id st last p es x) :
    ∃ reply t, es = [.note (.status session id st reply)] ∧ x.2 = { p with transport := t } ∧
      (x.1 = some (.ok ()) ↔ last = true ∧ reply = .ok ()) := by
  cases h with
  | @delivered t _ => exact ⟨.ok (), t, rfl, rfl, by cases last <;> simp⟩
  | @lost e t _ => exact ⟨.error e, t, rfl, rfl, by simp⟩

lemma Handles.answer (h : Handles session c p es x) :
    ∃ calls st reply, es = calls ++ [.note (.status c.session c.id st reply)] ∧ (∀ e ∈ calls, e.ofSink = true) ∧
      (calls.filterMap called <+: if c.session = session then callsFor p.position c else []) ∧
      (st = .processed ↔ c.session = session ∧ c.stop < 0x100000000 ∧
        calls = (callsFor p.position c).map accepted) ∧
      (x.1 = some (.ok ()) ↔ st = .processed ∧ c.last = true ∧ reply = .ok ()) := by
  cases h with
  | foreign hc hr =>
    obtain ⟨reply, t, rfl, -, hx⟩ := hr.cases
    exact ⟨[], .refused, reply, rfl, List.forall_mem_nil _, List.nil_prefix,
      ⟨nofun, fun h => absurd h.1 hc⟩, hx.trans (by simp)⟩
  | @written calls es' position x hc hw hr =>
    subst hc
    obtain ⟨reply, t, rfl, -, hx⟩ := hr.cases
    have hcl := hw.called
    cases hw with
    | written hs =>
      refine ⟨_, .processed, reply, rfl, (Writes.written hs).ofSink, by rwa [if_pos rfl], ?_, ?_⟩
      · exact ⟨fun _ => ⟨rfl, hs, rfl⟩, fun _ => rfl⟩
      · exact hx.trans ⟨fun h => ⟨rfl, h⟩, fun h => h.2⟩
  | @failed calls es' e x hc hw hr =>
    subst hc
    obtain ⟨reply, t, rfl, -, -⟩ := hr.cases
    refine ⟨calls, .refused, reply, rfl, hw.ofSink, by rw [if_pos rfl]; exact hw.called, ?_, ?_⟩
    · exact ⟨nofun, fun h => absurd h.2.2 (hw.not_accepted h.2.1)⟩
    · simp

lemma Handles.phase (h : Handles session c p es x) (hx : x.1 = none) :
    x.2.phase = if c.session = session then ⟨false, p.lastRequest, c.stop⟩ else p.phase := by
  cases h with
  | foreign hc hr =>
    obtain ⟨_, t, -, ht, -⟩ := hr.cases
    rw [if_neg hc, ht]
    rfl
  | written hc hw hr =>
    obtain ⟨_, t, -, ht, -⟩ := hr.cases
    cases hw
    rw [if_pos hc, ht]
    rfl
  | failed _ _ _ => cases hx

lemma Handles.answered (h : Handles session c p es x) :
    (∀ e ∈ es, e.ofRequest = false ∧ e.ofReceive = false) ∧ Answered session p.position c es ∧
      (x.1 = some (.ok ()) ↔ c.session = session ∧ c.last = true ∧
        (es.dropWhile ofSink).head? = some (.note (.status session c.id .processed (.ok ())))) := by
  obtain ⟨calls, st, reply, rfl, hs, hk, hst, hx⟩ := h.answer
  have htw : (calls ++ [Happening.note (.status c.session c.id st reply)]).takeWhile ofSink = calls := by
    rw [List.takeWhile_append_of_pos hs]
    exact List.append_nil _
  have hdw : (calls ++ [Happening.note (.status c.session c.id st reply)]).dropWhile ofSink =
      [.note (.status c.session c.id st reply)] := List.dropWhile_append_of_pos hs
  have hq : ∀ e ∈ calls ++ [Happening.note (.status c.session c.id st reply)],
      e.ofRequest = false ∧ e.ofReceive = false := by
    refine List.forall_mem_append.mpr ⟨fun e he => ?_, List.forall_mem_singleton.mpr ⟨rfl, rfl⟩⟩
    have := hs e he
    cases e with
    | call k r => exact ⟨rfl, rfl⟩
    | note n => cases this
  refine ⟨hq, ⟨?_, ⟨st, reply, [], hdw, List.forall_mem_nil _, ?_⟩, fun _ e he => (hq e he).1⟩, ?_⟩
  · rwa [htw]
  · rwa [htw]
  · rw [hdw, hx]
    constructor
    · rintro ⟨rfl, hl, rfl⟩
      obtain ⟨rfl, -⟩ := hst.mp rfl
      exact ⟨rfl, hl, rfl⟩
    · rintro ⟨rfl, hl, he⟩
      cases he
      exact ⟨rfl, hl, rfl⟩

omit [Transport θ] in
lemma not_completes (h : ∀ e ∈ es, e.ofReceive = false) : ¬ Completes session es := by
  refine not_completes_iff.mpr fun before e after he wait now c hc => ?_
  have hm := h e (he ▸ List.mem_append_right _ List.mem_cons_self)
  rw [hc] at hm
  cases hm

omit [Transport θ] in
lemma completes_receive {wait now : Nat} {r : Except Failure (Option Chunk)} (h : ∀ e ∈ es, e.ofReceive = false) :
    Completes session (.note (.receive wait now r) :: es) ↔
      ∃ c, r = .ok (some c) ∧ c.session = session ∧ c.last = true ∧
        (es.dropWhile ofSink).head? = some (.note (.status session c.id .processed (.ok ()))) := by
  have hn : ¬ Completes session es := not_completes h
  have hr := not_completes_iff.mp hn
  rw [← not_iff_not, not_completes_iff, each_cons, and_iff_left hr]
  constructor
  · rintro hn ⟨c, rfl, hs, hl, hd⟩
    exact hn wait now c rfl hs hl hd
  · rintro hn w m c he hs hl hd
    cases he
    exact hn ⟨c, rfl, hs, hl, hd⟩

omit [Transport θ] in
lemma Orderly.completes_append {p : Phase} (h : Orderly uri session period p es) :
    Completes session (es ++ es') ↔ Completes session es ∨ Completes session es' := by
  rw [← not_iff_not, not_or, not_completes_iff, not_completes_iff, not_completes_iff, each_append]
  refine and_congr_left' (forall₄_congr fun before e after he => forall₄_congr fun wait now c hc => ?_)
  obtain ⟨st, reply, later, hd, -⟩ := (h.answered before e after he wait now c hc).status
  rw [List.dropWhile_append, hd]
  rfl

variable {now wait : Nat} {y : Except Failure Nat × Progress θ}

lemma Asks.orderly (h : Asks uri session period now wait p es y) (ht : ∀ t ∈ p.lastRequest, t ≤ now) :
    Orderly uri session period p.phase es := by
  have hd (hl : ∀ last ∈ p.lastRequest, period ≤ now - last) (t : Nat) (hm : t ∈ p.lastRequest) :
      t + period ≤ now := by
    have := hl t hm
    have := ht t hm
    omega
  cases h with
  | served _ => exact orderly_nil _
  | early _ _ _ => exact orderly_nil _
  | sent hp hl _ => exact orderly_request hp (hd hl)
  | failed hp hl _ => exact orderly_request hp (hd hl)

lemma Asks.no_receive (h : Asks uri session period now wait p es y) : ∀ e ∈ es, e.ofReceive = false := by
  cases h with
  | served _ => exact List.forall_mem_nil _
  | early _ _ _ => exact List.forall_mem_nil _
  | sent _ _ _ => exact List.forall_mem_singleton.mpr rfl
  | failed _ _ _ => exact List.forall_mem_singleton.mpr rfl

lemma Asks.brings {wait' : Nat} {q : Progress θ} (h : Asks uri session period now wait p es (.ok wait', q)) :
    Brings session p.phase es q.phase ∧ q.phase.Asked := by
  cases h with
  | served hp => exact ⟨brings_nil, .inl hp⟩
  | early _ hl _ => exact ⟨brings_nil, .inr (congrArg Option.isSome hl)⟩
  | sent _ _ _ =>
    refine ⟨⟨id, fun _ _ _ hm => ?_, ?_, fun _ => .inr ⟨_, List.mem_singleton_self _, rfl⟩, rfl⟩, .inr rfl⟩
    · cases List.mem_singleton.mp hm
    · exact (List.getLast?_concat ..).symm

lemma Asks.receives {wait' : Nat} {q : Progress θ} {r : Except Failure (Option Chunk)}
    (h : Asks uri session period now wait p es (.ok wait', q)) (ht : ∀ t ∈ p.lastRequest, t ≤ now)
    (hq : ∀ e ∈ es', e.ofRequest = false ∧ e.ofReceive = false)
    (ha : ∀ c, r = .ok (some c) → Answered session q.position c es') :
    Orderly uri session period p.phase (es ++ .note (.receive wait' now r) :: es') ∧
      (Completes session (es ++ .note (.receive wait' now r) :: es') ↔
        ∃ c, r = .ok (some c) ∧ c.session = session ∧ c.last = true ∧
          (es'.dropWhile ofSink).head? = some (.note (.status session c.id .processed (.ok ())))) := by
  have ho := h.orderly ht
  refine ⟨ho.append h.brings.1 (orderly_receive h.brings.2 hq ha), ?_⟩
  rw [ho.completes_append, completes_receive fun e he => (hq e he).2, or_iff_right (not_completes h.no_receive)]

def Progress.Dated (time : θ → Nat) (p : Progress θ) : Prop := ∀ t ∈ p.lastRequest, t ≤ time p.transport

variable {time : θ → Nat} {o : StreamOptions}

omit [Transport θ] in
lemma Progress.Dated.moved {q : Progress θ} (h : p.Dated time) (hl : q.lastRequest = p.lastRequest)
    (ht : time p.transport ≤ time q.transport) : q.Dated time :=
  fun t hm => Nat.le_trans (h t (hl ▸ hm)) ht

lemma Reports.moved (hs : Steady time) {id : UInt32} {st : ChunkStatus} {last : Bool}
    (h : Reports session id st last p es x) :
    x.2.lastRequest = p.lastRequest ∧ time p.transport ≤ time x.2.transport := by
  cases h with
  | delivered hr => exact ⟨rfl, (hs.status session id st).of_ok hr⟩
  | lost hr => exact ⟨rfl, (hs.status session id st).of_error hr⟩

lemma Handles.moved (hs : Steady time) (h : Handles session c p es x) :
    x.2.lastRequest = p.lastRequest ∧ time p.transport ≤ time x.2.transport := by
  have hp : time p.transport ≤ time p.served.transport := Nat.le_trans (hs.before _) (hs.after _)
  cases h with
  | foreign _ hr => exact hr.moved hs
  | written _ _ hr => exact ⟨(hr.moved hs).1, Nat.le_trans hp (hr.moved hs).2⟩
  | failed _ _ hr => exact ⟨(hr.moved hs).1, Nat.le_trans hp (hr.moved hs).2⟩

lemma Asks.dated (hs : Steady time) (h : Asks uri session period now wait p es y) (hd : p.Dated time)
    (hn : now ≤ time p.transport) : y.2.Dated time := by
  cases h with
  | served _ => exact hd
  | early _ _ _ => exact hd
  | sent _ _ hr =>
    rintro _ ⟨⟩
    exact Nat.le_trans hn ((hs.request uri session).of_ok hr)
  | failed _ _ hr => exact hd.moved rfl ((hs.request uri session).of_error hr)

lemma Turns.dated (hs : Steady time) (h : Turns uri session o p es x) (hd : p.Dated time) : x.2.Dated time := by
  have hp : p.timed.Dated time := hd.moved rfl (Nat.le_trans (hs.before _) (hs.after _))
  have hn : p.moment ≤ time p.timed.transport := hs.after _
  cases h with
  | late _ => exact hp
  | unsent _ _ ha => exact ha.dated hs hp hn
  | broken _ _ ha hr => exact (ha.dated hs hp hn).moved rfl ((hs.receive _).of_error hr)
  | idle _ _ ha hr => exact (ha.dated hs hp hn).moved rfl ((hs.receive _).of_ok hr)
  | heard _ _ ha hr hh =>
    have hm := hh.moved hs
    exact (ha.dated hs hp hn).moved hm.1 (Nat.le_trans ((hs.receive _).of_ok hr) hm.2)

lemma Turns.brings (h : Turns uri session o p es x) (hx : x.1 = none) : Brings session p.phase es x.2.phase := by
  cases h with
  | late _ => cases hx
  | unsent _ _ _ => cases hx
  | broken _ _ _ _ => cases hx
  | idle _ _ ha _ => exact ha.brings.1.trans (brings_receive ha.brings.2 (List.forall_mem_nil _) rfl)
  | heard _ _ ha _ hh =>
    exact ha.brings.1.trans (brings_receive ha.brings.2 hh.answered.1 (hh.phase hx))

lemma Turns.orderly (hs : Steady time) (h : Turns uri session o p es x) (hd : p.Dated time) :
    Orderly uri session o.requestPeriod.toNat p.phase es ∧ (x.1 = some (.ok ()) ↔ Completes session es) := by
  have ht : ∀ t ∈ p.timed.lastRequest, t ≤ p.moment := fun t hm => Nat.le_trans (hd t hm) (hs.before _)
  have hn : ∀ e ∈ ([] : List Happening), e.ofRequest = false ∧ e.ofReceive = false := List.forall_mem_nil _
  cases h with
  | late _ => exact ⟨orderly_nil _, nofun, fun h => absurd h (not_completes (List.forall_mem_nil _))⟩
  | unsent _ _ ha => exact ⟨ha.orderly ht, nofun, fun h => absurd h (not_completes ha.no_receive)⟩
  | @broken _ _ _ e _ _ _ _ ha _ =>
    obtain ⟨ho, hc⟩ := ha.receives (r := .error e) ht hn fun _ h => (by cases h)
    exact ⟨ho, by simp [hc]⟩
  | idle _ _ ha _ =>
    obtain ⟨ho, hc⟩ := ha.receives (r := .ok none) ht hn fun _ h => (by cases h)
    exact ⟨ho, by simp [hc]⟩
  | heard _ _ ha _ hh =>
    obtain ⟨hq, han, hx⟩ := hh.answered
    obtain ⟨ho, hc⟩ := ha.receives (r := .ok (some _)) ht hq (by rintro _ ⟨⟩; exact han)
    refine ⟨ho, hx.trans (Iff.trans ?_ hc.symm)⟩
    simp

lemma always_orderly {ω : Type} {perform : SinkCall → EStateM Failure ω Unit} (hs : Steady time) (n : Nat)
    {p : Progress θ} (hd : p.Dated time) :
    (steps uri session o n p).Always perform fun es x =>
      Orderly uri session o.requestPeriod.toNat p.phase es ∧ (x.1 = some (.ok ()) ↔ Completes session es) := by
  induction n generalizing p with
  | zero => exact always_pure ⟨orderly_nil _, nofun, fun h => absurd h (not_completes (List.forall_mem_nil _))⟩
  | succ n ih =>
    refine (always_turns uri session o p).bind fun es x h => ?_
    obtain ⟨ho, hc⟩ := h.orderly hs hd
    have hd' := h.dated hs hd
    obtain ⟨r, q⟩ := x
    cases r with
    | none =>
      refine (ih hd').mono fun es' y hy => ⟨ho.append (h.brings rfl) hy.1, ?_⟩
      rw [hy.2, ho.completes_append, or_iff_right (mt hc.mpr nofun)]
    | some r =>
      refine always_pure ?_
      rw [List.append_nil]
      exact ⟨ho, hc⟩

end Steps

lemma nextSession_ne (last : UInt32) : nextSession last ≠ 0 ∧ nextSession last ≠ last := by
  rw [nextSession]
  split
  · rename_i h
    refine ⟨by decide, ?_⟩
    rintro rfl
    exact absurd h (by decide)
  · rename_i h
    refine ⟨h, fun he => ?_⟩
    have h1 := congrArg UInt32.toNat he
    have h2 := last.toNat_lt
    rw [UInt32.toNat_add] at h1
    change (last.toNat + 1) % 2 ^ 32 = last.toNat at h1
    omega

lemma Orderly.protocol (h : Orderly uri session period ⟨true, none, 0⟩ es) : Protocol uri session period es where
  named := h.named
  asked := h.asked.mono fun _ _ _ ha he => (ha he).resolve_left (by simp [Phase.Asked])
  spaced := h.spaced
  answered := h.answered

lemma protocol_nil : Protocol uri session period [] := (orderly_nil ⟨true, none, 0⟩).protocol

/-- Every stream keeps to the protocol, and it succeeds exactly if its last chunk was written and the peer knows.
The session is a new one. -/
theorem streamImage_protocol {θ ω : Type} [Transport θ] {time : θ → Nat} (hs : Steady time)
    (perform : SinkCall → EStateM Failure ω Unit) (w : ω) (n : Nat) (uri : Text) (o : StreamOptions)
    (q : Requestor θ) :
    let session := nextSession q.lastSession
    let es := (streamImage n uri o q).transcript perform w
    let x := ((streamImage n uri o q).outcome perform w).1
    session ≠ 0 ∧ session ≠ q.lastSession ∧
      (uri.isEmpty = false → q.busy = false → x.2.lastSession = session) ∧
      Protocol uri session o.requestPeriod.toNat es ∧ (x.1 = some (.ok ()) ↔ Completes session es) := by
  intro session es x
  refine ⟨(nextSession_ne _).1, (nextSession_ne _).2, ?_⟩
  have hn : ¬ Completes session [] := not_completes (List.forall_mem_nil _)
  have ha : (streamImage n uri o q).Always perform fun es x =>
      (uri.isEmpty = false → q.busy = false → x.2.lastSession = session) ∧
      Protocol uri session o.requestPeriod.toNat es ∧ (x.1 = some (.ok ()) ↔ Completes session es) := by
    simp only [streamImage]
    split
    · rename_i hu
      exact always_pure ⟨fun h => by simp [h] at hu, protocol_nil, nofun, fun h => absurd h hn⟩
    · split
      · rename_i hb
        exact always_pure ⟨fun _ h => by simp [h] at hb, protocol_nil, nofun, fun h => absurd h hn⟩
      · refine (always_orderly hs n (p := q.opened) nofun).bind fun es x hx => always_pure ?_
        rw [List.append_nil]
        exact ⟨fun _ _ => rfl, hx.1.protocol, hx.2⟩
  exact ha.course w

lemma steady_scripted : Steady Scripted.clock where
  before _ := Nat.le_refl _
  after _ := Nat.le_refl _
  request uri session s := by
    simp only [Transport.request, Scripted.answer]
    split <;> exact Nat.le_refl _
  receive wait s := by
    simp only [Transport.receive]
    split
    · exact Nat.le_add_right _ _
    · simp only [Scripted.answer]
      split <;> exact Nat.le_add_right _ _
  status session id st s := by
    simp only [Transport.status, Scripted.answer]
    split <;> exact Nat.le_refl _

/-- A stream that gets stale chunks and its own. It requests once more before the first of its own, and then
never again. -/
theorem streamImage_protocol_stale :
    let es := (briefly staleScript 5).transcript Sink.call (⟨[]⟩ : Buffer)
    Protocol ⟨[0x7a], rfl⟩ 1 100 es ∧ Completes 1 es ∧ es.filterMap requested = [0, 100] := by
  obtain ⟨-, -, -, hp, hc⟩ := streamImage_protocol steady_scripted Sink.call (⟨[]⟩ : Buffer) 5 ⟨[0x7a], rfl⟩
    ⟨500, 100⟩ (ofTransport ⟨0, 0, staleScript, id, [], []⟩ 0)
  exact ⟨hp, hc.mp (by decide +kernel), by decide +kernel⟩

end Requestor

end Firmware
