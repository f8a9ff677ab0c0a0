import Firmware.Stream.Tier
import Mathlib.Tactic.Lemma

/-!
Sources heed sinks that only take writes. Once such a sink has refused a call, the stream fails, unless
the sink answers that it has not found something, which is what a source without the payload answers.
-/

namespace Firmware

namespace Feed

variable {α β : Type} {P : α → Prop} {Q : β → Prop}

def Ends (P : α → Prop) : Feed α → Prop
  | done a => P a
  | note _ next => next.Ends P
  | call _ next => ∀ r, (next r).Ends P

/-- A feed writes and seeks, and ends in `P` once it was refused that. What it does when it may seek is
left open: a digest never seeks, so under one that is not seen. -/
def Heeds (P : α → Prop) : Feed α → Prop
  | done _ => True
  | note _ next => next.Heeds P
  | call (.write _) next =>
    (next (.ok ())).Heeds P ∧ (next (.error .notFound)).Heeds P ∧
      ∀ e, e ≠ .notFound → (next (.error e)).Ends P
  | call (.seek _) next => ∀ e, (next (.error e)).Ends P
  | call .erase _ | call .flush _ => False

lemma Ends.bind {f : Feed α} {g : α → Feed β} (hf : f.Ends P) (hg : ∀ a, P a → (g a).Ends Q) :
    (f >>= g).Ends Q := by
  change (f.bind g).Ends Q
  induction f with
  | done a => exact hg a hf
  | note n next ih => exact ih hf
  | call c next ih => exact fun r => ih r (hf r)

lemma Ends.run {ω : Type} {f : Feed α} (hf : f.Ends P) (perform : SinkCall → EStateM Failure ω Unit)
    (observe : Note → ω → ω) (w : ω) : P (f.run perform observe w).1 := by
  induction f generalizing w with
  | done a => exact hf
  | note n next ih => exact ih hf _
  | call c next ih =>
    rw [Feed.run]
    cases perform c w with
    | ok u w => exact ih _ (hf _) w
    | error e w => exact ih _ (hf _) w

lemma ends_true (f : Feed α) : f.Ends fun _ => True := by
  induction f with
  | done a => trivial
  | note n next ih => exact ih
  | call c next ih => exact ih

lemma Heeds.bind {f : Feed α} {g : α → Feed β} (hf : f.Heeds P) (he : ∀ a, P a → (g a).Ends Q)
    (hg : ∀ a, (g a).Heeds Q) : (f >>= g).Heeds Q := by
  change (f.bind g).Heeds Q
  induction f with
  | done a => exact hg a
  | note n next ih => exact ih hf
  | call c next ih =>
    cases c with
    | write data =>
      obtain ⟨ho, hn, hr⟩ := hf
      exact ⟨ih _ ho, ih _ hn, fun e hne => (hr e hne).bind he⟩
    | seek n => exact fun e => (hf e).bind he
    | erase | flush => cases hf

lemma Heeds.andThen {f : Feed α} {g : α → Feed β} (hf : f.Heeds fun _ => False)
    (hg : ∀ a, (g a).Heeds Q) : (f >>= g).Heeds Q :=
  hf.bind (fun _ h => h.elim) hg

lemma heeds_write {g : Except Failure Unit → Feed α} (data : Bytes)
    (he : ∀ e, e ≠ .notFound → (g (.error e)).Ends P) (hg : ∀ r, (g r).Heeds P) :
    (ask (.write data) >>= g).Heeds P :=
  ⟨hg _, hg _, he⟩

lemma heeds_seek {g : Except Failure Unit → Feed α} (n : Nat) (he : ∀ e, (g (.error e)).Ends P) :
    (ask (.seek n) >>= g).Heeds P :=
  he

end Feed

open Feed Manifest

/-- A stream that ended like this ends the search for its payload, and fails it. -/
def Stops : Except Failure Unit → Prop
  | .ok _ => False
  | .error e => e ≠ .notFound

class Heeding (τ : Type) [Source τ] : Prop where
  heeds : ∀ (t : τ) uri o, (Source.stream t uri o).Heeds fun x => Stops x.1

instance : Heeding Payloads where
  heeds p uri o := by
    simp only [Source.stream]
    cases p.items.lookup uri with
    | none => trivial
    | some data => exact heeds_write data (fun _ he => he) fun _ => trivial

instance {δ : Type} [Flash δ] : Heeding (Cache δ) where
  heeds c uri o := by
    simp only [Source.stream]
    cases c.payload uri with
    | error e => trivial
    | ok data => exact heeds_write data (fun _ he => he) fun _ => trivial

namespace Requestor

variable {θ : Type} [Transport θ]

lemma heeds_writeChunk (c : Chunk) (position : Nat) :
    (writeChunk c position).Heeds fun r => ∃ e, r = .error e := by
  simp only [writeChunk]
  split
  · trivial
  split
  · trivial
  split
  · split
    · trivial
    · exact heeds_write _ (fun e _ => ⟨e, rfl⟩) fun r => by cases r <;> trivial
  · exact heeds_seek _ fun e => ⟨e, rfl⟩

def Refused {ρ : Type} (x : Outcome × ρ) : Prop := ∃ r ∈ x.1, Stops r

lemma heeds_report {P : Outcome × Progress θ → Prop} (session id : UInt32) (s : ChunkStatus) (last : Bool)
    (p : Progress θ) : (report session id s last p).Heeds P := by
  refine Heeds.andThen trivial fun (r, t) => ?_
  cases r <;> trivial

lemma stops_sinkFailure (e : Failure) : Stops (.error (sinkFailure e)) := by
  cases e <;> simp [Stops, sinkFailure]

lemma heeds_handle (session : UInt32) (c : Chunk) (p : Progress θ) :
    (handle session c p).Heeds Refused := by
  simp only [handle]
  split
  · exact heeds_report ..
  · refine (heeds_writeChunk _ _).bind ?_ fun r => ?_
    · rintro _ ⟨e, rfl⟩
      exact (ends_true _).bind fun _ _ => ⟨_, rfl, stops_sinkFailure e⟩
    · cases r with
      | ok n => exact heeds_report ..
      | error e => exact (heeds_report ..).andThen fun _ => trivial

lemma heeds_requestIfDue {P : Except Failure Nat × Progress θ → Prop} (uri : Text) (session : UInt32)
    (period now wait : Nat) (p : Progress θ) :
    (requestIfDue uri session period now wait p).Heeds P := by
  simp only [requestIfDue]
  split
  · trivial
  split
  · refine Heeds.andThen trivial fun (r, t) => ?_
    cases r <;> trivial
  · trivial

lemma heeds_step (uri : Text) (session : UInt32) (o : StreamOptions) (p : Progress θ) :
    (step uri session o p).Heeds Refused := by
  simp only [step]
  split
  · trivial
  refine (heeds_requestIfDue ..).andThen fun (r, p) => ?_
  cases r with
  | error e => trivial
  | ok wait =>
    refine Heeds.andThen trivial fun (r, t) => ?_
    cases r with
    | error e => trivial
    | ok c =>
      cases c with
      | none => trivial
      | some c => exact heeds_handle session c _

lemma heeds_steps (uri : Text) (session : UInt32) (o : StreamOptions) (n : Nat) (p : Progress θ) :
    (steps uri session o n p).Heeds Refused := by
  induction n generalizing p with
  | zero => trivial
  | succ n ih =>
    refine (heeds_step uri session o p).bind ?_ fun (r, p) => ?_
    · rintro ⟨_, p⟩ ⟨r, rfl, hr⟩
      exact ⟨r, rfl, hr⟩
    · cases r with
      | none => exact ih p
      | some r => trivial

instance : Heeding (Requestor θ) where
  heeds q uri o := by
    simp only [Source.stream, streamImage]
    split
    · trivial
    split
    · trivial
    refine Heeds.bind (P := Refused) ((heeds_steps uri _ o q.patience _).bind (fun _ h => h) fun _ => trivial)
      ?_ fun _ => trivial
    rintro ⟨_, q⟩ ⟨r, rfl, hr⟩
    exact hr

end Requestor

instance {δ θ : Type} [Flash δ] [Transport θ] : Heeding (Tier δ θ) where
  heeds t uri o := by
    have hs {σ : Type} [Source σ] [Heeding σ] (wrap : σ → Tier δ θ) (s : σ) :
        (Tier.streaming wrap s uri o).Heeds fun x => Stops x.1 :=
      (Heeding.heeds s uri o).bind (fun _ h => h) fun _ => trivial
    cases t with
    | payloads p => exact hs _ p
    | cache c => exact hs _ c
    | peer q => exact hs _ q

namespace Source

variable {τ : Type} [Source τ] [Heeding τ]

lemma heeds_fetch (uri : Text) (type : ComponentType) (o : StreamOptions) (i : Nat) (ts : List τ) :
    (fetch uri type o i ts).Heeds fun x => Stops x.1 := by
  induction ts generalizing i with
  | nil => trivial
  | cons t ts ih =>
    simp only [fetch]
    refine Heeds.andThen trivial fun _ => ?_
    split
    · refine Heeds.andThen trivial fun _ => ?_
      refine (Heeding.heeds t uri o).bind ?_ ?_
      · rintro ⟨r, t⟩ hr
        cases r with
        | ok u => cases hr
        | error e =>
          cases e with
          | notFound => exact absurd rfl hr
          | _ => exact hr
      · rintro ⟨r, t⟩
        cases r with
        | ok u => trivial
        | error e =>
          cases e with
          | notFound => exact (ih (i + 1)).bind (fun _ h => h) fun _ => trivial
          | _ => trivial
    · exact (ih (i + 1)).bind (fun _ h => h) fun _ => trivial

end Source

end Firmware
