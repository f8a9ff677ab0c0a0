import Firmware.Processor.Step
import Firmware.Proofs.Stream.Candor

/-!
A payload comes from one source. The integrated payloads come first, then the tiers in order; the first that has the
payload feeds all of it, or fails the search. A sink or a peer that answers `notFound` itself is not told apart from a
source without the payload.
-/

namespace Firmware.Processor.Run

open Feed Flash Manifest

variable {δ θ ω τ : Type} {perform : SinkCall → EStateM Failure ω Unit} {w v u : ω} {es es' : List Happening}
  {r : Except Failure Unit} {ps : Payloads} {uri : Text} {type : ComponentType} {o : StreamOptions}

section Integrated

variable [Source τ] {ts : List τ}

lemma plays_payloadFeed_stop (h : (Source.offer uri o ps).Plays perform w es r v) (hr : r ≠ .error .notFound) :
    (Prod.fst <$> payloadFeed ps type uri o ts).Plays perform w ([] ++ es) r v := by
  obtain ⟨⟨r, p⟩, hf, rfl⟩ := h.of_map
  have hn : (payloadFeed ps type uri o ts).Plays perform w (es ++ []) (r, ts) v := by
    refine hf.bind ?_
    cases r with
    | ok u => exact plays_done _ v
    | error e => cases e <;> first | exact plays_done _ v | exact absurd rfl hr
  rw [List.append_nil] at hn
  exact hn.map Prod.fst

lemma plays_payloadFeed_next (h : (Source.offer uri o ps).Plays perform w es (.error .notFound) v)
    (hn : (Prod.fst <$> Source.fetch uri type o 0 ts).Plays perform v es' r u) :
    (Prod.fst <$> payloadFeed ps type uri o ts).Plays perform w ([] ++ es ++ es') r u := by
  obtain ⟨⟨r, p⟩, hf, rfl⟩ := h.of_map
  obtain ⟨⟨r', ts'⟩, hg, rfl⟩ := hn.of_map
  have hn : (payloadFeed ps type uri o ts).Plays perform w (es ++ es') (r', ts') u := hf.bind hg
  exact hn.map Prod.fst

end Integrated

section Missing

variable {ρ : Type} {t : ρ} {data : Bytes}

lemma declines_missing : Declines perform (Prod.fst <$> (pure (.error .notFound, t) : Feed (Except Failure Unit × ρ))) w :=
  ⟨rfl, silent_nil⟩

lemma not_declines_writing :
    ¬ Declines perform (Prod.fst <$> (do return (← Feed.ask (.write data), t) : Feed (Except Failure Unit × ρ))) w := by
  rintro ⟨-, hs⟩
  change Silent ((Feed.call (.write data) _).transcript perform w) at hs
  rw [Feed.transcript] at hs
  revert hs
  cases perform (.write data) w <;> exact not_silent_call

end Missing

lemma declines_payloads (p : Payloads) : Declines perform (Source.offer uri o p) w ↔ p.items.lookup uri = none := by
  simp only [Source.offer, Source.stream]
  cases p.items.lookup uri with
  | none => simpa using declines_missing
  | some data => simpa using not_declines_writing

lemma declines_cache [Flash δ] (c : Cache δ) :
    Declines perform (Source.offer uri o c) w ↔ c.payload uri = .error .notFound := by
  simp only [Source.offer, Source.stream]
  cases c.payload uri with
  | error e =>
    refine ⟨fun h => congrArg Except.error (Except.error.inj h.missing), fun h => ?_⟩
    cases h
    exact declines_missing
  | ok data => simpa using not_declines_writing

/-- A source ends in `notFound` before it calls the sink, unless the sink or its transport did so last, and fails once
a call was refused. So a search is what the first source does that has the payload, up to its calls on the sink and
its end; a search that passes a source by has not called the sink. -/
theorem payload_single_source [Flash δ] [Transport θ] (perform : SinkCall → EStateM Failure ω Unit) (w : ω)
    (ps : Payloads) (tiers : List (Tier δ θ)) (uri : Text) (type : ComponentType) (o : StreamOptions) (i : Nat) :
    let offers := (tiers.filter (Source.supports · type)).map (Source.offer uri o)
    (∀ f ∈ Source.offer uri o ps :: offers, ∀ v, Candid (f.transcript perform v) (f.outcome perform v).1) ∧
    Searches perform offers (Prod.fst <$> Source.fetch uri type o i tiers) w ∧
    Searches perform (Source.offer uri o ps :: offers) (Prod.fst <$> payloadFeed ps type uri o tiers) w ∧
    (∀ p : Payloads, Declines perform (Source.offer uri o p) w ↔ p.items.lookup uri = none) ∧
    ∀ c : Cache δ, Declines perform (Source.offer uri o c) w ↔ c.payload uri = .error .notFound := by
  intro offers
  have hf (i : Nat) : Searches perform offers (Prod.fst <$> Source.fetch uri type o i tiers) w :=
    Source.searches_fetch perform w uri type o i tiers
  refine ⟨List.forall_mem_cons.mpr ⟨(Source.always_offer uri o ps).course, fun f hf => ?_⟩, hf i, ?_,
    declines_payloads, declines_cache⟩
  · obtain ⟨t, -, rfl⟩ := List.mem_map.mp hf
    exact (Source.always_offer uri o t).course
  · exact .first (p := []) (Source.always_offer uri o ps) silent_nil (fun _ _ _ => plays_payloadFeed_stop)
      (fun _ _ _ _ _ => plays_payloadFeed_next) (hf 0)

/-- A sink that stores what it is given, but answers `notFound` to the first write. -/
def hesitant : SinkCall → EStateM Failure Bytes Unit
  | .write data, s => if s.isEmpty then .error .notFound data else .ok () (s ++ data)
  | _, s => .ok () s

/-- A peer sends a part of the payload and answers `notFound` then, or the sink does when it is first written to. The
search goes on and succeeds with bytes of two sources. -/
theorem payload_mixed :
    let uri : Text := ⟨[0x7a], rfl⟩
    let script : List Incident :=
      [⟨.chunk ⟨0, 0, 0, [1, 2], false⟩ true, fun _ => 10⟩, ⟨.failure .notFound, fun _ => 10⟩]
    let peer : Tier Ram Scripted := .peer (Requestor.ofTransport ⟨0, 0, script, id, [], []⟩ 5)
    let rest : Tier Ram Scripted := .payloads ⟨[(uri, [9])]⟩
    let x := (payloadFeed ⟨[]⟩ .memory uri ⟨500, 100⟩ [peer, rest]).outcome Sink.call (⟨[]⟩ : Buffer)
    let y := (payloadFeed ⟨[(uri, [1, 2])]⟩ .memory uri ⟨500, 100⟩ [rest]).outcome hesitant []
    x.1.1 = .ok () ∧ x.2 = ⟨[1, 2, 9]⟩ ∧ y.1.1 = .ok () ∧ y.2 = [1, 2, 9] := by
  decide +kernel

end Firmware.Processor.Run
