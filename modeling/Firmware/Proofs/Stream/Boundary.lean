import Firmware.Proofs.Flash.Seeking
import Firmware.Proofs.Stream.Delivery
import Firmware.Proofs.Stream.Turn

namespace Firmware

namespace Flash

def Mutation.stop : Mutation → Nat
  | program address data => address + data.length
  | erase address len => address + len
  | flush => 0

lemma Mutation.Inside.stop_le {r : Region} {m : Mutation} (h : m.Inside r) : m.stop ≤ r.stop := by
  cases m with
  | program address data => exact h.2
  | erase address len => exact h.2
  | flush => exact Nat.zero_le _

lemma Journaled.entries_of_reach {δ : Type} [Flash δ] {P : Mutation → Prop} {j j' : Journaled δ}
    (h : Reach P j j') :
    Reach P j.device j'.device ∧ ∃ es, j'.entries = j.entries ++ es ∧
      ∀ e ∈ es, ∃ m d, P m ∧ Reach P j.device d ∧ e = entryOf m d := by
  induction h with
  | refl => exact ⟨.refl, [], (List.append_nil _).symm, List.forall_mem_nil _⟩
  | @tail j' _ _ hs ih =>
    obtain ⟨m, hm, rfl⟩ := hs
    obtain ⟨hr, es, he, hp⟩ := ih
    rw [Journaled.stateAfter_perform]
    refine ⟨hr.tail ⟨m, hm, rfl⟩, es ++ [Journaled.entryOf m j'.device], ?_, ?_⟩
    · rw [he, List.append_assoc]
    · rw [List.forall_mem_append, List.forall_mem_singleton]
      exact ⟨hp, m, j'.device, hm, hr, rfl⟩

namespace Writer

open Ram

def Untouched (r : Region) (d : Ram) (w : Writer Ram) : Prop :=
  w.device.contents = d.contents.take r.start ++ image r w.device ++ d.contents.drop r.stop

lemma Confined.untouched {r : Region} {d : Ram} {w : Writer Ram} (h : Confined r d w) (hs : Sized d)
    (hr : r.stop ≤ d.contents.length) : Untouched r d w :=
  contents_of_reach (h.roams.moves hs).reach hr

/-- What a writer has called its device with lies inside of a region and within 32 bits, and so does what it
stands at, or it is too long to be counted and the device has refused it. A whole unit is staged if it could
not be programmed. -/
structure Narrow {δ : Type} (r : Region) (w : Writer (Journaled δ)) : Prop where
  calls : ∀ e ∈ w.device.entries, e.mutation.Inside r ∧ e.mutation.stop < 0x100000000 ∨
    e.mutation.Long ∧ e.failure = some .outOfRange
  address : r.start + w.offset < 0x100000000
  position : w.staged.length < w.unit → r.start + w.position < 0x100000000

lemma Confined.narrow {r : Region} {d : Ram} {w : Writer (Journaled Ram)} (h : Confined r ⟨d, []⟩ w)
    (hs : Sized d) (hr : r.stop + maxWriteUnit ≤ 0x100000000) : Narrow r w := by
  have hg : w.region = r := h.roams.region
  have ho : w.offset ≤ r.size := hg ▸ h.offset
  have hu := h.unit
  rw [maxWriteUnit] at hr hu
  obtain ⟨-, es, he, hp⟩ := Journaled.entries_of_reach h.roams.reach
  refine ⟨fun e hm => ?_, ?_, fun hs => ?_⟩
  · rw [he, List.nil_append] at hm
    obtain ⟨m, d', hi | hl, hd, rfl⟩ := hp e hm
    · have hi : m.Inside r := hi
      exact .inl ⟨hi, Nat.lt_of_le_of_lt hi.stop_le (by omega)⟩
    · refine .inr ⟨hl, ?_⟩
      rw [Journaled.entryOf, perform_long ((alike_of_reach hd).sized hs) hl]
  · rw [Region.stop] at hr
    omega
  · rw [Region.stop] at hr
    rw [Writer.position]
    omega

end Writer

end Flash

namespace Feed

lemma keeps_of_calls {α ω : Type} [Sink ω] {I : ω → Prop}
    (h : ∀ c, Follows (Maintains I) (Sink.call c : EStateM Failure ω Unit)) (f : Feed α) {w : ω} (hw : I w) :
    f.Keeps I (fun _ _ => True) w := by
  induction f generalizing w with
  | done a => exact ⟨hw, trivial⟩
  | note n next ih => exact ih hw
  | call c next ih =>
    have hc := h c w hw
    rw [Keeps]
    refine ⟨hw, ?_⟩
    revert hc
    cases Sink.call c w with
    | ok u v => exact ih _
    | error e v => exact ih _

end Feed

open Feed Flash

namespace Requestor

variable {θ : Type} [Transport θ] {p : Progress θ} {es : List Happening} {x : Outcome × Progress θ}

lemma Handles.position_lt {session : UInt32} {c : Chunk} (h : Handles session c p es x)
    (hp : p.position < 0x100000000) : x.2.position < 0x100000000 := by
  cases h with
  | foreign _ hr => exact hr.position ▸ hp
  | written _ hw hr =>
    rw [hr.position]
    cases hw with
    | written hs => exact hs
  | failed _ _ hr => exact hr.position ▸ hp

lemma Turns.position_lt {uri : Text} {session : UInt32} {o : StreamOptions} (h : Turns uri session o p es x)
    (hp : p.position < 0x100000000) : x.2.position < 0x100000000 := by
  cases h with
  | late _ => exact hp
  | unsent _ _ ha => exact ha.position ▸ hp
  | broken _ _ ha _ => exact ha.position ▸ hp
  | idle _ _ ha _ => exact ha.position ▸ hp
  | heard _ _ ha _ hh => exact hh.position_lt (ha.position ▸ hp)

end Requestor

open Requestor Writer

/-- A writer gets into a state by calls, whether or not they succeed, and by streams from peers, whatever they
do. What is streamed may stop anywhere. -/
inductive Fed {δ : Type} [Flash δ] (w : Writer δ) : Writer δ → Prop
  | start : Fed w w
  | calls {v : Writer δ} (calls : List SinkCall) : Fed w v → Fed w (attempt calls v)
  | stream {v v' : Writer δ} {θ : Type} [Transport θ] (n : Nat) (uri : Text) (o : StreamOptions) (q : Requestor θ) :
      Fed w v → v' ∈ (streamImage n uri o q).visits v → Fed w v'

lemma Fed.confined {δ : Type} [Flash δ] {r : Region} {d : δ} {w v : Writer δ} (h : Fed w v)
    (hw : Confined r d w) : Confined r d v := by
  induction h with
  | start => exact hw
  | calls calls _ ih => exact ih.attempt calls
  | stream n uri o q _ hv ih => exact (keeps_of_calls confined_call _ ih).visits _ hv

/-- No calls on a writer and no peer change a byte outside of its region. If the region ends far enough below
the last address, no offset takes more than 32 bits on the way. The device has to be one that can tell its
size: on a larger one, a slice that is too long to be counted is programmed wherever it gets to. -/
theorem region_bounds_streams {r : Region} {d : Ram} {w : Writer Ram} (hs : Sized d)
    (hr : r.stop ≤ d.contents.length) (hw : Writer.start r d = .ok w) :
    (∀ v, Fed w v → Untouched r d v) ∧
      (r.stop + maxWriteUnit ≤ 0x100000000 →
        (∀ j v : Writer (Journaled Ram), Writer.start r ⟨d, []⟩ = .ok j → Fed j v → Narrow r v) ∧
        ∀ {θ ω : Type} [Transport θ] [Sink ω] (uri : Text) (session : UInt32) (o : StreamOptions) (n : Nat)
          (p : Progress θ) (s : ω), p.position < 0x100000000 →
            ((steps uri session o n p).outcome Sink.call s).1.2.position < 0x100000000) := by
  refine ⟨fun v hv => (hv.confined (confined_start hw)).untouched hs hr, fun hn => ⟨fun j v hj hv => ?_, ?_⟩⟩
  · exact (hv.confined (confined_start hj)).narrow hs hn
  · intro θ ω _ _ uri session o n p s hp
    exact (always_steps_of (fun _ _ _ hp h => h.position_lt hp) n hp).course s

def middle : Region := ⟨4, 8⟩

def middleRam : Ram := Ram.ofBytes (List.replicate 16 0x77) 4 4

/-- A peer that sends a chunk to the end of the address space. -/
def farPeer : Requestor Scripted :=
  ofTransport ⟨0, 0, [⟨.chunk ⟨0, 0, 0xfffffff0, List.replicate 32 0, true⟩ true, fun _ => 0⟩], id, [], []⟩ 0

/-- The second call aims behind the region, the last one does not fit, and then a chunk comes that does not end
within 32 bits. -/
theorem region_bounds_streams_far :
    let calls := [.write [1, 2, 3], .seek 0xfffffffc, .seek 8, .write [4, 5, 6, 7, 8]]
    let w : Writer Ram := ⟨middleRam, middle, 4, 0, []⟩
    let stream := streamImage 1 ⟨[0x7a], rfl⟩ ⟨500, 100⟩ farPeer
    (attempt calls w).device.contents = List.replicate 4 0x77 ++ [1, 2, 3, 0x77] ++ List.replicate 8 0x77 ∧
      (stream.into (attempt calls w)).1.1 = some (.error .outOfBounds) ∧
      (∀ v ∈ stream.visits (attempt calls w), Untouched middle middleRam v) ∧
      Narrow middle (attempt calls (⟨⟨middleRam, []⟩, middle, 4, 0, []⟩ : Writer (Journaled Ram))) := by
  intro calls w stream
  obtain ⟨hv, hn⟩ := region_bounds_streams (r := middle) (d := middleRam) (w := w) ⟨16, rfl⟩ (by decide) rfl
  refine ⟨by decide +kernel, by decide +kernel, fun v hm => hv v ?_, ?_⟩
  · exact .stream 1 _ _ farPeer (.calls calls .start) hm
  · exact (hn (by decide)).1 _ _ rfl (.calls calls .start)

end Firmware
