import Firmware.Proofs.Flash.Chunking

namespace Firmware.Flash.Writer

variable {δ : Type} [Flash δ]

lemma seek_run (n : Nat) (w : Writer δ) :
    seek n w =
      if n % w.unit ≠ 0 then .error .invalid w
      else if w.region.size < n then .error .outOfBounds w
      else (do pad; modify fun v => { v with offset := n } : EStateM Failure (Writer δ) Unit) w := by
  by_cases h : n % w.unit = 0
  · by_cases hn : n ≤ w.region.size
    · simp [seek, EStateM.bind_run, h, hn, Nat.not_lt.mpr hn]
    · simp [seek, EStateM.bind_run, h, hn, Nat.lt_of_not_le hn]
  · simp [seek, EStateM.bind_run, h]

lemma moves_offset (w : Writer δ) (n : Nat) : Moves w { w with offset := n } := ⟨rfl, rfl, .refl⟩

lemma follows_seek (n : Nat) : Follows Moves (seek n : EStateM Failure (Writer δ) Unit) := by
  intro w
  rw [seek_run]
  split
  · exact refl_of Moves w
  · split
    · exact refl_of Moves w
    · exact Follows.bind follows_pad (fun _ => .modify fun v => moves_offset v n) w

def Brief : SinkCall → Prop
  | .write data => data.length < 0x100000000
  | _ => True

lemma follows_call {c : SinkCall} (hc : Brief c) :
    Follows Moves (Sink.call c : EStateM Failure (Writer δ) Unit) := by
  cases c with
  | write data => exact follows_write hc
  | erase => exact follows_erase
  | seek n => exact follows_seek n
  | flush => exact follows_flush

lemma roams_call (c : SinkCall) : Follows Roams (Sink.call c : EStateM Failure (Writer δ) Unit) := by
  cases c with
  | write data => exact roams_write data
  | erase => exact fun w => (follows_erase w).roams
  | seek n => exact fun w => (follows_seek n w).roams
  | flush => exact fun w => (follows_flush w).roams

structure Bounded (w : Writer δ) : Prop where
  pos : 0 < w.unit
  offset : w.offset ≤ w.region.size
  staged : w.staged.length ≤ w.unit

lemma bounded_programUnits (n : Nat) (data : Bytes) :
    Follows (Maintains Bounded) (programUnits n data : EStateM Failure (Writer δ) Unit) := by
  intro w h
  rw [programUnits_run]
  split
  · exact h
  · rename_i hn
    cases program (w.region.start + w.offset) data w.device with
    | ok u d => exact ⟨h.pos, Nat.not_lt.mp hn, h.staged⟩
    | error e d => exact ⟨h.pos, h.offset, h.staged⟩

lemma bounded_programming {s : Bytes} {w : Writer δ} (hs : s.length ≤ w.unit) (n : Nat) (data : Bytes) :
    Maintains Bounded w (stateAfter ((do
      programUnits n data
      modify fun v => { v with staged := s } : EStateM Failure (Writer δ) Unit) w)) := by
  refine Follows.of_bind (bounded_programUnits n data w) fun _ v hv h => ⟨h.pos, h.offset, ?_⟩
  have hu := unit_programUnits n data w
  rw [hv, stateAfter_ok] at hu
  exact hu ▸ hs

lemma bounded_programStaged :
    Follows (Maintains Bounded) (programStaged : EStateM Failure (Writer δ) Unit) :=
  fun _ => bounded_programming (Nat.zero_le _) _ _

lemma bounded_writeUnits (data : Bytes) :
    Follows (Maintains Bounded) (writeUnits data : EStateM Failure (Writer δ) Unit) := by
  intro w h
  have hs : (data.drop (data.length - data.length % w.unit)).length ≤ w.unit := by
    have := Nat.mod_lt data.length h.pos
    rw [List.length_drop]
    omega
  rw [writeUnits_run]
  split
  · exact bounded_programming hs _ _ h
  · exact ⟨h.pos, h.offset, hs⟩

lemma bounded_write (data : Bytes) :
    Follows (Maintains Bounded) (write data : EStateM Failure (Writer δ) Unit) := by
  intro w
  rw [write_run]
  split
  · exact bounded_writeUnits data w
  · refine Follows.of_bind (fun h => ⟨h.pos, h.offset, ?_⟩) fun _ v _ => ?_
    · have := h.staged
      change (w.staged ++ data.take _).length ≤ w.unit
      rw [List.length_append, List.length_take]
      omega
    · split
      · exact Follows.bind bounded_programStaged (fun _ => bounded_writeUnits _) v
      · exact refl_of (Maintains Bounded) v

lemma bounded_pad : Follows (Maintains Bounded) (pad : EStateM Failure (Writer δ) Unit) :=
  .bind .get fun _ => .ite (.pure _) bounded_programStaged

lemma bounded_seek (n : Nat) : Follows (Maintains Bounded) (seek n : EStateM Failure (Writer δ) Unit) := by
  intro w
  rw [seek_run]
  split
  · exact refl_of (Maintains Bounded) w
  · split
    · exact refl_of (Maintains Bounded) w
    · rename_i hn
      refine Follows.of_bind (bounded_pad w) fun _ v hv h => ⟨h.pos, ?_, h.staged⟩
      have hm : Moves w v := follows_pad.of_ok hv
      exact hm.region ▸ Nat.not_lt.mp hn

lemma bounded_call (c : SinkCall) :
    Follows (Maintains Bounded) (Sink.call c : EStateM Failure (Writer δ) Unit) := by
  cases c with
  | write data => exact bounded_write data
  | erase =>
    intro w h
    change Bounded (stateAfter (erase w))
    rw [erase_run]
    split <;> exact ⟨h.pos, Nat.zero_le _, Nat.zero_le _⟩
  | seek n => exact bounded_seek n
  | flush =>
    refine .bind bounded_pad fun _ w h => ?_
    rw [onDevice, stateAfter_onPart]
    exact ⟨h.pos, h.offset, h.staged⟩

/-- Makes the calls one after the other, whether or not those before succeeded. -/
def attempt (calls : List SinkCall) (w : Writer δ) : Writer δ :=
  calls.foldl (fun w c => stateAfter (Sink.call c w)) w

structure Confined (r : Region) (d : δ) (w : Writer δ) : Prop extends Bounded w where
  roams : Roams ⟨d, r, w.unit, 0, []⟩ w
  unit : w.unit ≤ maxWriteUnit

variable {r : Region} {d : δ} {w : Writer δ}

lemma confined_start (h : start r d = .ok w) : Confined r d w := by
  rw [start] at h
  split at h
  · cases h
  · rename_i hu
    obtain ⟨h0, h1⟩ := not_or.mp hu
    cases h
    exact ⟨⟨Nat.pos_of_ne_zero h0, Nat.zero_le _, Nat.zero_le _⟩, refl_of Roams _, Nat.not_lt.mp h1⟩

lemma confined_call (c : SinkCall) :
    Follows (Maintains (Confined r d)) (Sink.call c : EStateM Failure (Writer δ) Unit) := by
  intro w h
  have hm := roams_call c w
  refine ⟨bounded_call c w h.toBounded, ?_, hm.unit ▸ h.unit⟩
  rw [hm.unit]
  exact trans_of Roams h.roams hm

lemma Confined.attempt (h : Confined r d w) (calls : List SinkCall) : Confined r d (attempt calls w) := by
  induction calls generalizing w with
  | nil => exact h
  | cons c calls ih => exact ih (confined_call c w h)

end Firmware.Flash.Writer
