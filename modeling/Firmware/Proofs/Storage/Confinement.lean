import Firmware.Storage.Envelopes
import Firmware.Storage.Flags
import Firmware.Storage.VariableArea
import Firmware.Proofs.Storage.Record

namespace Firmware.Storage

open Flash

variable {δ : Type} [Flash δ] (l : Layout)

lemma follows_writeFlag (f : Option Flag) :
    Follows (Reach (·.Inside l.flags)) (writeFlag l f : EStateM Failure δ Unit) := by
  refine .bind (Record.follows_clear l.flags) fun _ => follows_writing ?_
  cases f with
  | none => exact Writer.follows_flush
  | some f => exact .bind (Writer.follows_write (by simp)) fun _ => Writer.follows_flush

lemma follows_setFlag (f : Flag) :
    Follows (Reach (·.Inside l.flags)) (setFlag l f : EStateM Failure δ Unit) :=
  .bind .get fun _ => .bind (.lift _) fun _ => .ite (.pure _) (follows_writeFlag l _)

def Layout.InVariables (m : Mutation) : Prop := m.Inside l.variableArea ∨ m.Inside l.variableBackup

lemma follows_saveReport (i : Nat) (report : Bytes) :
    Follows (Reach fun m => ∃ r ∈ (l.report i).toOption.toList, m.Inside r)
      (saveReport l i report : EStateM Failure δ Unit) := by
  intro d
  rw [saveReport, EStateM.bind_run]
  cases l.report i with
  | error e => exact refl_of (Reach _) d
  | ok r =>
    exact (Record.follows_save r report d).mono fun m hm => ⟨r, List.mem_singleton_self r, hm⟩

namespace Store

variable {η α : Type} {Q : Mutation → Prop}

def Alters (Q : Mutation → Prop) (s t : Store δ η) : Prop := Reach Q s.device t.device

instance : IsPreorder (Store δ η) (Alters Q) where
  refl s := refl_of (Reach Q) s.device
  trans _ _ _ := trans_of (Reach Q)

lemma follows_onDevice {f : EStateM Failure δ α} (hf : Follows (Reach Q) f) :
    Follows (Alters Q) (onDevice f : EStateM Failure (Store δ η) α) :=
  .onPart hf fun _ _ h => h

lemma follows_onEngine (f : EStateM Hash.Error η α) :
    Follows (Alters Q) (onEngine f : EStateM Hash.Error (Store δ η) α) :=
  .onPart (S := fun _ _ => True) (fun _ => trivial) fun s _ _ => refl_of (Reach Q) s.device

lemma follows_writeCopy (r : Region) (c : Image) (h : ∀ m : Mutation, m.Inside r → Q m) :
    Follows (Alters Q) (writeCopy r c : EStateM Failure (Store δ η) Unit) :=
  follows_onDevice ((Record.follows_write r .binary [c.values, c.digest]).mono fun _ _ => .mono h)

variable [Hash.Engine η]

lemma follows_verify (values digest : Bytes) :
    Follows (Alters Q) (verify values digest : EStateM Failure (Store δ η) Bool) := by
  intro s
  have h := follows_onEngine (Q := Q) (δ := δ)
    (do Hash.Engine.feed .sha256 [values]; Hash.Engine.compare digest : EStateM _ η Unit) s
  simp only [verify]
  revert h
  cases onEngine (do Hash.Engine.feed .sha256 [values]; Hash.Engine.compare digest) s with
  | ok a t => exact id
  | error e t => cases e <;> exact id

lemma follows_readCopy (r : Region) :
    Follows (Alters Q) (readCopy l r : EStateM Failure (Store δ η) (Option Image)) := by
  refine .bind .get fun s => .bind (.lift _) fun b => ?_
  exact .ite (.bind (follows_verify _ _) fun _ => .pure _) (.pure _)

lemma follows_getVariable (i : Nat) :
    Follows (Alters Q) (getVariable l i : EStateM Failure (Store δ η) UInt8) := by
  refine .bind (.lift _) fun _ => .bind (follows_readCopy l _) fun c => ?_
  cases c with
  | some c => exact .pure _
  | none =>
    refine .bind (follows_readCopy l _) fun c => ?_
    cases c with
    | some c => exact .pure _
    | none => exact .throw _

lemma follows_commit (values : Bytes) :
    Follows (Alters l.InVariables) (commit l values : EStateM Failure (Store δ η) Unit) :=
  .bind (.adaptExcept (follows_onEngine _)) fun _ =>
    .bind (follows_writeCopy _ _ fun _ => .inl) fun _ => follows_writeCopy _ _ fun _ => .inr

lemma follows_setVariable (i : Nat) (v : UInt8) :
    Follows (Alters l.InVariables) (setVariable l i v : EStateM Failure (Store δ η) Unit) := by
  refine .bind (.lift _) fun _ => .bind (follows_readCopy l _) fun c => ?_
  cases c with
  | some c => exact .ite (.pure _) (follows_commit l _)
  | none =>
    refine .bind (follows_readCopy l _) fun c => ?_
    cases c <;> exact .throw _

lemma follows_get (v : Variables) (id : UInt32) :
    Follows (Alters Q) (v.get (bytes l) id : EStateM Failure (Store δ η) UInt32) := by
  refine .bind (.lift _) fun h => ?_
  cases h with
  | platform i => exact .pure _
  | session i => exact .pure _
  | nonVolatile i => exact .bind (follows_getVariable l i) fun _ => .pure _

lemma follows_set (v : Variables) (id value : UInt32) :
    Follows (Alters l.InVariables)
      (v.set (bytes l) id value : EStateM Failure (Store δ η) Variables) := by
  refine .bind (.lift _) fun h => ?_
  cases h with
  | platform i => exact .pure _
  | session i => exact .pure _
  | nonVolatile i =>
    exact .check (.bind (follows_setVariable l i _) fun _ => .pure _)

variable {l} {d d' : δ}

lemma readCopy_congr {r : Region}
    (h : read r.start l.variableRecordLen d' = read r.start l.variableRecordLen d) (e : η) :
    readCopy l r ⟨d', e⟩ =
      match readCopy l r ⟨d, e⟩ with
      | .ok c s => .ok c ⟨d', s.engine⟩
      | .error f s => .error f ⟨d', s.engine⟩ := by
  rw [readCopy, EStateM.bind_run, EStateM.bind_run, EStateM.get_run, EStateM.get_run]
  dsimp only
  rw [h, EStateM.bind_run, EStateM.bind_run]
  cases read r.start l.variableRecordLen d with
  | error f => rfl
  | ok b =>
    simp only [Except.mapError, EStateM.lift_run]
    split
    · rw [EStateM.bind_run, EStateM.bind_run]
      simp only [verify, onEngine, onPart]
      cases (do
        Hash.Engine.feed .sha256 [((b.drop Record.headLen).splitAt l.variableCount.toNat).1]
        Hash.Engine.compare ((b.drop Record.headLen).splitAt l.variableCount.toNat).2 :
        EStateM Hash.Error η Unit) e with
      | ok u e => rfl
      | error f e => cases f <;> rfl
    · rfl

lemma getVariable_congr
    (ha : read l.variableArea.start l.variableRecordLen d' =
      read l.variableArea.start l.variableRecordLen d)
    (hb : read l.variableBackup.start l.variableRecordLen d' =
      read l.variableBackup.start l.variableRecordLen d) (i : Nat) (e : η) :
    answer (getVariable l i ⟨d', e⟩) = answer (getVariable l i ⟨d, e⟩) := by
  rw [getVariable, EStateM.bind_run, EStateM.bind_run]
  cases checkIndex l i with
  | error f => rfl
  | ok u =>
    simp only [EStateM.lift_run]
    rw [EStateM.bind_run, EStateM.bind_run, readCopy_congr ha]
    have hd := (follows_readCopy (Q := fun _ => False) l l.variableArea (⟨d, e⟩ : Store δ η))
    cases hr : readCopy l l.variableArea ⟨d, e⟩ with
    | error f s => rfl
    | ok c s =>
      cases c with
      | some c => rfl
      | none =>
        rw [hr] at hd
        obtain ⟨f, k⟩ := s
        cases hd.eq
        dsimp only
        rw [EStateM.bind_run, EStateM.bind_run, readCopy_congr hb]
        cases readCopy l l.variableBackup ⟨d, k⟩ with
        | error f s => rfl
        | ok c s => cases c <;> rfl

end Store

end Firmware.Storage
