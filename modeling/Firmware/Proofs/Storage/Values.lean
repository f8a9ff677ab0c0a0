import Firmware.Proofs.Storage.Healthy

namespace Firmware.Storage

open Flash Hash Ram

namespace Store

section Mirrors

variable {δ η : Type}

def plain (s : Store (Journaled δ) η) : Store δ η := ⟨s.device.device, s.engine⟩

lemma mirrors_onDevice {f : EStateM Failure (Journaled δ) Unit} {g : EStateM Failure δ Unit}
    (h : Mirrors Journaled.device f g) : Mirrors plain (onDevice f : EStateM Failure (Store (Journaled δ) η) Unit)
      (onDevice g) :=
  h.onPart (fun _ => rfl) fun _ _ => rfl

lemma mirrors_onEngine {α : Type} (f : EStateM Hash.Error η α) :
    Mirrors plain (onEngine f : EStateM Hash.Error (Store (Journaled δ) η) α) (onEngine f) := by
  have hf : Mirrors id f f := fun e => by
    change f e = _
    cases f e <;> rfl
  exact hf.onPart (fun _ => rfl) fun _ _ => rfl

variable [Engine η]

lemma mirrors_verify (x digest : Bytes) :
    Mirrors plain (verify x digest : EStateM Failure (Store (Journaled δ) η) Bool) (verify x digest) := by
  intro s
  have hs := mirrors_onEngine (δ := δ)
    (do Engine.feed .sha256 [x]; Engine.compare digest : EStateM Hash.Error η Unit) s
  simp only [verify]
  rw [hs]
  cases onEngine (do Engine.feed .sha256 [x]; Engine.compare digest : EStateM Hash.Error η Unit) s with
  | ok u t => rfl
  | error e t => cases e <;> rfl

variable [Flash δ] (l : Layout)

lemma mirrors_readCopy (r : Region) :
    Mirrors plain (readCopy l r : EStateM Failure (Store (Journaled δ) η) (Option Image)) (readCopy l r) := by
  refine .get_bind fun s => .bind (.lift _) fun b => .ite ?_ (.pure _)
  exact .bind (mirrors_verify _ _) fun _ => .pure _

omit [Engine η] in
lemma mirrors_writeCopy (r : Region) (c : Image) :
    Mirrors plain (writeCopy r c : EStateM Failure (Store (Journaled δ) η) Unit) (writeCopy r c) :=
  mirrors_onDevice (Record.mirrors_write r .binary _)

lemma mirrors_commit (x : Bytes) :
    Mirrors plain (commit l x : EStateM Failure (Store (Journaled δ) η) Unit) (commit l x) :=
  .bind (.adaptExcept (mirrors_onEngine _) _) fun _ => .bind (mirrors_writeCopy _ _) fun _ => mirrors_writeCopy _ _

lemma mirrors_getVariable (i : Nat) :
    Mirrors plain (getVariable l i : EStateM Failure (Store (Journaled δ) η) UInt8) (getVariable l i) := by
  refine .bind (.lift _) fun _ => .bind (mirrors_readCopy l _) fun c => ?_
  cases c with
  | some c => exact .pure _
  | none =>
    refine .bind (mirrors_readCopy l _) fun c => ?_
    cases c with
    | some c => exact .pure _
    | none => exact .throw _

lemma mirrors_setVariable (i : Nat) (v : UInt8) :
    Mirrors plain (setVariable l i v : EStateM Failure (Store (Journaled δ) η) Unit) (setVariable l i v) := by
  refine .bind (.lift _) fun _ => .bind (mirrors_readCopy l _) fun c => ?_
  cases c with
  | some c => exact .ite (.pure _) (mirrors_commit l _)
  | none =>
    refine .bind (mirrors_readCopy l _) fun c => ?_
    cases c with
    | some c => exact .throw _
    | none => exact .throw _

lemma mirrors_get (v : Variables) (id : UInt32) :
    Mirrors plain (v.get (bytes l) id : EStateM Failure (Store (Journaled δ) η) UInt32) (v.get (bytes l) id) := by
  refine .bind (.lift _) fun h => ?_
  cases h with
  | platform i => exact .pure _
  | session i => exact .pure _
  | nonVolatile i => exact .bind (mirrors_getVariable l i) fun _ => .pure _

lemma mirrors_set (v : Variables) (id value : UInt32) :
    Mirrors plain (v.set (bytes l) id value : EStateM Failure (Store (Journaled δ) η) Variables)
      (v.set (bytes l) id value) := by
  refine .bind (.lift _) fun h => ?_
  cases h with
  | platform i => exact .pure _
  | session i => exact .pure _
  | nonVolatile i => exact .check (.bind (mirrors_setVariable l i _) fun _ => .pure _)

end Mirrors

end Store

section Values

variable (H : Hash.Algorithm → Bytes → Bytes) (l : Layout)

def Layout.stored (d : Ram) (i : Nat) : Except Failure UInt8 :=
  if i < l.variableCount.toNat then
    match l.current H d with
    | some x => .ok (x.getD i 0xff)
    | none => .error .authentication
  else .error .outOfBounds

variable {H l} {s : Store Ram (Digester H)} {d d' : Ram}

lemma Layout.stored_congr (ha : image l.variableArea d' = image l.variableArea d)
    (hb : image l.variableBackup d' = image l.variableBackup d) : l.stored H d' = l.stored H d := by
  funext i
  simp only [Layout.stored, Layout.current, Layout.copy, ha, hb]

lemma Layout.stored_of_copy {x : Bytes} (h : l.copy H l.variableArea d = some x) (i : Nat) :
    l.stored H d i = if i < l.variableCount.toNat then .ok (x.getD i 0xff) else .error .outOfBounds := by
  rw [Layout.stored, Layout.current, h, Option.some_or]

namespace Store

lemma getVariable_answer (h : l.Valid s.device) (i : Nat) : answer (getVariable l i s) = l.stored H s.device i := by
  cases hc : l.current H s.device with
  | some x =>
    rw [getVariable_run h hc, Layout.stored, hc]
  | none =>
    obtain ⟨e, he⟩ := readCopy_run h.checked_area h.area_fits
    obtain ⟨f, hf⟩ := readCopy_run (s := ⟨s.device, e⟩) h.checked_backup h.backup_fits
    rw [Layout.current, Option.or_eq_none_iff] at hc
    rw [hc.1] at he
    rw [hc.2] at hf
    rw [getVariable, EStateM.bind_run, checkIndex, Layout.stored, Layout.current, hc.1, hc.2]
    by_cases hi : i < l.variableCount.toNat
    · simp only [hi, ↓reduceIte, EStateM.lift_run]
      rw [EStateM.bind_of_ok _ _ _ he]
      dsimp only [Option.map]
      rw [EStateM.bind_of_ok _ _ _ hf]
      rfl
    · simp [hi]

lemma setVariable_refused (h : l.Valid s.device) (hc : l.copy H l.variableArea s.device = none) (i : Nat)
    (v : UInt8) : ∃ e t, setVariable l i v s = .error e t ∧ t.device = s.device := by
  obtain ⟨e, he⟩ := readCopy_run h.checked_area h.area_fits
  obtain ⟨f, hf⟩ := readCopy_run (s := ⟨s.device, e⟩) h.checked_backup h.backup_fits
  rw [hc] at he
  rw [setVariable, EStateM.bind_run, checkIndex]
  by_cases hi : i < l.variableCount.toNat
  · simp only [hi, ↓reduceIte, EStateM.lift_run]
    rw [EStateM.bind_of_ok _ _ _ he]
    dsimp only [Option.map]
    rw [EStateM.bind_of_ok _ _ _ hf]
    cases l.copy H l.variableBackup s.device with
    | some x => exact ⟨_, _, rfl, rfl⟩
    | none => exact ⟨_, _, rfl, rfl⟩
  · exact ⟨.outOfBounds, s, by simp [hi], rfl⟩

lemma setVariable_stored (hH : ∀ x, x.length = l.variableCount.toNat → (H .sha256 x).length = digestLen)
    (h : Working l s.device) (i : Nat) (v : UInt8) :
    (∃ t, setVariable l i v s = .ok () t ∧
        ∀ j, l.stored H t.device j = if j = i then .ok v else l.stored H s.device j) ∨
      ∃ e t, setVariable l i v s = .error e t ∧ t.device = s.device := by
  cases hc : l.copy H l.variableArea s.device with
  | none => exact .inr (setVariable_refused h.valid hc i v)
  | some x =>
    obtain ⟨e, he⟩ := setVariable_run h.valid hc i v
    have hl := length_of_copy h.valid.checked_area h.area hc
    rw [he]
    split
    · rename_i hi
      left
      split
      · rename_i hv
        refine ⟨_, rfl, fun j => ?_⟩
        split
        · rename_i hj
          rw [hj, Layout.stored_of_copy hc, if_pos hi, hv]
        · rfl
      · obtain ⟨t, ht, hx⟩ := commit_healthy (s := ⟨s.device, e⟩) hH h (x := x.set i v)
          (by rw [List.length_set, hl])
        refine ⟨t, ht, fun j => ?_⟩
        rw [Layout.stored_of_copy hx, Layout.stored_of_copy hc]
        by_cases hj : j = i
        · simp [hj, hi, List.getD_eq_getElem?_getD, hl]
        · simp only [hj, ↓reduceIte, List.getD_eq_getElem?_getD, List.getElem?_set_ne (Ne.symm hj)]
    · exact .inr ⟨_, s, rfl, rfl⟩

end Store

end Values

end Firmware.Storage
