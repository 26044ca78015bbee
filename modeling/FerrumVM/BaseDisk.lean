import FerrumVM.BaseBytes

/-! A disk as an array of bytes. Operations read and write ranges of it, one after another; a read is
answered with what the writes before it left in its range. -/

namespace Base

inductive DiskOp where
  | read (offset length : Nat)
  | write (offset : Nat) (data : Bytes)
  deriving DecidableEq, Repr

namespace DiskOp

def apply (disk : Bytes) : DiskOp → Bytes
  | .read _ _ => disk
  | .write offset data => splice disk offset data

def answer (disk : Bytes) : DiskOp → Bytes
  | .read offset length => window disk offset length
  | .write _ _ => []

def Inside (size : Nat) : DiskOp → Prop
  | .read offset length => offset + length ≤ size
  | .write offset data => offset + data.length ≤ size

instance (size : Nat) : DecidablePred (Inside size) := fun op =>
  match op with
  | .read _ _ => inferInstanceAs (Decidable (_ ≤ _))
  | .write _ _ => inferInstanceAs (Decidable (_ ≤ _))

theorem length_apply {disk : Bytes} {op : DiskOp} (h : op.Inside disk.length) : (op.apply disk).length = disk.length := by
  cases op with
  | read offset length => rfl
  | write offset data => exact length_splice h

def applyAll (disk : Bytes) (ops : List DiskOp) : Bytes := ops.foldl apply disk

def answers (disk : Bytes) : List DiskOp → List Bytes
  | [] => []
  | op :: ops => op.answer disk :: answers (op.apply disk) ops

variable {disk : Bytes} {ops ops' : List DiskOp}

theorem applyAll_append : applyAll disk (ops ++ ops') = applyAll (applyAll disk ops) ops' := List.foldl_append

theorem answers_append : answers disk (ops ++ ops') = answers disk ops ++ answers (applyAll disk ops) ops' := by
  induction ops generalizing disk with
  | nil => rfl
  | cons op ops ih => exact congrArg (op.answer disk :: ·) ih

theorem length_applyAll (h : ∀ op ∈ ops, op.Inside disk.length) : (applyAll disk ops).length = disk.length := by
  induction ops generalizing disk with
  | nil => rfl
  | cons op ops ih =>
    have hfirst := length_apply (h op List.mem_cons_self)
    refine (ih fun op' hop => ?_).trans hfirst
    rw [hfirst]
    exact h op' (List.mem_cons_of_mem _ hop)

end DiskOp

end Base
