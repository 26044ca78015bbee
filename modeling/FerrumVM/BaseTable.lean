import FerrumVM.BaseBytes

/-! Byte tables that are filled field by field and closed with a checksum: a table is a byte string, a field
is written by copying bytes over one of its ranges, and the checksum is a byte that makes all bytes sum to
zero modulo 256. -/

namespace Base

variable {fields : List TableField}

/-! ### Fields -/

/-- A field to write: where it starts, where it stops, and its bytes. -/
abbrev TableField := Nat × Nat × Bytes

def putField (table : Bytes) (field : TableField) : Exec Bytes := copySlice table field.1 field.2.1 field.2.2

def putFields (table : Bytes) (fields : List TableField) : Exec Bytes := fields.foldlM putField table

/-- The range from `start` on is not touched by the field. -/
def TableField.Misses (start length : Nat) (field : TableField) : Prop := start + length ≤ field.1 ∨ field.2.1 ≤ start

/-- Fields between two offsets, in ascending order and without overlaps, each with as many bytes as its range. -/
def Ascending (start stop : Nat) : List TableField → Prop
  | [] => start ≤ stop
  | field :: fields => start ≤ field.1 ∧ field.1 + field.2.2.length = field.2.1 ∧ Ascending field.2.1 stop fields

theorem Ascending.le {start stop : Nat} (h : Ascending start stop fields) : start ≤ stop := by
  induction fields generalizing start with
  | nil => exact h
  | cons field fields ih =>
    obtain ⟨hstart, hbytes, hrest⟩ := h
    have hle := ih hrest
    omega

theorem Ascending.append {start mid stop : Nat} {before after : List TableField} (hbefore : Ascending start mid before)
    (hafter : Ascending mid stop after) : Ascending start stop (before ++ after) := by
  induction before generalizing start with
  | nil =>
    cases after with
    | nil => exact Nat.le_trans hbefore hafter
    | cons field fields => exact ⟨Nat.le_trans hbefore hafter.1, hafter.2⟩
  | cons field fields ih => exact ⟨hbefore.1, hbefore.2.1, ih hbefore.2.2⟩

theorem Ascending.mem {start stop : Nat} (h : Ascending start stop fields) {field : TableField}
    (hfield : field ∈ fields) : start ≤ field.1 ∧ field.1 + field.2.2.length = field.2.1 ∧ field.2.1 ≤ stop := by
  induction fields generalizing start with
  | nil => cases hfield
  | cons first fields ih =>
    obtain ⟨hstart, hbytes, hrest⟩ := h
    obtain rfl | hmem := List.mem_cons.mp hfield
    · exact ⟨hstart, hbytes, hrest.le⟩
    · have hin := ih hrest hmem
      omega

theorem putField_of_fits {table : Bytes} {field : TableField} (hbytes : field.1 + field.2.2.length = field.2.1)
    (hstop : field.2.1 ≤ table.length) : putField table field = .ok (splice table field.1 field.2.2) :=
  if_pos ⟨by omega, hstop, by omega⟩

structure FieldsWritten (table : Bytes) (fields : List TableField) (out : Bytes) : Prop where
  length : out.length = table.length
  read : ∀ field ∈ fields, window out field.1 field.2.2.length = field.2.2
  untouched : ∀ start length, (∀ field ∈ fields, field.Misses start length) →
    window out start length = window table start length

theorem putFields_of_ascending (table : Bytes) {start stop : Nat}
    (h : Ascending start stop fields) (hstop : stop ≤ table.length) :
    ∃ out, putFields table fields = .ok out ∧ FieldsWritten table fields out := by
  induction fields generalizing table start with
  | nil => exact ⟨table, rfl, rfl, nofun, fun _ _ _ => rfl⟩
  | cons field fields ih =>
    obtain ⟨hstart, hbytes, hrest⟩ := h
    have hin : field.2.1 ≤ table.length := Nat.le_trans hrest.le hstop
    have hlength : (splice table field.1 field.2.2).length = table.length := length_splice (by omega)
    obtain ⟨out, hout, hwritten⟩ := ih (splice table field.1 field.2.2) hrest (by omega)
    have hrun : putFields table (field :: fields) = .ok out := by
      rw [putFields, List.foldlM_cons, putField_of_fits hbytes hin]
      exact hout
    refine ⟨out, hrun, hwritten.length.trans hlength, ?_, fun start length hmiss => ?_⟩
    · rintro f hf
      obtain rfl | hmem := List.mem_cons.mp hf
      · -- The later fields start where this one stops.
        rw [hwritten.untouched _ _ fun g hg => .inl (by have := (hrest.mem hg).1; omega)]
        exact window_splice_self (by omega)
      · exact hwritten.read f hmem
    · rw [hwritten.untouched start length fun f hf => hmiss f (List.mem_cons_of_mem _ hf)]
      have hmissed := hmiss field List.mem_cons_self
      rw [TableField.Misses] at hmissed
      exact window_splice_of_disjoint (by omega) (by omega)

section

variable {α : Type} {f : α → Bytes} {width : Nat} (hwidth : ∀ x, (f x).length = width)
include hwidth

theorem length_flatMap_of_width (xs : List α) : (xs.flatMap f).length = width * xs.length := by
  induction xs with
  | nil => rfl
  | cons x xs ih => rw [List.flatMap_cons, List.length_append, ih, hwidth, List.length_cons, Nat.mul_succ, Nat.add_comm]

theorem window_flatMap {xs : List α}
    {i : Nat} (hi : i < xs.length) : window (xs.flatMap f) (width * i) width = f xs[i] := by
  induction xs generalizing i with
  | nil => simp at hi
  | cons x xs ih =>
    rw [List.flatMap_cons]
    cases i with
    | zero =>
      rw [Nat.mul_zero]
      exact window_append [] rfl (f x) (hwidth x) _
    | succ i =>
      have hin : i < xs.length := by simpa using hi
      have hdrop : (f x ++ xs.flatMap f).drop (width * (i + 1)) = (xs.flatMap f).drop (width * i) := by
        rw [Nat.mul_succ, Nat.add_comm, ← List.drop_drop, List.drop_left' (hwidth x)]
      rw [window, hdrop]
      exact ih hin

end

/-! ### Checksums -/

def byteSum (bs : Bytes) : UInt8 := bs.foldl (fun sum byte => sum + byte) 0

theorem foldl_add_eq (bs : Bytes) (start : UInt8) :
    bs.foldl (fun sum byte => sum + byte) start = start + byteSum bs := by
  unfold byteSum
  induction bs generalizing start with
  | nil => simp
  | cons b bs ih => rw [List.foldl_cons, List.foldl_cons, ih, ih (0 + b), UInt8.zero_add, UInt8.add_assoc]

theorem byteSum_append (front back : Bytes) : byteSum (front ++ back) = byteSum front + byteSum back := by
  rw [byteSum, List.foldl_append, foldl_add_eq back]
  rfl

theorem byteSum_splice {table : Bytes} {at' : Nat} (h : window table at' 1 = [0]) (b : UInt8) :
    byteSum (splice table at' [b]) = byteSum table + b := by
  have hdrop : table.drop at' = [0] ++ table.drop (at' + 1) := by
    rw [← h, window, ← List.drop_drop, List.take_append_drop]
  have hsplit : table = table.take at' ++ ([0] ++ table.drop (at' + 1)) := by
    rw [← hdrop, List.take_append_drop]
  rw [splice, List.append_assoc, byteSum_append, byteSum_append]
  conv_rhs => rw [hsplit, byteSum_append, byteSum_append]
  simp only [byteSum, List.length_singleton, List.foldl_cons, List.foldl_nil, UInt8.zero_add]
  rw [UInt8.add_assoc, UInt8.add_comm b]

theorem putField_neg {table : Bytes} {at' : Nat} (h : window table at' 1 = [0]) :
    ∃ out, putField table (at', at' + 1, [-byteSum table]) = .ok out ∧ out.length = table.length ∧ byteSum out = 0 ∧
      ∀ start length, start + length ≤ at' ∨ at' + 1 ≤ start → window out start length = window table start length := by
  have hin : at' + 1 ≤ table.length := by
    by_contra hout
    have hlength := congrArg List.length h
    simp only [window, List.length_take, List.length_drop, List.length_singleton] at hlength
    omega
  refine ⟨splice table at' [-byteSum table], putField_of_fits rfl hin, length_splice hin, ?_, fun start length hmiss => ?_⟩
  · rw [byteSum_splice h, UInt8.add_right_neg]
  · exact window_splice_of_disjoint hin (by simpa using hmiss)

end Base
