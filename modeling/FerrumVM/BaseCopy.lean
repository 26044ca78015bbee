import FerrumVM.BaseMemory

/-! Copies in flat memory. A copy that goes forward byte by byte repeats the bytes in front of its destination where the
two ranges overlap. What a byte is after a sequence of copies is found by following it back, last copy first, to the
place in the first memory that it comes from. -/

namespace Base

namespace Memory

variable {m : Memory} {dst src a : UInt64} {length : Nat}

def set (m : Memory) (a : UInt64) (v : UInt8) : Memory := fun x => if x = a then v else m x

def memcpy (m : Memory) (dst src : UInt64) (length : Nat) : Memory :=
  (List.range length).foldl (fun m i => m.set (dst + UInt64.ofNat i) (m (src + UInt64.ofNat i))) m

def memset (m : Memory) (dst : UInt64) (v : UInt8) (length : Nat) : Memory :=
  (List.range length).foldl (fun m i => m.set (dst + UInt64.ofNat i) v) m

theorem memcpy_succ (m : Memory) (dst src : UInt64) (n : Nat) : m.memcpy dst src (n + 1) =
      (m.memcpy dst src n).set (dst + UInt64.ofNat n) (m.memcpy dst src n (src + UInt64.ofNat n)) := by
  rw [memcpy, List.range_succ, List.foldl_append]
  rfl

theorem memset_succ (m : Memory) (dst : UInt64) (v : UInt8) (n : Nat) :
    m.memset dst v (n + 1) = (m.memset dst v n).set (dst + UInt64.ofNat n) v := by
  rw [memset, List.range_succ, List.foldl_append]
  rfl

theorem eq_add_ofNat_iff {n : Nat} (h : n < 2 ^ 64) : a = dst + UInt64.ofNat n ↔ (a - dst).toNat = n := by
  have hn : (UInt64.ofNat n).toNat = n := by rw [UInt64.toNat_ofNat', Nat.mod_eq_of_lt h]
  rw [← UInt64.toNat_inj, UInt64.toNat_add, UInt64.toNat_sub, hn]
  have ha := a.toNat_lt
  have hdst := dst.toNat_lt
  omega

/-- **A forward copy.** The bytes from `dst` on repeat those from `src` on with the period `dst - src`. -/
theorem memcpy_apply (h : length ≤ 2 ^ 64) : m.memcpy dst src length a =
      if (a - dst).toNat < length then m (src + UInt64.ofNat ((a - dst).toNat % (dst - src).toNat)) else m a := by
  induction length generalizing a with
  | zero => rfl
  | succ n ih =>
    rw [memcpy_succ, set]
    by_cases hlast : a = dst + UInt64.ofNat n
    · have hoffset := (eq_add_ofNat_iff (by omega)).mp hlast
      have hn : (UInt64.ofNat n).toNat = n := by rw [UInt64.toNat_ofNat', Nat.mod_eq_of_lt (by omega)]
      have hsrc := src.toNat_lt
      have hdst := dst.toNat_lt
      have hperiod := UInt64.toNat_sub dst src
      have hback := UInt64.toNat_sub (src + UInt64.ofNat n) dst
      rw [UInt64.toNat_add, hn] at hback
      rw [if_pos hlast, hoffset, if_pos (Nat.lt_succ_self n), ih (by omega)]
      by_cases hover : 0 < (dst - src).toNat ∧ (dst - src).toNat ≤ n
      · -- The source of this byte was written by the same copy, one period before.
        have hearlier : (src + UInt64.ofNat n - dst).toNat = n - (dst - src).toNat := by omega
        rw [hearlier, if_pos (by omega), ← Nat.mod_eq_sub_mod hover.2]
      · rw [if_neg (by omega)]
        rcases Nat.eq_zero_or_pos (dst - src).toNat with hzero | hpos
        · rw [hzero, Nat.mod_zero]
        · rw [Nat.mod_eq_of_lt (by omega)]
    · have hoffset : (a - dst).toNat ≠ n := mt (eq_add_ofNat_iff (by omega)).mpr hlast
      have hlt : (a - dst).toNat < n + 1 ↔ (a - dst).toNat < n := by omega
      rw [if_neg hlast, ih (by omega)]
      simp only [hlt]

theorem memset_apply (h : length ≤ 2 ^ 64) (v : UInt8) :
    m.memset dst v length a = if (a - dst).toNat < length then v else m a := by
  induction length with
  | zero => rfl
  | succ n ih =>
    rw [memset_succ, set]
    by_cases hlast : a = dst + UInt64.ofNat n
    · have hoffset := (eq_add_ofNat_iff (by omega)).mp hlast
      rw [if_pos hlast, if_pos (by omega)]
    · have hoffset : (a - dst).toNat ≠ n := mt (eq_add_ofNat_iff (by omega)).mpr hlast
      have hlt : (a - dst).toNat < n + 1 ↔ (a - dst).toNat < n := by omega
      rw [if_neg hlast, ih (by omega)]
      simp only [hlt]

end Memory

/-- A range of memory that is written: with a copy of another range, or with zeros. -/
inductive BlockWrite where
  | copy (dst src : UInt64) (length : Nat)
  | zero (dst : UInt64) (length : Nat)
  deriving DecidableEq, Repr

namespace BlockWrite

variable {m : Memory} {log : List BlockWrite} {dst src a : UInt64} {length : Nat}

/-- Where the byte at an address comes from; nowhere if it is set to zero. -/
def source : BlockWrite → UInt64 → Option UInt64
  | copy dst src length, a =>
    if (a - dst).toNat < length then some (src + UInt64.ofNat ((a - dst).toNat % (dst - src).toNat)) else some a
  | zero dst length, a => if (a - dst).toNat < length then none else some a

/-- Follow an address back through blocks that were written, the last one first. -/
def trace : List BlockWrite → UInt64 → Option UInt64
  | [], a => some a
  | block :: earlier, a => (block.source a).bind (trace earlier)

def after (m : Memory) (log : List BlockWrite) : Memory := fun a => (trace log a).elim 0 m

theorem memcpy_after (h : length ≤ 2 ^ 64) :
    (after m log).memcpy dst src length = after m (.copy dst src length :: log) := by
  funext a
  rw [Memory.memcpy_apply h]
  simp only [after, trace, source]
  split_ifs <;> rfl

theorem memset_after (h : length ≤ 2 ^ 64) :
    (after m log).memset dst 0 length = after m (.zero dst length :: log) := by
  funext a
  rw [Memory.memset_apply h]
  simp only [after, trace, source]
  split_ifs <;> rfl

end BlockWrite

end Base
