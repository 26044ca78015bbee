import Mathlib.Algebra.Group.Nat.Defs
import Mathlib.Tactic.Common

/-! Computations that may panic, as a debug build of a systems language runs them: an arithmetic
operation that leaves its type panics, and so do an index or a slice out of range, an `unwrap` of
nothing and an allocation longer than the address space allows. Running out of fuel is kept apart
from panicking, so that a loop that does not end is not mistaken for one that crashes. -/

namespace Base

/-- Why a computation panicked. -/
inductive Panic where
  | overflow
  | bounds
  | unwrap
  | capacity
  | message (text : String)
  deriving DecidableEq, Repr

/-- Why a computation did not return. -/
inductive Fault where
  | panic (why : Panic)
  | outOfFuel
  deriving DecidableEq, Repr

abbrev Exec := Except Fault

/-- The longest allocation, `isize::MAX` bytes. -/
def isizeMax : Nat := 2 ^ 63 - 1

namespace Exec

variable {α β : Type} {x : Exec α}

@[simp] theorem ok_bind (a : α) (f : α → Exec β) : (Except.ok a >>= f : Exec β) = f a := rfl

@[simp] theorem error_bind (e : Fault) (f : α → Exec β) : ((Except.error e : Exec α) >>= f : Exec β) = .error e := rfl

@[simp] theorem pure_eq (a : α) : (pure a : Exec α) = .ok a := rfl

theorem exists_ok (h : x.isOk = true) : ∃ a, x = .ok a := by
  cases x with
  | error e => cases h
  | ok a => exact ⟨a, rfl⟩

theorem bind_eq_ok {f : α → Exec β} {b : β} : (x >>= f) = .ok b ↔ ∃ a, x = .ok a ∧ f a = .ok b := by
  cases x with
  | error e => simp
  | ok a => simp

end Exec

/-! ### Checked arithmetic

`u64` operands are `UInt64`; `usize` operands, which are lengths and offsets, are naturals below
`2 ^ 64`. -/

def addU64 (a b : UInt64) : Exec UInt64 :=
  if a.toNat + b.toNat < 2 ^ 64 then .ok (a + b) else .error (.panic .overflow)

def subU64 (a b : UInt64) : Exec UInt64 :=
  if b ≤ a then .ok (a - b) else .error (.panic .overflow)

def mulU64 (a b : UInt64) : Exec UInt64 :=
  if a.toNat * b.toNat < 2 ^ 64 then .ok (a * b) else .error (.panic .overflow)

def addU32 (a b : UInt32) : Exec UInt32 :=
  if a.toNat + b.toNat < 2 ^ 32 then .ok (a + b) else .error (.panic .overflow)

/-- A shift by as many bits as there are, or more, panics. -/
def shlU32 (a : UInt32) (n : Nat) : Exec UInt32 :=
  if n < 32 then .ok (a <<< UInt32.ofNat n) else .error (.panic .overflow)

def shrU32 (a : UInt32) (n : Nat) : Exec UInt32 :=
  if n < 32 then .ok (a >>> UInt32.ofNat n) else .error (.panic .overflow)

/-- The value of a `usize` sum or product, which panics when it does not fit. -/
def usize (n : Nat) : Exec Nat :=
  if n < 2 ^ 64 then .ok n else .error (.panic .overflow)

/-- The difference of two `usize` values. -/
def subUsize (a b : Nat) : Exec Nat :=
  if b ≤ a then .ok (a - b) else .error (.panic .overflow)

/-- `checked_add` and `checked_mul` of `usize`: the value, or nothing when it does not fit. -/
def checkedUsize (n : Nat) : Option Nat := if n < 2 ^ 64 then some n else none

/-- `saturating_add` and `saturating_mul` of `usize`. -/
def saturatingUsize (n : Nat) : Nat := min n (2 ^ 64 - 1)

theorem addU64_eq_ok {a b c : UInt64} :
    addU64 a b = .ok c ↔ a.toNat + b.toNat < 2 ^ 64 ∧ c.toNat = a.toNat + b.toNat := by
  unfold addU64
  by_cases h : a.toNat + b.toNat < 2 ^ 64
  · rw [if_pos h]
    have hsum : (a + b).toNat = a.toNat + b.toNat := by
      rw [UInt64.toNat_add, Nat.mod_eq_of_lt h]
    constructor
    · intro heq
      cases heq
      exact ⟨h, hsum⟩
    · rintro ⟨_, hc⟩
      exact congrArg Except.ok (UInt64.toNat_inj.mp (hsum.trans hc.symm))
  · rw [if_neg h]
    constructor
    · intro heq
      cases heq
    · intro hc
      exact absurd hc.1 h

theorem addU64_eq_ok_add {a b c : UInt64} : addU64 a b = .ok c ↔ a.toNat + b.toNat < 2 ^ 64 ∧ a + b = c := by
  unfold addU64
  split_ifs with h
  · rw [and_iff_right h, Except.ok.injEq]
  · exact iff_of_false nofun fun hand => h hand.1

theorem subU64_eq_ok_sub {a b c : UInt64} : subU64 a b = .ok c ↔ b ≤ a ∧ a - b = c := by
  unfold subU64
  split_ifs with h
  · rw [and_iff_right h, Except.ok.injEq]
  · exact iff_of_false nofun fun hand => h hand.1

theorem addU64_of_lt {a b : UInt64} (h : a.toNat + b.toNat < 2 ^ 64) : addU64 a b = .ok (a + b) :=
  if_pos h

theorem addU64_of_ge {a b : UInt64} (h : ¬a.toNat + b.toNat < 2 ^ 64) : addU64 a b = .error (.panic .overflow) :=
  if_neg h

theorem toNat_add_of_lt {a b : UInt64} (h : a.toNat + b.toNat < 2 ^ 64) : (a + b).toNat = a.toNat + b.toNat := by
  rw [UInt64.toNat_add, Nat.mod_eq_of_lt h]

/-! ### Slices and allocations -/

variable {α : Type}

/-- `&xs[start..stop]`. -/
def slice (xs : List α) (start stop : Nat) : Exec (List α) :=
  if start ≤ stop ∧ stop ≤ xs.length then .ok ((xs.drop start).take (stop - start))
  else .error (.panic .bounds)

/-- `xs[index]`. -/
def index (xs : List α) (index : Nat) : Exec α :=
  match xs[index]? with
  | some x => .ok x
  | none => .error (.panic .bounds)

theorem index_eq_ok {xs : List α} {i : Nat} {x : α} : index xs i = .ok x ↔ xs[i]? = some x := by
  unfold index
  cases xs[i]? with
  | none => simp
  | some y => simp

/-- `vec![0u8; length]`. -/
def zeros (length : Nat) : Exec (List UInt8) :=
  if length ≤ isizeMax then .ok (List.replicate length 0) else .error (.panic .capacity)

/-- `xs.resize(length, 0)`. -/
def resize (xs : List UInt8) (length : Nat) : Exec (List UInt8) :=
  if length ≤ isizeMax then .ok (xs.take length ++ List.replicate (length - xs.length) 0)
  else .error (.panic .capacity)

theorem resize_eq_ok {xs ys : List UInt8} {length : Nat} (h : resize xs length = .ok ys) : ys.length = length := by
  unfold resize at h
  split_ifs at h
  cases h
  rw [List.length_append, List.length_take, List.length_replicate]
  omega

theorem slice_eq_ok {xs ys : List α} {start stop : Nat} : slice xs start stop = .ok ys ↔
      start ≤ stop ∧ stop ≤ xs.length ∧ ys = (xs.drop start).take (stop - start) := by
  unfold slice
  split_ifs with h
  · simp [h.1, h.2, eq_comm]
  · simp only [false_iff]
    exact fun hc => h ⟨hc.1, hc.2.1⟩

end Base
