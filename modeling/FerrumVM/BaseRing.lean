import Mathlib.Data.Nat.ModEq
import Mathlib.Logic.Function.Basic
import Mathlib.Tactic.Common

/-! A bounded queue kept in a ring of slots and counted by indices of sixteen bits. The entry with
number `k` is in slot `k % size`; the indices are the true counts modulo `2 ^ 16`, and as the size
divides `2 ^ 16` they name the same slots. -/

namespace Base

/-! ### Wrapping counters -/

/-- A count as a sixteen-bit index holds it. -/
def counter (n : Nat) : UInt16 := UInt16.ofNat n

@[simp] theorem toNat_counter (n : Nat) : (counter n).toNat = n % 2 ^ 16 := UInt16.toNat_ofNat'

@[simp] theorem counter_zero : counter 0 = 0 := rfl

theorem counter_succ (n : Nat) : counter n + 1 = counter (n + 1) := by
  rw [← UInt16.toNat_inj, UInt16.toNat_add, toNat_counter, toNat_counter, UInt16.toNat_one]
  omega

theorem counter_inj {a b : Nat} (hle : a ≤ b) (hlt : b < a + 2 ^ 16) : counter a = counter b ↔ a = b := by
  rw [← UInt16.toNat_inj, toNat_counter, toNat_counter]
  omega

theorem counter_mod {size : Nat} (hsize : size ∣ 2 ^ 16) (n : Nat) : (counter n).toNat % size = n % size := by
  rw [toNat_counter, Nat.mod_mod_of_dvd n hsize]

/-! ### Slots -/

theorem slot_ne {size a b : Nat} (hlt : a < b) (hround : b < a + size) : a % size ≠ b % size := by
  intro heq
  have hdvd : size ∣ b - a := (Nat.modEq_iff_dvd' (Nat.le_of_lt hlt)).mp heq
  have hle := Nat.le_of_dvd (by omega) hdvd
  omega

variable {α : Type}

/-- From number `lo` on, every entry is in its slot. -/
def InSlots (size : Nat) (slot : Nat → α) (entries : List α) (lo : Nat) : Prop :=
  ∀ k x, lo ≤ k → entries[k]? = some x → slot (k % size) = x

theorem InSlots.mono {size lo lo' : Nat} {slot : Nat → α} {entries : List α}
    (h : InSlots size slot entries lo) (hle : lo ≤ lo') : InSlots size slot entries lo' :=
  fun k x hk hx => h k x (Nat.le_trans hle hk) hx

theorem inSlots_nil (size : Nat) (slot : Nat → α) (lo : Nat) : InSlots size slot [] lo := by
  intro k x _ hx
  simp at hx

/-- **Appending to a ring with room.** Filling the next slot keeps the entries that are less than a
round old. -/
theorem InSlots.push {size lo : Nat} {slot : Nat → α} {entries : List α}
    (h : InSlots size slot entries lo) (hroom : entries.length < lo + size) (x : α) :
    InSlots size (Function.update slot (entries.length % size) x) (entries ++ [x]) lo := by
  intro k y hk hy
  rcases Nat.lt_trichotomy k entries.length with hlt | rfl | hgt
  · rw [List.getElem?_append_left hlt] at hy
    have hne : k % size ≠ entries.length % size := slot_ne hlt (by omega)
    rw [Function.update_of_ne hne]
    exact h k y hk hy
  · rw [List.getElem?_concat_length] at hy
    rw [Function.update_self]
    exact Option.some.inj hy
  · have hlen : (entries ++ [x]).length ≤ k := by rwa [List.length_append, List.length_singleton]
    rw [List.getElem?_eq_none hlen] at hy
    cases hy

end Base
