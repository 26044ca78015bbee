import FerrumVM.BaseTable

/-! Flat byte memory, as a processor with 64-bit addresses sees it: a byte for every address, loads and stores
of byte strings at an address, and the little-endian words in it. Addresses wrap around. A `ByteMap` has its bytes by
their offset, as a disk has. -/

namespace Base

def Memory : Type := UInt64 → UInt8

namespace Memory

variable {m m' : Memory} {addr from' : UInt64} {data : Bytes} {length bound : Nat}

def load (m : Memory) (addr : UInt64) (length : Nat) : Bytes :=
  (List.range length).map fun i => m (addr + UInt64.ofNat i)

def store (m : Memory) (addr : UInt64) (data : Bytes) : Memory := fun a => data[(a - addr).toNat]?.getD (m a)

def u16 (m : Memory) (addr : UInt64) : UInt16 := u16FromLe (m.load addr 2)

def u32 (m : Memory) (addr : UInt64) : UInt32 := u32FromLe (m.load addr 4)

def u64 (m : Memory) (addr : UInt64) : UInt64 := u64FromLe (m.load addr 8)

theorem getElem?_load (m : Memory) (addr : UInt64) (length i : Nat) :
    (m.load addr length)[i]? = if i < length then some (m (addr + UInt64.ofNat i)) else none := by
  simp only [load, List.getElem?_map]
  split_ifs with h
  · rw [List.getElem?_range h]
    rfl
  · rw [List.getElem?_eq_none (by simpa using h)]
    rfl

theorem load_window {start count : Nat} (h : start + count ≤ length) :
    m.load (addr + UInt64.ofNat start) count = window (m.load addr length) start count := by
  apply List.ext_getElem?
  intro i
  rw [getElem?_load, getElem?_window, getElem?_load]
  split_ifs with hi hin
  · rw [UInt64.ofNat_add, UInt64.add_assoc]
  · omega
  · rfl

theorem load_store_self (m : Memory) (addr : UInt64) (h : data.length ≤ 2 ^ 64) :
    (m.store addr data).load addr data.length = data := by
  apply List.ext_getElem?
  intro i
  rw [getElem?_load]
  split_ifs with hi
  · have hoffset : (addr + UInt64.ofNat i - addr).toNat = i := by
      rw [UInt64.add_comm, UInt64.add_sub_cancel, UInt64.toNat_ofNat', Nat.mod_eq_of_lt (by omega)]
    rw [store, hoffset, List.getElem?_eq_getElem hi]
    rfl
  · exact (List.getElem?_eq_none (by omega)).symm

theorem store_of_outside (hfits : addr.toNat + data.length ≤ 2 ^ 64) {a : UInt64}
    (h : a.toNat < addr.toNat ∨ addr.toNat + data.length ≤ a.toNat) : m.store addr data a = m a := by
  have hoffset : data.length ≤ (a - addr).toNat := by
    rw [UInt64.toNat_sub]
    have ha := a.toNat_lt
    omega
  rw [store, List.getElem?_eq_none hoffset]
  rfl

theorem load_store_of_apart (hfits : addr.toNat + data.length ≤ 2 ^ 64) (hfrom : from'.toNat + length ≤ 2 ^ 64)
    (h : from'.toNat + length ≤ addr.toNat ∨ addr.toNat + data.length ≤ from'.toNat) :
    (m.store addr data).load from' length = m.load from' length := by
  apply List.ext_getElem?
  intro i
  rw [getElem?_load, getElem?_load]
  split_ifs with hi
  · have hat : (from' + UInt64.ofNat i).toNat = from'.toNat + i := by
      rw [UInt64.toNat_add, UInt64.toNat_ofNat', Nat.mod_eq_of_lt (by omega : i < 2 ^ 64), Nat.mod_eq_of_lt (by omega)]
    rw [store_of_outside hfits (by omega)]
  · rfl

theorem u64_store_self (m : Memory) (addr v : UInt64) : (m.store addr (u64ToLe v)).u64 addr = v := by
  have hload := m.load_store_self addr (show (u64ToLe v).length ≤ 2 ^ 64 by simp)
  rw [length_u64ToLe] at hload
  rw [u64, hload, u64FromLe_toLe]

theorem u64_store_of_apart (hfits : addr.toNat + data.length ≤ 2 ^ 64) (hfrom : from'.toNat + 8 ≤ 2 ^ 64)
    (h : from'.toNat + 8 ≤ addr.toNat ∨ addr.toNat + data.length ≤ from'.toNat) :
    (m.store addr data).u64 from' = m.u64 from' := by
  rw [u64, load_store_of_apart hfits hfrom h, u64]

def SameBelow (bound : Nat) (m m' : Memory) : Prop := ∀ a : UInt64, a.toNat < bound → m' a = m a

theorem load_of_sameBelow (h : SameBelow bound m m') (hlow : addr.toNat + length ≤ bound) :
    m'.load addr length = m.load addr length := by
  unfold load
  refine List.map_congr_left fun k hk => h _ ?_
  have hk := List.mem_range.mp hk
  rw [UInt64.toNat_add, UInt64.toNat_ofNat']
  omega

theorem u32_of_sameBelow (h : SameBelow bound m m') (hlow : addr.toNat + 4 ≤ bound) :
    m'.u32 addr = m.u32 addr := by rw [u32, u32, load_of_sameBelow h hlow]

theorem u64_of_sameBelow (h : SameBelow bound m m') (hlow : addr.toNat + 8 ≤ bound) :
    m'.u64 addr = m.u64 addr := by rw [u64, u64, load_of_sameBelow h hlow]

def fill (m : Memory) (addr size : UInt64) (val : UInt8) : Memory := fun a => if a - addr < size then val else m a

theorem fill_eq_store (m : Memory) (addr size : UInt64) (val : UInt8) :
    m.fill addr size val = m.store addr (List.replicate size.toNat val) := by
  funext a
  rw [fill, store, List.getElem?_replicate]
  by_cases h : a - addr < size
  · rw [if_pos h, if_pos (UInt64.lt_iff_toNat_lt.mp h), Option.getD_some]
  · rw [if_neg h, if_neg (mt UInt64.lt_iff_toNat_lt.mpr h), Option.getD_none]

end Memory

/-! ### Rounding to a power of two -/

theorem toNat_and_not_mask (x : UInt64) {k : Nat} (hk : k ≤ 64) :
    (x &&& ~~~(UInt64.ofNat (2 ^ k - 1))).toNat = x.toNat / 2 ^ k * 2 ^ k := by
  have hpow : 2 ^ k ≤ 2 ^ 64 := Nat.pow_le_pow_right (by omega) hk
  have hmask : (UInt64.ofNat (2 ^ k - 1)).toNat = 2 ^ k - 1 := by
    rw [UInt64.toNat_ofNat', Nat.mod_eq_of_lt (by omega)]
  apply Nat.eq_of_testBit_eq
  intro i
  have hnot : (~~~(UInt64.ofNat (2 ^ k - 1))).toNat = 2 ^ 64 - (2 ^ k - 1 + 1) := by
    rw [UInt64.toNat_not, hmask, UInt64.size]
    omega
  rw [UInt64.toNat_and, Nat.testBit_and, hnot, Nat.testBit_two_pow_sub_succ (by omega), Nat.testBit_two_pow_sub_one,
    ← Nat.shiftLeft_eq, Nat.testBit_shiftLeft, ← Nat.shiftRight_eq_div_pow, Nat.testBit_shiftRight]
  by_cases hi : i < 64
  · by_cases h : k ≤ i
    · simp [h, hi, Nat.not_lt.mpr h]
    · simp [h, Nat.not_le.mp h]
  · have hzero : x.toNat.testBit i = false :=
      Nat.testBit_lt_two_pow (Nat.lt_of_lt_of_le x.toNat_lt (Nat.pow_le_pow_right (by omega) (by omega)))
    by_cases h : k ≤ i
    · simp [h, hzero]
    · simp [h, hzero]

/-! ### Comparing bytes -/

/-- `memcmp`: the first bytes that differ decide. -/
def memcmp : Bytes → Bytes → Int
  | x :: xs, y :: ys => if x ≠ y then (if x < y then -1 else 1) else memcmp xs ys
  | _, _ => 0

theorem memcmp_eq_zero_iff {xs ys : Bytes} (h : xs.length = ys.length) : memcmp xs ys = 0 ↔ xs = ys := by
  induction xs generalizing ys with
  | nil =>
    rw [List.length_nil] at h
    rw [List.eq_nil_of_length_eq_zero h.symm]
    exact iff_of_true rfl rfl
  | cons x xs ih =>
    obtain ⟨y, ys, rfl⟩ := List.exists_cons_of_length_eq_add_one h.symm
    rw [memcmp, List.cons.injEq, ← ih (Nat.succ.inj h)]
    by_cases hxy : x = y
    · simp [hxy]
    · rw [if_pos hxy]
      split_ifs <;> simp [hxy]

abbrev ByteMap := Nat → UInt8

namespace ByteMap

def bytes (b : ByteMap) (start count : Nat) : Bytes := (List.range count).map fun k => b (start + k)

def u16 (b : ByteMap) (start : Nat) : UInt16 := u16FromLe (b.bytes start 2)
def u32 (b : ByteMap) (start : Nat) : UInt32 := u32FromLe (b.bytes start 4)
def u64 (b : ByteMap) (start : Nat) : UInt64 := u64FromLe (b.bytes start 8)

def shift (b : ByteMap) (start : Nat) : ByteMap := fun k => b (start + k)

/-- The map when bytes have been put in place of others. -/
def put (b : ByteMap) (start count : Nat) (data : ByteMap) : ByteMap := fun k =>
  if start ≤ k ∧ k < start + count then data (k - start) else b k

variable {b b' : ByteMap} {start start' count : Nat}

theorem bytes_congr (h : ∀ k < count, b (start + k) = b' (start' + k)) :
    b.bytes start count = b'.bytes start' count := by
  apply List.map_congr_left
  intro k hk
  exact h k (List.mem_range.mp hk)

@[simp] theorem length_bytes : (b.bytes start count).length = count := by
  rw [bytes, List.length_map, List.length_range]

theorem put_of_inside {data : ByteMap} {k : Nat} (h : start ≤ k ∧ k < start + count) :
    b.put start count data k = data (k - start) := if_pos h

theorem put_of_outside {data : ByteMap} {k : Nat} (h : ¬(start ≤ k ∧ k < start + count)) :
    b.put start count data k = b k := if_neg h

end ByteMap

end Base
