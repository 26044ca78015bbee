import FerrumVM.BaseFault
import Mathlib.Tactic.Common
import Mathlib.Tactic.Ring

/-! Byte strings: little-endian numbers, and overwriting a range of a byte string in place. -/

namespace Base

variable {start length : Nat} {bs data : Bytes}

abbrev Bytes := List UInt8

/-- The number a byte string spells, least significant byte first. -/
def leNat : Bytes → Nat
  | [] => 0
  | b :: bs => b.toNat + 256 * leNat bs

/-- The `width` least significant bytes of a number, least significant byte first. -/
def leBytes : Nat → Nat → Bytes
  | 0, _ => []
  | width + 1, n => UInt8.ofNat n :: leBytes width (n / 256)

@[simp] theorem length_leBytes (width n : Nat) : (leBytes width n).length = width := by
  induction width generalizing n with
  | zero => rfl
  | succ width ih => rw [leBytes, List.length_cons, ih]

theorem leNat_lt (bs : Bytes) : leNat bs < 256 ^ bs.length := by
  induction bs with
  | nil => simp [leNat]
  | cons b bs ih =>
    have hb : b.toNat < 256 := b.toNat_lt
    rw [leNat, List.length_cons, pow_succ]
    omega

theorem leNat_leBytes (width n : Nat) : leNat (leBytes width n) = n % 256 ^ width := by
  induction width generalizing n with
  | zero => simp [leBytes, leNat, Nat.mod_one]
  | succ width ih =>
    have hhead : (UInt8.ofNat n).toNat = n % 256 := UInt8.toNat_ofNat'
    rw [leBytes, leNat, ih, hhead, pow_succ', Nat.mod_mul]

theorem leBytes_leNat (bs : Bytes) : leBytes bs.length (leNat bs) = bs := by
  induction bs with
  | nil => rfl
  | cons b bs ih =>
    have hb : b.toNat < 256 := b.toNat_lt
    rw [List.length_cons, leBytes, leNat]
    have hhead : UInt8.ofNat (b.toNat + 256 * leNat bs) = b := by
      apply UInt8.toNat_inj.mp
      rw [UInt8.toNat_ofNat', Nat.add_mul_mod_self_left, Nat.mod_eq_of_lt hb]
    have htail : (b.toNat + 256 * leNat bs) / 256 = leNat bs := by omega
    rw [hhead, htail, ih]

theorem testBit_leNat (bs : Bytes) (i : Nat) : (leNat bs).testBit i = (bs[i / 8]?.getD 0).toNat.testBit (i % 8) := by
  induction bs generalizing i with
  | nil => simp [leNat]
  | cons b bs ih =>
    have hb : b.toNat < 2 ^ 8 := b.toNat_lt
    rw [leNat, Nat.add_comm, show 256 = 2 ^ 8 from rfl, Nat.testBit_two_pow_mul_add _ hb]
    split_ifs with hi
    · rw [Nat.div_eq_of_lt hi, Nat.mod_eq_of_lt hi]
      rfl
    · obtain ⟨j, rfl⟩ : ∃ j, i = j + 8 := ⟨i - 8, by omega⟩
      rw [Nat.add_sub_cancel, ih, Nat.add_mod_right, Nat.add_div_right j (by decide)]
      rfl

/-! ### Fixed-width reads and writes -/

def u16FromLe (bs : Bytes) : UInt16 := UInt16.ofNat (leNat (bs.take 2))
def u32FromLe (bs : Bytes) : UInt32 := UInt32.ofNat (leNat (bs.take 4))
def u64FromLe (bs : Bytes) : UInt64 := UInt64.ofNat (leNat (bs.take 8))

def u16ToLe (v : UInt16) : Bytes := leBytes 2 v.toNat
def u32ToLe (v : UInt32) : Bytes := leBytes 4 v.toNat
def u64ToLe (v : UInt64) : Bytes := leBytes 8 v.toNat

@[simp] theorem length_u16ToLe (v : UInt16) : (u16ToLe v).length = 2 := length_leBytes 2 _
@[simp] theorem length_u32ToLe (v : UInt32) : (u32ToLe v).length = 4 := length_leBytes 4 _
@[simp] theorem length_u64ToLe (v : UInt64) : (u64ToLe v).length = 8 := length_leBytes 8 _

@[simp] theorem u16FromLe_toLe (v : UInt16) : u16FromLe (u16ToLe v) = v := by
  have htake : (u16ToLe v).take 2 = u16ToLe v := List.take_of_length_le (by simp)
  rw [u16FromLe, htake, u16ToLe, leNat_leBytes, Nat.mod_eq_of_lt (by simpa using v.toNat_lt)]
  exact UInt16.ofNat_toNat

@[simp] theorem u32FromLe_toLe (v : UInt32) : u32FromLe (u32ToLe v) = v := by
  have htake : (u32ToLe v).take 4 = u32ToLe v := List.take_of_length_le (by simp)
  rw [u32FromLe, htake, u32ToLe, leNat_leBytes, Nat.mod_eq_of_lt (by simpa using v.toNat_lt)]
  exact UInt32.ofNat_toNat

@[simp] theorem u64FromLe_toLe (v : UInt64) : u64FromLe (u64ToLe v) = v := by
  have htake : (u64ToLe v).take 8 = u64ToLe v := List.take_of_length_le (by simp)
  rw [u64FromLe, htake, u64ToLe, leNat_leBytes, Nat.mod_eq_of_lt (by simpa using v.toNat_lt)]
  exact UInt64.ofNat_toNat

theorem u32ToLe_fromLe (h : data.length = 4) : u32ToLe (u32FromLe data) = data := by
  have hlt := leNat_lt data
  rw [h] at hlt
  rw [u32ToLe, u32FromLe, List.take_of_length_le (by omega), UInt32.toNat_ofNat', Nat.mod_eq_of_lt (by omega), ← h]
  exact leBytes_leNat data

theorem getLsbD_u32FromLe {i : Nat} (h : bs.length = 4) (hi : i < 32) :
    (u32FromLe bs).toBitVec.getLsbD i = (bs[i / 8]?.getD 0).toNat.testBit (i % 8) := by
  rw [u32FromLe, List.take_of_length_le h.le, UInt32.toBitVec_ofNat', BitVec.getLsbD_ofNat, testBit_leNat]
  simp [hi]

/-! ### Overwriting a range -/

/-- `bs` with the bytes from `start` on replaced by `data`. -/
def splice (bs : Bytes) (start : Nat) (data : Bytes) : Bytes :=
  bs.take start ++ data ++ bs.drop (start + data.length)

theorem splice_append_left (h : start + data.length ≤ bs.length) (back : Bytes) :
    splice (bs ++ back) start data = splice bs start data ++ back := by
  simp only [splice, List.take_append_of_le_length (Nat.le_of_add_right_le h), List.drop_append_of_le_length h,
    List.append_assoc]

theorem splice_append_right (front : Bytes) (start : Nat) (data bs : Bytes) :
    splice (front ++ bs) (front.length + start) data = front ++ splice bs start data := by
  simp only [splice, List.take_length_add_append, Nat.add_assoc, List.drop_length_add_append, List.append_assoc]

/-- The `length` bytes from `start` on. -/
def window (bs : Bytes) (start length : Nat) : Bytes := (bs.drop start).take length

@[simp] theorem length_splice (h : start + data.length ≤ bs.length) : (splice bs start data).length = bs.length := by
  simp only [splice, List.length_append, List.length_take, List.length_drop]
  omega

theorem length_window (h : start + length ≤ bs.length) : (window bs start length).length = length := by
  simp only [window, List.length_take, List.length_drop]
  omega

theorem window_add (bs : Bytes) (start first second : Nat) :
    window bs start (first + second) = window bs start first ++ window bs (start + first) second := by
  rw [window, List.take_add, List.drop_drop]
  rfl

theorem window_replicate {count : Nat} (h : start + length ≤ count) :
    window (List.replicate count (0 : UInt8)) start length = List.replicate length 0 := by
  rw [window, List.drop_replicate, List.take_replicate]
  congr 1
  omega

theorem window_append (front : Bytes) (hstart : front.length = start) (part : Bytes)
    (hlength : part.length = length) (back : Bytes) : window (front ++ (part ++ back)) start length = part := by
  rw [window, List.drop_left' hstart, List.take_left' hlength]

theorem getElem?_splice {i : Nat} (h : start + data.length ≤ bs.length) : (splice bs start data)[i]? =
      if start ≤ i ∧ i < start + data.length then data[i - start]? else bs[i]? := by
  have htake : (bs.take start).length = start := by
    rw [List.length_take]
    omega
  rw [splice, List.append_assoc, List.getElem?_append, htake]
  split_ifs with hlt hin hin
  · omega
  · rw [List.getElem?_take_of_lt hlt]
  · rw [List.getElem?_append_left (by omega)]
  · rw [List.getElem?_append_right (by omega), List.getElem?_drop]
    congr 1
    omega

theorem getElem?_window {i : Nat} : (window bs start length)[i]? = if i < length then bs[start + i]? else none := by
  rw [window]
  split_ifs with h
  · rw [List.getElem?_take_of_lt h, List.getElem?_drop]
  · exact List.getElem?_take_eq_none (by omega)

@[simp] theorem window_splice_self
    (h : start + data.length ≤ bs.length) : window (splice bs start data) start data.length = data := by
  apply List.ext_getElem?
  intro i
  rw [getElem?_window, getElem?_splice h]
  split_ifs with hi hin
  · congr 1
    omega
  · omega
  · exact (List.getElem?_eq_none (by omega)).symm

/-- `under` with its front covered by `data`, or by as much of it as there is room for. -/
def overlay (data under : Bytes) : Bytes := data.take under.length ++ under.drop data.length

@[simp] theorem overlay_nil (under : Bytes) : overlay [] under = under := by simp [overlay]

theorem overlay_append (data first second : Bytes) :
    overlay data (first ++ second) = overlay (data.take first.length) first ++ overlay (data.drop first.length) second := by
  unfold overlay
  rw [List.take_take, Nat.min_self, List.length_append, List.take_add, List.length_take, List.length_drop,
    List.drop_append]
  rcases Nat.le_total data.length first.length with hle | hge
  · rw [Nat.min_eq_right hle, List.drop_eq_nil_of_le hle, Nat.sub_eq_zero_of_le hle]
    simp
  · rw [Nat.min_eq_left hge, List.drop_eq_nil_of_le hge, List.drop_eq_nil_of_le (Nat.le_refl _)]
    simp

theorem window_splice_front (hdata : data.length ≤ length) (h : start + length ≤ bs.length) :
    window (splice bs start data) start length = overlay data (window bs start length) := by
  have hfront : (bs.take start).length = start := by
    rw [List.length_take]
    omega
  unfold overlay
  rw [length_window h, List.take_of_length_le hdata]
  unfold window splice
  rw [List.append_assoc, List.drop_left' hfront, List.take_append, List.take_of_length_le hdata, List.drop_take,
    List.drop_drop]

/-- `dst[start..stop].copy_from_slice(data)`, which wants `data` to have the length of the slice. -/
def copySlice (dst : Bytes) (start stop : Nat) (data : Bytes) : Exec Bytes :=
  if start ≤ stop ∧ stop ≤ dst.length ∧ data.length = stop - start then .ok (splice dst start data)
  else .error (.panic .bounds)

theorem copySlice_eq_ok {dst out : Bytes} {stop : Nat} (h : copySlice dst start stop data = .ok out) :
    out = splice dst start data ∧ out.length = dst.length := by
  unfold copySlice at h
  split_ifs at h with hin
  cases h
  exact ⟨rfl, length_splice (by omega)⟩

theorem window_splice_of_disjoint {from' : Nat} (h : start + data.length ≤ bs.length)
    (hdisj : from' + length ≤ start ∨ start + data.length ≤ from') :
    window (splice bs start data) from' length = window bs from' length := by
  apply List.ext_getElem?
  intro i
  rw [getElem?_window, getElem?_window, getElem?_splice h]
  split_ifs with hi hin
  · omega
  · rfl
  · rfl

end Base
