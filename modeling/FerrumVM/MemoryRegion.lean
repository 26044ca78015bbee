import FerrumVM.BaseBytes
import FerrumVM.BaseFault

/-! Guest memory as the host maps it: `MemoryRegion` of `machine_config/memory_region.rs`, and the
nine accesses of `VirtioGuestMemoryHandle` in `devices/virtio/virtio.rs`. A region is the bytes behind
its pointer; the accesses search the list of regions in order, and every arithmetic step that a debug
build checks is checked here. -/

namespace FerrumVM

open Base

variable {r : MemoryRegion}

/-- A mapped range of guest-physical addresses. `mem_size` is the number of bytes behind `ptr`, which
as a mapping of the host is at most `isize::MAX`. -/
structure MemoryRegion where
  /-- `ptr.is_null()`. -/
  isNull : Bool
  bytes : Bytes
  memOffset : UInt64
  size_le : bytes.length ≤ isizeMax

namespace MemoryRegion

/-- `mem_size as u64`. -/
def memSize (r : MemoryRegion) : UInt64 := UInt64.ofNat r.bytes.length

def inBounds (r : MemoryRegion) (addr length : Nat) : Bool :=
  !r.isNull && addr ≤ r.bytes.length && length ≤ r.bytes.length - addr

theorem inBounds_iff {addr length : Nat} :
    r.inBounds addr length = true ↔ r.isNull = false ∧ addr + length ≤ r.bytes.length := by
  simp only [inBounds, Bool.and_eq_true, Bool.not_eq_true', decide_eq_true_eq, and_assoc]
  exact and_congr_right fun _ => by omega

def write (r : MemoryRegion) (data : Bytes) (addr : Nat) : MemoryRegion :=
  if h : r.inBounds addr data.length then
    { r with
      bytes := splice r.bytes addr data
      size_le := by
        rw [length_splice (inBounds_iff.mp h).2]
        exact r.size_le }
  else r

def read (r : MemoryRegion) (addr length : Nat) : Option Bytes :=
  if r.inBounds addr length then some (window r.bytes addr length) else none

section

variable (r : MemoryRegion) (data : Bytes) (addr : Nat)

@[simp] theorem write_memOffset : (r.write data addr).memOffset = r.memOffset := by
  unfold write
  split_ifs <;> rfl

@[simp] theorem write_isNull : (r.write data addr).isNull = r.isNull := by
  unfold write
  split_ifs <;> rfl

@[simp] theorem length_write : (r.write data addr).bytes.length = r.bytes.length := by
  unfold write
  split_ifs with h
  · exact length_splice (inBounds_iff.mp h).2
  · rfl

end

/-- `addr >= start && length <= size - (addr - start)`, the test every access makes of a region. The
subtraction is reached whenever the region starts at or below the address. -/
def holds (r : MemoryRegion) (addr : UInt64) (length : Nat) : Exec Bool :=
  if r.memOffset ≤ addr then do
    let rest ← subU64 r.memSize (addr - r.memOffset)
    return decide (length ≤ rest.toNat)
  else
    return false

/-- The offset of an address in a region, `(addr - start) as usize`. -/
def offsetOf (r : MemoryRegion) (addr : UInt64) : Nat := (addr - r.memOffset).toNat

end MemoryRegion

/-! ### The search loops -/

/-- The bytes of the first region that holds the range, `None` when the loop falls through. The
fixed-width reads `unwrap` what the region answers. -/
def readFixed (length : Nat) (addr : UInt64) : List MemoryRegion → Exec (Option Bytes)
  | [] => return none
  | r :: rest => do
      if ← r.holds addr length then
        match r.read (r.offsetOf addr) length with
        | some data => return some data
        | none => throw (.panic .unwrap)
      else readFixed length addr rest

/-- The loop of `read_guest_memory_alloc`, which goes on to the next region when one refuses. -/
def readAllocLoop (length : Nat) (addr : UInt64) : List MemoryRegion → Exec Bytes
  | [] => zeros length
  | r :: rest => do
      if ← r.holds addr length then
        match r.read (r.offsetOf addr) length with
        | some data => return data
        | none => readAllocLoop length addr rest
      else readAllocLoop length addr rest

/-- The loop of the writes, which return at the first region that holds the range. -/
def writeLoop (data : Bytes) (addr : UInt64) : List MemoryRegion → Exec (List MemoryRegion)
  | [] => return []
  | r :: rest => do
      if ← r.holds addr data.length then
        return r.write data (r.offsetOf addr) :: rest
      else
        return r :: (← writeLoop data addr rest)

/-- The regions behind `Arc<Mutex<Vec<MemoryRegion>>>`. -/
structure VirtioGuestMemoryHandle where
  mem : List MemoryRegion

namespace VirtioGuestMemoryHandle

def readByte (h : VirtioGuestMemoryHandle) (addr : UInt64) : Exec UInt8 := do
  match ← readFixed 1 addr h.mem with
  | some data => return UInt8.ofNat (leNat (data.take 1))
  | none => return 0

def readU16 (h : VirtioGuestMemoryHandle) (addr : UInt64) : Exec UInt16 := do
  match ← readFixed 2 addr h.mem with
  | some data => return u16FromLe data
  | none => return 0

def readU32 (h : VirtioGuestMemoryHandle) (addr : UInt64) : Exec UInt32 := do
  match ← readFixed 4 addr h.mem with
  | some data => return u32FromLe data
  | none => return 0

def readU64 (h : VirtioGuestMemoryHandle) (addr : UInt64) : Exec UInt64 := do
  match ← readFixed 8 addr h.mem with
  | some data => return u64FromLe data
  | none => return 0

def readGuestMemoryAlloc (h : VirtioGuestMemoryHandle) (addr : UInt64) (len : Nat) : Exec Bytes :=
  if len = 0 then return [] else readAllocLoop len addr h.mem

def writeLoopOf (h : VirtioGuestMemoryHandle) (addr : UInt64) (data : Bytes) : Exec VirtioGuestMemoryHandle := do
  return ⟨← writeLoop data addr h.mem⟩

def writeU8 (h : VirtioGuestMemoryHandle) (addr : UInt64) (val : UInt8) : Exec VirtioGuestMemoryHandle :=
  h.writeLoopOf addr [val]

def writeU16 (h : VirtioGuestMemoryHandle) (addr : UInt64) (val : UInt16) : Exec VirtioGuestMemoryHandle :=
  h.writeLoopOf addr (u16ToLe val)

def writeU32 (h : VirtioGuestMemoryHandle) (addr : UInt64) (val : UInt32) : Exec VirtioGuestMemoryHandle :=
  h.writeLoopOf addr (u32ToLe val)

def writeGuestMemory (h : VirtioGuestMemoryHandle) (addr : UInt64) (data : Bytes) : Exec VirtioGuestMemoryHandle :=
  h.writeLoopOf addr data

end VirtioGuestMemoryHandle

/-! ### What the search does -/

namespace MemoryRegion

variable {addr : UInt64}

/-- The region wholly contains the `length` bytes from `addr` on. -/
def Contains (r : MemoryRegion) (addr : UInt64) (length : Nat) : Prop :=
  r.memOffset.toNat ≤ addr.toNat ∧ addr.toNat + length ≤ r.memOffset.toNat + r.bytes.length

instance (r : MemoryRegion) (addr : UInt64) (length : Nat) : Decidable (r.Contains addr length) :=
  inferInstanceAs (Decidable (_ ∧ _))

/-- The region ends below `addr`, with at least one byte between. -/
def EndsBefore (r : MemoryRegion) (addr : UInt64) : Prop :=
  r.memOffset.toNat + r.bytes.length < addr.toNat

instance (r : MemoryRegion) (addr : UInt64) : Decidable (r.EndsBefore addr) :=
  inferInstanceAs (Decidable (_ < _))

theorem toNat_memSize (r : MemoryRegion) : r.memSize.toNat = r.bytes.length := by
  have hle := r.size_le
  rw [memSize, UInt64.toNat_ofNat', Nat.mod_eq_of_lt]
  unfold isizeMax at hle
  omega

theorem toNat_offsetOf (h : r.memOffset ≤ addr) : r.offsetOf addr = addr.toNat - r.memOffset.toNat :=
  UInt64.toNat_sub_of_le addr r.memOffset h

/-- The test of a region: it overflows at a region that ends before the address, and otherwise says
whether the region contains the range. -/
theorem holds_eq (r : MemoryRegion) (addr : UInt64) (length : Nat) :
    r.holds addr length = if r.EndsBefore addr then .error (.panic .overflow)
      else .ok (decide (r.Contains addr length)) := by
  unfold holds
  split_ifs with hstart hends hends
  · have hoff := UInt64.toNat_sub_of_le addr r.memOffset hstart
    have hlt : ¬(addr - r.memOffset) ≤ r.memSize := by
      rw [UInt64.le_iff_toNat_le, hoff, toNat_memSize]
      unfold EndsBefore at hends
      omega
    rw [subU64, if_neg hlt]
    rfl
  · have hoff := UInt64.toNat_sub_of_le addr r.memOffset hstart
    have hle' := UInt64.le_iff_toNat_le.mp hstart
    have hle : (addr - r.memOffset) ≤ r.memSize := by
      rw [UInt64.le_iff_toNat_le, hoff, toNat_memSize]
      unfold EndsBefore at hends
      omega
    rw [subU64, if_pos hle, Exec.ok_bind]
    have hrest := UInt64.toNat_sub_of_le r.memSize (addr - r.memOffset) hle
    rw [toNat_memSize, hoff] at hrest
    unfold EndsBefore at hends
    refine congrArg Except.ok (decide_eq_decide.mpr ?_)
    rw [hrest, Contains]
    omega
  · rw [UInt64.le_iff_toNat_le] at hstart
    unfold EndsBefore at hends
    omega
  · rw [UInt64.le_iff_toNat_le] at hstart
    refine congrArg Except.ok (decide_eq_false ?_).symm
    exact fun hcontains => hstart hcontains.1

section

variable {length : Nat} (h : r.Contains addr length)
include h

theorem Contains.offset :
    r.offsetOf addr = addr.toNat - r.memOffset.toNat ∧ r.offsetOf addr + length ≤ r.bytes.length := by
  have hoff := toNat_offsetOf (UInt64.le_iff_toNat_le.mpr h.1)
  refine ⟨hoff, ?_⟩
  rw [hoff]
  unfold Contains at h
  omega

theorem Contains.inBounds (hnull : r.isNull = false) : r.inBounds (r.offsetOf addr) length = true :=
  inBounds_iff.mpr ⟨hnull, h.offset.2⟩

theorem Contains.not_endsBefore : ¬r.EndsBefore addr := by
  unfold Contains at h
  unfold EndsBefore
  omega

end

end MemoryRegion

end FerrumVM
