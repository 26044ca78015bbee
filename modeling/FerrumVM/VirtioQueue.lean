import FerrumVM.GuestMemory

/-! The device's end of a split virtqueue: `VirtqDesc` and `VirtioQueue` of
`devices/virtio/virtio.rs`, over any guest memory. Address sums are checked as `u64` sums; the offsets
into a ring come from `u16` values and always fit. -/

namespace FerrumVM

open Base GuestMemory

def virtqDescFNext : UInt16 := 1
def virtqDescFWrite : UInt16 := 2

structure VirtqDesc where
  addr : UInt64
  len : UInt32
  flags : UInt16
  next : UInt16
  deriving DecidableEq, Repr

/-- The descriptor says that `next` names another one. -/
def VirtqDesc.hasNext (d : VirtqDesc) : Bool := d.flags &&& virtqDescFNext != 0

def VirtqDesc.isWrite (d : VirtqDesc) : Bool := d.flags &&& virtqDescFWrite != 0

structure VirtioQueue where
  size : UInt16
  ready : Bool
  descAddr : UInt64
  availAddr : UInt64
  usedAddr : UInt64
  lastAvailIdx : UInt16
  lastUsedIdx : UInt16
  deriving DecidableEq, Repr

namespace VirtioQueue

def new : VirtioQueue where
  size := 0
  ready := false
  descAddr := 0
  availAddr := 0
  usedAddr := 0
  lastAvailIdx := 0
  lastUsedIdx := 0

variable {M : Type} [GuestMemory M]

/-- The place of `avail.ring[idx % size]`, from the start of the available ring. -/
def availOffset (q : VirtioQueue) (idx : UInt16) : UInt64 := 4 + (idx % q.size).toUInt64 * 2

/-- The place of `used.ring[idx % size]`, from the start of the used ring. -/
def usedOffset (q : VirtioQueue) (idx : UInt16) : UInt64 := 4 + (idx % q.size).toUInt64 * 8

def popAvail (q : VirtioQueue) (mem : M) : Exec (Option UInt16 × VirtioQueue) :=
  if q.size = 0 then return (none, q)
  else do
    let availIdx ← GuestMemory.readU16 mem (← addU64 q.availAddr 2)
    -- nothing new
    if q.lastAvailIdx = availIdx then return (none, q)
    else
      let head ← GuestMemory.readU16 mem (← addU64 q.availAddr (q.availOffset q.lastAvailIdx))
      return (some head, { q with lastAvailIdx := q.lastAvailIdx + 1 })

def pushUsed (q : VirtioQueue) (mem : M) (head : UInt16) (len : UInt32) : Exec (VirtioQueue × M) :=
  if q.size = 0 then return (q, mem)
  else do
    let entry ← addU64 q.usedAddr (q.usedOffset q.lastUsedIdx)
    let mem ← GuestMemory.writeU32 mem entry head.toUInt32
    let mem ← GuestMemory.writeU32 mem (← addU64 entry 4) len
    let mem ← GuestMemory.writeU16 mem (← addU64 q.usedAddr 2) (q.lastUsedIdx + 1)
    return ({ q with lastUsedIdx := q.lastUsedIdx + 1 }, mem)

def getDescriptor (q : VirtioQueue) (mem : M) (index : UInt16) : Exec VirtqDesc := do
  let base ← addU64 q.descAddr (index.toUInt64 * 16)
  return {
    addr := ← GuestMemory.readU64 mem base
    len := ← GuestMemory.readU32 mem (← addU64 base 8)
    flags := ← GuestMemory.readU16 mem (← addU64 base 12)
    next := ← GuestMemory.readU16 mem (← addU64 base 14) }

/-! ### What the three operations do to the queue -/

/-- A pop that finds nothing leaves the queue; one that finds a head moves the index on by one, and
happens only on a queue with entries. -/
theorem popAvail_eq_ok {q q' : VirtioQueue} {mem : M} {head? : Option UInt16} (h : q.popAvail mem = .ok (head?, q')) :
    (head? = none ∧ q' = q) ∨
      (∃ head, head? = some head ∧ q.size ≠ 0 ∧ q' = { q with lastAvailIdx := q.lastAvailIdx + 1 }) := by
  unfold popAvail at h
  split_ifs at h with hsize
  · cases h
    exact Or.inl ⟨rfl, rfl⟩
  · obtain ⟨addr, _, h⟩ := Exec.bind_eq_ok.mp h
    obtain ⟨availIdx, _, h⟩ := Exec.bind_eq_ok.mp h
    split_ifs at h
    · cases h
      exact Or.inl ⟨rfl, rfl⟩
    · obtain ⟨addr', _, h⟩ := Exec.bind_eq_ok.mp h
      obtain ⟨head, _, h⟩ := Exec.bind_eq_ok.mp h
      cases h
      exact Or.inr ⟨head, rfl, hsize, rfl⟩

theorem pushUsed_eq_ok {q q' : VirtioQueue} {mem mem' : M} {head : UInt16} {len : UInt32}
    (h : q.pushUsed mem head len = .ok (q', mem')) : inRam mem' = inRam mem ∧ ((q.size = 0 ∧ q' = q ∧ mem' = mem) ∨
       (q.size ≠ 0 ∧ q' = { q with lastUsedIdx := q.lastUsedIdx + 1 })) := by
  unfold pushUsed at h
  split_ifs at h with hsize
  · cases h
    exact ⟨rfl, Or.inl ⟨hsize, rfl, rfl⟩⟩
  · obtain ⟨entry, _, h⟩ := Exec.bind_eq_ok.mp h
    obtain ⟨mem1, h1, h⟩ := Exec.bind_eq_ok.mp h
    obtain ⟨addr2, _, h⟩ := Exec.bind_eq_ok.mp h
    obtain ⟨mem2, h2, h⟩ := Exec.bind_eq_ok.mp h
    obtain ⟨addr3, _, h⟩ := Exec.bind_eq_ok.mp h
    obtain ⟨mem3, h3, h⟩ := Exec.bind_eq_ok.mp h
    cases h
    refine ⟨?_, Or.inr ⟨hsize, rfl⟩⟩
    rw [inRam_writeU16 h3, inRam_writeU32 h2, inRam_writeU32 h1]

theorem toNat_availOffset (q : VirtioQueue) (idx : UInt16) :
    (q.availOffset idx).toNat = 4 + idx.toNat % q.size.toNat * 2 := by
  have hlt := (idx % q.size).toNat_lt
  rw [UInt16.toNat_mod] at hlt
  simp only [availOffset, UInt64.toNat_add, UInt64.toNat_mul, UInt16.toNat_toUInt64, UInt16.toNat_mod,
    UInt64.reduceToNat]
  omega

theorem toNat_usedOffset (q : VirtioQueue) (idx : UInt16) :
    (q.usedOffset idx).toNat = 4 + idx.toNat % q.size.toNat * 8 := by
  have hlt := (idx % q.size).toNat_lt
  rw [UInt16.toNat_mod] at hlt
  simp only [usedOffset, UInt64.toNat_add, UInt64.toNat_mul, UInt16.toNat_toUInt64, UInt16.toNat_mod,
    UInt64.reduceToNat]
  omega

end VirtioQueue

end FerrumVM
