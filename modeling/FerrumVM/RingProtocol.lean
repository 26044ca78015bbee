import FerrumVM.BaseRing
import FerrumVM.BaseSystem
import FerrumVM.VirtioQueue

/-! The split ring between a driver and a device. The driver places heads in the available ring and
announces them by the ring's index, one at a time or several at once; the device pops heads and pushes
used entries; the driver takes used entries. Both sides count with indices of sixteen bits and share
nothing but guest memory, and any order of their operations is a run. The driver keeps at most as many
heads outstanding as the ring has entries, and a device retires only what it has popped. -/

namespace FerrumVM

open Base

variable {slot : Nat} {s : RingState}

/-- The memory of a handle, with total accesses. -/
def VirtioGuestMemoryHandle.ram (h : VirtioGuestMemoryHandle) : Ram := ⟨h.mem⟩

def VirtioGuestMemoryHandle.store (h : VirtioGuestMemoryHandle) (addr : UInt64) (data : Bytes) :
    VirtioGuestMemoryHandle :=
  ⟨(h.ram.store addr data).regions⟩

namespace VirtioQueue

def availIdxAddr (q : VirtioQueue) : UInt64 := q.availAddr + 2
def usedIdxAddr (q : VirtioQueue) : UInt64 := q.usedAddr + 2

/-- The address of `avail.ring[slot]`. -/
def availSlotAddr (q : VirtioQueue) (slot : Nat) : UInt64 := q.availAddr + UInt64.ofNat (4 + slot * 2)

/-- The address of `used.ring[slot]`. -/
def usedSlotAddr (q : VirtioQueue) (slot : Nat) : UInt64 := q.usedAddr + UInt64.ofNat (4 + slot * 8)

/-- The bytes of the available ring, up to its last entry. -/
def availBytes (q : VirtioQueue) : Nat := 4 + q.size.toNat * 2

def usedBytes (q : VirtioQueue) : Nat := 4 + q.size.toNat * 8

end VirtioQueue

/-- What the two rings hold: the index each side shows and the entries, of which those past the size
count for nothing. -/
@[ext] structure RingView where
  availIdx : UInt16
  usedIdx : UInt16
  avail : Nat → UInt16
  used : Nat → UInt32 × UInt32

def VirtioQueue.view (q : VirtioQueue) (m : Ram) : RingView where
  availIdx := m.u16 q.availIdxAddr
  usedIdx := m.u16 q.usedIdxAddr
  avail slot := if slot < q.size.toNat then m.u16 (q.availSlotAddr slot) else 0
  used slot :=
    if slot < q.size.toNat then (m.u32 (q.usedSlotAddr slot), m.u32 (q.usedSlotAddr slot + 4)) else (0, 0)

/-- The two rings lie apart in `r`, and the size is a power of two. -/
structure RingsIn (q : VirtioQueue) (r : MemoryRegion) : Prop where
  size_pow : ∃ k ≤ 15, q.size.toNat = 2 ^ k
  mapped : r.isNull = false
  addressable : r.memOffset.toNat + r.bytes.length ≤ 2 ^ 64
  avail_in : r.Contains q.availAddr q.availBytes
  used_in : r.Contains q.usedAddr q.usedBytes
  disjoint : q.availAddr.toNat + q.availBytes ≤ q.usedAddr.toNat ∨
    q.usedAddr.toNat + q.usedBytes ≤ q.availAddr.toNat

/-- Guest RAM is one region, and the rings are in it. -/
def RingLayout (q : VirtioQueue) (mem : VirtioGuestMemoryHandle) : Prop :=
  ∃ r, mem.mem = [r] ∧ RingsIn q r

/-! ### The protocol -/

structure RingState where
  queue : VirtioQueue
  mem : VirtioGuestMemoryHandle
  /-- The driver's own index of the available ring, ahead of the one it has announced. -/
  availIdx : UInt16
  /-- The driver's index of the used ring. -/
  usedIdx : UInt16
  -- The history of the run.
  placed : List UInt16
  announced : Nat
  popped : List UInt16
  pushed : List (UInt16 × UInt32)
  consumed : List (UInt32 × UInt32)

def RingState.view (s : RingState) : RingView := s.queue.view s.mem.ram

def RingState.published (s : RingState) : List UInt16 := s.placed.take s.announced

def usedEntry (e : UInt16 × UInt32) : UInt32 × UInt32 := (e.1.toUInt32, e.2)

inductive RingEvent where
  | place (head : UInt16)
  | announce
  | popAvail
  | pushUsed (head : UInt16) (len : UInt32)
  | consume
  /-- A store by either side outside the two rings: a descriptor, or a buffer. -/
  | store (addr : UInt64) (data : Bytes)

def RingState.step (s : RingState) (e : RingEvent) (s' : RingState) : Prop :=
  match e with
  | .place head =>
    s.placed.length < s.consumed.length + s.queue.size.toNat ∧
    s' = { s with
      mem := s.mem.store (s.queue.availSlotAddr (s.availIdx.toNat % s.queue.size.toNat)) (u16ToLe head)
      availIdx := s.availIdx + 1
      placed := s.placed ++ [head] }
  | .announce =>
    s' = { s with
      mem := s.mem.store s.queue.availIdxAddr (u16ToLe s.availIdx)
      announced := s.placed.length }
  | .popAvail =>
    ∃ head? queue, s.queue.popAvail s.mem = .ok (head?, queue) ∧
      s' = { s with queue, popped := s.popped ++ head?.toList }
  | .pushUsed head len =>
    s.pushed.length < s.popped.length ∧
    ∃ queue mem, s.queue.pushUsed s.mem head len = .ok (queue, mem) ∧
      s' = { s with queue, mem, pushed := s.pushed ++ [(head, len)] }
  | .consume =>
    s.view.usedIdx ≠ s.usedIdx ∧
    s' = { s with
      usedIdx := s.usedIdx + 1
      consumed := s.consumed ++ [s.view.used (s.usedIdx.toNat % s.queue.size.toNat)] }
  | .store addr data =>
    (addr.toNat + data.length ≤ s.queue.availAddr.toNat ∨
      s.queue.availAddr.toNat + s.queue.availBytes ≤ addr.toNat) ∧
    (addr.toNat + data.length ≤ s.queue.usedAddr.toNat ∨
      s.queue.usedAddr.toNat + s.queue.usedBytes ≤ addr.toNat) ∧
    s' = { s with mem := s.mem.store addr data }

/-- Both sides start with every index at zero and nothing in flight. -/
structure RingState.Initial (s : RingState) : Prop where
  layout : RingLayout s.queue s.mem
  queue_idx : s.queue.lastAvailIdx = 0 ∧ s.queue.lastUsedIdx = 0
  driver_idx : s.availIdx = 0 ∧ s.usedIdx = 0
  ring_idx : s.view.availIdx = 0 ∧ s.view.usedIdx = 0
  history : s.placed = [] ∧ s.announced = 0 ∧ s.popped = [] ∧ s.pushed = [] ∧ s.consumed = []

def ringSystem : System RingState RingEvent where
  init := RingState.Initial
  step := RingState.step

/-! ### Addresses -/

theorem Contains.offset_ofNat {r : MemoryRegion} {base : UInt64} {total offset length : Nat}
    (h : r.Contains base total) (haddr : r.memOffset.toNat + r.bytes.length ≤ 2 ^ 64)
    (hfit : offset + length ≤ total) (hlen : 0 < length) :
    (base + UInt64.ofNat offset).toNat = base.toNat + offset ∧ base.toNat + offset < 2 ^ 64 ∧
      r.Contains (base + UInt64.ofNat offset) length := by
  obtain ⟨hstart, hend⟩ := h
  have hlt : base.toNat + offset < 2 ^ 64 := by omega
  have hsum : (base + UInt64.ofNat offset).toNat = base.toNat + offset := by
    rw [UInt64.toNat_add, UInt64.toNat_ofNat', Nat.mod_eq_of_lt (by omega : offset < 2 ^ 64),
      Nat.mod_eq_of_lt hlt]
  refine ⟨hsum, hlt, ?_, ?_⟩
  · omega
  · omega

namespace RingsIn

variable {q : VirtioQueue} {r : MemoryRegion} (h : RingsIn q r)
include h

theorem size_pos : 0 < q.size.toNat := by
  obtain ⟨k, _, hk⟩ := h.size_pow
  rw [hk]
  exact Nat.two_pow_pos k

theorem size_ne : q.size ≠ 0 := fun hz => by simpa [hz] using h.size_pos

theorem size_dvd : q.size.toNat ∣ 2 ^ 16 := by
  obtain ⟨k, hle, hk⟩ := h.size_pow
  rw [hk]
  exact Nat.pow_dvd_pow 2 (by omega)

theorem size_le : q.size.toNat ≤ 2 ^ 15 := by
  obtain ⟨k, hle, hk⟩ := h.size_pow
  rw [hk]
  exact Nat.pow_le_pow_right (by decide) hle

theorem availIdx_at : q.availIdxAddr.toNat = q.availAddr.toNat + 2 ∧ q.availAddr.toNat + 2 < 2 ^ 64 ∧
    r.Contains q.availIdxAddr 2 := by
  have hfit : 2 + 2 ≤ q.availBytes := by
    unfold VirtioQueue.availBytes
    omega
  exact Contains.offset_ofNat h.avail_in h.addressable hfit (by decide)

theorem usedIdx_at : q.usedIdxAddr.toNat = q.usedAddr.toNat + 2 ∧ q.usedAddr.toNat + 2 < 2 ^ 64 ∧
    r.Contains q.usedIdxAddr 2 := by
  have hfit : 2 + 2 ≤ q.usedBytes := by
    unfold VirtioQueue.usedBytes
    omega
  exact Contains.offset_ofNat h.used_in h.addressable hfit (by decide)

theorem availSlot_at (hslot : slot < q.size.toNat) :
    (q.availSlotAddr slot).toNat = q.availAddr.toNat + (4 + slot * 2) ∧
      q.availAddr.toNat + (4 + slot * 2) < 2 ^ 64 ∧ r.Contains (q.availSlotAddr slot) 2 :=
  Contains.offset_ofNat h.avail_in h.addressable (by unfold VirtioQueue.availBytes; omega) (by decide)

theorem usedSlot_at (hslot : slot < q.size.toNat) : (q.usedSlotAddr slot).toNat = q.usedAddr.toNat + (4 + slot * 8) ∧
      q.usedAddr.toNat + (4 + slot * 8) < 2 ^ 64 ∧ r.Contains (q.usedSlotAddr slot) 8 :=
  Contains.offset_ofNat h.used_in h.addressable (by unfold VirtioQueue.usedBytes; omega) (by decide)

theorem usedSlotLen_at (hslot : slot < q.size.toNat) :
    (q.usedSlotAddr slot + 4).toNat = q.usedAddr.toNat + (8 + slot * 8) := by
  obtain ⟨hat, _, hin⟩ := h.usedSlot_at hslot
  have hlen := (Contains.offset_ofNat hin h.addressable (by decide : 4 + 4 ≤ 8) (by decide)).1
  rw [hat] at hlen
  exact hlen.trans (by omega)

end RingsIn

/-! ### Memory through one region -/

namespace Ram

variable {m : Ram} {addr from' : UInt64} {data : Bytes}

theorem u16_store_of_disjoint (h : addr.toNat + data.length ≤ from'.toNat ∨ from'.toNat + 2 ≤ addr.toNat) :
    (m.store addr data).u16 from' = m.u16 from' := by
  rw [u16, load_store_of_disjoint m h, u16]

theorem u32_store_of_disjoint (h : addr.toNat + data.length ≤ from'.toNat ∨ from'.toNat + 4 ≤ addr.toNat) :
    (m.store addr data).u32 from' = m.u32 from' := by
  rw [u32, load_store_of_disjoint m h, u32]

theorem u16_store_self {v : UInt16} (hland : landsIn m.regions addr 2 = true) :
    (m.store addr (u16ToLe v)).u16 addr = v := by
  have hland' : landsIn m.regions addr (u16ToLe v).length = true := by rwa [length_u16ToLe]
  have hload := load_store_self m hland'
  rw [length_u16ToLe] at hload
  rw [u16, hload, u16FromLe_toLe]

theorem u32_store_self {v : UInt32} (hland : landsIn m.regions addr 4 = true) :
    (m.store addr (u32ToLe v)).u32 addr = v := by
  have hland' : landsIn m.regions addr (u32ToLe v).length = true := by rwa [length_u32ToLe]
  have hload := load_store_self m hland'
  rw [length_u32ToLe] at hload
  rw [u32, hload, u32FromLe_toLe]

end Ram

section OneRegion

variable {mem : VirtioGuestMemoryHandle} {r : MemoryRegion} {addr : UInt64} {length : Nat}

theorem unobstructed_one (hmem : mem.mem = [r]) (hc : r.Contains addr length) : Unobstructed mem.mem addr length := by
  rw [hmem]
  exact unobstructed_cons.mpr (Or.inl hc)

theorem landsIn_one (hmem : mem.mem = [r]) (hnull : r.isNull = false) (hc : r.Contains addr length) :
    landsIn mem.ram.regions addr length = true := by
  show landsIn mem.mem addr length = true
  rw [hmem, landsIn_cons_of_contains hc, hnull]
  rfl

theorem readU16_one (hmem : mem.mem = [r]) (hnull : r.isNull = false) (hc : r.Contains addr 2) :
    GuestMemory.readU16 mem addr = .ok (mem.ram.u16 addr) :=
  Ram.readU16_eq_u16 (by simpa [hmem] using hnull) (unobstructed_one hmem hc)

theorem writeU16_one {val : UInt16} (hmem : mem.mem = [r]) (hc : r.Contains addr 2) :
    GuestMemory.writeU16 mem addr val = .ok (mem.store addr (u16ToLe val)) :=
  Ram.writeLoopOf_eq_store (unobstructed_one hmem (by rwa [length_u16ToLe]))

theorem writeU32_one {val : UInt32} (hmem : mem.mem = [r]) (hc : r.Contains addr 4) :
    GuestMemory.writeU32 mem addr val = .ok (mem.store addr (u32ToLe val)) :=
  Ram.writeLoopOf_eq_store (unobstructed_one hmem (by rwa [length_u32ToLe]))

theorem store_one (hmem : mem.mem = [r]) (addr : UInt64) (data : Bytes) :
    ∃ r', (mem.store addr data).mem = [r'] ∧ r'.memOffset = r.memOffset ∧
      r'.bytes.length = r.bytes.length ∧ r'.isNull = r.isNull := by
  have hgeom : SameGeometry mem.mem (mem.store addr data).mem := Ram.storeIn_geometry addr data mem.mem
  rw [hmem] at hgeom
  generalize (mem.store addr data).mem = rs' at hgeom
  cases hgeom with
  | cons hhead htail =>
    cases htail
    exact ⟨_, rfl, hhead⟩

end OneRegion

section

variable {q : VirtioQueue} {mem : VirtioGuestMemoryHandle} (h : RingLayout q mem)
include h

theorem RingLayout.store (addr : UInt64) (data : Bytes) : RingLayout q (mem.store addr data) := by
  obtain ⟨r, hmem, hr⟩ := h
  obtain ⟨r', hmem', hoff, hlen, hnull⟩ := store_one hmem addr data
  refine ⟨r', hmem', hr.size_pow, hnull.trans hr.mapped, ?_, (contains_congr hoff hlen _ _).mpr hr.avail_in,
    (contains_congr hoff hlen _ _).mpr hr.used_in, hr.disjoint⟩
  rw [hoff, hlen]
  exact hr.addressable

theorem RingLayout.advance (lastAvailIdx lastUsedIdx : UInt16) :
    RingLayout { q with lastAvailIdx := lastAvailIdx, lastUsedIdx := lastUsedIdx } mem := by
  obtain ⟨r, hmem, hr⟩ := h
  exact ⟨r, hmem, hr.size_pow, hr.mapped, hr.addressable, hr.avail_in, hr.used_in, hr.disjoint⟩

end

/-! ### What the stores of the protocol do to the rings -/

section View

variable {q : VirtioQueue} {r : MemoryRegion} {m : Ram} {addr : UInt64} {data : Bytes}

theorem RingsIn.avail_store (hr : RingsIn q r)
    (hdisj : addr.toNat + data.length ≤ q.availAddr.toNat ∨ q.availAddr.toNat + q.availBytes ≤ addr.toNat) :
    (q.view (m.store addr data)).availIdx = (q.view m).availIdx ∧
      (q.view (m.store addr data)).avail = (q.view m).avail := by
  have hai := hr.availIdx_at.1
  unfold VirtioQueue.availBytes at hdisj
  refine ⟨Ram.u16_store_of_disjoint (by omega), ?_⟩
  funext slot
  refine ite_congr rfl (fun hslot => Ram.u16_store_of_disjoint ?_) fun _ => rfl
  have hat := (hr.availSlot_at hslot).1
  omega

theorem RingsIn.used_store (hr : RingsIn q r)
    (hdisj : addr.toNat + data.length ≤ q.usedAddr.toNat ∨ q.usedAddr.toNat + q.usedBytes ≤ addr.toNat) :
    (q.view (m.store addr data)).usedIdx = (q.view m).usedIdx ∧
      (q.view (m.store addr data)).used = (q.view m).used := by
  have hui := hr.usedIdx_at.1
  unfold VirtioQueue.usedBytes at hdisj
  refine ⟨Ram.u16_store_of_disjoint (by omega), ?_⟩
  funext slot
  refine ite_congr rfl (fun hslot => ?_) fun _ => rfl
  have hat := (hr.usedSlot_at hslot).1
  have hlen := hr.usedSlotLen_at hslot
  exact Prod.ext (Ram.u32_store_of_disjoint (by omega)) (Ram.u32_store_of_disjoint (by omega))

theorem RingsIn.used_store_avail (hr : RingsIn q r) (hlo : q.availAddr.toNat ≤ addr.toNat)
    (hhi : addr.toNat + data.length ≤ q.availAddr.toNat + q.availBytes) :
    (q.view (m.store addr data)).usedIdx = (q.view m).usedIdx ∧
      (q.view (m.store addr data)).used = (q.view m).used := by
  have hdisj := hr.disjoint
  exact hr.used_store (by omega)

theorem RingsIn.avail_store_used (hr : RingsIn q r) (hlo : q.usedAddr.toNat ≤ addr.toNat)
    (hhi : addr.toNat + data.length ≤ q.usedAddr.toNat + q.usedBytes) :
    (q.view (m.store addr data)).availIdx = (q.view m).availIdx ∧
      (q.view (m.store addr data)).avail = (q.view m).avail := by
  have hdisj := hr.disjoint
  exact hr.avail_store (by omega)

variable {mem : VirtioGuestMemoryHandle}

theorem RingLayout.view_store (h : RingLayout q mem)
    (havail : addr.toNat + data.length ≤ q.availAddr.toNat ∨ q.availAddr.toNat + q.availBytes ≤ addr.toNat)
    (hused : addr.toNat + data.length ≤ q.usedAddr.toNat ∨ q.usedAddr.toNat + q.usedBytes ≤ addr.toNat) :
    q.view (mem.store addr data).ram = q.view mem.ram := by
  obtain ⟨r, _, hr⟩ := h
  obtain ⟨hai, ha⟩ := hr.avail_store havail
  obtain ⟨hui, hu⟩ := hr.used_store hused
  exact RingView.ext hai hui ha hu

theorem RingLayout.view_place (h : RingLayout q mem) (hslot : slot < q.size.toNat)
    (head : UInt16) : q.view (mem.store (q.availSlotAddr slot) (u16ToLe head)).ram =
      { q.view mem.ram with avail := Function.update (q.view mem.ram).avail slot head } := by
  obtain ⟨r, hmem, hr⟩ := h
  have hai := hr.availIdx_at.1
  obtain ⟨hat, _, hin⟩ := hr.availSlot_at hslot
  obtain ⟨hui, hu⟩ := @hr.used_store_avail _ _ mem.ram (q.availSlotAddr slot) (u16ToLe head) (by omega) (by
    rw [length_u16ToLe, VirtioQueue.availBytes]
    omega)
  refine RingView.ext (Ram.u16_store_of_disjoint (by omega)) hui ?_ hu
  funext slot'
  show (q.view (mem.ram.store _ _)).avail slot' = Function.update (q.view mem.ram).avail slot head slot'
  by_cases heq : slot' = slot
  · subst heq
    rw [Function.update_self]
    exact (if_pos hslot).trans (Ram.u16_store_self (landsIn_one hmem hr.mapped hin))
  · rw [Function.update_of_ne heq]
    refine ite_congr rfl (fun hslot' => Ram.u16_store_of_disjoint ?_) fun _ => rfl
    have hat' := (hr.availSlot_at hslot').1
    rw [length_u16ToLe]
    omega

theorem RingLayout.view_announce (h : RingLayout q mem) (idx : UInt16) :
    q.view (mem.store q.availIdxAddr (u16ToLe idx)).ram = { q.view mem.ram with availIdx := idx } := by
  obtain ⟨r, hmem, hr⟩ := h
  obtain ⟨hai, _, hin⟩ := hr.availIdx_at
  obtain ⟨hui, hu⟩ := @hr.used_store_avail _ _ mem.ram q.availIdxAddr (u16ToLe idx) (by omega) (by
    rw [length_u16ToLe, VirtioQueue.availBytes]
    omega)
  refine RingView.ext (Ram.u16_store_self (landsIn_one hmem hr.mapped hin)) hui ?_ hu
  funext slot
  refine ite_congr rfl (fun hslot => Ram.u16_store_of_disjoint ?_) fun _ => rfl
  have hat := (hr.availSlot_at hslot).1
  rw [length_u16ToLe]
  omega

/-- The memory after a push: the entry, and then the index. -/
def VirtioQueue.pushed (q : VirtioQueue) (mem : VirtioGuestMemoryHandle) (slot : Nat)
    (e : UInt16 × UInt32) (idx : UInt16) : VirtioGuestMemoryHandle :=
  ((mem.store (q.usedSlotAddr slot) (u32ToLe e.1.toUInt32)).store (q.usedSlotAddr slot + 4)
    (u32ToLe e.2)).store q.usedIdxAddr (u16ToLe idx)

theorem RingLayout.pushed (h : RingLayout q mem) (slot : Nat) (e : UInt16 × UInt32) (idx : UInt16) :
    RingLayout q (q.pushed mem slot e idx) :=
  ((h.store _ _).store _ _).store _ _

theorem RingLayout.view_pushed (h : RingLayout q mem) (hslot : slot < q.size.toNat)
    (e : UInt16 × UInt32) (idx : UInt16) : q.view (q.pushed mem slot e idx).ram = { q.view mem.ram with
        usedIdx := idx
        used := Function.update (q.view mem.ram).used slot (usedEntry e) } := by
  obtain ⟨r, hmem, hr⟩ := h
  obtain ⟨hui, _, hidx⟩ := hr.usedIdx_at
  obtain ⟨hat, _, hin⟩ := hr.usedSlot_at hslot
  have hlen := hr.usedSlotLen_at hslot
  have hbytes : q.usedBytes = 4 + q.size.toNat * 8 := rfl
  have hw1 := length_u32ToLe e.1.toUInt32
  have hw2 := length_u32ToLe e.2
  have hw3 := length_u16ToLe idx
  obtain ⟨hai1, ha1⟩ := @hr.avail_store_used _ _ mem.ram (q.usedSlotAddr slot) (u32ToLe e.1.toUInt32)
    (by omega) (by omega)
  obtain ⟨hai2, ha2⟩ := @hr.avail_store_used _ _ (mem.ram.store (q.usedSlotAddr slot) (u32ToLe e.1.toUInt32))
    (q.usedSlotAddr slot + 4) (u32ToLe e.2) (by omega) (by omega)
  obtain ⟨hai3, ha3⟩ := @hr.avail_store_used _ _
    ((mem.ram.store (q.usedSlotAddr slot) (u32ToLe e.1.toUInt32)).store (q.usedSlotAddr slot + 4) (u32ToLe e.2))
    q.usedIdxAddr (u16ToLe idx) (by omega) (by omega)
  -- The regions stay where they are, so each of the three stores lands.
  have hland0 : ∀ {a n}, r.Contains a n → landsIn mem.ram.regions a n = true := fun hc =>
    landsIn_one hmem hr.mapped hc
  have hland1 := (Ram.storeIn_geometry (q.usedSlotAddr slot) (u32ToLe e.1.toUInt32) mem.ram.regions).landsIn_eq
  have hland2 := (Ram.storeIn_geometry (q.usedSlotAddr slot + 4) (u32ToLe e.2)
    (mem.ram.store (q.usedSlotAddr slot) (u32ToLe e.1.toUInt32)).regions).landsIn_eq
  obtain ⟨_, _, hin4⟩ := Contains.offset_ofNat hin hr.addressable (by decide : 4 + 4 ≤ 8) (by decide)
  have hin0 : r.Contains (q.usedSlotAddr slot) 4 := ⟨hin.1, by have := hin.2; omega⟩
  refine RingView.ext (hai3.trans (hai2.trans hai1)) (Ram.u16_store_self ?_) (ha3.trans (ha2.trans ha1)) ?_
  · exact (congrFun (congrFun (hland2.trans hland1) _) _).trans (hland0 hidx)
  · funext slot'
    show (q.view (q.pushed mem slot e idx).ram).used slot' =
      Function.update (q.view mem.ram).used slot (usedEntry e) slot'
    by_cases heq : slot' = slot
    · subst heq
      rw [Function.update_self]
      refine (if_pos hslot).trans (Prod.ext ?_ ?_)
      · refine (Ram.u32_store_of_disjoint (by omega)).trans ((Ram.u32_store_of_disjoint (by omega)).trans ?_)
        exact Ram.u32_store_self (hland0 hin0)
      · refine (Ram.u32_store_of_disjoint (by omega)).trans (Ram.u32_store_self ?_)
        exact (congrFun (congrFun hland1 _) _).trans (hland0 hin4)
    · rw [Function.update_of_ne heq]
      refine ite_congr rfl (fun hslot' => ?_) fun _ => rfl
      have hat' := (hr.usedSlot_at hslot').1
      have hlen' := hr.usedSlotLen_at hslot'
      refine Prod.ext ?_ ?_
      · exact (Ram.u32_store_of_disjoint (by omega)).trans ((Ram.u32_store_of_disjoint (by omega)).trans
          (Ram.u32_store_of_disjoint (by omega)))
      · exact (Ram.u32_store_of_disjoint (by omega)).trans ((Ram.u32_store_of_disjoint (by omega)).trans
          (Ram.u32_store_of_disjoint (by omega)))

end View

/-! ### The device's operations on rings in RAM -/

section Device

variable {q : VirtioQueue} {mem : VirtioGuestMemoryHandle}

theorem RingsIn.addU64_availSlot {r : MemoryRegion} (hr : RingsIn q r) (idx : UInt16) :
    addU64 q.availAddr (q.availOffset idx) = .ok (q.availSlotAddr (idx.toNat % q.size.toNat)) := by
  have hslot : idx.toNat % q.size.toNat < q.size.toNat := Nat.mod_lt _ hr.size_pos
  obtain ⟨hat, hlt, _⟩ := hr.availSlot_at hslot
  rw [addU64_eq_ok, q.toNat_availOffset, hat]
  exact ⟨hlt, rfl⟩

theorem RingsIn.addU64_usedSlot {r : MemoryRegion} (hr : RingsIn q r) (idx : UInt16) :
    addU64 q.usedAddr (q.usedOffset idx) = .ok (q.usedSlotAddr (idx.toNat % q.size.toNat)) := by
  have hslot : idx.toNat % q.size.toNat < q.size.toNat := Nat.mod_lt _ hr.size_pos
  obtain ⟨hat, hlt, _⟩ := hr.usedSlot_at hslot
  rw [addU64_eq_ok, q.toNat_usedOffset, hat]
  exact ⟨hlt, rfl⟩

theorem RingLayout.popAvail_eq (h : RingLayout q mem) :
    q.popAvail mem = .ok (if q.lastAvailIdx = (q.view mem.ram).availIdx then (none, q)
      else (some ((q.view mem.ram).avail (q.lastAvailIdx.toNat % q.size.toNat)),
        { q with lastAvailIdx := q.lastAvailIdx + 1 })) := by
  obtain ⟨r, hmem, hr⟩ := h
  obtain ⟨_, hlt, hidx⟩ := hr.availIdx_at
  have hslot : q.lastAvailIdx.toNat % q.size.toNat < q.size.toNat := Nat.mod_lt _ hr.size_pos
  obtain ⟨_, _, hin⟩ := hr.availSlot_at hslot
  have hread : GuestMemory.readU16 mem (q.availAddr + 2) = .ok (q.view mem.ram).availIdx :=
    readU16_one hmem hr.mapped hidx
  have hhead : GuestMemory.readU16 mem (q.availSlotAddr (q.lastAvailIdx.toNat % q.size.toNat)) =
      .ok ((q.view mem.ram).avail (q.lastAvailIdx.toNat % q.size.toNat)) :=
    (readU16_one hmem hr.mapped hin).trans (congrArg Except.ok (if_pos hslot).symm)
  rw [VirtioQueue.popAvail, if_neg hr.size_ne, addU64_of_lt hlt, Exec.ok_bind, hread, Exec.ok_bind,
    hr.addU64_availSlot, Exec.ok_bind, hhead, Exec.ok_bind]
  split_ifs <;> rfl

theorem RingLayout.pushUsed_eq (h : RingLayout q mem) (head : UInt16) (len : UInt32) :
    q.pushUsed mem head len = .ok ({ q with lastUsedIdx := q.lastUsedIdx + 1 },
      q.pushed mem (q.lastUsedIdx.toNat % q.size.toNat) (head, len) (q.lastUsedIdx + 1)) := by
  obtain ⟨r, hmem, hr⟩ := h
  have hslot : q.lastUsedIdx.toNat % q.size.toNat < q.size.toNat := Nat.mod_lt _ hr.size_pos
  obtain ⟨hat, _, hin⟩ := hr.usedSlot_at hslot
  obtain ⟨_, hlt, hin4⟩ := Contains.offset_ofNat hin hr.addressable (by decide : 4 + 4 ≤ 8) (by decide)
  obtain ⟨_, hltidx, hidx⟩ := hr.usedIdx_at
  have hin0 : r.Contains (q.usedSlotAddr (q.lastUsedIdx.toNat % q.size.toNat)) 4 :=
    ⟨hin.1, by have := hin.2; omega⟩
  obtain ⟨r1, hmem1, hoff1, hlen1, _⟩ :=
    store_one hmem (q.usedSlotAddr (q.lastUsedIdx.toNat % q.size.toNat)) (u32ToLe head.toUInt32)
  obtain ⟨r2, hmem2, hoff2, hlen2, _⟩ :=
    store_one hmem1 (q.usedSlotAddr (q.lastUsedIdx.toNat % q.size.toNat) + 4) (u32ToLe len)
  have hin1 : r1.Contains (q.usedSlotAddr (q.lastUsedIdx.toNat % q.size.toNat) + 4) 4 :=
    (contains_congr hoff1 hlen1 _ _).mpr hin4
  have hin2 := (contains_congr (hoff2.trans hoff1) (hlen2.trans hlen1) _ _).mpr hidx
  have hlen4 : addU64 (q.usedSlotAddr (q.lastUsedIdx.toNat % q.size.toNat)) 4 =
      .ok (q.usedSlotAddr (q.lastUsedIdx.toNat % q.size.toNat) + 4) := addU64_of_lt hlt
  have hidx2 : addU64 q.usedAddr 2 = .ok q.usedIdxAddr := addU64_of_lt hltidx
  rw [VirtioQueue.pushUsed, if_neg hr.size_ne, hr.addU64_usedSlot, Exec.ok_bind, writeU32_one hmem hin0,
    Exec.ok_bind, hlen4, Exec.ok_bind, writeU32_one hmem1 hin1, Exec.ok_bind, hidx2, Exec.ok_bind,
    writeU16_one hmem2 hin2]
  rfl

end Device

/-! ### The invariant -/

/-- The counts of the run in order, the indices as their images modulo `2 ^ 16`, and the entries that
the driver has not taken back yet in their slots. -/
structure RingInv (s : RingState) : Prop where
  layout : RingLayout s.queue s.mem
  consumed_le : s.consumed.length ≤ s.pushed.length
  pushed_le : s.pushed.length ≤ s.popped.length
  popped_le : s.popped.length ≤ s.announced
  announced_le : s.announced ≤ s.placed.length
  placed_le : s.placed.length ≤ s.consumed.length + s.queue.size.toNat
  availIdx : s.availIdx = counter s.placed.length
  usedIdx : s.usedIdx = counter s.consumed.length
  lastAvailIdx : s.queue.lastAvailIdx = counter s.popped.length
  lastUsedIdx : s.queue.lastUsedIdx = counter s.pushed.length
  viewAvailIdx : s.view.availIdx = counter s.announced
  viewUsedIdx : s.view.usedIdx = counter s.pushed.length
  avail : InSlots s.queue.size.toNat s.view.avail s.placed s.consumed.length
  used : InSlots s.queue.size.toNat s.view.used (s.pushed.map usedEntry) s.consumed.length
  popped_eq : s.popped = s.placed.take s.popped.length
  consumed_eq : s.consumed = (s.pushed.map usedEntry).take s.consumed.length

namespace RingInv

variable {s s' : RingState}

theorem init (h : s.Initial) : RingInv s := by
  obtain ⟨hlayout, ⟨hla, hlu⟩, ⟨hda, hdu⟩, ⟨hva, hvu⟩, hplaced, hannounced, hpopped, hpushed, hconsumed⟩ := h
  refine ⟨hlayout, ?_, ?_, ?_, ?_, ?_, ?_, ?_, ?_, ?_, ?_, ?_, ?_, ?_, ?_, ?_⟩
  all_goals
    simp only [hplaced, hannounced, hpopped, hpushed, hconsumed, List.length_nil, List.map_nil,
      List.take_nil, Nat.zero_add, Nat.zero_le, Nat.le_refl, inSlots_nil, counter_zero]
    try assumption

section

variable (h : RingInv s)
include h

theorem size_dvd : s.queue.size.toNat ∣ 2 ^ 16 := by
  obtain ⟨r, _, hr⟩ := h.layout
  exact hr.size_dvd

theorem size_pos : 0 < s.queue.size.toNat := by
  obtain ⟨r, _, hr⟩ := h.layout
  exact hr.size_pos

theorem size_le : s.queue.size.toNat ≤ 2 ^ 15 := by
  obtain ⟨r, _, hr⟩ := h.layout
  exact hr.size_le

theorem idle_iff : s.queue.lastAvailIdx = s.view.availIdx ↔ s.popped.length = s.announced := by
  have hsize := h.size_le
  have h1 := h.consumed_le
  have h2 := h.pushed_le
  have h3 := h.announced_le
  have h4 := h.placed_le
  rw [h.lastAvailIdx, h.viewAvailIdx]
  exact counter_inj h.popped_le (by omega)

theorem drained_iff : s.view.usedIdx = s.usedIdx ↔ s.consumed.length = s.pushed.length := by
  have hsize := h.size_le
  have h1 := h.pushed_le
  have h2 := h.popped_le
  have h3 := h.announced_le
  have h4 := h.placed_le
  rw [h.usedIdx, h.viewUsedIdx, eq_comm]
  exact counter_inj h.consumed_le (by omega)

theorem next_head (hlt : s.popped.length < s.announced) : s.placed[s.popped.length]? =
      some (s.view.avail (s.queue.lastAvailIdx.toNat % s.queue.size.toNat)) := by
  have h1 := h.consumed_le
  have h2 := h.pushed_le
  have h3 := h.announced_le
  have hget := List.getElem?_eq_getElem (show s.popped.length < s.placed.length by omega)
  rw [hget, h.lastAvailIdx, counter_mod h.size_dvd]
  exact congrArg some (h.avail _ _ (by omega) hget).symm

theorem next_used (hlt : s.consumed.length < s.pushed.length) : (s.pushed.map usedEntry)[s.consumed.length]? =
      some (s.view.used (s.usedIdx.toNat % s.queue.size.toNat)) := by
  have hget := List.getElem?_eq_getElem (show s.consumed.length < (s.pushed.map usedEntry).length by
    rwa [List.length_map])
  rw [hget, h.usedIdx, counter_mod h.size_dvd]
  exact congrArg some (h.used _ _ (Nat.le_refl _) hget).symm

end

/-! ### The invariant along a run -/

section

variable (h : RingInv s)
include h

theorem place {head : UInt16} (hstep : s.step (.place head) s') : RingInv s' := by
  obtain ⟨hroom, rfl⟩ := hstep
  have hslot : s.availIdx.toNat % s.queue.size.toNat = s.placed.length % s.queue.size.toNat := by
    rw [h.availIdx, counter_mod h.size_dvd]
  have hview := h.layout.view_place (Nat.mod_lt s.availIdx.toNat h.size_pos) head
  have havail := h.avail.push hroom head
  rw [← hslot] at havail
  refine
    { h with
      layout := h.layout.store _ _
      announced_le := ?_
      placed_le := ?_
      availIdx := ?_
      viewAvailIdx := (congrArg RingView.availIdx hview).trans h.viewAvailIdx
      viewUsedIdx := (congrArg RingView.usedIdx hview).trans h.viewUsedIdx
      avail := ?_
      used := ?_
      popped_eq := ?_ }
  · rw [List.length_append, List.length_singleton]
    exact Nat.le_succ_of_le h.announced_le
  · rw [List.length_append, List.length_singleton]
    exact hroom
  · rw [List.length_append, List.length_singleton, ← counter_succ, h.availIdx]
  · rw [RingState.view, hview]
    exact havail
  · rw [RingState.view, hview]
    exact h.used
  · rw [List.take_append_of_le_length (Nat.le_trans h.popped_le h.announced_le)]
    exact h.popped_eq

theorem announce (hstep : s.step .announce s') : RingInv s' := by
  obtain rfl := hstep
  have hview := h.layout.view_announce s.availIdx
  refine
    { h with
      layout := h.layout.store _ _
      popped_le := Nat.le_trans h.popped_le h.announced_le
      announced_le := Nat.le_refl _
      viewAvailIdx := ?_
      viewUsedIdx := (congrArg RingView.usedIdx hview).trans h.viewUsedIdx
      avail := ?_
      used := ?_ }
  · exact (congrArg RingView.availIdx hview).trans h.availIdx
  · rw [RingState.view, hview]
    exact h.avail
  · rw [RingState.view, hview]
    exact h.used

theorem popAvail (hstep : s.step .popAvail s') : RingInv s' := by
  obtain ⟨head?, queue, hpop, rfl⟩ := hstep
  rw [h.layout.popAvail_eq] at hpop
  by_cases hidle : s.queue.lastAvailIdx = (s.queue.view s.mem.ram).availIdx
  · rw [if_pos hidle] at hpop
    cases hpop
    simpa only [Option.toList_none, List.append_nil] using h
  · rw [if_neg hidle] at hpop
    cases hpop
    have hlt : s.popped.length < s.announced :=
      Nat.lt_of_le_of_ne h.popped_le fun heq => hidle (h.idle_iff.mpr heq)
    have hlen : (s.popped ++ [s.view.avail (s.queue.lastAvailIdx.toNat % s.queue.size.toNat)]).length =
        s.popped.length + 1 := List.length_append
    refine
      { h with
        layout := h.layout.advance _ _
        pushed_le := ?_
        popped_le := ?_
        lastAvailIdx := ?_
        popped_eq := ?_ }
    · exact Nat.le_trans (Nat.le_succ_of_le h.pushed_le) (Nat.le_of_eq hlen.symm)
    · exact Nat.le_trans (Nat.le_of_eq hlen) hlt
    · refine Eq.trans ?_ (congrArg counter hlen.symm)
      rw [← counter_succ, ← h.lastAvailIdx]
    · show s.popped ++ [s.view.avail (s.queue.lastAvailIdx.toNat % s.queue.size.toNat)] =
        s.placed.take (List.length (s.popped ++ [_]))
      rw [List.length_append, List.length_singleton, List.take_add_one, h.next_head hlt, ← h.popped_eq]
      rfl

theorem pushUsed {head : UInt16} {len : UInt32} (hstep : s.step (.pushUsed head len) s') : RingInv s' := by
  obtain ⟨hlt, queue, mem, hpush, rfl⟩ := hstep
  rw [h.layout.pushUsed_eq] at hpush
  cases hpush
  have hslot : s.queue.lastUsedIdx.toNat % s.queue.size.toNat =
      (s.pushed.map usedEntry).length % s.queue.size.toNat := by
    rw [h.lastUsedIdx, counter_mod h.size_dvd, List.length_map]
  have hview := h.layout.view_pushed (Nat.mod_lt s.queue.lastUsedIdx.toNat h.size_pos) (head, len)
    (s.queue.lastUsedIdx + 1)
  have hlen : (s.pushed ++ [(head, len)]).length = s.pushed.length + 1 := List.length_append
  have hroom : (s.pushed.map usedEntry).length < s.consumed.length + s.queue.size.toNat := by
    have h1 := h.popped_le
    have h2 := h.announced_le
    have h3 := h.placed_le
    rw [List.length_map]
    omega
  have hused := h.used.push hroom (usedEntry (head, len))
  rw [← hslot] at hused
  have hidx : s.queue.lastUsedIdx + 1 = counter (s.pushed ++ [(head, len)]).length := by
    rw [hlen, ← counter_succ, ← h.lastUsedIdx]
  refine
    { h with
      layout := ?_
      consumed_le := ?_
      pushed_le := Nat.le_trans (Nat.le_of_eq hlen) hlt
      lastUsedIdx := hidx
      viewAvailIdx := (congrArg RingView.availIdx hview).trans h.viewAvailIdx
      viewUsedIdx := (congrArg RingView.usedIdx hview).trans hidx
      avail := ?_
      used := ?_
      consumed_eq := ?_ }
  · exact (h.layout.pushed _ (head, len) _).advance _ _
  · exact Nat.le_trans (Nat.le_succ_of_le h.consumed_le) (Nat.le_of_eq hlen.symm)
  · exact (congrArg RingView.avail hview).symm ▸ h.avail
  · have hmap : (s.pushed ++ [(head, len)]).map usedEntry =
        s.pushed.map usedEntry ++ [usedEntry (head, len)] := List.map_append
    rw [hmap]
    exact (congrArg RingView.used hview).symm ▸ hused
  · rw [List.map_append, List.take_append_of_le_length (by rw [List.length_map]; exact h.consumed_le)]
    exact h.consumed_eq

theorem consume (hstep : s.step .consume s') : RingInv s' := by
  obtain ⟨hnew, rfl⟩ := hstep
  have hlt : s.consumed.length < s.pushed.length :=
    Nat.lt_of_le_of_ne h.consumed_le fun heq => hnew (h.drained_iff.mpr heq)
  have hlen : (s.consumed ++ [s.view.used (s.usedIdx.toNat % s.queue.size.toNat)]).length =
      s.consumed.length + 1 := List.length_append
  refine
    { h with
      consumed_le := Nat.le_trans (Nat.le_of_eq hlen) hlt
      placed_le := ?_
      usedIdx := ?_
      avail := h.avail.mono (Nat.le_trans (Nat.le_succ _) (Nat.le_of_eq hlen.symm))
      used := h.used.mono (Nat.le_trans (Nat.le_succ _) (Nat.le_of_eq hlen.symm))
      consumed_eq := ?_ }
  · have hplaced := h.placed_le
    show s.placed.length ≤ List.length (s.consumed ++ [_]) + s.queue.size.toNat
    omega
  · rw [hlen, ← counter_succ, h.usedIdx]
  · rw [hlen, List.take_add_one, h.next_used hlt, ← h.consumed_eq]
    rfl

theorem store {addr : UInt64} {data : Bytes} (hstep : s.step (.store addr data) s') : RingInv s' := by
  obtain ⟨havail, hused, rfl⟩ := hstep
  have hview := h.layout.view_store havail hused
  exact
    { h with
      layout := h.layout.store _ _
      viewAvailIdx := (congrArg RingView.availIdx hview).trans h.viewAvailIdx
      viewUsedIdx := (congrArg RingView.usedIdx hview).trans h.viewUsedIdx
      avail := (congrArg RingView.avail hview).symm ▸ h.avail
      used := (congrArg RingView.used hview).symm ▸ h.used }

theorem step {e : RingEvent} (hstep : s.step e s') : RingInv s' := by
  cases e with
  | place head => exact h.place hstep
  | announce => exact h.announce hstep
  | popAvail => exact h.popAvail hstep
  | pushUsed head len => exact h.pushUsed hstep
  | consume => exact h.consume hstep
  | store addr data => exact h.store hstep

end

end RingInv

theorem ringInv_of_reachable (h : ringSystem.Reachable s) : RingInv s :=
  h.invariant (fun _ hinit => .init hinit) fun _ _ _ hinv hstep => hinv.step hstep

/-! ### The protocol -/

structure RingCorrect (s : RingState) : Prop where
  /-- The heads popped are the heads published, in order and each once. -/
  popped : s.popped = s.published.take s.popped.length
  /-- Popping returns the next published head, and nothing exactly when all have been popped. -/
  pop : ∃ head? queue, s.queue.popAvail s.mem = .ok (head?, queue) ∧
    (head? = none ↔ s.popped = s.published) ∧
    ∀ head, head? = some head → s.published[s.popped.length]? = some head
  /-- Pushing returns. -/
  push : ∀ head len, ∃ queue mem, s.queue.pushUsed s.mem head len = .ok (queue, mem)
  /-- The used entries taken are those pushed, in order and each once. -/
  consumed : s.consumed = (s.pushed.map usedEntry).take s.consumed.length
  /-- The driver sees a new entry exactly when one was pushed that it has not taken. -/
  consume : s.view.usedIdx ≠ s.usedIdx ↔ s.consumed.length < s.pushed.length
  /-- Every entry pushed and not taken is still in its slot. -/
  intact : ∀ k e, s.consumed.length ≤ k → s.pushed[k]? = some e →
    s.view.used (k % s.queue.size.toNat) = usedEntry e

theorem published_length (h : RingInv s) : s.published.length = s.announced :=
  List.length_take_of_le h.announced_le

theorem popped_eq_take (h : RingInv s) : s.popped = s.published.take s.popped.length := by
  rw [RingState.published, List.take_take, Nat.min_eq_left h.popped_le]
  exact h.popped_eq

theorem popped_eq_published_iff (h : RingInv s) : s.popped = s.published ↔ s.popped.length = s.announced := by
  constructor
  · intro heq
    rw [heq, published_length h]
  · intro hlen
    have hpop := popped_eq_take h
    rwa [hlen, ← published_length h, List.take_length] at hpop

/-- **The split ring.** Whatever the order of the driver's and the device's operations and however
often the indices wrap, heads and used entries pass through the rings in order, each once, and no used
entry is overwritten before the driver has taken it. -/
theorem ring_protocol (s : RingState) (hreach : ringSystem.Reachable s) : RingCorrect s := by
  have h := ringInv_of_reachable hreach
  refine ⟨popped_eq_take h, ?_, fun head len => ⟨_, _, h.layout.pushUsed_eq head len⟩, h.consumed_eq,
    ?_, ?_⟩
  · have hpop := h.layout.popAvail_eq
    by_cases hidle : s.queue.lastAvailIdx = (s.queue.view s.mem.ram).availIdx
    · rw [if_pos hidle] at hpop
      have hall := (popped_eq_published_iff h).mpr (h.idle_iff.mp hidle)
      exact ⟨_, _, hpop, iff_of_true rfl hall, nofun⟩
    · rw [if_neg hidle] at hpop
      have hne : s.popped.length ≠ s.announced := fun heq => hidle (h.idle_iff.mpr heq)
      have hlt := Nat.lt_of_le_of_ne h.popped_le hne
      refine ⟨_, _, hpop, iff_of_false nofun fun heq => hne ((popped_eq_published_iff h).mp heq), ?_⟩
      intro head hhead
      rw [RingState.published, List.getElem?_take_of_lt hlt, h.next_head hlt]
      exact hhead
  · rw [ne_eq, h.drained_iff]
    have hle := h.consumed_le
    omega
  · intro k e hk he
    refine h.used k (usedEntry e) hk ?_
    rw [List.getElem?_map, he]
    rfl

def ringStart : RingState where
  queue := { VirtioQueue.new with size := 1, ready := true, availAddr := 0, usedAddr := 8 }
  mem := ⟨[zeroRegion 0 20 (by decide)]⟩
  availIdx := 0
  usedIdx := 0
  placed := []
  announced := 0
  popped := []
  pushed := []
  consumed := []

theorem ringStart_initial : ringStart.Initial where
  layout := ⟨_, rfl, ⟨0, by decide, rfl⟩, rfl, by decide, by decide, by decide, Or.inl (by decide)⟩
  queue_idx := ⟨rfl, rfl⟩
  driver_idx := ⟨rfl, rfl⟩
  ring_idx := ⟨rfl, rfl⟩
  history := ⟨rfl, rfl, rfl, rfl, rfl⟩

/-- A head goes round: published, popped, retired and taken back. -/
theorem ring_protocol_round : ∃ s, ringSystem.Reachable s ∧ s.popped = [7] ∧ s.consumed = [(7, 3)] ∧
    RingCorrect s := by
  have h0 : ringSystem.Reachable ringStart := .init ringStart_initial
  have h1 := h0.next (show ringSystem.step ringStart (.place 7) _ from ⟨by decide, rfl⟩)
  have h2 := h1.next (show ringSystem.step _ .announce _ from rfl)
  have h3 := h2.next (show ringSystem.step _ .popAvail _ from ⟨some 7, _, by rfl, rfl⟩)
  have h4 := h3.next (show ringSystem.step _ (.pushUsed 7 3) _ from ⟨by decide, _, _, by rfl, rfl⟩)
  have h5 := h4.next (show ringSystem.step _ .consume _ from ⟨by decide, rfl⟩)
  exact ⟨_, h5, rfl, by rfl, ring_protocol _ h5⟩

end FerrumVM
