import FerrumVM.EfiMemory
import FerrumVM.FirmwareHeap

/-! The pool of the EFI boot services, `efi_AllocatePool` and `stub_FreePool` of `efi/uefi.c`, on the firmware's heap.
`malloc` computes with words that wrap around, and `free` does not look whether a block is free already; both show in
the pool. -/

namespace FerrumVM

open Base

namespace Efi

structure Pool where
  heap : Heap
  mapKey : UInt64

/-- What was asked for is cleared, whatever `malloc` returned. `mapped` is the end of the memory that `paging_init`
maps: behind it `memset` is stopped by a fault. -/
def efiAllocatePool (mapped fuel : Nat) (size : UInt64) (s : Pool) : Exec (EfiStatus × Option UInt64 × Pool) := do
  let (ptr, heap) ← s.heap.malloc fuel size
  if ptr = 0 then return (.outOfResources, none, { s with heap })
  else if 0 < size ∧ mapped < ptr.toNat + size.toNat then throw (.panic (.message "#PF"))
  else return (.success, some ptr, ⟨{ heap with mem := heap.mem.fill ptr size 0 }, s.mapKey + 1⟩)

def stubFreePool (a : UInt64) (s : Pool) : EfiStatus × Pool :=
  if a = 0 then (.invalidParameter, s) else (.success, { s with heap := s.heap.free a })

end Efi

namespace Heap

variable {pStart pEnd size ptr : UInt64} {s s' : Heap} {live : List LiveBlock} {free : List Block}

/-! ### What a request is given -/

/-- The pointer is to a block in the heap that has the bytes which were asked for. -/
def GivesBlock (pStart : UInt64) (s : Heap) (size ptr : UInt64) (m : Memory) : Prop :=
  ∃ b : Block, ptr.toNat = b.addr.toNat + 16 ∧ m.u64 (b.addr + 8) = b.size ∧ pStart.toNat ≤ b.addr.toNat ∧
    b.stop ≤ s.heapEnd.toNat ∧ b.addr.toNat + 16 + size.toNat ≤ b.stop

/-- A request is given nothing, and the heap is as it was, or a block. -/
def Provides (pStart : UInt64) (s : Heap) (size ptr : UInt64) (s' : Heap) : Prop :=
  ptr = 0 ∧ s' = s ∨ GivesBlock pStart s size ptr s'.mem

/-- The computations of a request do not wrap around, or it is refused all the same. -/
def Sane (s : Heap) (free : List Block) (size : UInt64) : Prop :=
  (size.toNat + 23 < 2 ^ 64 ∧
      ((∃ b ∈ free, needed size ≤ b.size) ∨ s.heapPtr.toNat + (needed size).toNat < 2 ^ 64)) ∨
    (∀ b ∈ free, b.size < needed size) ∧ s.heapEnd < s.heapPtr + needed size

theorem givesBlock_of_mem {b : LiveBlock} {pStart heapEnd : UInt64}
    (h : HeapInv pStart heapEnd ⟨s', live⟩ free) (hb : b ∈ live) (hend : heapEnd = s.heapEnd) :
    GivesBlock pStart s b.requested (b.addr + 16) s'.mem := by
  have hmem : b.toBlock ∈ live.map LiveBlock.toBlock ++ free := List.mem_append_left _ (List.mem_map_of_mem hb)
  have hwithin := h.blocks.within _ hmem
  have husable : b.requested.toNat + 16 ≤ b.size.toNat := h.usable b hb
  refine ⟨b.toBlock, hwithin.toNat_ptr, h.blocks.sizes _ hmem, hwithin.start, hend ▸ hwithin.stop, ?_⟩
  rw [Block.stop]
  omega

theorem GivesBlock.size_lt {m : Memory} (h : GivesBlock pStart s size ptr m) :
    ptr.toNat + size.toNat ≤ s.heapEnd.toNat ∧ 16 ≤ ptr.toNat := by
  obtain ⟨b, hptr, -, -, hstop, husable⟩ := h
  omega

theorem toNat_needed_le (size : UInt64) : (needed size).toNat ≤ size.toNat + 23 := by
  have hround : ((16 + size + 7) &&& ~~~7).toNat = (16 + size + 7).toNat / 2 ^ 3 * 2 ^ 3 :=
    @toNat_and_not_mask (16 + size + 7) 3 (by omega)
  rw [needed, hround, UInt64.toNat_add, UInt64.toNat_add]
  simp only [UInt64.reduceToNat]
  omega

theorem Answer.provides_iff (hans : s.Answer free size ptr s') (h : HeapInv pStart pEnd ⟨s, live⟩ free)
    (hend : pEnd.toNat ≤ 2 ^ 33) : s.Provides pStart size ptr s' ↔ s.Sane free size := by
  have hheapEnd : s.heapEnd = pEnd := h.heapEnd
  cases hans with
  | refused hsmall hroom => exact iff_of_true (.inl ⟨rfl, rfl⟩) (.inr ⟨hsmall, hroom⟩)
  | @taken front post b hfree hlarge =>
    subst hfree
    constructor
    · rintro (⟨hzero, -⟩ | hblock)
      · exact absurd hzero (h.blocks.within b (by simp)).ptr_ne_zero
      · have hlt := hblock.size_lt
        rw [hheapEnd] at hlt
        exact .inl ⟨by omega, .inl ⟨b, by simp, hlarge⟩⟩
    · rintro (⟨hsize, -⟩ | ⟨hsmall, -⟩)
      · exact .inr (givesBlock_of_mem (h.take hsize hlarge) (b := ⟨b, size⟩) (by simp) hheapEnd.symm)
      · exact absurd hlarge (UInt64.not_le.mpr (hsmall b (by simp)))
  | cut hsmall hroom =>
    have hneeded := toNat_needed_le size
    rw [hheapEnd, UInt64.lt_iff_toNat_lt, UInt64.toNat_add] at hroom
    constructor
    · rintro (⟨hzero, hsame⟩ | hblock)
      · -- The pointer is null only where the heap pointer is moved.
        have hptr : (s.heapPtr + 16).toNat = 0 := by rw [hzero]; rfl
        have hmoved : (s.heapPtr + needed size).toNat = s.heapPtr.toNat := by
          rw [show s.heapPtr + needed size = s.heapPtr from congrArg Heap.heapPtr hsame]
        rw [UInt64.toNat_add] at hptr hmoved
        simp only [UInt64.reduceToNat] at hptr
        have hlt := s.heapPtr.toNat_lt
        omega
      · have hlt := hblock.size_lt
        rw [hheapEnd, UInt64.toNat_add] at hlt
        simp only [UInt64.reduceToNat] at hlt
        have hword := s.heapPtr.toNat_lt
        exact .inl ⟨by omega, .inr (by omega)⟩
    · rintro (⟨hsize, ⟨b, hb, hlarge⟩ | hfits⟩ | ⟨-, hrefused⟩)
      · exact absurd hlarge (UInt64.not_le.mpr (hsmall b hb))
      · rw [Nat.mod_eq_of_lt hfits] at hroom
        have hinv := h.bump hsize hfits (Nat.le_of_not_lt hroom)
        exact .inr (givesBlock_of_mem hinv (b := ⟨⟨s.heapPtr, needed size⟩, size⟩) (by simp) hheapEnd.symm)
      · rw [hheapEnd, UInt64.lt_iff_toNat_lt, UInt64.toNat_add] at hrefused
        exact absurd hrefused hroom

end Heap

namespace Efi

variable {mapped : Nat} {pStart pEnd size : UInt64} {live : List LiveBlock} {free : List Block}

/-- What the pool promises for a request: `malloc` and `efi_AllocatePool` return, and give nothing, with the heap as it
was, or a block in the heap with the bytes that were asked for. -/
structure Pool.Provides (mapped : Nat) (pStart size : UInt64) (s : Pool) : Prop where
  malloc : ∃ n, ∀ fuel, n ≤ fuel → ∃ ptr heap, s.heap.malloc fuel size = .ok (ptr, heap) ∧
    s.heap.Provides pStart size ptr heap
  allocatePool : ∃ n, ∀ fuel, n ≤ fuel →
    efiAllocatePool mapped fuel size s = .ok (.outOfResources, none, s) ∨
      ∃ ptr s', efiAllocatePool mapped fuel size s = .ok (.success, some ptr, s') ∧
        s.heap.GivesBlock pStart size ptr s'.heap.mem

theorem givesBlock_fill {s : Heap} {ptr : UInt64} {m : Memory} (h : s.GivesBlock pStart size ptr m) :
    s.GivesBlock pStart size ptr (m.fill ptr size 0) := by
  obtain ⟨b, hptr, hsize, hstart, hstop, husable⟩ := h
  have hend := s.heapEnd.toNat_lt
  have hlength : (List.replicate size.toNat (0 : UInt8)).length = size.toNat := List.length_replicate
  have hword : (b.addr + 8).toNat = b.addr.toNat + 8 := by
    rw [UInt64.toNat_add]
    simp only [UInt64.reduceToNat]
    omega
  refine ⟨b, hptr, ?_, hstart, hstop, husable⟩
  rw [Memory.fill_eq_store, Memory.u64_store_of_apart (by omega) (by omega) (by omega), hsize]

theorem efiAllocatePool_eq {s : Pool} {fuel : Nat} {ptr : UInt64} {heap : Heap}
    (h : s.heap.malloc fuel size = .ok (ptr, heap)) : efiAllocatePool mapped fuel size s =
      if ptr = 0 then .ok (.outOfResources, none, { s with heap })
      else if 0 < size ∧ mapped < ptr.toNat + size.toNat then .error (.panic (.message "#PF"))
      else .ok (.success, some ptr, ⟨{ heap with mem := heap.mem.fill ptr size 0 }, s.mapKey + 1⟩) := by
  unfold efiAllocatePool
  rw [h]
  rfl

theorem efiAllocatePool_eq_ok {s s' : Pool} {fuel : Nat} {status : EfiStatus} {out : Option UInt64}
    (h : efiAllocatePool mapped fuel size s = .ok (status, out, s')) :
    ∃ ptr heap, s.heap.malloc fuel size = .ok (ptr, heap) ∧
      (ptr = 0 ∧ status = .outOfResources ∧ out = none ∧ s' = { s with heap } ∨
        ptr ≠ 0 ∧ (size.toNat = 0 ∨ ptr.toNat + size.toNat ≤ mapped) ∧ status = .success ∧ out = some ptr ∧
          s' = ⟨{ heap with mem := heap.mem.fill ptr size 0 }, s.mapKey + 1⟩) := by
  obtain ⟨⟨ptr, heap⟩, hmalloc, -⟩ := Exec.bind_eq_ok.mp h
  refine ⟨ptr, heap, hmalloc, ?_⟩
  rw [efiAllocatePool_eq hmalloc] at h
  split_ifs at h with hptr hfault
  · cases h
    exact .inl ⟨hptr, rfl, rfl, rfl⟩
  · cases h
    rw [UInt64.lt_iff_toNat_lt, UInt64.toNat_zero] at hfault
    exact .inr ⟨hptr, by omega, rfl, rfl, rfl⟩

/-- **What a request is given.** In every state of the heap, a request is given nothing or what it asked for exactly if
its size and its end do not wrap around, or it is refused although they do. -/
theorem requests_are_provided_iff (s : Pool)
    (hstate : s.heap.initilized = true → HeapInv pStart pEnd ⟨s.heap, live⟩ free)
    (hheap : pEnd.toNat ≤ mapped) (hmapped : mapped ≤ 2 ^ 33) (size : UInt64) :
    s.Provides mapped pStart size ↔ s.heap.initilized = false ∨ s.heap.Sane free size := by
  cases hinit : s.heap.initilized with
  | false =>
    have hnull : ∀ fuel, s.heap.malloc fuel size = .ok (0, s.heap) := fun fuel => if_pos (by simp [hinit])
    refine iff_of_true ⟨⟨0, fun fuel _ => ⟨0, s.heap, hnull fuel, .inl ⟨rfl, rfl⟩⟩⟩, 0, fun fuel _ => .inl ?_⟩ (.inl rfl)
    rw [efiAllocatePool_eq (hnull fuel), if_pos rfl]
  | true =>
    have h := hstate hinit
    have hend : pEnd.toNat ≤ 2 ^ 33 := hheap.trans hmapped
    constructor
    · rintro ⟨⟨n, hmalloc⟩, -⟩
      obtain ⟨ptr, heap, hrun, hprovides⟩ := hmalloc n (Nat.le_refl n)
      exact .inr (((h.malloc_answer hrun).provides_iff h hend).mp hprovides)
    · rintro (hfalse | hsane)
      · cases hfalse
      have hprovides : ∀ fuel, free.length + 1 ≤ fuel → ∃ ptr heap, s.heap.malloc fuel size = .ok (ptr, heap) ∧
          s.heap.Provides pStart size ptr heap := by
        intro fuel hfuel
        obtain ⟨ptr, heap, hrun⟩ := h.malloc_of_fuel size hfuel
        exact ⟨ptr, heap, hrun, ((h.malloc_answer hrun).provides_iff h hend).mpr hsane⟩
      refine ⟨⟨_, hprovides⟩, free.length + 1, fun fuel hfuel => ?_⟩
      obtain ⟨ptr, heap, hrun, ⟨rfl, rfl⟩ | hblock⟩ := hprovides fuel hfuel
      · left
        rw [efiAllocatePool_eq hrun, if_pos rfl]
      · right
        have hlt := hblock.size_lt
        have hheapEnd : s.heap.heapEnd = pEnd := h.heapEnd
        have hptr : ptr ≠ 0 := fun hzero => by
          rw [hzero, UInt64.toNat_zero] at hlt
          omega
        have hpaged : ¬(0 < size ∧ mapped < ptr.toNat + size.toNat) := by
          rw [hheapEnd] at hlt
          omega
        refine ⟨ptr, ⟨{ heap with mem := heap.mem.fill ptr size 0 }, s.mapKey + 1⟩, ?_, givesBlock_fill hblock⟩
        rw [efiAllocatePool_eq hrun, if_neg hptr, if_neg hpaged]

def firmwarePool : Pool := ⟨firmwareHeap, 1⟩

theorem inv_firmwarePool : HeapInv 0x3000000 0x4000000 ⟨firmwarePool.heap, []⟩ [] := HeapInv.init (by decide)

theorem small_request_is_provided : firmwarePool.Provides (2 ^ 30) 0x3000000 100 :=
  (requests_are_provided_iff firmwarePool (fun _ => inv_firmwarePool) (by decide) (by decide) 100).mpr
    (.inr (.inl ⟨by decide, .inr (by decide)⟩))

/-- A request of nearly all memory is given the front of the memory never handed out, and no byte of it. -/
theorem huge_request_is_given_nothing :
    (∃ heap, firmwarePool.heap.malloc 1 0xFFFFFFFFFFFFFFF0 = .ok (0x3000010, heap) ∧ heap.heapPtr = 0x3000000) ∧
      ¬firmwarePool.Provides (2 ^ 30) 0x3000000 0xFFFFFFFFFFFFFFF0 := by
  refine ⟨⟨_, rfl, rfl⟩, fun hprovides => ?_⟩
  obtain ⟨n, hmalloc⟩ := hprovides.malloc
  obtain ⟨ptr, heap, hrun, hgiven⟩ := hmalloc n (Nat.le_refl n)
  obtain ⟨hsize, -⟩ | ⟨-, hroom⟩ :=
    ((inv_firmwarePool.malloc_answer hrun).provides_iff inv_firmwarePool (by decide)).mp hgiven
  · exact absurd hsize (by decide)
  · exact absurd hroom (by decide)

/-! ### Calls in a row -/

inductive PoolCall where
  | allocatePool (size : UInt64)
  | freePool (ptr : UInt64)
  deriving DecidableEq, Repr

/-- The pool in a run, with the blocks that are allocated and all the pointers that were ever returned. -/
structure PoolRun where
  pool : Pool
  live : List LiveBlock
  returned : List UInt64

namespace PoolRun

/-- What the calls do. A call that faults or does not end has no next state. -/
inductive Next (mapped : Nat) : PoolRun → PoolCall → PoolRun → Prop
  | refused {r : PoolRun} {size : UInt64} {fuel : Nat} {pool : Pool}
      (h : efiAllocatePool mapped fuel size r.pool = .ok (.outOfResources, none, pool)) :
      Next mapped r (.allocatePool size) ⟨pool, r.live, r.returned⟩
  | allocated {r : PoolRun} {size ptr : UInt64} {fuel : Nat} {pool : Pool}
      (h : efiAllocatePool mapped fuel size r.pool = .ok (.success, some ptr, pool)) :
      Next mapped r (.allocatePool size)
        ⟨pool, r.live ++ [⟨⟨ptr - 16, pool.heap.mem.u64 (ptr - 8)⟩, size⟩], r.returned ++ [ptr]⟩
  | freed {r : PoolRun} {ptr : UInt64} :
      Next mapped r (.freePool ptr)
        ⟨(stubFreePool ptr r.pool).2, r.live.eraseP fun b => b.addr + 16 == ptr, r.returned⟩

inductive After (mapped : Nat) (boot : Pool) : List PoolCall → PoolRun → Prop
  | init : After mapped boot [] ⟨{ boot with heap := boot.heap.initHeap 0x3000000 0x4000000 }, [], []⟩
  | step {calls : List PoolCall} {call : PoolCall} {r r' : PoolRun} (hafter : After mapped boot calls r)
      (hnext : Next mapped r call r') : After mapped boot (calls ++ [call]) r'

/-- The free list is a list without a circle, every search of it ends, and blocks that are allocated at the same time
lie apart. -/
structure Harmless (r : PoolRun) : Prop where
  acyclic : ∃ free, Linked r.pool.heap.mem r.pool.heap.freeList free ∧ (free.map Block.addr).Nodup
  terminates : ∀ size, ∃ fuel, (r.pool.heap.search (Heap.needed size) fuel none).isSome
  apart : (r.live.map LiveBlock.toBlock).Pairwise Block.Apart

def Live (r : PoolRun) (ptr : UInt64) : Prop := ∃ b ∈ r.live, b.addr + 16 = ptr

def StaysHarmless (mapped : Nat) (boot : Pool) (calls : List PoolCall) : Prop :=
  ∀ done rest r, calls = done ++ rest → After mapped boot done r → r.Harmless

def Frees (mapped : Nat) (boot : Pool) (P : PoolRun → UInt64 → Prop) (calls : List PoolCall) : Prop :=
  ∀ done ptr rest r, calls = done ++ .freePool ptr :: rest → After mapped boot done r → P r ptr

/-! What holds as long as only allocated blocks are freed. -/

structure Inv (r : PoolRun) (free : List Block) : Prop where
  heap : HeapInv 0x3000000 0x4000000 ⟨r.pool.heap, r.live⟩ free
  room : r.pool.heap.heapPtr.toNat ≤ 0x4000000
  known : ∀ ptr ∈ r.returned, r.Live ptr ∨ ∃ b ∈ free, b.addr + 16 = ptr

section Runs

variable {r r' : PoolRun} {ptr : UInt64} {boot : Pool} {calls : List PoolCall}

theorem Inv.harmless (h : r.Inv free) : r.Harmless := by
  refine ⟨⟨free, h.heap.linked, h.heap.nodup⟩, fun size => ⟨free.length + 1, ?_⟩, ?_⟩
  · have hlinked : Linked r.pool.heap.mem (r.pool.heap.linkAt none) free := h.heap.linked
    exact Heap.search_isSome _ hlinked (Nat.lt_succ_self _)
  · exact (List.pairwise_append.mp h.heap.blocks.apart).1

theorem inv_init : Inv ⟨{ boot with heap := boot.heap.initHeap 0x3000000 0x4000000 }, [], []⟩ [] :=
  ⟨HeapInv.init (by decide), show (0x3000000 : UInt64).toNat ≤ 0x4000000 by decide, nofun⟩

theorem Inv.allocated {heap : Heap} {b : Block} {fuel : Nat} {pool : Pool}
    (hinv : HeapInv 0x3000000 0x4000000 ⟨heap, r.live ++ [⟨b, size⟩]⟩ free) (hroom : heap.heapPtr.toNat ≤ 0x4000000)
    (hknown : ∀ ptr ∈ r.returned, r.Live ptr ∨ b.addr + 16 = ptr ∨ ∃ c ∈ free, c.addr + 16 = ptr)
    (hmalloc : r.pool.heap.malloc fuel size = .ok (b.addr + 16, heap))
    (hrun : efiAllocatePool mapped fuel size r.pool = .ok (.success, some ptr, pool)) :
    Inv ⟨pool, r.live ++ [⟨⟨ptr - 16, pool.heap.mem.u64 (ptr - 8)⟩, size⟩], r.returned ++ [ptr]⟩ free := by
  have hnew : (⟨b, size⟩ : LiveBlock) ∈ r.live ++ [⟨b, size⟩] := by simp
  have hmem : b ∈ (r.live ++ [(⟨b, size⟩ : LiveBlock)]).map LiveBlock.toBlock ++ free :=
    List.mem_append_left _ (List.mem_map_of_mem hnew)
  have hwithin := hinv.blocks.within b hmem
  have husable : size.toNat + 16 ≤ b.size.toNat := hinv.usable _ hnew
  have hptr := hwithin.toNat_ptr
  rw [efiAllocatePool_eq hmalloc, if_neg hwithin.ptr_ne_zero] at hrun
  split_ifs at hrun with hfault
  cases hrun
  have hcleared : HeapInv 0x3000000 0x4000000
      ⟨{ heap with mem := heap.mem.fill (b.addr + 16) size 0 }, r.live ++ [⟨b, size⟩]⟩ free := by
    rw [Memory.fill_eq_store]
    refine hinv.store hnew hptr.ge ?_
    rw [List.length_replicate, Block.stop, hptr]
    dsimp only
    omega
  have hword : b.addr + 16 - 8 = b.addr + 8 := by
    rw [show (16 : UInt64) = 8 + 8 from rfl, ← UInt64.add_assoc, UInt64.add_sub_cancel]
  have hrecord : (⟨⟨b.addr + 16 - 16, (heap.mem.fill (b.addr + 16) size 0).u64 (b.addr + 16 - 8)⟩, size⟩ : LiveBlock) =
      ⟨b, size⟩ := by
    rw [UInt64.add_sub_cancel, hword, hcleared.blocks.sizes b hmem]
  dsimp only
  rw [hrecord]
  refine ⟨hcleared, hroom, fun ptr hreturned => ?_⟩
  obtain hreturned | hreturned := List.mem_append.mp hreturned
  · obtain ⟨c, hc, hcptr⟩ | heq | hfree := hknown ptr hreturned
    · exact .inl ⟨c, List.mem_append_left _ hc, hcptr⟩
    · exact .inl ⟨_, hnew, heq⟩
    · exact .inr hfree
  · exact .inl ⟨_, hnew, (List.mem_singleton.mp hreturned).symm⟩

/-- `AllocatePool` keeps the invariant, whatever the size: a request that wraps around ends in a fault. -/
theorem Inv.allocate (h : r.Inv free) (hmapped : mapped ≤ 2 ^ 33) (hnext : Next mapped r (.allocatePool size) r') :
    ∃ free', r'.Inv free' := by
  have hroom := h.room
  have hend : r.pool.heap.heapEnd = 0x4000000 := h.heap.heapEnd
  have hcut : r.pool.heap.heapPtr + 16 ≠ 0 := fun hzero => by
    have hptr := congrArg UInt64.toNat hzero
    rw [UInt64.toNat_add] at hptr
    simp only [UInt64.reduceToNat] at hptr
    omega
  cases hnext with
  | refused hrun =>
    obtain ⟨ptr, heap, hmalloc, ⟨rfl, -, -, rfl⟩ | ⟨-, -, hstatus, -⟩⟩ := efiAllocatePool_eq_ok hrun
    · generalize hzero : (0 : UInt64) = ptr at hmalloc
      cases h.heap.malloc_answer hmalloc with
      | refused => exact ⟨free, h⟩
      | cut => exact absurd hzero.symm hcut
      | taken hfree => exact absurd hzero.symm (h.heap.blocks.within _ (by simp [hfree])).ptr_ne_zero
    · cases hstatus
  | allocated hrun =>
    obtain ⟨ptr, heap, hmalloc, ⟨-, hstatus, -⟩ | ⟨hne, hpaged, -, -, -⟩⟩ := efiAllocatePool_eq_ok hrun
    · cases hstatus
    have hneeded := Heap.toNat_needed_le size
    cases h.heap.malloc_answer hmalloc with
    | refused => exact absurd rfl hne
    | cut _ hroom =>
      have hfits : r.pool.heap.heapPtr.toNat + (Heap.needed size).toNat < 2 ^ 64 := by omega
      rw [hend, UInt64.lt_iff_toNat_lt, toNat_add_of_lt hfits] at hroom
      refine ⟨free, Inv.allocated (h.heap.bump (by omega) hfits (Nat.le_of_not_lt hroom)) ?_ ?_ hmalloc hrun⟩
      · dsimp only
        rw [toNat_add_of_lt hfits]
        exact Nat.le_of_not_lt hroom
      · intro ptr hptr
        exact (h.known ptr hptr).imp_right .inr
    | @taken front post b hfree hlarge =>
      subst hfree
      refine ⟨front ++ post, Inv.allocated (h.heap.take (by omega) hlarge) ?_ ?_ hmalloc hrun⟩
      · rw [Heap.heapPtr_setLink]
        exact hroom
      · intro ptr hptr
        obtain hlive | ⟨c, hc, hcptr⟩ := h.known ptr hptr
        · exact .inl hlive
        · obtain rfl | hother : c = b ∨ c ∈ front ++ post := by
            simp only [List.mem_append, List.mem_cons] at hc ⊢
            tauto
          · exact .inr (.inl hcptr)
          · exact .inr (.inr ⟨c, hother, hcptr⟩)

theorem Inv.release (h : r.Inv free) (hlive : r.Live ptr) (hnext : Next mapped r (.freePool ptr) r') :
    ∃ free', r'.Inv free' := by
  cases hnext
  obtain ⟨b, hb, hptr⟩ := hlive
  obtain ⟨c, front, back, -, hc, hsplit, herase⟩ :=
    List.exists_of_eraseP (p := fun b : LiveBlock => b.addr + 16 == ptr) hb (beq_iff_eq.mpr hptr)
  obtain rfl : c.addr + 16 = ptr := beq_iff_eq.mp hc
  have hwithin := h.heap.blocks.within c.toBlock (by simp [hsplit])
  have hinv := h.heap.free_block hsplit
  have haddr : c.addr ≠ 0 := fun hzero => by
    have hstart := hwithin.start
    rw [hzero] at hstart
    exact absurd hstart (by decide)
  rw [if_neg haddr] at hinv
  have hpool : (stubFreePool (c.addr + 16) r.pool).2.heap = r.pool.heap.free (c.addr + 16) := by
    rw [stubFreePool, if_neg hwithin.ptr_ne_zero]
  have hkeeps : (r.pool.heap.free (c.addr + 16)).heapPtr = r.pool.heap.heapPtr := by
    unfold Heap.free
    split_ifs <;> rfl
  rw [herase]
  refine ⟨c.toBlock :: free, hpool ▸ hinv, ?_, fun ptr hreturned => ?_⟩
  · dsimp only
    rw [hpool, hkeeps]
    exact h.room
  · obtain ⟨d, hd, hdptr⟩ | ⟨d, hd, hdptr⟩ := h.known ptr hreturned
    · rw [hsplit] at hd
      obtain hd | hd | hd : d ∈ front ∨ d = c ∨ d ∈ back := by simpa using hd
      · exact .inl ⟨d, List.mem_append_left _ hd, hdptr⟩
      · exact .inr ⟨c.toBlock, List.mem_cons_self, hd ▸ hdptr⟩
      · exact .inl ⟨d, List.mem_append_right _ hd, hdptr⟩
    · exact .inr ⟨d, List.mem_cons_of_mem _ hd, hdptr⟩

theorem Inv.not_harmless (h : r.Inv free) {b : Block} (hb : b ∈ free)
    (hnext : Next mapped r (.freePool (b.addr + 16)) r') : ¬r'.Harmless := by
  cases hnext
  rintro ⟨⟨bs, hlinked, -⟩, -, -⟩
  have hmem : b ∈ r.live.map LiveBlock.toBlock ++ free := List.mem_append_right _ hb
  have hptr : b.addr + 16 ≠ 0 := (h.heap.blocks.within b hmem).ptr_ne_zero
  have hinit : r.pool.heap.initilized = true := h.heap.initilized
  have hpool : (stubFreePool (b.addr + 16) r.pool).2.heap = { r.pool.heap with
      mem := r.pool.heap.mem.store b.addr (u64ToLe r.pool.heap.freeList), freeList := b.addr } := by
    rw [stubFreePool, if_neg hptr]
    dsimp only
    rw [Heap.free, if_neg (by simp [hptr, hinit]), UInt64.add_sub_cancel]
  dsimp only at hlinked
  rw [hpool] at hlinked
  obtain ⟨front, post, rfl⟩ := List.append_of_mem hb
  obtain ⟨-, hsame⟩ := h.heap.blocks.store_link hmem r.pool.heap.freeList
  have hapart := (List.pairwise_append.mp (List.pairwise_append.mp h.heap.blocks.apart).2.1).2.2
  refine h.heap.linked.no_circle (fun c hc => hsame c (by simp [hc]) ?_) (Memory.u64_store_self _ _ _) hlinked
  exact (hapart c hc b List.mem_cons_self).symm

theorem exists_freed (mapped : Nat) (r : PoolRun) (ptr : UInt64) : ∃ r', Next mapped r (.freePool ptr) r' := ⟨_, .freed⟩

theorem Inv.live_of_harmless (h : r.Inv free) (hreturned : ptr ∈ r.returned)
    (hharmless : ∀ r', Next mapped r (.freePool ptr) r' → r'.Harmless) : r.Live ptr := by
  obtain hlive | ⟨b, hb, rfl⟩ := h.known ptr hreturned
  · exact hlive
  · obtain ⟨r', hnext⟩ := exists_freed mapped r (b.addr + 16)
    exact absurd (hharmless r' hnext) (h.not_harmless hb hnext)

theorem inv_of_after (hmapped : mapped ≤ 2 ^ 33) {done rest : List PoolCall} (hafter : After mapped boot done r)
    (hcalls : calls = done ++ rest)
    (hlive : ∀ done ptr rest r free, calls = done ++ .freePool ptr :: rest → After mapped boot done r → r.Inv free →
      r.Live ptr) : ∃ free, r.Inv free := by
  induction hafter generalizing rest with
  | init => exact ⟨[], inv_init⟩
  | @step done call r r' hafter hnext ih =>
    rw [List.append_assoc, List.singleton_append] at hcalls
    obtain ⟨free, h⟩ := ih hcalls
    cases call with
    | allocatePool size => exact h.allocate hmapped hnext
    | freePool ptr => exact h.release (hlive done ptr rest r free hcalls hafter h) hnext

end Runs

/-- **Repeated frees.** A sequence of calls in which `FreePool` is given pointers that were returned before leaves the
pool harmless exactly if each of them is that of a block which is allocated when it is freed. -/
theorem repeated_free_harmless_iff {mapped : Nat} (hmapped : mapped ≤ 2 ^ 33) (boot : Pool) (calls : List PoolCall)
    (hreturned : Frees mapped boot (fun r ptr => ptr ∈ r.returned) calls) :
    StaysHarmless mapped boot calls ↔ Frees mapped boot Live calls := by
  constructor
  · intro hharmless
    have hlive : ∀ done ptr rest r free, calls = done ++ .freePool ptr :: rest → After mapped boot done r → r.Inv free →
        r.Live ptr := by
      intro done ptr rest r free hcalls hafter h
      have hnext : ∀ r', Next mapped r (.freePool ptr) r' → r'.Harmless := fun r' hnext =>
        hharmless (done ++ [.freePool ptr]) rest r' (by rw [hcalls]; simp) (.step hafter hnext)
      exact h.live_of_harmless (hreturned done ptr rest r hcalls hafter) hnext
    intro done ptr rest r hcalls hafter
    obtain ⟨free, h⟩ := inv_of_after hmapped hafter hcalls hlive
    exact hlive done ptr rest r free hcalls hafter h
  · intro hlive done rest r hcalls hafter
    obtain ⟨free, h⟩ := inv_of_after hmapped hafter hcalls fun done ptr rest r _ hcalls hafter _ =>
      hlive done ptr rest r hcalls hafter
    exact h.harmless

theorem After.snoc {mapped : Nat} {boot : Pool} {calls : List PoolCall} {call : PoolCall} {r' : PoolRun}
    (h : After mapped boot (calls ++ [call]) r') : ∃ r, After mapped boot calls r ∧ Next mapped r call r' := by
  generalize hcalls : calls ++ [call] = all at h
  cases h with
  | init => simp at hcalls
  | step hafter hnext =>
    obtain ⟨rfl, hcall⟩ := List.append_inj' hcalls rfl
    cases hcall
    exact ⟨_, hafter, hnext⟩

theorem After.of_nil {mapped : Nat} {boot : Pool} {r : PoolRun} (h : After mapped boot [] r) :
    r = ⟨{ boot with heap := boot.heap.initHeap 0x3000000 0x4000000 }, [], []⟩ := by
  generalize hcalls : ([] : List PoolCall) = all at h
  cases h with
  | init => rfl
  | step => simp at hcalls

def firstBlock : PoolRun :=
  ⟨⟨{ firmwareHeap with
      mem := (firmwareHeap.mem.store 0x3000008 (u64ToLe 24)).fill 0x3000010 8 0
      heapPtr := 0x3000018 }, 2⟩, [⟨⟨0x3000000, 24⟩, 8⟩], [0x3000010]⟩

theorem first_request (fuel : Nat) : efiAllocatePool (2 ^ 30) (fuel + 1) 8 firmwarePool =
    .ok (.success, some 0x3000010, firstBlock.pool) := by
  have hmalloc : firmwarePool.heap.malloc (fuel + 1) 8 = .ok (0x3000010,
      { firmwareHeap with mem := firmwareHeap.mem.store 0x3000008 (u64ToLe 24), heapPtr := 0x3000018 }) := rfl
  rw [efiAllocatePool_eq hmalloc, if_neg (by decide), if_neg (by decide)]
  rfl

theorem after_first_request (r : PoolRun) : After (2 ^ 30) firmwarePool [.allocatePool 8] r ↔ r = firstBlock := by
  have hrecord : (⟨⟨0x3000010 - 16, firstBlock.pool.heap.mem.u64 (0x3000010 - 8)⟩, 8⟩ : LiveBlock) =
      ⟨⟨0x3000000, 24⟩, 8⟩ := by decide
  constructor
  · intro h
    obtain ⟨r0, hafter, hnext⟩ := @After.snoc _ _ [] _ _ h
    obtain rfl := hafter.of_nil
    cases hnext with
    | @refused _ fuel _ hrun =>
      cases fuel with
      | zero => cases hrun
      | succ fuel => cases (first_request fuel).symm.trans hrun
    | @allocated _ ptr fuel _ hrun =>
      cases fuel with
      | zero => cases hrun
      | succ fuel =>
        cases (first_request fuel).symm.trans hrun
        rw [hrecord]
        rfl
  · rintro rfl
    have hnext : Next (2 ^ 30) ⟨firmwarePool, [], []⟩ (.allocatePool 8) _ := .allocated (first_request 0)
    rw [hrecord] at hnext
    exact @After.step _ _ [] _ _ _ .init hnext

/-- A block that is freed once. -/
theorem freed_once_is_harmless : StaysHarmless (2 ^ 30) firmwarePool [.allocatePool 8, .freePool 0x3000010] := by
  have hfrees : ∀ P : PoolRun → UInt64 → Prop, P firstBlock 0x3000010 →
      Frees (2 ^ 30) firmwarePool P [.allocatePool 8, .freePool 0x3000010] := by
    intro P hP done ptr rest r hcalls hafter
    cases done with
    | nil => cases hcalls
    | cons call done =>
      cases done with
      | nil =>
        cases hcalls
        rw [(after_first_request r).mp hafter]
        exact hP
      | cons call' done =>
        have hlength := congrArg List.length hcalls
        simp at hlength
  refine (repeated_free_harmless_iff (by decide) firmwarePool _ (hfrees _ ?_)).mpr (hfrees _ ?_)
  · exact List.mem_singleton_self _
  · exact ⟨_, List.mem_singleton_self _, rfl⟩

/-- A block that is freed twice is linked to itself. -/
theorem freed_twice_is_a_circle :
    ∃ r, After (2 ^ 30) firmwarePool [.allocatePool 8, .freePool 0x3000010, .freePool 0x3000010] r ∧
      0x3000010 ∈ r.returned ∧ ¬r.Harmless := by
  have hfirst := (after_first_request firstBlock).mpr rfl
  obtain ⟨r2, hfreed⟩ := exists_freed (2 ^ 30) firstBlock 0x3000010
  obtain ⟨r3, hagain⟩ := exists_freed (2 ^ 30) r2 0x3000010
  refine ⟨r3, .step (.step hfirst hfreed) hagain, ?_, ?_⟩
  · cases hagain
    cases hfreed
    exact List.mem_singleton_self _
  · obtain ⟨_, h1⟩ := inv_of_after (by decide) hfirst (List.append_nil _).symm fun done ptr rest r _ hcalls _ _ => by
      have hmem : PoolCall.freePool ptr ∈ [PoolCall.allocatePool 8] := by
        rw [hcalls]
        simp
      simp at hmem
    obtain ⟨free, h2⟩ := h1.release ⟨_, List.mem_singleton_self _, rfl⟩ hfreed
    have hdead : ¬r2.Live 0x3000010 ∧ 0x3000010 ∈ r2.returned := by
      cases hfreed
      refine ⟨?_, List.mem_singleton_self _⟩
      rintro ⟨b, hb, -⟩
      cases hb
    obtain ⟨b, hb, hptr⟩ := (h2.known _ hdead.2).resolve_left hdead.1
    rw [← hptr] at hagain
    exact h2.not_harmless hb hagain

end PoolRun

end Efi

end FerrumVM
