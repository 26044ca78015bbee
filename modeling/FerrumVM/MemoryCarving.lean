import FerrumVM.MachineMemory

/-! The slots that `VirtualMachine::new_mem` of `vm/builder.rs` registers for one region, whatever the kernel answers:
the region without the pages of the interrupt controllers, piece by piece. -/

namespace FerrumVM

open Base

/-- `set_user_memory_region`, with its answer unwrapped. -/
def Kernel.setUserMemoryRegion (kernel : Kernel) (slots : Slots) (region : KvmMemoryRegion) : Exec Slots :=
  if kernel.accepts slots region then .ok (Function.update slots region.slot (some region))
  else .error (.panic .unwrap)

namespace KvmMemoryRegion

def Covers (region : KvmMemoryRegion) (a : Nat) : Prop :=
  region.guestPhysAddr.toNat ≤ a ∧ a < region.guestPhysAddr.toNat + region.memorySize.toNat

/-- The slots are a region that is mapped at `ptr`, cut around the pages of the interrupt controllers. -/
structure CarvedFrom (mem : MemoryRegionConfig) (ptr : UInt64) (regions : List KvmMemoryRegion) : Prop where
  nonempty : ∀ region ∈ regions, 0 < region.memorySize.toNat
  ascending : regions.Pairwise fun region next => region.guestPhysAddr < next.guestPhysAddr
  disjoint : regions.Pairwise fun region next => ∀ a, ¬(region.Covers a ∧ next.Covers a)
  exact : ∀ a, (∃ region ∈ regions, region.Covers a) ↔
    mem.Holds a ∧ ¬(0xFEC00000 ≤ a ∧ a < 0xFEC01000) ∧ ¬(0xFEE00000 ≤ a ∧ a < 0xFEE01000)
  userspace : ∀ region ∈ regions, mem.memOffset ≤ region.guestPhysAddr ∧
    region.userspaceAddr.toNat = ptr.toNat + (region.guestPhysAddr.toNat - mem.memOffset.toNat)

end KvmMemoryRegion

namespace Mapped

def slotsFrom (ptr start : UInt64) : UInt32 → List Segment → List KvmMemoryRegion
  | _, [] => []
  | slot, segment :: rest => slotOf ptr start slot segment :: slotsFrom ptr start (slot + 1) rest

section Slots

variable {ptr start : UInt64} {slot : UInt32} {segments : List Segment}

theorem mem_slotsFrom {region : KvmMemoryRegion} (h : region ∈ slotsFrom ptr start slot segments) :
    ∃ segment ∈ segments, ∃ number, region = slotOf ptr start number segment := by
  induction segments generalizing slot with
  | nil => cases h
  | cons segment rest ih =>
    obtain rfl | h := List.mem_cons.mp h
    · exact ⟨segment, List.mem_cons_self, slot, rfl⟩
    · obtain ⟨other, hother, number, heq⟩ := ih h
      exact ⟨other, List.mem_cons_of_mem _ hother, number, heq⟩

theorem slotOf_mem_slotsFrom {segment : Segment} (h : segment ∈ segments) :
    ∃ number, slotOf ptr start number segment ∈ slotsFrom ptr start slot segments := by
  induction segments generalizing slot with
  | nil => cases h
  | cons first rest ih =>
    obtain rfl | h := List.mem_cons.mp h
    · exact ⟨slot, List.mem_cons_self⟩
    · obtain ⟨number, hmem⟩ := @ih (slot + 1) h
      exact ⟨number, List.mem_cons_of_mem _ hmem⟩

theorem pairwise_slotsFrom {R : Segment → Segment → Prop} {S : KvmMemoryRegion → KvmMemoryRegion → Prop}
    (hpairwise : segments.Pairwise R)
    (hstep : ∀ segment ∈ segments, ∀ next ∈ segments, ∀ number number', R segment next →
      S (slotOf ptr start number segment) (slotOf ptr start number' next)) :
    (slotsFrom ptr start slot segments).Pairwise S := by
  induction segments generalizing slot with
  | nil => exact .nil
  | cons segment rest ih =>
    obtain ⟨hfirst, hrest⟩ := List.pairwise_cons.mp hpairwise
    refine List.pairwise_cons.mpr ⟨fun region hregion => ?_, ih hrest fun other hother next hnext =>
      hstep other (List.mem_cons_of_mem _ hother) next (List.mem_cons_of_mem _ hnext)⟩
    obtain ⟨next, hnext, number, rfl⟩ := mem_slotsFrom hregion
    exact hstep segment List.mem_cons_self next (List.mem_cons_of_mem _ hnext) _ _ (hfirst next hnext)

theorem register_eq_foldlM (kernel : Kernel) {stop : UInt64} (hparts : Parts ⟨start, stop⟩ segments)
    (hfits : ptr.toNat + (stop.toNat - start.toNat) < 2 ^ 64) (slots : Slots) :
    Vm.register kernel ptr start slot segments slots =
      (slotsFrom ptr start slot segments).foldlM kernel.setUserMemoryRegion slots := by
  induction segments generalizing slot slots with
  | nil => rfl
  | cons segment rest ih =>
    have hrest : Parts ⟨start, stop⟩ rest :=
      ⟨fun part hpart => hparts.within part (List.mem_cons_of_mem _ hpart),
        (List.pairwise_cons.mp hparts.ordered).2⟩
    obtain ⟨hstart, hnonempty, hstop⟩ := hparts.within segment List.mem_cons_self
    have hsize : subU64 segment.stop segment.start = .ok (segment.stop - segment.start) :=
      subU64_eq_ok_sub.mpr ⟨UInt64.le_of_lt hnonempty, rfl⟩
    have hoffset : subU64 segment.start start = .ok (segment.start - start) := subU64_eq_ok_sub.mpr ⟨hstart, rfl⟩
    have haddr : addU64 ptr (segment.start - start) = .ok (ptr + (segment.start - start)) := by
      refine addU64_eq_ok_add.mpr ⟨?_, rfl⟩
      rw [UInt64.toNat_sub_of_le _ _ hstart]
      rw [UInt64.lt_iff_toNat_lt] at hnonempty
      rw [UInt64.le_iff_toNat_le] at hstop
      dsimp only at hstop ⊢
      omega
    rw [Vm.register, hsize, Exec.ok_bind, hoffset, Exec.ok_bind, haddr, Exec.ok_bind, slotsFrom, List.foldlM_cons,
      Kernel.setUserMemoryRegion]
    by_cases haccepts : kernel.accepts slots (slotOf ptr start slot segment) = true
    · rw [if_pos haccepts, Exec.ok_bind]
      exact (if_pos haccepts).trans (ih hrest _)
    · rw [if_neg haccepts]
      exact if_neg haccepts

end Slots

end Mapped

theorem mem_carve_iff {start stop : UInt64} (a : Nat) :
    (∃ segment ∈ carve start stop, segment.start.toNat ≤ a ∧ a < segment.stop.toNat) ↔
      (start.toNat ≤ a ∧ a < stop.toNat) ∧
        ¬(0xFEC00000 ≤ a ∧ a < 0xFEC01000) ∧ ¬(0xFEE00000 ≤ a ∧ a < 0xFEE01000) := by
  by_cases hlt : a < 2 ^ 64
  · have hcarve := has_carve start stop (UInt64.ofNat a)
    simp only [OnApicPage, not_or, Segment.Has, UInt64.le_iff_toNat_le, UInt64.lt_iff_toNat_lt,
      UInt64.toNat_ofNat_of_lt' hlt] at hcarve
    exact hcarve
  · refine iff_of_false ?_ ?_
    · rintro ⟨segment, -, -, hin⟩
      have := segment.stop.toNat_lt
      omega
    · rintro ⟨⟨-, hin⟩, -⟩
      have := stop.toNat_lt
      omega

theorem Mapped.carvedFrom_slotsFrom {mem : MemoryRegionConfig} {ptr stop : UInt64} (slot : UInt32)
    (hpos : 0 < mem.memSize.toNat) (hstop : stop.toNat = mem.memOffset.toNat + mem.memSize.toNat)
    (hfits : ptr.toNat + mem.memSize.toNat < 2 ^ 64) :
    KvmMemoryRegion.CarvedFrom mem ptr (slotsFrom ptr mem.memOffset slot (carve mem.memOffset stop)) := by
  have hparts : Parts ⟨mem.memOffset, stop⟩ (carve mem.memOffset stop) := by
    apply parts_carve
    rw [UInt64.lt_iff_toNat_lt]
    omega
  have hwithin : ∀ segment ∈ carve mem.memOffset stop, mem.memOffset.toNat ≤ segment.start.toNat ∧
      segment.start.toNat < segment.stop.toNat ∧ segment.stop.toNat ≤ stop.toNat := fun segment hsegment =>
    hparts.within segment hsegment
  have hsize : ∀ segment ∈ carve mem.memOffset stop,
      (segment.stop - segment.start).toNat = segment.stop.toNat - segment.start.toNat := fun segment hsegment =>
    UInt64.toNat_sub_of_le _ _ (UInt64.le_of_lt (hparts.within segment hsegment).2.1)
  have hcovers : ∀ segment ∈ carve mem.memOffset stop, ∀ number a,
      (slotOf ptr mem.memOffset number segment).Covers a ↔ segment.start.toNat ≤ a ∧ a < segment.stop.toNat := by
    intro segment hsegment number a
    have hin := hwithin segment hsegment
    simp only [KvmMemoryRegion.Covers, slotOf, hsize segment hsegment]
    omega
  refine ⟨fun region hregion => ?_, ?_, ?_, fun a => ?_, fun region hregion => ?_⟩
  · obtain ⟨segment, hsegment, number, rfl⟩ := mem_slotsFrom hregion
    have hin := hwithin segment hsegment
    simp only [slotOf, hsize segment hsegment]
    omega
  · refine pairwise_slotsFrom hparts.ordered fun segment hsegment next hnext _ _ hle => ?_
    exact UInt64.lt_of_lt_of_le (hparts.within segment hsegment).2.1 hle
  · refine pairwise_slotsFrom hparts.ordered fun segment hsegment next hnext number number' hle a hboth => ?_
    rw [hcovers segment hsegment, hcovers next hnext] at hboth
    rw [UInt64.le_iff_toNat_le] at hle
    omega
  · rw [MemoryRegionConfig.Holds, ← hstop, ← mem_carve_iff]
    constructor
    · rintro ⟨region, hregion, ha⟩
      obtain ⟨segment, hsegment, number, rfl⟩ := mem_slotsFrom hregion
      exact ⟨segment, hsegment, (hcovers segment hsegment number a).mp ha⟩
    · rintro ⟨segment, hsegment, ha⟩
      obtain ⟨number, hmem⟩ := @slotOf_mem_slotsFrom ptr mem.memOffset slot _ _ hsegment
      exact ⟨_, hmem, (hcovers segment hsegment number a).mpr ha⟩
  · obtain ⟨segment, hsegment, number, rfl⟩ := mem_slotsFrom hregion
    have hin := hwithin segment hsegment
    refine ⟨(hparts.within segment hsegment).1, ?_⟩
    simp only [slotOf]
    rw [UInt64.toNat_add, UInt64.toNat_sub_of_le _ _ (hparts.within segment hsegment).1]
    dsimp only
    omega

/-- **Carving.** What `new_mem` passes to KVM are the pieces of the region around the pages of the interrupt
controllers: none is empty, they ascend and do not meet, and each is backed by its own part of the mapping. -/
theorem Vm.newMem_registers_carved (kernel : Kernel) (mem : MemoryRegionConfig) (vm : Vm)
    (hpos : 0 < mem.memSize.toNat) (hfits : mem.memOffset.toNat + mem.memSize.toNat < 2 ^ 64) :
    (kernel.mmap vm.memoryRegions.length mem.memSize = none ∧
        vm.newMem kernel mem = .error (.panic (.message "mmap failed"))) ∨
      ∃ mapped regions, kernel.mmap vm.memoryRegions.length mem.memSize = some mapped.ptr ∧
        KvmMemoryRegion.CarvedFrom mem mapped.ptr regions ∧ vm.newMem kernel mem = (do
          let slots ← regions.foldlM kernel.setUserMemoryRegion vm.slots
          return ⟨vm.memoryRegions ++ [mapped], slots⟩) := by
  unfold newMem
  split
  · next hmmap => exact .inl ⟨hmmap, rfl⟩
  · next ptr hmmap =>
    right
    generalize hregion : MemoryRegion.mk _ _ _ _ = region
    have hptr : ptr.toNat + mem.memSize.toNat < 2 ^ 64 := by
      have hmax := kernel.mmap_fits _ _ _ hmmap
      have hisize : isizeMax < 2 ^ 64 := by decide
      omega
    have hstop : (mem.memOffset + mem.memSize).toNat = mem.memOffset.toNat + mem.memSize.toNat :=
      toNat_add_of_lt hfits
    have hparts : Parts ⟨mem.memOffset, mem.memOffset + mem.memSize⟩
        (carve mem.memOffset (mem.memOffset + mem.memSize)) := by
      apply parts_carve
      rw [UInt64.lt_iff_toNat_lt, hstop]
      omega
    refine ⟨⟨ptr, region⟩, _, hmmap, Mapped.carvedFrom_slotsFrom 0 hpos hstop hptr, ?_⟩
    rw [addU64_eq_ok_add.mpr ⟨hfits, rfl⟩, Exec.ok_bind, Mapped.register_eq_foldlM kernel hparts (by omega)]

/-- Four gigabytes from address zero on are cut twice. -/
theorem Vm.four_gigabytes_are_carved :
    ∃ mapped regions, KvmMemoryRegion.CarvedFrom ⟨4 * 1024 * 1024 * 1024, 0⟩ mapped.ptr regions ∧
      (⟨[], fun _ => none⟩ : Vm).newMem sampleKernel ⟨4 * 1024 * 1024 * 1024, 0⟩ = (do
        let slots ← regions.foldlM sampleKernel.setUserMemoryRegion fun _ => none
        return ⟨[mapped], slots⟩) := by
  obtain ⟨hnone, -⟩ | ⟨mapped, regions, -, hcarved, hrun⟩ :=
    Vm.newMem_registers_carved sampleKernel ⟨4 * 1024 * 1024 * 1024, 0⟩ ⟨[], fun _ => none⟩ (by decide) (by decide)
  · exact absurd hnone (by decide)
  · exact ⟨mapped, regions, hcarved, hrun⟩

end FerrumVM
