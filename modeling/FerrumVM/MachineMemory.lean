import FerrumVM.MachineConfig
import FerrumVM.MemoryRegion
import Mathlib.Data.List.Forall2
import Mathlib.Data.List.ModifyLast
import Mathlib.Data.List.Pairwise

/-! The memory of a machine as `VirtualMachine::new` of `vm/builder.rs` sets it up: every configured region is
mapped, registered with KVM around the pages of the interrupt controllers, and loaded with the binaries that
start in it. -/

namespace FerrumVM

open Base

variable {mem : MemoryRegionConfig} {kernel : Kernel} {mapped : Mapped} {config : MachineConfig} {slots : Slots}
  {region : KvmMemoryRegion} {binaries : List Binary} {slot : UInt32}

/-! ### The kernel -/

/-- A slot of guest memory as it is registered with KVM. -/
structure KvmMemoryRegion where
  slot : UInt32
  guestPhysAddr : UInt64
  memorySize : UInt64
  userspaceAddr : UInt64
  deriving DecidableEq, Repr

abbrev Slots := UInt32 → Option KvmMemoryRegion

/-- What the kernel does. The answer of `mmap` may depend on how many mappings there are already; KVM may refuse
a slot. -/
structure Kernel where
  mmap : Nat → UInt64 → Option UInt64
  accepts : Slots → KvmMemoryRegion → Bool
  /-- A mapping without bytes fails. -/
  mmap_zero : ∀ count, mmap count 0 = none
  /-- A mapping does not start at address zero. -/
  mmap_ne_zero : ∀ count size ptr, mmap count size = some ptr → ptr ≠ 0
  /-- A mapping lies in the address space of the process. -/
  mmap_fits : ∀ count size ptr, mmap count size = some ptr → ptr.toNat + size.toNat ≤ isizeMax

/-- A kernel that maps regions of up to a terabyte, a terabyte apart. -/
def sampleKernel : Kernel where
  mmap count size :=
    if size ≠ 0 ∧ size.toNat ≤ 2 ^ 40 ∧ count < 256 then some (UInt64.ofNat ((count + 1) * 2 ^ 40)) else none
  accepts _ _ := true
  mmap_zero _ := if_neg fun h => h.1 rfl
  mmap_ne_zero count size ptr h := by
    split_ifs at h with hin
    cases h
    rw [ne_eq, ← UInt64.toNat_inj, UInt64.toNat_ofNat_of_lt' (show (count + 1) * 2 ^ 40 < 2 ^ 64 by omega)]
    exact Nat.mul_ne_zero (Nat.succ_ne_zero count) (by decide)
  mmap_fits count size ptr h := by
    split_ifs at h with hin
    cases h
    rw [UInt64.toNat_ofNat_of_lt' (show (count + 1) * 2 ^ 40 < 2 ^ 64 by omega), isizeMax]
    omega

/-! ### Mapping and registering a region -/

structure Mapped where
  ptr : UInt64
  region : MemoryRegion

structure Vm where
  memoryRegions : List Mapped
  slots : Slots

structure Segment where
  start : UInt64
  stop : UInt64
  deriving DecidableEq, Repr

def ioapicPage : Segment := ⟨0xFEC00000, 0xFEC01000⟩
def lapicPage : Segment := ⟨0xFEE00000, 0xFEE01000⟩

def carveSegment (hole segment : Segment) : List Segment :=
  if segment.stop ≤ hole.start ∨ hole.stop ≤ segment.start then [segment]
  else
    (if segment.start < hole.start then [⟨segment.start, hole.start⟩] else []) ++
      (if hole.stop < segment.stop then [⟨hole.stop, segment.stop⟩] else [])

def carve (start stop : UInt64) : List Segment :=
  [ioapicPage, lapicPage].foldl (fun segments hole => segments.flatMap (carveSegment hole)) [⟨start, stop⟩]

namespace Vm

/-- Register segments under ascending slot numbers. A slot number that is registered again is replaced. -/
def register (kernel : Kernel) (ptr start : UInt64) : UInt32 → List Segment → Slots → Exec Slots
  | _, [], slots => .ok slots
  | slot, segment :: rest, slots => do
    let memorySize ← subU64 segment.stop segment.start
    let userspaceAddr ← addU64 ptr (← subU64 segment.start start)
    let region : KvmMemoryRegion := ⟨slot, segment.start, memorySize, userspaceAddr⟩
    if kernel.accepts slots region then
      register kernel ptr start (slot + 1) rest (Function.update slots slot (some region))
    else .error (.panic .unwrap)

def newMem (kernel : Kernel) (mem : MemoryRegionConfig) (vm : Vm) : Exec Vm :=
  match h : kernel.mmap vm.memoryRegions.length mem.memSize with
  | none => .error (.panic (.message "mmap failed"))
  | some ptr => do
    let region : MemoryRegion :=
      { isNull := ptr = 0
        bytes := List.replicate mem.memSize.toNat 0
        memOffset := mem.memOffset
        size_le := by
          have hfits := kernel.mmap_fits _ _ _ h
          rw [List.length_replicate]
          omega }
    let stop ← addU64 mem.memOffset mem.memSize
    let slots ← register kernel ptr mem.memOffset 0 (carve mem.memOffset stop) vm.slots
    return ⟨vm.memoryRegions ++ [⟨ptr, region⟩], slots⟩

/-! ### Loading -/

/-- What `assert!` says of a binary that does not fit. -/
def overflowText (length remaining codeOffset : Nat) : String :=
  "init_mem_image (" ++ toString length ++ " bytes) overflows memory region: only " ++ toString remaining ++
    " bytes available from code entry (offset 0x" ++ String.ofList (Nat.toDigits 16 codeOffset) ++ ") to end of region"

def writeLast (data : Bytes) (codeOffset : Nat) (vm : Vm) : Vm :=
  { vm with memoryRegions := vm.memoryRegions.modifyLast fun mapped =>
      { mapped with region := mapped.region.write data codeOffset } }

def loadBinary (mem : MemoryRegionConfig) (vm : Vm) (binary : Binary) : Exec Vm :=
  if mem.memOffset ≤ binary.offset then do
    let stop ← addU64 mem.memOffset mem.memSize
    if binary.offset < stop then do
      let codeOffset ← subU64 binary.offset mem.memOffset
      let remaining := mem.memSize.toNat - codeOffset.toNat
      if mem.memSize < codeOffset then .error (.panic (.message "code_entry offset exceeds memory region size"))
      else if remaining < binary.data.length then
        .error (.panic (.message (overflowText binary.data.length remaining codeOffset.toNat)))
      else return vm.writeLast binary.data codeOffset.toNat
    else return vm
  else return vm

/-- The loop over the memory regions of `VirtualMachine::new`. -/
def new (kernel : Kernel) (config : MachineConfig) : Exec Vm :=
  config.memoryRegions.foldlM (fun vm mem => do
    let vm ← vm.newMem kernel mem
    config.binaries.foldlM (loadBinary mem) vm) ⟨[], fun _ => none⟩

end Vm

/-! ### Carving -/

def Segment.Has (segment : Segment) (a : UInt64) : Prop := segment.start ≤ a ∧ a < segment.stop

instance (segment : Segment) (a : UInt64) : Decidable (segment.Has a) := inferInstanceAs (Decidable (_ ∧ _))

def OnApicPage (a : UInt64) : Prop := ioapicPage.Has a ∨ lapicPage.Has a

instance (a : UInt64) : Decidable (OnApicPage a) := inferInstanceAs (Decidable (_ ∨ _))

theorem has_carveSegment {hole : Segment} (hhole : hole.start < hole.stop) (segment : Segment) (a : UInt64) :
    (∃ part ∈ carveSegment hole segment, part.Has a) ↔ segment.Has a ∧ ¬hole.Has a := by
  unfold carveSegment
  split_ifs <;>
    simp only [Segment.Has, List.append_nil, List.nil_append, List.cons_append, List.mem_cons, List.not_mem_nil,
      or_false, exists_eq_or_imp, exists_eq_left, false_and, exists_false, false_iff, UInt64.le_iff_toNat_le,
      UInt64.lt_iff_toNat_lt] at * <;>
    omega

/-- The parts of a segment are segments in it, in order. -/
structure Parts (segment : Segment) (parts : List Segment) : Prop where
  within : ∀ part ∈ parts, segment.start ≤ part.start ∧ part.start < part.stop ∧ part.stop ≤ segment.stop
  ordered : parts.Pairwise fun part next => part.stop ≤ next.start

theorem parts_carveSegment {hole segment : Segment} (hhole : hole.start < hole.stop)
    (hsegment : segment.start < segment.stop) : Parts segment (carveSegment hole segment) := by
  unfold carveSegment
  split_ifs <;> constructor <;>
    simp only [List.append_nil, List.nil_append, List.cons_append, List.mem_cons, List.not_mem_nil, or_false,
      forall_eq_or_imp, forall_eq, List.pairwise_cons, List.Pairwise.nil, and_true, UInt64.le_iff_toNat_le,
      UInt64.lt_iff_toNat_lt, IsEmpty.forall_iff, implies_true] at * <;>
    omega

theorem Parts.carve {segment hole : Segment} {parts : List Segment} (h : Parts segment parts)
    (hhole : hole.start < hole.stop) : Parts segment (parts.flatMap (carveSegment hole)) := by
  have hpart : ∀ part ∈ parts, Parts part (carveSegment hole part) := fun part hmem =>
    parts_carveSegment hhole (h.within part hmem).2.1
  refine ⟨fun piece hpiece => ?_, List.pairwise_flatMap.mpr ⟨fun part hmem => (hpart part hmem).ordered, ?_⟩⟩
  · obtain ⟨part, hmem, hpiece⟩ := List.mem_flatMap.mp hpiece
    have hin := h.within part hmem
    have hpart := (hpart part hmem).within piece hpiece
    exact ⟨UInt64.le_trans hin.1 hpart.1, hpart.2.1, UInt64.le_trans hpart.2.2 hin.2.2⟩
  · refine h.ordered.imp_of_mem fun {part next} hmem hnext hle piece hpiece other hother => ?_
    have hpiece := (hpart part hmem).within piece hpiece
    have hother := (hpart next hnext).within other hother
    exact UInt64.le_trans hpiece.2.2 (UInt64.le_trans hle hother.1)

theorem parts_carve {start stop : UInt64} (h : start < stop) : Parts ⟨start, stop⟩ (carve start stop) := by
  have hwhole : Parts ⟨start, stop⟩ [⟨start, stop⟩] :=
    ⟨fun part hpart => by
      rw [List.mem_singleton.mp hpart]
      exact ⟨UInt64.le_refl _, h, UInt64.le_refl _⟩, List.pairwise_singleton _ _⟩
  have hioapic : ioapicPage.start < ioapicPage.stop := by decide
  have hlapic : lapicPage.start < lapicPage.stop := by decide
  exact (hwhole.carve hioapic).carve hlapic

/-- **The carved segments are the range without the pages of the interrupt controllers.** -/
theorem has_carve (start stop a : UInt64) :
    (∃ segment ∈ carve start stop, segment.Has a) ↔ (start ≤ a ∧ a < stop) ∧ ¬OnApicPage a := by
  have hcarve : ∀ (hole : Segment), hole.start < hole.stop → ∀ segments : List Segment,
      (∃ part ∈ segments.flatMap (carveSegment hole), part.Has a) ↔
        (∃ segment ∈ segments, segment.Has a) ∧ ¬hole.Has a := by
    intro hole hhole segments
    constructor
    · rintro ⟨part, hpart, ha⟩
      obtain ⟨segment, hmem, hpart⟩ := List.mem_flatMap.mp hpart
      have hhas := (has_carveSegment hhole segment a).mp ⟨part, hpart, ha⟩
      exact ⟨⟨segment, hmem, hhas.1⟩, hhas.2⟩
    · rintro ⟨⟨segment, hmem, ha⟩, hnot⟩
      obtain ⟨part, hpart, ha⟩ := (has_carveSegment hhole segment a).mpr ⟨ha, hnot⟩
      exact ⟨part, List.mem_flatMap.mpr ⟨segment, hmem, hpart⟩, ha⟩
  rw [carve, List.foldl_cons, List.foldl_cons, List.foldl_nil, hcarve lapicPage (by decide),
    hcarve ioapicPage (by decide), and_assoc, OnApicPage, not_or]
  simp only [List.mem_singleton, exists_eq_left, Segment.Has]

theorem length_carve_le (start stop : UInt64) : (carve start stop).length ≤ 4 := by
  have hone : ∀ hole segment, (carveSegment hole segment).length ≤ 2 := by
    intro hole segment
    unfold carveSegment
    split_ifs <;> simp
  have hall : ∀ (hole : Segment) (segments : List Segment),
      (segments.flatMap (carveSegment hole)).length ≤ segments.length * 2 := by
    intro hole segments
    induction segments with
    | nil => exact Nat.le_refl 0
    | cons segment rest ih =>
      rw [List.flatMap_cons, List.length_append, List.length_cons]
      have := hone hole segment
      omega
  have hfirst := hall ioapicPage [⟨start, stop⟩]
  have hsecond := hall lapicPage ([⟨start, stop⟩].flatMap (carveSegment ioapicPage))
  rw [List.length_singleton] at hfirst
  rw [carve, List.foldl_cons, List.foldl_cons, List.foldl_nil]
  omega

/-! ### What a region registers -/

namespace Mapped

def segments (mapped : Mapped) : List Segment :=
  carve mapped.region.memOffset (mapped.region.memOffset + mapped.region.memSize)

def slotOf (ptr start : UInt64) (slot : UInt32) (segment : Segment) : KvmMemoryRegion :=
  ⟨slot, segment.start, segment.stop - segment.start, ptr + (segment.start - start)⟩

def slotAt (mapped : Mapped) (slot : UInt32) : Option KvmMemoryRegion :=
  mapped.segments[slot.toNat]?.map (slotOf mapped.ptr mapped.region.memOffset slot)

/-- The slots after a region is registered: it takes the first numbers, whoever had them. -/
def registered (mapped : Mapped) (slots : Slots) : Slots := fun slot => (mapped.slotAt slot).or (slots slot)

end Mapped

def registeredAll (all : List Mapped) : Slots := all.foldl (fun slots mapped => mapped.registered slots) fun _ => none

theorem Vm.register_eq_ok {ptr start : UInt64} : ∀ {segments : List Segment} {slot : UInt32}
    {slots out : Slots}, Vm.register kernel ptr start slot segments slots = .ok out →
      slot.toNat + segments.length < 2 ^ 32 → ∀ number : UInt32, out number =
        if slot ≤ number then
          (segments[number.toNat - slot.toNat]?.map (Mapped.slotOf ptr start number)).or (slots number)
        else slots number
  | [], slot, slots, out, h, _, number => by
    cases h
    rw [List.getElem?_nil, Option.map_none, Option.none_or, ite_self]
  | segment :: rest, slot, slots, out, h, hfew, number => by
    rw [Vm.register] at h
    obtain ⟨memorySize, hsize, h⟩ := Exec.bind_eq_ok.mp h
    obtain ⟨offset, hoffset, h⟩ := Exec.bind_eq_ok.mp h
    obtain ⟨userspaceAddr, haddr, h⟩ := Exec.bind_eq_ok.mp h
    rw [List.length_cons] at hfew
    have hsucc : (slot + 1).toNat = slot.toNat + 1 := by
      rw [UInt32.toNat_add, UInt32.toNat_one, Nat.mod_eq_of_lt (by omega)]
    dsimp only at h
    have hregion : (⟨slot, segment.start, memorySize, userspaceAddr⟩ : KvmMemoryRegion) =
        Mapped.slotOf ptr start slot segment := by
      rw [Mapped.slotOf, (subU64_eq_ok_sub.mp hsize).2, (subU64_eq_ok_sub.mp hoffset).2,
        (addU64_eq_ok_add.mp haddr).2]
    rw [hregion] at h
    split_ifs at h with haccepts
    rw [register_eq_ok h (by rw [hsucc]; omega) number]
    simp only [UInt32.le_iff_toNat_le, hsucc]
    rcases Nat.lt_trichotomy slot.toNat number.toNat with hlt | heq | hgt
    · -- a later number belongs to the rest
      have hne : number ≠ slot := fun heq => by rw [heq] at hlt; omega
      have hindex : number.toNat - slot.toNat = number.toNat - (slot.toNat + 1) + 1 := by omega
      rw [if_pos (by omega), if_pos (by omega), Function.update_of_ne hne, hindex, List.getElem?_cons_succ]
    · have heq : slot = number := UInt32.toNat_inj.mp heq
      subst heq
      rw [if_neg (by omega), if_pos (by omega), Function.update_self, Nat.sub_self, List.getElem?_cons_zero,
        Option.map_some, Option.some_or]
    · have hne : number ≠ slot := fun heq => by rw [heq] at hgt; omega
      rw [if_neg (by omega), if_neg (by omega), Function.update_of_ne hne]

/-! ### One region -/

def MemoryRegionConfig.Holds (mem : MemoryRegionConfig) (a : Nat) : Prop :=
  mem.memOffset.toNat ≤ a ∧ a < mem.memOffset.toNat + mem.memSize.toNat

instance (mem : MemoryRegionConfig) (a : Nat) : Decidable (mem.Holds a) := inferInstanceAs (Decidable (_ ∧ _))

def Binary.byteAt (binary : Binary) (a : Nat) : Option UInt8 :=
  if binary.offset.toNat ≤ a then binary.data[a - binary.offset.toNat]? else none

namespace Mapped

def byteAt (mapped : Mapped) (a : Nat) : Option UInt8 :=
  if mapped.region.memOffset.toNat ≤ a then mapped.region.bytes[a - mapped.region.memOffset.toNat]? else none

structure Of (mem : MemoryRegionConfig) (mapped : Mapped) : Prop where
  memOffset : mapped.region.memOffset = mem.memOffset
  length : mapped.region.bytes.length = mem.memSize.toNat
  isNull : mapped.region.isNull = false
  fits : mem.memOffset.toNat + mem.memSize.toNat < 2 ^ 64
  pos : 0 < mem.memSize.toNat

theorem Of.memSize (h : mapped.Of mem) : mapped.region.memSize = mem.memSize := by
  rw [MemoryRegion.memSize, h.length, UInt64.ofNat_toNat]

theorem Of.registered_eq {mapped' : Mapped} (h' : mapped'.Of mem)
    (h : mapped.Of mem) (hptr : mapped'.ptr = mapped.ptr) (slots : Slots) :
    mapped'.registered slots = mapped.registered slots := by
  funext slot
  simp only [registered, slotAt, segments, h'.memOffset, h.memOffset, h'.memSize, h.memSize, hptr]

end Mapped

/-- The byte a run of the load loop leaves at an address of a region: that of the last binary which starts in
the region and covers the address, or the zero of the fresh mapping. -/
def loadedByte (mem : MemoryRegionConfig) (binaries : List Binary) (a : Nat) : UInt8 :=
  (binaries.reverse.findSome? fun binary => if mem.Holds binary.offset.toNat then binary.byteAt a else none).getD 0

structure Mapped.Loaded (mem : MemoryRegionConfig) (binaries : List Binary) (mapped : Mapped) : Prop
    extends mapped.Of mem where
  bytes : ∀ a, mapped.byteAt a = if mem.Holds a then some (loadedByte mem binaries a) else none

theorem loadedByte_append (mem : MemoryRegionConfig) (binaries : List Binary) (binary : Binary) (a : Nat) :
    loadedByte mem (binaries ++ [binary]) a =
      ((if mem.Holds binary.offset.toNat then binary.byteAt a else none).getD (loadedByte mem binaries a)) := by
  rw [loadedByte, List.reverse_append, List.reverse_singleton, List.singleton_append, List.findSome?_cons]
  cases (if mem.Holds binary.offset.toNat then binary.byteAt a else none) <;> rfl

theorem Mapped.Loaded.write {binary : Binary}
    {codeOffset : Nat} (h : mapped.Loaded mem binaries) (hholds : mem.Holds binary.offset.toNat)
    (hcode : codeOffset = binary.offset.toNat - mem.memOffset.toNat)
    (hfits : codeOffset + binary.data.length ≤ mem.memSize.toNat) :
    Mapped.Loaded mem (binaries ++ [binary]) ⟨mapped.ptr, mapped.region.write binary.data codeOffset⟩ := by
  have hin : codeOffset + binary.data.length ≤ mapped.region.bytes.length := by rw [h.length]; exact hfits
  have hof : Mapped.Of mem ⟨mapped.ptr, mapped.region.write binary.data codeOffset⟩ := by
    refine ⟨?_, ?_, ?_, h.fits, h.pos⟩
    · rw [MemoryRegion.write_memOffset, h.memOffset]
    · rw [MemoryRegion.length_write, h.length]
    · rw [MemoryRegion.write_isNull, h.isNull]
  have hbytes : (mapped.region.write binary.data codeOffset).bytes =
      splice mapped.region.bytes codeOffset binary.data := by
    rw [MemoryRegion.write, dif_pos (MemoryRegion.inBounds_iff.mpr ⟨h.isNull, hin⟩)]
  refine ⟨hof, fun a => ?_⟩
  have hold := h.bytes a
  rw [loadedByte_append, if_pos hholds]
  simp only [Mapped.byteAt, MemoryRegion.write_memOffset, hbytes, h.memOffset, getElem?_splice hin] at hold ⊢
  unfold MemoryRegionConfig.Holds at hholds
  by_cases hcovers : binary.offset.toNat ≤ a ∧ a < binary.offset.toNat + binary.data.length
  · have hindex : a - mem.memOffset.toNat - codeOffset = a - binary.offset.toNat := by omega
    have hlt : a - binary.offset.toNat < binary.data.length := by omega
    rw [if_pos (by omega), if_pos (by omega), if_pos (by constructor <;> omega), Binary.byteAt, if_pos hcovers.1, hindex,
      List.getElem?_eq_getElem hlt, Option.getD_some]
  · have hnone : binary.byteAt a = none := by
      rw [Binary.byteAt]
      split_ifs with hle
      · exact List.getElem?_eq_none (by omega)
      · rfl
    rw [hnone, Option.getD_none, ← hold]
    split_ifs <;> first | rfl | omega

namespace Vm

theorem newMem_eq_ok {vm vm' : Vm} (h : vm.newMem kernel mem = .ok vm') : ∃ mapped : Mapped, mapped.Loaded mem [] ∧
      vm' = ⟨vm.memoryRegions ++ [mapped], mapped.registered vm.slots⟩ := by
  unfold newMem at h
  split at h
  · cases h
  · next ptr hmmap =>
    dsimp only at h
    obtain ⟨stop, hstop, h⟩ := Exec.bind_eq_ok.mp h
    obtain ⟨slots, hslots, h⟩ := Exec.bind_eq_ok.mp h
    obtain ⟨hfits, hstop⟩ := addU64_eq_ok_add.mp hstop
    have hnonzero : mem.memSize ≠ 0 := fun hzero => by
      rw [hzero, kernel.mmap_zero] at hmmap
      cases hmmap
    have hpos : 0 < mem.memSize.toNat := Nat.pos_of_ne_zero fun hzero => hnonzero (UInt64.toNat_inj.mp hzero)
    cases h
    generalize hregion : MemoryRegion.mk _ _ _ _ = region
    have hof : Mapped.Of mem ⟨ptr, region⟩ := by
      subst hregion
      exact ⟨rfl, List.length_replicate, decide_eq_false (kernel.mmap_ne_zero _ _ _ hmmap), hfits, hpos⟩
    refine ⟨⟨ptr, region⟩, ⟨hof, fun a => ?_⟩, ?_⟩
    · subst hregion
      simp only [Mapped.byteAt, List.getElem?_replicate]
      by_cases ha : mem.Holds a
      · rw [if_pos ha, if_pos ha.1, if_pos (Nat.sub_lt_left_of_lt_add ha.1 ha.2)]
        rfl
      · rw [if_neg ha]
        split_ifs with hlow hhigh
        · exact absurd ⟨hlow, by omega⟩ ha
        · rfl
        · rfl
    · congr 1
      funext number
      rw [register_eq_ok hslots ?_ number, if_pos (by exact UInt32.zero_le), Mapped.registered, Mapped.slotAt,
        Mapped.segments, hof.memSize, hof.memOffset, hstop]
      · rfl
      · have := length_carve_le mem.memOffset stop
        rw [UInt32.toNat_zero]
        omega

theorem loadBinary_eq_ok {front : List Mapped} {binary : Binary} {vm' : Vm} (hloaded : mapped.Loaded mem binaries)
    (h : loadBinary mem ⟨front ++ [mapped], slots⟩ binary = .ok vm') : ∃ mapped' : Mapped,
      mapped'.Loaded mem (binaries ++ [binary]) ∧ mapped'.ptr = mapped.ptr ∧ vm' = ⟨front ++ [mapped'], slots⟩ := by
  have hskip : ¬mem.Holds binary.offset.toNat → mapped.Loaded mem (binaries ++ [binary]) := fun hout =>
    ⟨hloaded.toOf, fun a => by rw [hloaded.bytes, loadedByte_append, if_neg hout, Option.getD_none]⟩
  unfold loadBinary at h
  split_ifs at h with hlow
  · obtain ⟨stop, hstop, h⟩ := Exec.bind_eq_ok.mp h
    obtain ⟨hfits, hstop⟩ := addU64_eq_ok.mp hstop
    split_ifs at h with hhigh
    · obtain ⟨codeOffset, hcode, h⟩ := Exec.bind_eq_ok.mp h
      dsimp only at h
      split_ifs at h with hentry hfew
      cases h
      have hholds : mem.Holds binary.offset.toNat := by
        rw [UInt64.le_iff_toNat_le] at hlow
        rw [UInt64.lt_iff_toNat_lt, hstop] at hhigh
        exact ⟨hlow, hhigh⟩
      have hcode : codeOffset.toNat = binary.offset.toNat - mem.memOffset.toNat := by
        rw [← (subU64_eq_ok_sub.mp hcode).2, UInt64.toNat_sub_of_le _ _ hlow]
      refine ⟨⟨mapped.ptr, mapped.region.write binary.data codeOffset.toNat⟩,
        hloaded.write hholds hcode (by unfold MemoryRegionConfig.Holds at hholds; omega), rfl, ?_⟩
      rw [writeLast, List.modifyLast_concat]
    · cases h
      refine ⟨mapped, hskip fun hholds => hhigh ?_, rfl, rfl⟩
      rw [UInt64.lt_iff_toNat_lt, hstop]
      exact hholds.2
  · cases h
    exact ⟨mapped, hskip fun hholds => hlow (UInt64.le_iff_toNat_le.mpr hholds.1), rfl, rfl⟩

theorem loadBinaries_eq_ok {front : List Mapped} {vm' : Vm} :
    ∀ {binaries before : List Binary} {mapped : Mapped}, mapped.Loaded mem before →
      binaries.foldlM (loadBinary mem) ⟨front ++ [mapped], slots⟩ = .ok vm' → ∃ mapped' : Mapped,
        mapped'.Loaded mem (before ++ binaries) ∧ mapped'.ptr = mapped.ptr ∧ vm' = ⟨front ++ [mapped'], slots⟩
  | [], before, mapped, hloaded, h => by
    cases h
    rw [List.append_nil]
    exact ⟨mapped, hloaded, rfl, rfl⟩
  | binary :: rest, before, mapped, hloaded, h => by
    rw [List.foldlM_cons] at h
    obtain ⟨vm, hvm, h⟩ := Exec.bind_eq_ok.mp h
    obtain ⟨written, hwritten, hptr, rfl⟩ := loadBinary_eq_ok hloaded hvm
    obtain ⟨mapped', hloaded', hptr', hvm'⟩ := loadBinaries_eq_ok hwritten h
    rw [List.append_assoc, List.singleton_append] at hloaded'
    exact ⟨mapped', hloaded', hptr'.trans hptr, hvm'⟩

theorem foldlM_newMem_eq_ok {vm' : Vm} : ∀ {regions : List MemoryRegionConfig} {vm : Vm},
      regions.foldlM (fun vm mem => do
        let vm ← newMem kernel mem vm
        binaries.foldlM (loadBinary mem) vm) vm = .ok vm' →
      ∃ all : List Mapped, List.Forall₂ (fun mem mapped => mapped.Loaded mem binaries) regions all ∧
        vm' = ⟨vm.memoryRegions ++ all, all.foldl (fun slots mapped => mapped.registered slots) vm.slots⟩
  | [], vm, h => by
    cases h
    exact ⟨[], .nil, by rw [List.append_nil, List.foldl_nil]⟩
  | mem :: rest, vm, h => by
    rw [List.foldlM_cons] at h
    obtain ⟨loaded, hloaded, h⟩ := Exec.bind_eq_ok.mp h
    obtain ⟨fresh, hfresh, hloaded⟩ := Exec.bind_eq_ok.mp hloaded
    obtain ⟨mapped, hmapped, rfl⟩ := newMem_eq_ok hfresh
    obtain ⟨mapped', hmapped', hptr, rfl⟩ := loadBinaries_eq_ok hmapped hloaded
    obtain ⟨all, hall, rfl⟩ := foldlM_newMem_eq_ok h
    refine ⟨mapped' :: all, .cons hmapped' hall, ?_⟩
    rw [List.append_assoc, List.singleton_append, List.foldl_cons,
      hmapped'.toOf.registered_eq hmapped.toOf hptr]

theorem new_eq_ok {vm : Vm} (h : new kernel config = .ok vm) : ∃ all : List Mapped,
      List.Forall₂ (fun mem mapped => mapped.Loaded mem config.binaries) config.memoryRegions all ∧
        vm = ⟨all, registeredAll all⟩ :=
  foldlM_newMem_eq_ok h

theorem new_pairs {vm : Vm} (h : new kernel config = .ok vm) :
    ∃ pairs : List (MemoryRegionConfig × Mapped), (∀ pair ∈ pairs, pair.2.Of pair.1) ∧
      config.memoryRegions = pairs.map Prod.fst ∧ vm = ⟨pairs.map Prod.snd, registeredAll (pairs.map Prod.snd)⟩ := by
  obtain ⟨all, hall, rfl⟩ := new_eq_ok h
  obtain ⟨hlength, hloaded⟩ := List.forall₂_iff_zip.mp hall
  refine ⟨config.memoryRegions.zip all, fun pair hpair => (hloaded hpair).toOf, ?_, ?_⟩
  · rw [List.map_fst_zip hlength.le]
  · rw [List.map_snd_zip hlength.ge]

/-! ### Images -/

/-- The byte of guest memory at an address: that of the first region which holds it. -/
def byteAt (vm : Vm) (a : Nat) : Option UInt8 := vm.memoryRegions.findSome? fun mapped => mapped.byteAt a

def HasImages (config : MachineConfig) (vm : Vm) : Prop :=
  ∀ binary ∈ config.binaries, ∀ i < binary.data.length,
    vm.byteAt (binary.offset.toNat + i) = binary.data[i]?

theorem byteAt_new {vm : Vm} (h : new kernel config = .ok vm) (a : Nat) :
    vm.byteAt a = (config.memoryRegions.find? fun mem => mem.Holds a).map fun mem =>
      loadedByte mem config.binaries a := by
  obtain ⟨all, hall, rfl⟩ := new_eq_ok h
  clear h
  rw [byteAt]
  generalize config.memoryRegions = regions at hall
  induction hall with
  | nil => rfl
  | @cons mem mapped regions all hmapped _ ih =>
    rw [List.findSome?_cons, List.find?_cons, hmapped.bytes]
    by_cases hholds : mem.Holds a
    · rw [if_pos hholds, decide_eq_true hholds]
      rfl
    · rw [if_neg hholds, decide_eq_false hholds]
      exact ih

/-- **Images.** When the machine comes up, every binary is in guest memory exactly when each of its bytes lies in
a region, and the last binary which starts in the first such region and covers the address has the same byte there. -/
theorem images_loaded_iff {kernel : Kernel} {config : MachineConfig} {vm : Vm} (hnew : new kernel config = .ok vm) :
    vm.HasImages config ↔ ∀ binary ∈ config.binaries, ∀ i < binary.data.length,
      ∃ mem, config.memoryRegions.find? (fun mem => mem.Holds (binary.offset.toNat + i)) = some mem ∧
        binary.data[i]? = some (loadedByte mem config.binaries (binary.offset.toNat + i)) := by
  refine forall₂_congr fun binary _ => forall₂_congr fun i hi => ?_
  rw [byteAt_new hnew, List.getElem?_eq_getElem hi, Option.map_eq_some_iff]
  exact exists_congr fun mem => and_congr_right fun _ => by rw [Option.some.injEq, eq_comm]

def pageConfig (offset : UInt64) : MachineConfig := ⟨[⟨0x1000, 0⟩], [⟨[0x90, 0xF4], offset⟩], 1⟩

theorem program_is_loaded : ∃ vm, new sampleKernel (pageConfig 0x100) = .ok vm ∧ vm.HasImages (pageConfig 0x100) := by
  obtain ⟨vm, hnew⟩ := Exec.exists_ok (show (new sampleKernel (pageConfig 0x100)).isOk = true by decide)
  refine ⟨vm, hnew, (images_loaded_iff hnew).mpr fun binary hbinary i hi => ⟨⟨0x1000, 0⟩, ?_⟩⟩
  cases List.mem_singleton.mp hbinary
  obtain rfl | rfl : i = 0 ∨ i = 1 := by
    have : i < 2 := hi
    omega
  · decide
  · decide

/-- A binary outside every region is skipped. -/
theorem program_is_skipped : ∃ vm, new sampleKernel (pageConfig 0x2000) = .ok vm ∧
    ¬vm.HasImages (pageConfig 0x2000) := by
  obtain ⟨vm, hnew⟩ := Exec.exists_ok (show (new sampleKernel (pageConfig 0x2000)).isOk = true by decide)
  refine ⟨vm, hnew, fun himages => ?_⟩
  have hbyte := himages _ (List.mem_singleton_self _) 0 (by decide)
  rw [byteAt_new hnew] at hbyte
  exact absurd hbyte (by decide)

end Vm

/-! ### Slots -/

/-- The slot maps a guest-physical address to an address of the host. -/
def KvmMemoryRegion.Maps (region : KvmMemoryRegion) (a host : UInt64) : Prop :=
  region.guestPhysAddr ≤ a ∧ a - region.guestPhysAddr < region.memorySize ∧
    host = region.userspaceAddr + (a - region.guestPhysAddr)

def Vm.Maps (vm : Vm) (a host : UInt64) : Prop :=
  ∃ slot region, vm.slots slot = some region ∧ region.Maps a host

/-- The slots map exactly the regions without the pages of the interrupt controllers, each byte to its own. -/
def Vm.MapsRam (config : MachineConfig) (vm : Vm) : Prop :=
  ∀ a host, vm.Maps a host ↔ ∃ pair ∈ config.memoryRegions.zip vm.memoryRegions,
    pair.1.Holds a.toNat ∧ ¬OnApicPage a ∧ host = pair.2.ptr + (a - pair.1.memOffset)

/-- The region has an address that no interrupt controller answers. -/
def MemoryRegionConfig.HasRam (mem : MemoryRegionConfig) : Prop := ∃ a : UInt64, mem.Holds a.toNat ∧ ¬OnApicPage a

namespace Mapped

variable {mem : MemoryRegionConfig} {mapped : Mapped}

theorem Of.segments_eq (h : mapped.Of mem) : mapped.segments = carve mem.memOffset (mem.memOffset + mem.memSize) := by
  rw [segments, h.memOffset, h.memSize]

theorem Of.parts (h : mapped.Of mem) : Parts ⟨mem.memOffset, mem.memOffset + mem.memSize⟩ mapped.segments := by
  rw [h.segments_eq]
  apply parts_carve
  rw [UInt64.lt_iff_toNat_lt, toNat_add_of_lt h.fits]
  exact Nat.lt_add_of_pos_right h.pos

theorem Of.has_segments (h : mapped.Of mem) (a : UInt64) :
    (∃ segment ∈ mapped.segments, segment.Has a) ↔ mem.Holds a.toNat ∧ ¬OnApicPage a := by
  rw [h.segments_eq, has_carve, UInt64.le_iff_toNat_le, UInt64.lt_iff_toNat_lt, toNat_add_of_lt h.fits]
  rfl

theorem Of.segments_ne_nil_iff (h : mapped.Of mem) : mapped.segments ≠ [] ↔ mem.HasRam := by
  constructor
  · intro hne
    obtain ⟨segment, hmem⟩ := List.exists_mem_of_ne_nil _ hne
    exact ⟨segment.start, (h.has_segments _).mp ⟨segment, hmem, UInt64.le_refl _, (h.parts.within segment hmem).2.1⟩⟩
  · rintro ⟨a, ha⟩ hnil
    obtain ⟨segment, hmem, -⟩ := (h.has_segments a).mpr ha
    rw [hnil] at hmem
    cases hmem

theorem slotAt_eq_some : mapped.slotAt slot = some region ↔ ∃ segment, mapped.segments[slot.toNat]? = some segment ∧
      slotOf mapped.ptr mapped.region.memOffset slot segment = region :=
  Option.map_eq_some_iff

theorem slotOf_maps {ptr start : UInt64} {segment : Segment} (hsegment : segment.start < segment.stop)
    (a host : UInt64) : (slotOf ptr start slot segment).Maps a host ↔ segment.Has a ∧ host = ptr + (a - start) := by
  have hhost : ptr + (segment.start - start) + (a - segment.start) = ptr + (a - start) := by grind
  rw [KvmMemoryRegion.Maps, slotOf]
  dsimp only
  rw [hhost, ← and_assoc]
  refine and_congr_left fun _ => and_congr_right fun hle => ?_
  have hle' := UInt64.le_of_lt hsegment
  rw [UInt64.lt_iff_toNat_lt, UInt64.lt_iff_toNat_lt, UInt64.toNat_sub_of_le _ _ hle, UInt64.toNat_sub_of_le _ _ hle']
  rw [UInt64.le_iff_toNat_le] at hle hle'
  omega

theorem Of.slotAt_maps (h : mapped.Of mem) (a host : UInt64) :
    (∃ slot region, mapped.slotAt slot = some region ∧ region.Maps a host) ↔
      mem.Holds a.toNat ∧ ¬OnApicPage a ∧ host = mapped.ptr + (a - mem.memOffset) := by
  rw [← and_assoc, ← h.has_segments, ← h.memOffset]
  constructor
  · rintro ⟨slot, region, hslot, hmaps⟩
    obtain ⟨segment, hsegment, rfl⟩ := slotAt_eq_some.mp hslot
    have hmem := List.mem_of_getElem? hsegment
    obtain ⟨hhas, hhost⟩ := (slotOf_maps (h.parts.within segment hmem).2.1 a host).mp hmaps
    exact ⟨⟨segment, hmem, hhas⟩, hhost⟩
  · rintro ⟨⟨segment, hmem, hhas⟩, hhost⟩
    obtain ⟨number, hnumber⟩ := List.mem_iff_getElem?.mp hmem
    have hlt : number < 2 ^ 32 := by
      have hlength := length_carve_le mapped.region.memOffset (mapped.region.memOffset + mapped.region.memSize)
      have hvalid := (List.getElem?_eq_some_iff.mp hnumber).1
      rw [segments] at hvalid
      omega
    refine ⟨UInt32.ofNat number, _, slotAt_eq_some.mpr ⟨segment, ?_, rfl⟩,
      (slotOf_maps (h.parts.within segment hmem).2.1 a host).mpr ⟨hhas, hhost⟩⟩
    rw [UInt32.toNat_ofNat_of_lt' hlt, hnumber]

end Mapped

section Registered

variable {slot : UInt32} {region : KvmMemoryRegion} {all : List Mapped}

theorem slot_registered (h : all.foldl (fun slots mapped => mapped.registered slots) slots slot = some region) :
    (∃ mapped ∈ all, mapped.slotAt slot = some region) ∨ slots slot = some region := by
  induction all generalizing slots with
  | nil => exact .inr h
  | cons mapped rest ih =>
    obtain ⟨other, hother, hslot⟩ | hslot := ih h
    · exact .inl ⟨other, List.mem_cons_of_mem _ hother, hslot⟩
    · obtain hslot | ⟨-, hslot⟩ := Option.or_eq_some_iff.mp hslot
      · exact .inl ⟨mapped, List.mem_cons_self, hslot⟩
      · exact .inr hslot

theorem slot_of_no_segments (h : ∀ mapped ∈ all, mapped.segments = []) :
    all.foldl (fun slots mapped => mapped.registered slots) slots slot = slots slot := by
  induction all generalizing slots with
  | nil => rfl
  | cons mapped rest ih =>
    have hnone : mapped.slotAt slot = none := by
      rw [Mapped.slotAt, h mapped List.mem_cons_self, List.getElem?_nil, Option.map_none]
    rw [List.foldl_cons, ih fun other hother => h other (List.mem_cons_of_mem _ hother),
      Mapped.registered, hnone, Option.none_or]

theorem slot_kept (hone : all.Pairwise fun mapped other => mapped.segments = [] ∨ other.segments = [])
    (hmem : mapped ∈ all) (hslot : mapped.slotAt slot = some region) :
    all.foldl (fun slots mapped => mapped.registered slots) slots slot = some region := by
  induction all generalizing slots with
  | nil => cases hmem
  | cons first rest ih =>
    obtain ⟨hfirst, hrest⟩ := List.pairwise_cons.mp hone
    obtain rfl | hmem := List.mem_cons.mp hmem
    · have hne : mapped.segments ≠ [] := fun hnil => by
        rw [Mapped.slotAt, hnil, List.getElem?_nil] at hslot
        cases hslot
      rw [List.foldl_cons, slot_of_no_segments fun other hother => (hfirst other hother).resolve_left hne,
        Mapped.registered, hslot, Option.some_or]
    · exact ih hrest hmem

end Registered

theorem Mapped.Of.slot_of_first (h : mapped.Of mem) {first : Segment} (hfirst : mapped.segments[0]? = some first)
    (hslot : mapped.slotAt slot = some region) {host : UInt64} (hmaps : region.Maps first.start host) : slot = 0 := by
  obtain ⟨segment, hsegment, rfl⟩ := slotAt_eq_some.mp hslot
  have hwithin := h.parts.within segment (List.mem_of_getElem? hsegment)
  have hhas := ((slotOf_maps hwithin.2.1 _ _).mp hmaps).1
  by_contra hne
  have hpos : 0 < slot.toNat := Nat.pos_of_ne_zero fun hzero => hne (UInt32.toNat_inj.mp hzero)
  obtain ⟨hvalid, rfl⟩ := List.getElem?_eq_some_iff.mp hsegment
  obtain ⟨hvalid', rfl⟩ := List.getElem?_eq_some_iff.mp hfirst
  have hordered := List.pairwise_iff_getElem.mp h.parts.ordered 0 slot.toNat hvalid' hvalid hpos
  have hnonempty := (h.parts.within _ (List.getElem_mem hvalid')).2.1
  exact absurd (UInt64.lt_of_lt_of_le hnonempty (UInt64.le_trans hordered hhas.1)) (UInt64.lt_irrefl _)

section Pairs

theorem zip_pairs {α β : Type} (pairs : List (α × β)) : (pairs.map Prod.fst).zip (pairs.map Prod.snd) = pairs := by
  rw [List.zip_map', List.map_id']

variable {pairs : List (MemoryRegionConfig × Mapped)} (hpairs : ∀ pair ∈ pairs, pair.2.Of pair.1)

theorem pair_of_slot (hslot : registeredAll (pairs.map Prod.snd) slot = some region) :
    ∃ pair ∈ pairs, pair.2.slotAt slot = some region := by
  obtain ⟨mapped, hmem, hslot⟩ | hslot := slot_registered hslot
  · obtain ⟨pair, hpair, rfl⟩ := List.mem_map.mp hmem
    exact ⟨pair, hpair, hslot⟩
  · cases hslot

include hpairs

theorem first_slot (hdisjoint : pairs.Pairwise fun pair other => ∀ a, ¬(pair.1.Holds a ∧ other.1.Holds a))
    (hmaps : ∀ a host, (∃ pair ∈ pairs, pair.1.Holds a.toNat ∧ ¬OnApicPage a ∧
      host = pair.2.ptr + (a - pair.1.memOffset)) → ∃ slot region,
        registeredAll (pairs.map Prod.snd) slot = some region ∧ region.Maps a host)
    {pair : MemoryRegionConfig × Mapped} (hpair : pair ∈ pairs) (hram : pair.1.HasRam) :
    ∃ region, registeredAll (pairs.map Prod.snd) 0 = some region ∧ pair.1.Holds region.guestPhysAddr.toNat := by
  have hof := hpairs pair hpair
  have hlength := List.length_pos_iff.mpr (hof.segments_ne_nil_iff.mpr hram)
  have hfirst := List.getElem?_eq_getElem hlength
  generalize pair.2.segments[0] = first at hfirst
  have hmem := List.mem_of_getElem? hfirst
  have hheld := (hof.has_segments first.start).mp ⟨first, hmem, UInt64.le_refl _, (hof.parts.within first hmem).2.1⟩
  obtain ⟨slot, region, hslot, hregion⟩ := hmaps first.start _ ⟨pair, hpair, hheld.1, hheld.2, rfl⟩
  obtain ⟨other, hother, hslotAt⟩ := pair_of_slot hslot
  have hheld' := ((hpairs other hother).slotAt_maps _ _).mp ⟨slot, region, hslotAt, hregion⟩
  have hsame : other = pair := by
    have hsymm : Std.Symm fun (pair other : MemoryRegionConfig × Mapped) => ∀ a, ¬(pair.1.Holds a ∧ other.1.Holds a) :=
      ⟨fun _ _ h a hand => h a hand.symm⟩
    by_contra hne
    exact hdisjoint.forall hother hpair hne _ ⟨hheld'.1, hheld.1⟩
  subst hsame
  obtain rfl := hof.slot_of_first hfirst hslotAt hregion
  refine ⟨region, hslot, ?_⟩
  obtain ⟨segment, hsegment, rfl⟩ := Mapped.slotAt_eq_some.mp hslotAt
  cases hfirst.symm.trans hsegment
  exact hheld.1

theorem maps_iff_of_one
    (hone : pairs.Pairwise fun pair other => ¬(pair.1.HasRam ∧ other.1.HasRam)) (a host : UInt64) :
    (∃ slot region, registeredAll (pairs.map Prod.snd) slot = some region ∧ region.Maps a host) ↔
      ∃ pair ∈ pairs, pair.1.Holds a.toNat ∧ ¬OnApicPage a ∧ host = pair.2.ptr + (a - pair.1.memOffset) := by
  constructor
  · rintro ⟨slot, region, hslot, hregion⟩
    obtain ⟨pair, hpair, hslot⟩ := pair_of_slot hslot
    exact ⟨pair, hpair, ((hpairs pair hpair).slotAt_maps a host).mp ⟨slot, region, hslot, hregion⟩⟩
  · rintro ⟨pair, hpair, hheld⟩
    obtain ⟨slot, region, hslot, hregion⟩ := ((hpairs pair hpair).slotAt_maps a host).mpr hheld
    refine ⟨slot, region, slot_kept ?_ (List.mem_map_of_mem hpair) hslot, hregion⟩
    refine List.pairwise_map.mpr (hone.imp_of_mem fun {pair other} hpair hother hnot => ?_)
    by_contra hboth
    obtain ⟨hne, hne'⟩ := not_or.mp hboth
    exact hnot ⟨(hpairs pair hpair).segments_ne_nil_iff.mp hne, (hpairs other hother).segments_ne_nil_iff.mp hne'⟩

end Pairs

theorem Vm.one_has_ram {vm : Vm} (hnew : new kernel config = .ok vm)
    (hdisjoint : config.memoryRegions.Pairwise fun mem other => ∀ a, ¬(mem.Holds a ∧ other.Holds a))
    (hmaps : vm.MapsRam config) : config.memoryRegions.Pairwise fun mem other => ¬(mem.HasRam ∧ other.HasRam) := by
  obtain ⟨pairs, hpairs, hregions, rfl⟩ := new_pairs hnew
  rw [MapsRam, hregions, zip_pairs] at hmaps
  rw [hregions, List.pairwise_map] at hdisjoint ⊢
  refine hdisjoint.imp_of_mem fun {pair other} hpair hother hapart hboth => ?_
  obtain ⟨region, hslot, hheld⟩ := first_slot hpairs hdisjoint (fun a host => (hmaps a host).mpr) hpair hboth.1
  obtain ⟨region', hslot', hheld'⟩ := first_slot hpairs hdisjoint (fun a host => (hmaps a host).mpr) hother hboth.2
  cases hslot.symm.trans hslot'
  exact hapart _ ⟨hheld, hheld'⟩

/-- **Slots.** For disjoint regions, the slots map exactly the RAM when one region at most has any: the slot numbers
start at zero for every region, so that a later region replaces the slots of an earlier one. -/
theorem Vm.slots_map_ram_iff {kernel : Kernel} {config : MachineConfig} {vm : Vm} (hnew : new kernel config = .ok vm)
    (hdisjoint : config.memoryRegions.Pairwise fun mem other => ∀ a, ¬(mem.Holds a ∧ other.Holds a)) :
    vm.MapsRam config ↔ config.memoryRegions.Pairwise fun mem other => ¬(mem.HasRam ∧ other.HasRam) := by
  refine ⟨one_has_ram hnew hdisjoint, fun hone => ?_⟩
  obtain ⟨pairs, hpairs, hregions, rfl⟩ := new_pairs hnew
  rw [hregions, List.pairwise_map] at hone
  rw [MapsRam, hregions, zip_pairs]
  exact maps_iff_of_one hpairs hone

/-- The memory of the machine `main` configures. -/
def mainConfig : MachineConfig := ⟨[⟨4 * 1024 * 1024 * 1024, 0⟩], [], 1⟩

theorem Vm.main_memory_is_mapped : ∃ vm, Vm.new sampleKernel mainConfig = .ok vm ∧ vm.MapsRam mainConfig := by
  obtain ⟨vm, hnew⟩ := Exec.exists_ok (show (Vm.new sampleKernel mainConfig).isOk = true by decide)
  exact ⟨vm, hnew, (slots_map_ram_iff hnew (List.pairwise_singleton _ _)).mpr (List.pairwise_singleton _ _)⟩

def twoPages : MachineConfig := ⟨[⟨0x1000, 0⟩, ⟨0x1000, 0x100000⟩], [], 1⟩

theorem Vm.second_page_replaces_first : ∃ vm, Vm.new sampleKernel twoPages = .ok vm ∧
    (twoPages.memoryRegions.Pairwise fun mem other => ∀ a, ¬(mem.Holds a ∧ other.Holds a)) ∧
      ¬vm.MapsRam twoPages := by
  obtain ⟨vm, hnew⟩ := Exec.exists_ok (show (Vm.new sampleKernel twoPages).isOk = true by decide)
  have hdisjoint : twoPages.memoryRegions.Pairwise fun mem other => ∀ a, ¬(mem.Holds a ∧ other.Holds a) := by
    refine List.pairwise_pair.mpr fun a hboth => ?_
    have hfirst : a < 0 + 0x1000 := hboth.1.2
    have hsecond : 0x100000 ≤ a := hboth.2.1
    omega
  refine ⟨vm, hnew, hdisjoint, fun hmaps => ?_⟩
  have hone := List.pairwise_pair.mp (one_has_ram hnew hdisjoint hmaps)
  exact hone ⟨⟨0, by decide, by decide⟩, ⟨0x100000, by decide, by decide⟩⟩

end FerrumVM
