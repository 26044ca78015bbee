import FerrumVM.BaseMemory
import FerrumVM.MachineConfig

/-! The memory map the host hands to the firmware: the encoder of `machine_config/mem_map.rs`, the map that
`inject_memmap` of `machine_config/machine_config.rs` encodes, and the firmware's side of it in
`headers/memmap.h` and `mem/memmap.c`, which reads the bytes back from guest memory. -/

namespace FerrumVM

open Base

inductive MemType where
  | reserved
  | loaderCode
  | loaderData
  | bootServicesCode
  | bootServicesData
  | runtimeServicesCode
  | runtimeServicesData
  | conventionalMemory
  | unusable
  | acpiReclaimMemory
  | acpiMemoryNvs
  | mmio
  deriving DecidableEq, Repr

def MemType.value : MemType → UInt32
  | .reserved => 0
  | .loaderCode => 1
  | .loaderData => 2
  | .bootServicesCode => 3
  | .bootServicesData => 4
  | .runtimeServicesCode => 5
  | .runtimeServicesData => 6
  | .conventionalMemory => 7
  | .unusable => 8
  | .acpiReclaimMemory => 9
  | .acpiMemoryNvs => 10
  | .mmio => 11

structure MemMap where
  start : UInt64
  endAddr : UInt64
  memType : UInt32
  deriving DecidableEq, Repr, Inhabited

def MemMap.asBytes (e : MemMap) : Bytes := u64ToLe e.start ++ u64ToLe e.endAddr ++ u32ToLe e.memType

structure MemMapHeader where
  mgkNum : UInt32
  length : UInt32

def MemMapHeader.asBytes (h : MemMapHeader) : Bytes := u32ToLe h.mgkNum ++ u32ToLe h.length

namespace MemMap

/-- The image of a map: its header, and its entries one after the other. -/
def encoded (entries : List MemMap) : Bytes :=
  MemMapHeader.asBytes ⟨0xFE02FE02, UInt32.ofNat entries.length⟩ ++ entries.flatMap asBytes

end MemMap

/-! ### The map that is injected -/

def apicReservedStart : UInt64 := 0xFEC00000
def apicReservedEnd : UInt64 := 0xFEE01000

/-- The map of a machine whose RAM is taken to end at `ramEnd`. -/
def memMapOf (ramEnd : UInt64) : List MemMap :=
  [⟨0x00000, 0x00500, MemType.reserved.value⟩, -- real mode vectors and BIOS data
    ⟨0x00500, 0x9F000, MemType.conventionalMemory.value⟩, -- low memory
    ⟨0x9F000, 0xA0000, MemType.acpiReclaimMemory.value⟩, -- EBDA
    ⟨0xA0000, 0x100000, MemType.reserved.value⟩, -- framebuffer and ROMs
    ⟨0x100000, 0x200000, MemType.bootServicesCode.value⟩, -- firmware image
    ⟨0x200000, 0x3000000, MemType.conventionalMemory.value⟩,
    ⟨0x3000000, 0x4000000, MemType.runtimeServicesData.value⟩, -- firmware heap
    ⟨0x4000000, apicReservedStart, MemType.conventionalMemory.value⟩,
    ⟨apicReservedStart, apicReservedEnd, MemType.reserved.value⟩, -- IOAPIC and LAPIC
    ⟨apicReservedEnd, ramEnd, MemType.conventionalMemory.value⟩,
    ⟨0x400000000, 0x400010000, MemType.mmio.value⟩]

def MachineConfig.injectMemmap (config : MachineConfig) : Exec MachineConfig := do
  let region ← Base.index config.memoryRegions 0
  let ramEnd ← subU64 region.memSize region.memOffset
  let memMap := (memMapOf ramEnd).mergeSort fun a b => a.start ≤ b.start
  return { config with binaries := config.binaries ++ [⟨MemMap.encoded memMap, 0x7000⟩] }

/-! ### The firmware's reader -/

namespace Firmware

def memmapAddr : UInt64 := 0x7000
def memmapMgkNum : UInt32 := 0xFE02FE02
def memmapMaxEntries : UInt32 := 32
def memmapEntrySize : UInt64 := 20
def efiConventionalMemory : UInt32 := 7

/-- `hdr->mgk_num` and `hdr->length`. -/
def headerMgkNum (m : Memory) : UInt32 := m.u32 memmapAddr
def headerLength (m : Memory) : UInt32 := m.u32 (memmapAddr + 4)

def entryAddr (i : UInt32) : UInt64 := memmapAddr + 8 + i.toUInt64 * memmapEntrySize

def readEntry (m : Memory) (addr : UInt64) : MemMap := ⟨m.u64 addr, m.u64 (addr + 8), m.u32 (addr + 16)⟩

/-- The address of the `i`-th entry, or nothing if the map is absent or has no such entry. -/
def memmapEntry (m : Memory) (i : UInt32) : Option UInt64 :=
  if headerMgkNum m ≠ memmapMgkNum ∨ headerLength m ≤ i ∨ memmapMaxEntries ≤ i then none else some (entryAddr i)

def raiseTop (top : UInt64) (e : MemMap) : UInt64 :=
  if e.memType = efiConventionalMemory ∧ top < e.endAddr then e.endAddr else top

def memmapRamTop (m : Memory) : UInt64 :=
  if headerMgkNum m ≠ memmapMgkNum ∨ headerLength m = 0 then 0
  else
    let n := if memmapMaxEntries < headerLength m then memmapMaxEntries else headerLength m
    (List.range n.toNat).foldl (fun top i => raiseTop top (readEntry m (entryAddr (UInt32.ofNat i)))) 0

structure MapCopy where
  memmap : List MemMap
  memmapLength : UInt32
  deriving DecidableEq, Repr

def copyEntry (m : Memory) (memmap : List MemMap) (i : Nat) : List MemMap :=
  match memmapEntry m (UInt32.ofNat i) with
  | some addr => memmap.set i (readEntry m addr)
  | none => memmap

def initMemmap (m : Memory) (s : MapCopy) : MapCopy :=
  if headerMgkNum m = memmapMgkNum then
    { memmap := (List.range (min (headerLength m).toNat memmapMaxEntries.toNat)).foldl (copyEntry m) s.memmap
      memmapLength := headerLength m }
  else s

/-! ### Reading the image back -/

@[simp] theorem length_asBytes (e : MemMap) : e.asBytes.length = 20 := by simp [MemMap.asBytes]

/-- The image of the map is in memory where the firmware looks for it. -/
def Injected (entries : List MemMap) (m : Memory) : Prop :=
  m.load memmapAddr (8 + 20 * entries.length) = MemMap.encoded entries

theorem length_encoded (entries : List MemMap) : (MemMap.encoded entries).length = 8 + 20 * entries.length := by
  rw [MemMap.encoded, List.length_append, length_flatMap_of_width length_asBytes]
  simp [MemMapHeader.asBytes]

variable {entries : List MemMap} {m : Memory}

theorem headerMgkNum_of_injected (h : Injected entries m) : headerMgkNum m = memmapMgkNum := by
  have hload : m.load (memmapAddr + UInt64.ofNat 0) 4 = window (m.load memmapAddr (8 + 20 * entries.length)) 0 4 :=
    Memory.load_window (by omega)
  rw [h] at hload
  rw [headerMgkNum, Memory.u32]
  exact (congrArg u32FromLe hload).trans (u32FromLe_toLe 0xFE02FE02)

theorem headerLength_of_injected (h : Injected entries m) : headerLength m = UInt32.ofNat entries.length := by
  have hload : m.load (memmapAddr + UInt64.ofNat 4) 4 = window (m.load memmapAddr (8 + 20 * entries.length)) 4 4 :=
    Memory.load_window (by omega)
  rw [h] at hload
  rw [headerLength, Memory.u32]
  have hwindow : window (MemMap.encoded entries) 4 4 = u32ToLe (UInt32.ofNat entries.length) := by
    rw [MemMap.encoded, MemMapHeader.asBytes, List.append_assoc]
    exact window_append _ (by simp) _ (by simp) _
  exact (congrArg u32FromLe (hload.trans hwindow)).trans (u32FromLe_toLe _)

theorem window_asBytes (e : MemMap) :
    window e.asBytes 0 8 = u64ToLe e.start ∧ window e.asBytes 8 8 = u64ToLe e.endAddr ∧
      window e.asBytes 16 4 = u32ToLe e.memType := by
  unfold MemMap.asBytes
  refine ⟨?_, ?_, ?_⟩
  · rw [List.append_assoc]
    exact window_append [] rfl (u64ToLe e.start) (length_u64ToLe _) _
  · rw [List.append_assoc]
    exact window_append (u64ToLe e.start) (length_u64ToLe _) (u64ToLe e.endAddr) (length_u64ToLe _) _
  · rw [← List.append_nil (u32ToLe e.memType)]
    exact window_append _ (by simp) (u32ToLe e.memType) (length_u32ToLe _) _

theorem readEntry_of_load {e : MemMap} {addr : UInt64} (h : m.load addr 20 = e.asBytes) : readEntry m addr = e := by
  have hparts (start count : Nat) (hin : start + count ≤ 20) :
      m.load (addr + UInt64.ofNat start) count = window e.asBytes start count := by
    rw [← h]
    exact Memory.load_window hin
  obtain ⟨hwstart, hwend, hwtype⟩ := window_asBytes e
  have hstart : m.load addr 8 = u64ToLe e.start := by
    have hload := hparts 0 8 (by omega)
    rwa [show addr + UInt64.ofNat 0 = addr from UInt64.add_zero addr, hwstart] at hload
  have hend : m.load (addr + 8) 8 = u64ToLe e.endAddr := (hparts 8 8 (by omega)).trans hwend
  have htype : m.load (addr + 16) 4 = u32ToLe e.memType := (hparts 16 4 (by omega)).trans hwtype
  rw [readEntry, Memory.u64, Memory.u64, Memory.u32, hstart, hend, htype, u64FromLe_toLe, u64FromLe_toLe, u32FromLe_toLe]

theorem entryAddr_eq {i : Nat} (h : i < 2 ^ 32) : entryAddr (UInt32.ofNat i) = memmapAddr + UInt64.ofNat (8 + 20 * i) := by
  have hindex : i % 2 ^ 32 = i := Nat.mod_eq_of_lt h
  apply UInt64.toNat_inj.mp
  simp only [entryAddr, memmapAddr, memmapEntrySize, UInt64.toNat_add, UInt64.toNat_mul, UInt32.toNat_toUInt64,
    UInt32.toNat_ofNat', UInt64.toNat_ofNat', hindex, UInt64.reduceToNat]
  omega

theorem readEntry_of_injected (h : Injected entries m) {i : Nat} (hi : i < entries.length)
    (hlength : entries.length ≤ 32) : readEntry m (entryAddr (UInt32.ofNat i)) = entries[i] := by
  apply readEntry_of_load
  rw [entryAddr_eq (by omega), @Memory.load_window m memmapAddr (8 + 20 * entries.length) _ _ (by omega), h]
  have hentry := window_flatMap length_asBytes hi
  rw [← hentry]
  unfold window MemMap.encoded
  rw [← List.drop_drop, List.drop_left' (by simp [MemMapHeader.asBytes])]

section

variable (h : Injected entries m) (hlength : entries.length ≤ 32)
include h hlength

theorem toNat_headerLength : (headerLength m).toNat = entries.length := by
  rw [headerLength_of_injected h, UInt32.toNat_ofNat', Nat.mod_eq_of_lt (by omega)]

theorem memmapEntry_of_injected (i : UInt32) : (memmapEntry m i).map (readEntry m) = entries[i.toNat]? := by
  have hheader := toNat_headerLength h hlength
  unfold memmapEntry
  by_cases hi : i.toNat < entries.length
  · have hsome : ¬(headerMgkNum m ≠ memmapMgkNum ∨ headerLength m ≤ i ∨ memmapMaxEntries ≤ i) := by
      simp only [headerMgkNum_of_injected h, ne_eq, not_true_eq_false, false_or, UInt32.le_iff_toNat_le, hheader,
        memmapMaxEntries, UInt32.reduceToNat]
      omega
    have hread := readEntry_of_injected h hi hlength
    rw [UInt32.ofNat_toNat] at hread
    rw [if_neg hsome, Option.map_some, hread, List.getElem?_eq_getElem hi]
  · have hnone : headerLength m ≤ i := by
      rw [UInt32.le_iff_toNat_le, hheader]
      omega
    rw [if_pos (.inr (.inl hnone)), List.getElem?_eq_none (by omega)]
    rfl

theorem foldl_copyEntry {memmap : List MemMap}
    (hroom : entries.length ≤ memmap.length) {count : Nat} (hcount : count ≤ entries.length) :
    (List.range count).foldl (copyEntry m) memmap = entries.take count ++ memmap.drop count := by
  induction count with
  | zero => simp
  | succ count ih =>
    have hin : count < entries.length := by omega
    have hfound := memmapEntry_of_injected h hlength (UInt32.ofNat count)
    rw [UInt32.toNat_ofNat', Nat.mod_eq_of_lt (by omega : count < 2 ^ 32), List.getElem?_eq_getElem hin,
      Option.map_eq_some_iff] at hfound
    obtain ⟨addr, haddr, hread⟩ := hfound
    have htake : (entries.take count).length = count := List.length_take_of_le (by omega)
    rw [List.range_succ, List.foldl_append, ih (by omega), List.foldl_cons, List.foldl_nil, copyEntry, haddr]
    dsimp only
    rw [hread, List.set_append_right _ _ (by omega), htake, Nat.sub_self,
      List.drop_eq_getElem_cons (by omega : count < memmap.length), List.set_cons_zero,
      List.take_succ_eq_append_getElem hin, List.append_assoc]
    rfl

theorem initMemmap_of_injected {s : MapCopy} (hroom : s.memmap.length = 32) :
    initMemmap m s = ⟨entries ++ s.memmap.drop entries.length, UInt32.ofNat entries.length⟩ := by
  have hcount : min (headerLength m).toNat memmapMaxEntries.toNat = entries.length := by
    rw [toNat_headerLength h hlength, memmapMaxEntries]
    exact Nat.min_eq_left hlength
  rw [initMemmap, if_pos (headerMgkNum_of_injected h), hcount,
    foldl_copyEntry h hlength (by omega) (Nat.le_refl _), List.take_length, headerLength_of_injected h]

end

theorem toNat_foldl_raiseTop (entries : List MemMap) (top : UInt64) : (entries.foldl raiseTop top).toNat =
      ((entries.filter (·.memType = efiConventionalMemory)).map (·.endAddr.toNat)).foldl max top.toNat := by
  induction entries generalizing top with
  | nil => rfl
  | cons e entries ih =>
    rw [List.foldl_cons, ih, raiseTop]
    by_cases htype : e.memType = efiConventionalMemory
    · rw [List.filter_cons_of_pos (by simpa using htype), List.map_cons, List.foldl_cons]
      congr 1
      split_ifs with htop
      · have hlt := UInt64.lt_iff_toNat_lt.mp htop.2
        omega
      · have hle : ¬top.toNat < e.endAddr.toNat := fun hlt => htop ⟨htype, UInt64.lt_iff_toNat_lt.mpr hlt⟩
        omega
    · rw [List.filter_cons_of_neg (by simpa using htype), if_neg fun hcond => htype hcond.1]

theorem memmapRamTop_eq_foldl (h : Injected entries m) (hlength : entries.length ≤ 32) :
    memmapRamTop m = entries.foldl raiseTop 0 := by
  have hheader := toNat_headerLength h hlength
  unfold memmapRamTop
  by_cases hzero : headerLength m = 0
  · have hnil : entries = [] := by
      rw [hzero] at hheader
      exact List.eq_nil_of_length_eq_zero hheader.symm
    rw [if_pos (.inr hzero), hnil]
    rfl
  · rw [if_neg (by simp [headerMgkNum_of_injected h, hzero])]
    have hn : ¬memmapMaxEntries < headerLength m := by
      simp only [UInt32.lt_iff_toNat_lt, hheader, memmapMaxEntries, UInt32.reduceToNat]
      omega
    have hentries : entries = (List.range entries.length).map fun i => readEntry m (entryAddr (UInt32.ofNat i)) := by
      apply List.ext_getElem
      · simp
      · intro i hi _
        rw [List.getElem_map, List.getElem_range, readEntry_of_injected h hi hlength]
    dsimp only
    rw [if_neg hn, hheader]
    conv_rhs => rw [hentries, List.foldl_map]

/-- **Encoder and decoder of the memory map agree.** -/
theorem memmap_decodes_encoded (entries : List MemMap) (m : Memory) (hlength : entries.length ≤ 32)
    (hplaced : m.load memmapAddr (MemMap.encoded entries).length = MemMap.encoded entries) :
    (∀ i, (memmapEntry m i).map (readEntry m) = entries[i.toNat]?) ∧ (∀ s : MapCopy, s.memmap.length = 32 →
        initMemmap m s = ⟨entries ++ s.memmap.drop entries.length, UInt32.ofNat entries.length⟩) ∧
      (memmapRamTop m).toNat =
        ((entries.filter (·.memType = MemType.conventionalMemory.value)).map (·.endAddr.toNat)).foldl max 0 := by
  rw [length_encoded] at hplaced
  refine ⟨memmapEntry_of_injected hplaced hlength, fun s hs => initMemmap_of_injected hplaced hlength hs, ?_⟩
  rw [memmapRamTop_eq_foldl hplaced hlength, toNat_foldl_raiseTop]
  rfl

/-- A map with one entry, in a memory that is zero elsewhere. -/
theorem one_entry_is_decoded :
    memmapRamTop (Memory.store (fun _ => 0) memmapAddr (MemMap.encoded [⟨0, 0x1000, 7⟩])) = 0x1000 := by
  have hdecoded := (memmap_decodes_encoded [⟨0, 0x1000, 7⟩] (Memory.store (fun _ => 0) memmapAddr _) (by decide)
    (Memory.load_store_self _ _ (by decide))).2.2
  exact UInt64.toNat_inj.mp hdecoded

end Firmware

/-! ### What the injected map says of the machine -/

/-- The map describes a machine with this memory: it is in order, its entries are ranges that do not overlap, what
it calls conventional is memory, and the firmware does not see more of it than there is. -/
structure MemMap.Describes (region : MemoryRegionConfig) (entries : List MemMap) : Prop where
  sorted : entries.Pairwise fun a b => a.start ≤ b.start
  ranges : ∀ e ∈ entries, e.start < e.endAddr
  disjoint : entries.Pairwise fun a b => a.endAddr ≤ b.start ∨ b.endAddr ≤ a.start
  inside : ∀ e ∈ entries, e.memType = MemType.conventionalMemory.value →
    region.memOffset ≤ e.start ∧ e.endAddr.toNat ≤ region.memOffset.toNat + region.memSize.toNat
  top : ∀ m : Memory, m.load Firmware.memmapAddr (MemMap.encoded entries).length = MemMap.encoded entries →
    (Firmware.memmapRamTop m).toNat ≤ region.memOffset.toNat + region.memSize.toNat

theorem mergeSort_memMapOf (ramEnd : UInt64) :
    (memMapOf ramEnd).mergeSort (fun a b => a.start ≤ b.start) = memMapOf ramEnd := by
  refine List.mergeSort_of_pairwise ?_
  simp [memMapOf, apicReservedStart, apicReservedEnd]

theorem conventional_memMapOf (ramEnd : UInt64) :
    ((memMapOf ramEnd).filter (·.memType = Firmware.efiConventionalMemory)).map (·.endAddr.toNat) =
      [0x9F000, 0x3000000, 0xFEC00000, ramEnd.toNat] := rfl

theorem describes_memMapOf_iff {region : MemoryRegionConfig} {ramEnd : UInt64}
    (hramEnd : ramEnd.toNat + region.memOffset.toNat = region.memSize.toNat) :
    MemMap.Describes region (memMapOf ramEnd) ↔
      region.memOffset.toNat ≤ 0x500 ∧ 0xFEE01000 < ramEnd.toNat ∧ ramEnd.toNat ≤ 0x400000000 := by
  constructor
  · rintro ⟨-, hranges, hdisjoint, hinside, -⟩
    have hlast := hranges ⟨apicReservedEnd, ramEnd, 7⟩ (by simp [memMapOf, MemType.value])
    have hlow := (hinside ⟨0x00500, 0x9F000, 7⟩ (by simp [memMapOf, MemType.value]) rfl).1
    have hmmio := List.pairwise_iff_getElem.mp hdisjoint 9 10 (by simp [memMapOf]) (by simp [memMapOf]) (by omega)
    simp only [memMapOf, List.getElem_cons_succ, List.getElem_cons_zero] at hmmio
    refine ⟨UInt64.le_iff_toNat_le.mp hlow, UInt64.lt_iff_toNat_lt.mp hlast, ?_⟩
    exact UInt64.le_iff_toNat_le.mp (hmmio.resolve_right (by decide))
  · rintro ⟨hoffset, hend, hmmio⟩
    have hend' : apicReservedEnd < ramEnd := UInt64.lt_iff_toNat_lt.mpr hend
    have hmmio' : ramEnd ≤ 0x400000000 := UInt64.le_iff_toNat_le.mpr hmmio
    refine ⟨?_, ?_, ?_, ?_, fun m hplaced => ?_⟩
    · simp [memMapOf, apicReservedStart, apicReservedEnd]
    · intro e he
      simp only [memMapOf, List.mem_cons, List.not_mem_nil, or_false] at he
      rcases he with rfl | rfl | rfl | rfl | rfl | rfl | rfl | rfl | rfl | rfl | rfl <;> first | exact hend' | decide
    · simp [memMapOf, apicReservedStart, apicReservedEnd, hmmio']
    · intro e he htype
      simp only [memMapOf, List.mem_cons, List.not_mem_nil, or_false] at he
      rw [UInt64.le_iff_toNat_le]
      rcases he with rfl | rfl | rfl | rfl | rfl | rfl | rfl | rfl | rfl | rfl | rfl <;> first
        | exact absurd htype (by decide)
        | (simp only [apicReservedStart, apicReservedEnd, UInt64.reduceToNat]; omega)
    · rw [Firmware.length_encoded] at hplaced
      rw [Firmware.memmapRamTop_eq_foldl hplaced (by simp [memMapOf]), Firmware.toNat_foldl_raiseTop,
        conventional_memMapOf]
      simp only [List.foldl_cons, List.foldl_nil, UInt64.reduceToNat]
      omega

/-- **The injected memory map.** For a first region that `inject_memmap` accepts, the map it injects describes the
machine exactly if the region starts at or below 0x500 and its size exceeds its offset by more than the end of
the APIC pages but by no more than where the devices start. -/
theorem injected_memmap_describes_iff (config config' : MachineConfig) (region : MemoryRegionConfig)
    (others : List MemoryRegionConfig) (hregions : config.memoryRegions = region :: others)
    (h : config.injectMemmap = .ok config') :
    ∃ entries, config'.binaries = config.binaries ++ [⟨MemMap.encoded entries, 0x7000⟩] ∧
      (MemMap.Describes region entries ↔
        region.memOffset.toNat ≤ 0x500 ∧ 0xFEE01000 + region.memOffset.toNat < region.memSize.toNat ∧
          region.memSize.toNat ≤ 0x400000000 + region.memOffset.toNat) := by
  obtain ⟨first, hfirst, hrest⟩ := Exec.bind_eq_ok.mp h
  obtain ⟨ramEnd, hramEnd, hlast⟩ := Exec.bind_eq_ok.mp hrest
  rw [hregions, index_eq_ok, List.getElem?_cons_zero] at hfirst
  obtain rfl := Option.some.inj hfirst
  have hsum : ramEnd.toNat + region.memOffset.toNat = region.memSize.toNat := by
    unfold subU64 at hramEnd
    split_ifs at hramEnd with hle
    cases hramEnd
    have hle' := UInt64.le_iff_toNat_le.mp hle
    rw [UInt64.toNat_sub_of_le _ _ hle]
    omega
  obtain rfl := Except.ok.inj hlast
  refine ⟨memMapOf ramEnd, by rw [mergeSort_memMapOf], (describes_memMapOf_iff hsum).trans ?_⟩
  omega

/-- A machine with 4 GiB from address zero on is described. -/
theorem map_of_four_gib_describes : ∃ config', MachineConfig.injectMemmap ⟨[⟨0x100000000, 0⟩], [], 8⟩ = .ok config' ∧
      ∃ entries, config'.binaries = [⟨MemMap.encoded entries, 0x7000⟩] ∧ MemMap.Describes ⟨0x100000000, 0⟩ entries := by
  refine ⟨_, rfl, ?_⟩
  obtain ⟨entries, hentries, hiff⟩ := injected_memmap_describes_iff ⟨[⟨0x100000000, 0⟩], [], 8⟩ _ ⟨0x100000000, 0⟩ [] rfl rfl
  exact ⟨entries, hentries, hiff.mpr (by decide)⟩

/-- A machine with 512 MiB: the range behind the APIC pages ends before it starts, and the range in front of them
is called memory up to 4 GiB. -/
theorem map_of_half_gib_is_wrong : ∃ config', MachineConfig.injectMemmap ⟨[⟨0x20000000, 0⟩], [], 1⟩ = .ok config' ∧
      ∃ entries, config'.binaries = [⟨MemMap.encoded entries, 0x7000⟩] ∧
        (⟨0xFEE01000, 0x20000000, 7⟩ ∈ entries ∧ ⟨0x4000000, 0xFEC00000, 7⟩ ∈ entries) ∧
        ¬MemMap.Describes ⟨0x20000000, 0⟩ entries := by
  refine ⟨_, rfl, memMapOf 0x20000000, by rw [mergeSort_memMapOf]; rfl, by decide, ?_⟩
  rintro ⟨-, hranges, -, -, -⟩
  exact absurd (hranges ⟨0xFEE01000, 0x20000000, 7⟩ (by decide)) (by decide)

end FerrumVM
