import FerrumVM.BaseTable

/-! The configuration of a machine, of `machine_config/machine_config.rs`, as far as its memory image goes,
and the ACPI tables of `machine_config/acpi` that are added to it: each is a zeroed byte table whose fields
are written one after the other and whose checksum is set last. -/

namespace FerrumVM

open Base

/-- Bytes to be loaded at a guest-physical address. -/
structure Binary where
  data : Bytes
  offset : UInt64
  deriving DecidableEq, Repr

structure MemoryRegionConfig where
  memSize : UInt64
  memOffset : UInt64
  deriving DecidableEq, Repr

structure MachineConfig where
  memoryRegions : List MemoryRegionConfig
  binaries : List Binary
  totalVcpus : UInt8
  deriving DecidableEq, Repr

namespace Acpi

def ascii (text : List Char) : Bytes := text.map fun c => UInt8.ofNat c.toNat

def mulU8 (a b : UInt8) : Exec UInt8 :=
  if a.toNat * b.toNat < 2 ^ 8 then .ok (a * b) else .error (.panic .overflow)

def addU8 (a b : UInt8) : Exec UInt8 :=
  if a.toNat + b.toNat < 2 ^ 8 then .ok (a + b) else .error (.panic .overflow)

/-! ### The tables -/

/-- The header the FADT and the MADT share, but for signature, length and table id. -/
def header (signature : List Char) (length : UInt32) (tableId : List Char) : List TableField :=
  [(0, 4, ascii signature),
    (4, 8, u32ToLe length),
    (8, 9, [2]), -- revision
    (9, 10, [0]), -- checksum, calculated later
    (10, 16, ascii ['F', 'E', 'R', 'R', 'U', 'M']),
    (16, 24, ascii tableId),
    (24, 28, u32ToLe 1),
    (28, 32, ascii ['F', 'V', 'M', ' ']),
    (32, 36, u32ToLe 1)]

def fadtFields (dsdtAddr : UInt64) : List TableField :=
  [(36, 40, u32ToLe 0), -- no FACS
    (40, 44, u32ToLe dsdtAddr.toUInt32),
    (46, 48, u16ToLe 9), -- SCI_INT
    (48, 52, u32ToLe 0xB2), -- SMI_CMD
    (52, 53, [0xF1]), -- ACPI_ENABLE
    (53, 54, [0xF0]), -- ACPI_DISABLE
    (56, 60, u32ToLe 0x0600), -- PM1a_EVT_BLK
    (64, 68, u32ToLe 0x0604), -- PM1a_CNT_BLK
    (76, 80, u32ToLe 0x0608), -- PM_TMR_BLK
    (80, 84, u32ToLe 0x0620), -- GPE0_BLK
    (88, 89, [4]), -- PM1_EVT_LEN
    (89, 90, [2]), -- PM1_CNT_LEN
    (91, 92, [4]), -- PM_TMR_LEN
    (92, 93, [0x10]), -- GPE0_BLK_LEN
    (106, 107, [0x0D]), -- RTC day alarm index
    (108, 109, [0x32]), -- RTC century index
    (109, 111, u16ToLe 0), -- IAPC boot flags
    (112, 116, u32ToLe 0x03), -- flags
    (116, 117, [1]), -- reset register: system I/O,
    (117, 118, [8]), -- bit width,
    (118, 119, [0]), -- bit offset,
    (119, 120, [1]), -- byte access
    (120, 128, u64ToLe 0x0CF9),
    (128, 129, [0x0A]), -- reset value
    (132, 140, u64ToLe 0), -- no X_FACS
    (140, 148, u64ToLe dsdtAddr)]

def buildFadt (dsdtAddr : UInt64) : Exec Binary := do
  let fadt ← zeros 244
  let fadt ← putFields fadt
    (header ['F', 'A', 'C', 'P'] 244 ['F', 'V', 'M', '_', 'F', 'A', 'D', 'T'] ++ fadtFields dsdtAddr)
  let fadt ← putField fadt (9, 10, [-byteSum fadt])
  return ⟨fadt, 0xE0400⟩

/-- `44 + vcpu_num * 8 + 12`, which is computed in eight bits. -/
def madtLength (vcpuNum : UInt8) : Exec UInt8 := do
  addU8 (← addU8 44 (← mulU8 vcpuNum 8)) 12

def processor (vcpuId : Nat) : List TableField :=
  let offset := 44 + 8 * vcpuId
  [(offset, offset + 1, [0]),
    (offset + 1, offset + 2, [8]),
    (offset + 2, offset + 3, [UInt8.ofNat vcpuId]),
    (offset + 3, offset + 4, [UInt8.ofNat vcpuId]),
    (offset + 4, offset + 8, u32ToLe 1)]

def ioapic (offset : Nat) : List TableField :=
  [(offset, offset + 1, [1]),
    (offset + 1, offset + 2, [12]),
    (offset + 2, offset + 3, [0]),
    (offset + 3, offset + 4, [0]),
    (offset + 4, offset + 8, u32ToLe 0xFEC00000),
    (offset + 8, offset + 12, u32ToLe 0)]

def madtFields (length : UInt32) (vcpuNum : UInt8) : List TableField :=
  header ['A', 'P', 'I', 'C'] length ['F', 'V', 'M', '_', 'M', 'A', 'D', 'T'] ++
    [(36, 40, u32ToLe 0xFEE00000), -- local APIC address
      (40, 44, u32ToLe 1)] ++ -- flags
    (List.range vcpuNum.toNat).flatMap processor ++
    ioapic (44 + 8 * vcpuNum.toNat)

def buildMadt (vcpuNum : UInt8) : Exec Binary := do
  let length ← madtLength vcpuNum
  let madt ← zeros length.toNat
  let madt ← putFields madt (madtFields length.toUInt32 vcpuNum)
  let madt ← putField madt (9, 10, [-byteSum madt])
  return ⟨madt, 0xE0500⟩

def tableEntry (entry : UInt64 × Nat) : TableField :=
  (36 + entry.2 * 8, 36 + entry.2 * 8 + 8, u64ToLe entry.1)

def xsdtFields (totalLen : Nat) (tableAddrs : List UInt64) : List TableField :=
  [(0, 4, ascii ['X', 'S', 'D', 'T']),
    (4, 8, u32ToLe (UInt32.ofNat totalLen)),
    (8, 9, [0x01]),
    (10, 16, ascii ['F', 'E', 'R', 'R', 'U', 'M']),
    (16, 24, ascii ['F', 'E', 'R', 'R', 'U', 'M', ' ', ' ']),
    (24, 28, u32ToLe 1),
    (28, 32, ascii ['F', 'E', 'R', 'R']),
    (32, 36, u32ToLe 1)] ++
    tableAddrs.zipIdx.map tableEntry

def buildXsdt (tableAddrs : List UInt64) : Exec Binary := do
  let totalLen ← usize (36 + tableAddrs.length * 8)
  let xsdt ← zeros totalLen
  let xsdt ← putFields xsdt (xsdtFields totalLen tableAddrs)
  let xsdt ← putField xsdt (9, 10, [-byteSum xsdt])
  return ⟨xsdt, 0xE00E0⟩

def rsdpFields (xsdtAddr : UInt64) : List TableField :=
  [(0, 8, ascii ['R', 'S', 'D', ' ', 'P', 'T', 'R', ' ']),
    (9, 15, ascii ['F', 'E', 'R', 'R', 'U', 'M']),
    (15, 16, [0x02]),
    (16, 20, u32ToLe 0),
    (20, 24, u32ToLe 36),
    (24, 32, u64ToLe xsdtAddr)]

def buildRsdp (xsdtAddr : UInt64) : Exec Binary := do
  let rsdp ← zeros 36
  let rsdp ← putFields rsdp (rsdpFields xsdtAddr)
  let rsdp ← putField rsdp (8, 9, [0])
  let rsdp ← putField rsdp (8, 9, [0 - byteSum (rsdp.take 20)])
  let rsdp ← putField rsdp (32, 33, [0])
  let rsdp ← putField rsdp (32, 33, [0 - byteSum (rsdp.take 36)])
  return ⟨rsdp, 0xE0000⟩

end Acpi

open Acpi in
/-- Add the tables to the configuration; `dsdt` is the compiled file the table of that name is read from. -/
def MachineConfig.injectAcpiTables (dsdt : Bytes) (config : MachineConfig) : Exec MachineConfig := do
  let dsdtBin : Binary := ⟨dsdt, 0xE0800⟩
  let fadtBin ← buildFadt dsdtBin.offset
  let madtBin ← buildMadt config.totalVcpus
  let xsdtBin ← buildXsdt [fadtBin.offset, madtBin.offset]
  let rsdpBin ← buildRsdp xsdtBin.offset
  return { config with binaries := config.binaries ++ [dsdtBin, fadtBin, madtBin, rsdpBin, xsdtBin] }

namespace Acpi

variable {table : Bytes}

/-! ### What the tables hold -/

theorem zeros_of_le {length : Nat} (h : length ≤ isizeMax) : zeros length = .ok (List.replicate length 0) := by
  unfold zeros
  rw [if_pos h]

/-- A table of the common form was built: its bytes sum to zero, and the fields are in it. -/
structure Built (length : Nat) (fields : List TableField) (table : Bytes) : Prop where
  length : table.length = length
  sum : byteSum table = 0
  read : ∀ field ∈ fields, field.Misses 9 1 → window table field.1 field.2.2.length = field.2.2

theorem built_of_ascending (length : Nat) {stop : Nat} {fields : List TableField} (hascending : Ascending 0 stop fields)
    (hstop : stop ≤ length) (hchecksum : (9, 10, [0]) ∈ fields ∨ (∀ field ∈ fields, field.Misses 9 1) ∧ 10 ≤ length) :
    ∃ mid table, putFields (List.replicate length 0) fields = .ok mid ∧
      putField mid (9, 10, [-byteSum mid]) = .ok table ∧ Built length fields table := by
  obtain ⟨mid, hmid, hwritten⟩ := putFields_of_ascending (List.replicate length 0) hascending (by simpa using hstop)
  have hzero : window mid 9 1 = [0] := by
    obtain hfield | ⟨hmiss, hlength⟩ := hchecksum
    · exact hwritten.read _ hfield
    · rw [hwritten.untouched 9 1 hmiss, window_replicate hlength]
      rfl
  obtain ⟨table, htable, hlength, hsum, hsame⟩ := putField_neg hzero
  refine ⟨mid, table, hmid, htable, by simp [hlength, hwritten.length], hsum, fun field hfield hmiss => ?_⟩
  obtain ⟨-, hbytes, -⟩ := hascending.mem hfield
  rw [TableField.Misses] at hmiss
  rw [hsame _ _ (by omega), hwritten.read field hfield]

theorem ascending_header (signature tableId : List Char) (hsignature : signature.length = 4) (htableId : tableId.length = 8)
    (length : UInt32) : Ascending 0 36 (header signature length tableId) := by
  simp [Ascending, header, ascii, hsignature, htableId]

theorem buildFadt_spec (dsdtAddr : UInt64) :
    ∃ fadt, buildFadt dsdtAddr = .ok ⟨fadt, 0xE0400⟩ ∧ fadt.length = 244 ∧ byteSum fadt = 0 ∧
      window fadt 4 4 = u32ToLe 244 := by
  have hascending : Ascending 36 148 (fadtFields dsdtAddr) := by simp [Ascending, fadtFields]
  obtain ⟨mid, fadt, hmid, hfadt, hbuilt⟩ := built_of_ascending 244
    ((ascending_header ['F', 'A', 'C', 'P'] ['F', 'V', 'M', '_', 'F', 'A', 'D', 'T'] rfl rfl 244).append hascending) (by omega) (.inl (by simp [header]))
  refine ⟨fadt, ?_, hbuilt.length, hbuilt.sum, ?_⟩
  · rw [buildFadt, zeros_of_le (by decide), Exec.ok_bind, hmid, Exec.ok_bind, hfadt]
    rfl
  · exact hbuilt.read (4, 8, u32ToLe 244) (by simp [header]) (.inr (by decide))

theorem madtLength_of_le {vcpuNum : UInt8} (h : vcpuNum.toNat ≤ 24) :
    ∃ length, madtLength vcpuNum = .ok length ∧ length.toNat = 56 + 8 * vcpuNum.toNat := by
  have hmul : mulU8 vcpuNum 8 = .ok (vcpuNum * 8) := if_pos (by simp; omega)
  have hmulNat : (vcpuNum * 8).toNat = 8 * vcpuNum.toNat := by
    rw [UInt8.toNat_mul, Nat.mod_eq_of_lt (by simp; omega)]
    simp [Nat.mul_comm]
  have hadd : addU8 44 (vcpuNum * 8) = .ok (44 + vcpuNum * 8) := if_pos (by simp [hmulNat]; omega)
  have haddNat : (44 + vcpuNum * 8).toNat = 44 + 8 * vcpuNum.toNat := by
    rw [UInt8.toNat_add, hmulNat]
    simp
    omega
  refine ⟨44 + vcpuNum * 8 + 12, ?_, ?_⟩
  · rw [madtLength, hmul, Exec.ok_bind, hadd, Exec.ok_bind]
    exact if_pos (by simp [haddNat]; omega)
  · rw [UInt8.toNat_add, haddNat]
    simp
    omega

theorem le_of_madtLength {vcpuNum length : UInt8} (h : madtLength vcpuNum = .ok length) : vcpuNum.toNat ≤ 24 := by
  obtain ⟨first, hfirst, hrest⟩ := Exec.bind_eq_ok.mp h
  obtain ⟨second, hsecond, hlast⟩ := Exec.bind_eq_ok.mp hrest
  unfold mulU8 at hfirst
  unfold addU8 at hsecond hlast
  split_ifs at hfirst hsecond hlast with hmul hadd hend
  cases hfirst
  cases hsecond
  have hmulNat : (vcpuNum * 8).toNat = vcpuNum.toNat * 8 := by
    rw [UInt8.toNat_mul, Nat.mod_eq_of_lt (by simpa using hmul)]
    rfl
  rw [UInt8.toNat_add, Nat.mod_eq_of_lt hadd, hmulNat] at hend
  simp at hend
  omega

theorem ascending_processors (count : Nat) :
    Ascending 44 (44 + 8 * count) ((List.range count).flatMap processor) := by
  induction count with
  | zero => simp [Ascending]
  | succ count ih =>
    rw [List.range_succ, List.flatMap_append]
    refine ih.append ?_
    simp [Ascending, processor]
    omega

theorem ascending_madtFields (length : UInt32) (vcpuNum : UInt8) :
    Ascending 0 (56 + 8 * vcpuNum.toNat) (madtFields length vcpuNum) := by
  have hheader := ascending_header ['A', 'P', 'I', 'C'] ['F', 'V', 'M', '_', 'M', 'A', 'D', 'T'] rfl rfl length
  have hlapic : Ascending 36 44 [(36, 40, u32ToLe 0xFEE00000), (40, 44, u32ToLe 1)] := by simp [Ascending]
  have hioapic : Ascending (44 + 8 * vcpuNum.toNat) (56 + 8 * vcpuNum.toNat) (ioapic (44 + 8 * vcpuNum.toNat)) := by
    simp [Ascending, ioapic]
    omega
  exact ((hheader.append hlapic).append (ascending_processors _)).append hioapic

/-- The bytes of the entry of a processor: its kind, its length, its number twice, and that it is enabled. -/
def processorEntry (vcpuId : Nat) : Bytes := [0, 8, UInt8.ofNat vcpuId, UInt8.ofNat vcpuId] ++ u32ToLe 1

def ioapicEntry : Bytes := [1, 12, 0, 0] ++ u32ToLe 0xFEC00000 ++ u32ToLe 0

theorem window_processor {vcpuId : Nat}
    (hread : ∀ field ∈ processor vcpuId, window table field.1 field.2.2.length = field.2.2) :
    window table (44 + 8 * vcpuId) 8 = processorEntry vcpuId := by
  simp only [processor, List.forall_mem_cons, List.length_singleton, length_u32ToLe] at hread
  obtain ⟨hkind, hlength, huid, hid, hflags, -⟩ := hread
  rw [show 8 = 1 + (1 + (1 + (1 + 4))) from rfl, window_add, window_add, window_add, window_add, hkind, hlength, huid,
    hid, hflags]
  rfl

theorem window_processors {count : Nat}
    (hread : ∀ vcpuId < count, ∀ field ∈ processor vcpuId, window table field.1 field.2.2.length = field.2.2) :
    window table 44 (8 * count) = (List.range count).flatMap processorEntry := by
  induction count with
  | zero => simp [window]
  | succ count ih =>
    rw [Nat.mul_succ, window_add, ih fun vcpuId h => hread vcpuId (by omega),
      window_processor (hread count (by omega)), List.range_succ, List.flatMap_append]
    simp

theorem window_ioapic {offset : Nat}
    (hread : ∀ field ∈ ioapic offset, window table field.1 field.2.2.length = field.2.2) :
    window table offset 12 = ioapicEntry := by
  simp only [ioapic, List.forall_mem_cons, List.length_singleton, length_u32ToLe] at hread
  obtain ⟨hkind, hlength, hid, hreserved, haddress, hbase, -⟩ := hread
  rw [show 12 = 1 + (1 + (1 + (1 + (4 + 4)))) from rfl, window_add, window_add, window_add, window_add, window_add,
    hkind, hlength, hid, hreserved, haddress, hbase]
  rfl

theorem buildMadt_spec {vcpuNum : UInt8} (h : vcpuNum.toNat ≤ 24) :
    ∃ madt, buildMadt vcpuNum = .ok ⟨madt, 0xE0500⟩ ∧ madt.length = 56 + 8 * vcpuNum.toNat ∧ byteSum madt = 0 ∧
      (u32FromLe (window madt 4 4)).toNat = madt.length ∧
      madt.drop 44 = (List.range vcpuNum.toNat).flatMap processorEntry ++ ioapicEntry := by
  obtain ⟨length, hlength, hlengthNat⟩ := madtLength_of_le h
  obtain ⟨mid, madt, hmid, hmadt, hbuilt⟩ := built_of_ascending length.toNat (ascending_madtFields length.toUInt32 vcpuNum)
    (by omega) (.inl (by simp [madtFields, header]))
  refine ⟨madt, ?_, hbuilt.length.trans hlengthNat, hbuilt.sum, ?_, ?_⟩
  · rw [buildMadt, hlength, Exec.ok_bind, zeros_of_le (by unfold isizeMax; omega), Exec.ok_bind, hmid, Exec.ok_bind, hmadt]
    rfl
  · have hread : window madt 4 4 = u32ToLe length.toUInt32 :=
      hbuilt.read (4, 8, u32ToLe length.toUInt32) (by simp [madtFields, header]) (.inr (by simp))
    rw [hread, u32FromLe_toLe, hbuilt.length]
    exact UInt8.toNat_toUInt32 length
  · have hentries : madt.drop 44 = window madt 44 (8 * vcpuNum.toNat + 12) := by
      rw [window, List.take_of_length_le]
      rw [List.length_drop, hbuilt.length]
      omega
    have hread (field : TableField) (hfield : field ∈ madtFields length.toUInt32 vcpuNum) (hstart : 44 ≤ field.1) :
        window madt field.1 field.2.2.length = field.2.2 := hbuilt.read field hfield (.inl (by omega))
    rw [hentries, window_add]
    congr 1
    · refine window_processors fun vcpuId hid field hfield => hread field ?_ ?_
      · simp only [madtFields, List.mem_append, List.mem_flatMap, List.mem_range]
        exact .inl (.inr ⟨vcpuId, hid, hfield⟩)
      · exact ((ascending_processors vcpuNum.toNat).mem (List.mem_flatMap.mpr ⟨vcpuId, List.mem_range.mpr hid, hfield⟩)).1
    · refine window_ioapic fun field hfield => hread field (List.mem_append_right _ hfield) ?_
      simp only [ioapic, List.mem_cons, List.not_mem_nil, or_false] at hfield
      rcases hfield with rfl | rfl | rfl | rfl | rfl | rfl <;> dsimp only <;> omega

theorem ascending_entries (tableAddrs : List UInt64) (first : Nat) :
    Ascending (36 + first * 8) (36 + (first + tableAddrs.length) * 8) ((tableAddrs.zipIdx first).map tableEntry) := by
  induction tableAddrs generalizing first with
  | nil => exact Nat.le_refl _
  | cons addr tableAddrs ih =>
    refine ⟨Nat.le_refl _, by simp [tableEntry], ?_⟩
    have hrest := ih (first + 1)
    rwa [show 36 + (first + 1) * 8 = 36 + first * 8 + 8 by omega,
      show first + 1 + tableAddrs.length = first + (addr :: tableAddrs).length by simp; omega] at hrest

theorem ascending_xsdtFields (totalLen : Nat) (tableAddrs : List UInt64) :
    Ascending 0 (36 + tableAddrs.length * 8) (xsdtFields totalLen tableAddrs) := by
  have hentries := ascending_entries tableAddrs 0
  rw [Nat.zero_add] at hentries
  exact @Ascending.append 0 36 _ _ _ (by simp [Ascending, ascii]) hentries

theorem buildXsdt_spec {tableAddrs : List UInt64} (h : 36 + tableAddrs.length * 8 ≤ isizeMax) :
    ∃ xsdt, buildXsdt tableAddrs = .ok ⟨xsdt, 0xE00E0⟩ ∧ xsdt.length = 36 + tableAddrs.length * 8 ∧ byteSum xsdt = 0 ∧
      (u32FromLe (window xsdt 4 4)).toNat = (36 + tableAddrs.length * 8) % 2 ^ 32 ∧
      (List.range tableAddrs.length).map (fun i => u64FromLe (window xsdt (36 + i * 8) 8)) = tableAddrs := by
  have hascending := ascending_xsdtFields (36 + tableAddrs.length * 8) tableAddrs
  have hchecksum (field : TableField) (hfield : field ∈ xsdtFields (36 + tableAddrs.length * 8) tableAddrs) :
      field.Misses 9 1 := by
    obtain hfixed | hentry := List.mem_append.mp hfield
    · simp only [List.mem_cons, List.not_mem_nil, or_false] at hfixed
      rcases hfixed with rfl | rfl | rfl | rfl | rfl | rfl | rfl | rfl <;> simp [TableField.Misses]
    · exact .inl (Nat.le_trans (by omega) ((ascending_entries tableAddrs 0).mem hentry).1)
  obtain ⟨mid, xsdt, hmid, hxsdt, hbuilt⟩ := built_of_ascending (36 + tableAddrs.length * 8) hascending (Nat.le_refl _)
    (.inr ⟨hchecksum, by omega⟩)
  refine ⟨xsdt, ?_, hbuilt.length, hbuilt.sum, ?_, ?_⟩
  · have htotal : usize (36 + tableAddrs.length * 8) = .ok (36 + tableAddrs.length * 8) :=
      if_pos (by unfold isizeMax at h; omega)
    rw [buildXsdt, htotal, Exec.ok_bind, zeros_of_le h, Exec.ok_bind, hmid, Exec.ok_bind, hxsdt]
    rfl
  · have hmem : (4, 8, u32ToLe (UInt32.ofNat (36 + tableAddrs.length * 8))) ∈
        xsdtFields (36 + tableAddrs.length * 8) tableAddrs := by simp [xsdtFields]
    have hread := hbuilt.read _ hmem (hchecksum _ hmem)
    simp only [length_u32ToLe] at hread
    rw [hread, u32FromLe_toLe]
    exact UInt32.toNat_ofNat'
  · apply List.ext_getElem
    · simp
    · intro i _ hi
      have hmem : tableEntry (tableAddrs[i], i) ∈ xsdtFields (36 + tableAddrs.length * 8) tableAddrs := by
        refine List.mem_append_right _ (List.mem_map_of_mem ?_)
        exact List.mem_zipIdx_iff_getElem?.mpr (List.getElem?_eq_getElem hi)
      have hread := hbuilt.read _ hmem (hchecksum _ hmem)
      simp only [tableEntry, length_u64ToLe] at hread
      rw [List.getElem_map, List.getElem_range, hread, u64FromLe_toLe]

theorem le_of_buildXsdt {tableAddrs : List UInt64} {xsdt : Binary} (h : buildXsdt tableAddrs = .ok xsdt) :
    36 + tableAddrs.length * 8 ≤ isizeMax := by
  obtain ⟨totalLen, htotal, hrest⟩ := Exec.bind_eq_ok.mp h
  obtain ⟨table, htable, -⟩ := Exec.bind_eq_ok.mp hrest
  unfold usize at htotal
  unfold zeros at htable
  split_ifs at htotal htable with hfits hcapacity
  cases htotal
  exact hcapacity

theorem take_splice {at' count : Nat} (b : UInt8) (hat : at' < count) (hcount : count ≤ table.length) :
    (splice table at' [b]).take count = splice (table.take count) at' [b] := by
  have hlength : (table.take count).length = count := List.length_take_of_le hcount
  apply List.ext_getElem?
  intro i
  rw [getElem?_splice (by simp [hlength]; omega), List.getElem?_take, List.getElem?_take,
    getElem?_splice (by simp; omega), List.length_singleton]
  split_ifs <;> first | rfl | omega

theorem putField_sub {at' count : Nat} (hat : at' < count) (hcount : count ≤ table.length) :
    ∃ mid out, putField table (at', at' + 1, [0]) = .ok mid ∧
      putField mid (at', at' + 1, [0 - byteSum (mid.take count)]) = .ok out ∧ out.length = table.length ∧
      byteSum (out.take count) = 0 ∧
      ∀ start length, start + length ≤ at' ∨ at' + 1 ≤ start → window out start length = window table start length := by
  have hin : at' + 1 ≤ table.length := by omega
  have hlength : (splice table at' [0]).length = table.length := length_splice hin
  have hin' : at' + 1 ≤ (splice table at' [0]).length := by omega
  refine ⟨splice table at' [0], _, putField_of_fits rfl hin, putField_of_fits rfl hin', ?_, ?_, fun start length hmiss => ?_⟩
  · exact (length_splice hin').trans hlength
  · have hzero : window ((splice table at' [0]).take count) at' 1 = [0] := by
      rw [take_splice 0 hat hcount]
      exact window_splice_self (by simp [List.length_take_of_le hcount]; omega)
    rw [take_splice _ hat (by omega), byteSum_splice hzero, UInt8.zero_sub, UInt8.add_right_neg]
  · rw [window_splice_of_disjoint hin' (by simpa using hmiss), window_splice_of_disjoint hin (by simpa using hmiss)]

theorem buildRsdp_spec (xsdtAddr : UInt64) :
    ∃ rsdp, buildRsdp xsdtAddr = .ok ⟨rsdp, 0xE0000⟩ ∧ rsdp.length = 36 ∧ byteSum (rsdp.take 20) = 0 ∧
      byteSum rsdp = 0 ∧ window rsdp 20 4 = u32ToLe 36 := by
  have hascending : Ascending 0 32 (rsdpFields xsdtAddr) := by simp [Ascending, rsdpFields, ascii]
  obtain ⟨table, htable, hwritten⟩ := putFields_of_ascending (List.replicate 36 0) hascending (by simp)
  have htableLength : table.length = 36 := by simp [hwritten.length]
  obtain ⟨first, second, hfirst, hsecond, hsecondLength, hsum20, hsame20⟩ :=
    @putField_sub table 8 20 (by omega) (by omega)
  obtain ⟨third, rsdp, hthird, hrsdp, hlength, hsum36, hsame36⟩ :=
    @putField_sub second 32 36 (by omega) (by omega)
  have hlength36 : rsdp.length = 36 := hlength.trans (hsecondLength.trans htableLength)
  refine ⟨rsdp, ?_, hlength36, ?_, ?_, ?_⟩
  · rw [buildRsdp, zeros_of_le (by decide), Exec.ok_bind, htable, Exec.ok_bind, hfirst, Exec.ok_bind, hsecond,
      Exec.ok_bind, hthird, Exec.ok_bind, hrsdp]
    rfl
  · -- The second checksum lies behind the first twenty bytes.
    rw [← hsum20]
    exact congrArg byteSum (hsame36 0 20 (.inl (by omega)))
  · rwa [List.take_of_length_le (by omega)] at hsum36
  · rw [hsame36 20 4 (.inl (by omega)), hsame20 20 4 (.inr (by omega))]
    exact hwritten.read (20, 24, u32ToLe 36) (by simp [rsdpFields])

/-! ### The tables as a whole -/

/-- The bytes sum to zero, and the length field is the number of bytes. -/
def Checked (table : Bytes) : Prop := byteSum table = 0 ∧ (u32FromLe (window table 4 4)).toNat = table.length

def placed (binary : Binary) : Nat × Nat := (binary.offset.toNat, binary.offset.toNat + binary.data.length)

structure Sound (vcpuNum : UInt8) (tableAddrs : List UInt64) (dsdtAddr xsdtAddr : UInt64) : Prop where
  fadt : ∃ fadt, buildFadt dsdtAddr = .ok fadt ∧ Checked fadt.data
  madt : ∃ madt, buildMadt vcpuNum = .ok madt ∧ Checked madt.data ∧
    madt.data.drop 44 = (List.range vcpuNum.toNat).flatMap processorEntry ++ ioapicEntry
  xsdt : ∃ xsdt, buildXsdt tableAddrs = .ok xsdt ∧ Checked xsdt.data ∧
    (List.range tableAddrs.length).map (fun i => u64FromLe (window xsdt.data (36 + i * 8) 8)) = tableAddrs
  rsdp : ∃ rsdp, buildRsdp xsdtAddr = .ok rsdp ∧ byteSum (rsdp.data.take 20) = 0 ∧ byteSum rsdp.data = 0 ∧
    rsdp.data.length = 36 ∧ (u32FromLe (window rsdp.data 20 4)).toNat = rsdp.data.length
  apart : ∀ (dsdt : Bytes) (config : MachineConfig), config.totalVcpus = vcpuNum →
    ∃ dsdtBin fadtBin madtBin rsdpBin xsdtBin, config.injectAcpiTables dsdt = .ok { config with
        binaries := config.binaries ++ [dsdtBin, fadtBin, madtBin, rsdpBin, xsdtBin] } ∧
      [placed fadtBin, placed madtBin, placed rsdpBin, placed xsdtBin,
        (dsdtBin.offset.toNat, dsdtBin.offset.toNat + 1)].Pairwise fun a b => a.2 ≤ b.1 ∨ b.2 ≤ a.1

/-- **ACPI tables.** The tables are as they are to be exactly for at most 24 processors (the length of the MADT
is computed in eight bits) and for a list of tables whose XSDT is shorter than 4 GiB (its length field has 32). -/
theorem acpi_tables_sound_iff (vcpuNum : UInt8) (tableAddrs : List UInt64) (dsdtAddr xsdtAddr : UInt64) :
    Sound vcpuNum tableAddrs dsdtAddr xsdtAddr ↔ vcpuNum.toNat ≤ 24 ∧ 36 + tableAddrs.length * 8 < 2 ^ 32 := by
  constructor
  · rintro ⟨-, ⟨madt, hmadt, -⟩, ⟨xsdt, hxsdt, ⟨-, hfield⟩, -⟩, -, -⟩
    obtain ⟨length, hlength, -⟩ := Exec.bind_eq_ok.mp hmadt
    refine ⟨le_of_madtLength hlength, ?_⟩
    obtain ⟨table, htable, htableLength, -, hlengthField, -⟩ := buildXsdt_spec (le_of_buildXsdt hxsdt)
    obtain rfl := Except.ok.inj (hxsdt.symm.trans htable)
    dsimp only at hfield
    rw [hlengthField, htableLength] at hfield
    exact hfield ▸ Nat.mod_lt _ (by decide)
  · rintro ⟨hvcpus, hentries⟩
    obtain ⟨fadt, hfadt, hfadtLength, hfadtSum, hfadtField⟩ := buildFadt_spec dsdtAddr
    obtain ⟨madt, hmadt, hmadtLength, hmadtSum, hmadtField, hmadtEntries⟩ := buildMadt_spec hvcpus
    obtain ⟨xsdt, hxsdt, hxsdtLength, hxsdtSum, hxsdtField, hxsdtEntries⟩ :=
      @buildXsdt_spec tableAddrs (by unfold isizeMax; omega)
    obtain ⟨rsdp, hrsdp, hrsdpLength, hrsdpSum20, hrsdpSum, hrsdpField⟩ := buildRsdp_spec xsdtAddr
    refine ⟨⟨_, hfadt, hfadtSum, ?_⟩, ⟨_, hmadt, ⟨hmadtSum, hmadtField⟩, hmadtEntries⟩,
      ⟨_, hxsdt, ⟨hxsdtSum, ?_⟩, hxsdtEntries⟩, ⟨_, hrsdp, hrsdpSum20, hrsdpSum, hrsdpLength, ?_⟩, ?_⟩
    · rw [hfadtField, u32FromLe_toLe, hfadtLength]
      rfl
    · rw [hxsdtField, hxsdtLength, Nat.mod_eq_of_lt hentries]
    · rw [hrsdpField, u32FromLe_toLe, hrsdpLength]
      rfl
    · intro dsdt config hconfig
      obtain ⟨fadt, hfadt, hfadtLength, -, -⟩ := buildFadt_spec 0xE0800
      obtain ⟨xsdt, hxsdt, hxsdtLength, -, -, -⟩ := @buildXsdt_spec [0xE0400, 0xE0500] (by decide)
      obtain ⟨rsdp, hrsdp, hrsdpLength, -, -, -⟩ := buildRsdp_spec 0xE00E0
      refine ⟨⟨dsdt, 0xE0800⟩, ⟨fadt, 0xE0400⟩, ⟨madt, 0xE0500⟩, ⟨rsdp, 0xE0000⟩, ⟨xsdt, 0xE00E0⟩, ?_, ?_⟩
      · rw [MachineConfig.injectAcpiTables, hfadt, Exec.ok_bind, hconfig, hmadt, Exec.ok_bind, hxsdt, Exec.ok_bind,
          hrsdp]
        rfl
      · simp [placed, hfadtLength, hmadtLength, hrsdpLength, hxsdtLength]
        omega

/-- Twenty-five processors are too many: the length of the MADT overflows. -/
theorem madt_of_25_processors_overflows :
    buildMadt 25 = .error (.panic .overflow) ∧ ¬Sound 25 [0xE0400, 0xE0500] 0xE0800 0xE00E0 := by
  have hoverflow : buildMadt 25 = .error (.panic .overflow) := by decide
  refine ⟨hoverflow, ?_⟩
  rintro ⟨-, ⟨madt, hmadt, -⟩, -, -, -⟩
  rw [hoverflow] at hmadt
  cases hmadt

end Acpi

end FerrumVM
