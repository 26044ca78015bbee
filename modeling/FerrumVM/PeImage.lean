import FerrumVM.BaseCopy

/-! `format_pe` of `disk/format_PE.c`, as far as it maps the image: the headers and then the raw data of one section
after the other are copied from the file buffer to the load address, which lies 2 MiB above it, and the rest of each
section is set to zero. The headers are read from the file buffer all the while, also when it has been written over. -/

namespace FerrumVM

open Base BlockWrite

namespace Pe

def fileBufAddr : UInt64 := 0x1000000
def loadBase : UInt64 := 0x1200000

def imageDosSignature : UInt16 := 0x5A4D
def imageNtSignature : UInt32 := 0x00004550
def imageSubsystemEfiApplication : UInt16 := 10

/-- `exe + dos->e_lfanew`. -/
def ntHeaders (m : Memory) (exe : UInt64) : UInt64 := exe + (m.u32 (exe + 60)).toUInt64

def numberOfSections (m : Memory) (nt : UInt64) : UInt16 := m.u16 (nt + 6)
def sizeOfOptionalHeader (m : Memory) (nt : UInt64) : UInt16 := m.u16 (nt + 20)
def optionalMagic (m : Memory) (nt : UInt64) : UInt16 := m.u16 (nt + 24)
def sizeOfImage (m : Memory) (nt : UInt64) : UInt32 := m.u32 (nt + 80)
def sizeOfHeaders (m : Memory) (nt : UInt64) : UInt32 := m.u32 (nt + 84)
def subsystem (m : Memory) (nt : UInt64) : UInt16 := m.u16 (nt + 92)

def sectionTable (m : Memory) (nt : UInt64) : UInt64 := nt + 24 + (sizeOfOptionalHeader m nt).toUInt64

/-- The fields of `IMAGE_SECTION_HEADER` that are used. -/
structure SectionHeader where
  virtualSize : UInt32
  virtualAddress : UInt32
  sizeOfRawData : UInt32
  pointerToRawData : UInt32
  deriving DecidableEq, Repr

/-- `sections[i]`. -/
def sectionAt (m : Memory) (sections : UInt64) (i : Nat) : SectionHeader :=
  let header := sections + UInt64.ofNat (40 * i)
  ⟨m.u32 (header + 8), m.u32 (header + 12), m.u32 (header + 16), m.u32 (header + 20)⟩

/-- The places of a section in the image and in the file. -/
def SectionHeader.dst (header : SectionHeader) : UInt64 := loadBase + header.virtualAddress.toUInt64
def SectionHeader.src (header : SectionHeader) (exe : UInt64) : UInt64 := exe + header.pointerToRawData.toUInt64

def copySection (exe : UInt64) (header : SectionHeader) (m : Memory) : Memory :=
  let rawSize := header.sizeOfRawData
  let virtSize := header.virtualSize
  let m := if 0 < rawSize then m.memcpy header.dst (header.src exe) rawSize.toNat else m
  if rawSize < virtSize then m.memset (header.dst + rawSize.toUInt64) 0 (virtSize - rawSize).toNat else m

/-- The loop, from section `i` on. Its counter has 16 bits, so it makes fewer rounds than there is fuel. -/
def sectionLoop (exe nt sections : UInt64) : (fuel i : Nat) → Memory → Memory
  | 0, _, m => m
  | fuel + 1, i, m =>
    if i < (numberOfSections m nt).toNat then
      sectionLoop exe nt sections fuel (i + 1) (copySection exe (sectionAt m sections i) m)
    else m

/-- The memory when the sections have been copied; `none` when the file is refused. -/
def formatPe (m : Memory) (exe : UInt64) : Option Memory :=
  if m.u16 exe ≠ imageDosSignature then none
  else
    let nt := ntHeaders m exe
    if m.u32 nt ≠ imageNtSignature then none
    else if optionalMagic m nt ≠ 0x20B then none
    else if subsystem m nt ≠ imageSubsystemEfiApplication then none
    else
      let m := m.memcpy loadBase exe (sizeOfHeaders m nt).toNat
      some (sectionLoop exe nt (sectionTable m nt) 65536 0 m)

/-- The file is an EFI application in the format PE32+. -/
structure Accepted (m : Memory) (exe : UInt64) : Prop where
  dos : m.u16 exe = imageDosSignature
  signature : m.u32 (ntHeaders m exe) = imageNtSignature
  magic : optionalMagic m (ntHeaders m exe) = 0x20B
  efi : subsystem m (ntHeaders m exe) = imageSubsystemEfiApplication

/-! ### The copies as a log -/

def sectionBlocks (exe : UInt64) (header : SectionHeader) : List BlockWrite :=
  (if header.sizeOfRawData < header.virtualSize then
    [.zero (header.dst + header.sizeOfRawData.toUInt64) (header.virtualSize - header.sizeOfRawData).toNat] else []) ++
  (if 0 < header.sizeOfRawData then [.copy header.dst (header.src exe) header.sizeOfRawData.toNat] else [])

/-- What the loop writes: each header is read where the blocks before it have left it. -/
def loopBlocks (m : Memory) (exe nt sections : UInt64) : (fuel i : Nat) → List BlockWrite → List BlockWrite
  | 0, _, log => log
  | fuel + 1, i, log =>
    if i < (numberOfSections (BlockWrite.after m log) nt).toNat then
      loopBlocks m exe nt sections fuel (i + 1)
        (sectionBlocks exe (sectionAt (BlockWrite.after m log) sections i) ++ log)
    else log

def headerBlock (m : Memory) (exe : UInt64) : BlockWrite := .copy loadBase exe (sizeOfHeaders m (ntHeaders m exe)).toNat

def imageBlocks (m : Memory) (exe : UInt64) : List BlockWrite :=
  loopBlocks m exe (ntHeaders m exe) (sectionTable (BlockWrite.after m [headerBlock m exe]) (ntHeaders m exe)) 65536 0
    [headerBlock m exe]

section Log

variable {m m' : Memory} {exe nt sections : UInt64} {header : SectionHeader} {log : List BlockWrite}

theorem copySection_after : copySection exe header (after m log) = after m (sectionBlocks exe header ++ log) := by
  have hraw : header.sizeOfRawData.toNat ≤ 2 ^ 64 := by
    have := header.sizeOfRawData.toNat_lt
    omega
  have hrest : (header.virtualSize - header.sizeOfRawData).toNat ≤ 2 ^ 64 := by
    have := (header.virtualSize - header.sizeOfRawData).toNat_lt
    omega
  unfold copySection sectionBlocks
  by_cases hcopy : 0 < header.sizeOfRawData
  · by_cases hzero : header.sizeOfRawData < header.virtualSize
    · simp only [if_pos hcopy, if_pos hzero, memcpy_after hraw, memset_after hrest]
      rfl
    · simp only [if_pos hcopy, if_neg hzero, memcpy_after hraw]
      rfl
  · by_cases hzero : header.sizeOfRawData < header.virtualSize
    · simp only [if_neg hcopy, if_pos hzero, memset_after hrest]
      rfl
    · simp only [if_neg hcopy, if_neg hzero]
      rfl

theorem sectionLoop_after (fuel i : Nat) : sectionLoop exe nt sections fuel i (after m log) =
      after m (loopBlocks m exe nt sections fuel i log) := by
  induction fuel generalizing i log with
  | zero => rfl
  | succ fuel ih =>
    unfold sectionLoop loopBlocks
    by_cases hmore : i < (numberOfSections (after m log) nt).toNat
    · rw [if_pos hmore, if_pos hmore, copySection_after, ih]
    · rw [if_neg hmore, if_neg hmore]

theorem formatPe_of_accepted (h : Accepted m exe) : formatPe m exe = some (after m (imageBlocks m exe)) := by
  have hheaders : (sizeOfHeaders m (ntHeaders m exe)).toNat ≤ 2 ^ 64 := by
    have := (sizeOfHeaders m (ntHeaders m exe)).toNat_lt
    omega
  have hfirst : (after m []).memcpy loadBase exe (sizeOfHeaders m (ntHeaders m exe)).toNat =
      after m [headerBlock m exe] := memcpy_after hheaders
  unfold formatPe
  simp only [h.dos, h.signature, h.magic, h.efi, ne_eq, not_true, if_false]
  exact congrArg some ((congrArg (fun m' => sectionLoop exe _ (sectionTable m' _) _ _ m') hfirst).trans
    (sectionLoop_after _ _))

theorem accepted_of_formatPe (h : formatPe m exe = some m') : Accepted m exe := by
  unfold formatPe at h
  by_cases hdos : m.u16 exe = imageDosSignature
  · rw [if_neg (not_not.mpr hdos)] at h
    by_cases hsignature : m.u32 (ntHeaders m exe) = imageNtSignature
    · rw [if_neg (not_not.mpr hsignature)] at h
      by_cases hmagic : optionalMagic m (ntHeaders m exe) = 0x20B
      · rw [if_neg (not_not.mpr hmagic)] at h
        by_cases hefi : subsystem m (ntHeaders m exe) = imageSubsystemEfiApplication
        · exact ⟨hdos, hsignature, hmagic, hefi⟩
        · rw [if_pos hefi] at h
          cases h
      · rw [if_pos hmagic] at h
        cases h
    · rw [if_pos hsignature] at h
      cases h
  · rw [if_pos hdos] at h
    cases h

end Log

/-! ### What the image should be -/

def fileSection (m : Memory) (exe : UInt64) (i : Nat) : SectionHeader :=
  sectionAt m (sectionTable m (ntHeaders m exe)) i

def SectionHeader.length (header : SectionHeader) : Nat := max header.sizeOfRawData.toNat header.virtualSize.toNat

/-- The byte of a section at an offset: its raw data, and zeros behind them. -/
def SectionHeader.byte (header : SectionHeader) (m : Memory) (exe : UInt64) (j : Nat) : UInt8 :=
  if j < header.sizeOfRawData.toNat then m (header.src exe + UInt64.ofNat j) else 0

/-- Every section of the file in `m` is in `m'` where it should be. -/
def SectionsMapped (m m' : Memory) (exe : UInt64) : Prop :=
  ∀ i < (numberOfSections m (ntHeaders m exe)).toNat, ∀ j < (fileSection m exe i).length,
    m' ((fileSection m exe i).dst + UInt64.ofNat j) = (fileSection m exe i).byte m exe j

/-- The trace of a place ends where the first memory has this byte. -/
def Brings (m : Memory) (log : List BlockWrite) (place : UInt64) (byte : UInt8) : Prop :=
  match BlockWrite.trace log place with
  | some a => m a = byte
  | none => byte = 0

theorem after_eq_iff {m : Memory} {log : List BlockWrite} {place : UInt64} {byte : UInt8} :
    after m log place = byte ↔ Brings m log place byte := by
  unfold after Brings
  cases trace log place with
  | some a => rfl
  | none => exact eq_comm

instance (m : Memory) (log : List BlockWrite) (place : UInt64) (byte : UInt8) : Decidable (Brings m log place byte) :=
  decidable_of_iff (BlockWrite.after m log place = byte) after_eq_iff

/-- A file of this size with its headers and raw data in it, whose sections lie apart from each other and behind the
headers, in the image. -/
structure WellFormed (m : Memory) (exe : UInt64) (size : Nat) : Prop where
  accepted : Accepted m exe
  nt_end : (m.u32 (exe + 60)).toNat + 264 ≤ size
  table_end : (m.u32 (exe + 60)).toNat + 24 + (sizeOfOptionalHeader m (ntHeaders m exe)).toNat +
    40 * (numberOfSections m (ntHeaders m exe)).toNat ≤ (sizeOfHeaders m (ntHeaders m exe)).toNat
  headers_end : (sizeOfHeaders m (ntHeaders m exe)).toNat ≤ size
  raw_end : ∀ i < (numberOfSections m (ntHeaders m exe)).toNat,
    (fileSection m exe i).pointerToRawData.toNat + (fileSection m exe i).sizeOfRawData.toNat ≤ size
  apart : ∀ i < (numberOfSections m (ntHeaders m exe)).toNat, ∀ j < (numberOfSections m (ntHeaders m exe)).toNat, i ≠ j →
    (fileSection m exe i).virtualAddress.toNat + (fileSection m exe i).length ≤ (fileSection m exe j).virtualAddress.toNat ∨
    (fileSection m exe j).virtualAddress.toNat + (fileSection m exe j).length ≤ (fileSection m exe i).virtualAddress.toNat
  behind_headers : ∀ i < (numberOfSections m (ntHeaders m exe)).toNat,
    (sizeOfHeaders m (ntHeaders m exe)).toNat ≤ (fileSection m exe i).virtualAddress.toNat
  in_image : ∀ i < (numberOfSections m (ntHeaders m exe)).toNat,
    (fileSection m exe i).virtualAddress.toNat + (fileSection m exe i).length ≤ (sizeOfImage m (ntHeaders m exe)).toNat

/-- A file with one section of one byte, whose raw data is at an offset of the file. -/
def oneSection (pointerToRawData : UInt32) : Memory :=
  let headers := fileBufAddr + 64
  let table := headers + 24 + 240
  let m : Memory := fun _ => 0
  let m := (m.store fileBufAddr (u16ToLe imageDosSignature)).store (fileBufAddr + 60) (u32ToLe 64)
  let m := (m.store headers (u32ToLe imageNtSignature)).store (headers + 6) (u16ToLe 1)
  let m := (m.store (headers + 20) (u16ToLe 240)).store (headers + 24) (u16ToLe 0x20B)
  let m := (m.store (headers + 80) (u32ToLe 0x2000)).store (headers + 84) (u32ToLe 368)
  let m := (m.store (headers + 92) (u16ToLe imageSubsystemEfiApplication)).store (table + 8) (u32ToLe 2)
  let m := (m.store (table + 12) (u32ToLe 0x1000)).store (table + 16) (u32ToLe 1)
  let m := m.store (table + 20) (u32ToLe pointerToRawData)
  m.store (fileBufAddr + pointerToRawData.toUInt64) [0x90]

theorem accepted_oneSection_low : Accepted (oneSection 0x200) fileBufAddr :=
  ⟨by decide, by decide, by decide, by decide⟩

theorem wellFormed_oneSection_high : WellFormed (oneSection 0x200000) fileBufAddr 0x200001 where
  accepted := ⟨by decide, by decide, by decide, by decide⟩
  nt_end := by decide
  table_end := by decide
  headers_end := by decide
  raw_end := by decide
  apart := by decide
  behind_headers := by decide
  in_image := by decide

end Pe

end FerrumVM
