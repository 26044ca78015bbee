import FerrumVM.BaseMemory
import FerrumVM.BaseProgram

/-! How the firmware finds and loads the boot file: the partition scan of `disk/esp.c`, the FAT32 reader of
`disk/fat32.c` and `load_efi_application` of `disk/boot.c`. What the functions print is left out. A status other than
`SUCCSESS` is an error of the result. The disk is reached through a reader that may fail at any time. -/

namespace FerrumVM

open Base Program

/-- The statuses of `errors.h` that are returned, other than `SUCCSESS`. -/
inductive BootError where
  | invalidBootSigniture
  | corruptGpt
  | ioError
  | notGpt
  | invalidRevsion
  | invalidFatSectorSize
  | invalidFatClusterSize
  | endOfDir
  | notADirectory
  | notAFile
  deriving DecidableEq, Repr

structure SectorRange where
  firstSector : UInt64
  lastSector : UInt64
  deriving DecidableEq, Repr

namespace Boot

structure DiskRead where
  sector : UInt64
  length : Nat
  deriving DecidableEq, Repr

/-- A disk and its driver. Whether a read succeeds may depend on all the reads before it. -/
structure Disk where
  image : ByteMap
  accepts : (log : List DiskRead) → DiskRead → Bool

/-- A program that reads the disk, with the reads it has made. -/
abbrev DiskProgram := Program (List DiskRead)

/-- `virtio_blk_read`: the bytes that are put in the buffer, or nothing if the status is not zero. -/
def virtioBlkRead (disk : Disk) (sector : UInt64) (length : Nat) : DiskProgram (Option ByteMap) := fun log =>
  let read : DiskRead := ⟨sector, length⟩
  .ok (if disk.accepts log read then some (disk.image.shift (sector.toNat * 512)) else none) (log ++ [read])

/-! ### The partition table -/

/-- The variables that the scan sets: the range, and the fields of `gDiskPath.Hd`. -/
structure Partition where
  range : SectorRange
  partitionNumber : UInt32
  partitionStart : UInt64
  partitionSize : UInt64
  signature : Bytes
  deriving DecidableEq, Repr

def espGuid : Bytes :=
  [0x28, 0x73, 0x2A, 0xC1, 0x1F, 0xF8, 0xD2, 0x11, 0xBA, 0x4B, 0x00, 0xA0, 0xC9, 0x3E, 0xC9, 0x3B]

/-- `"EFI PART"`. -/
def gptSignature : Bytes := [0x45, 0x46, 0x49, 0x20, 0x50, 0x41, 0x52, 0x54]

def partitionAt (entries : ByteMap) (offset i : Nat) : Partition :=
  let firstLba := entries.u64 (offset + 32)
  let lastLba := entries.u64 (offset + 40)
  { range := ⟨firstLba, lastLba⟩
    partitionNumber := UInt32.ofNat i + 1
    partitionStart := firstLba
    partitionSize := lastLba - firstLba + 1 - 0x2000
    signature := entries.bytes (offset + 16) 16 }

/-- The loop over the entries, from entry `i` on. Their offsets are computed in 32 bits. -/
def scanEntries (entries : ByteMap) (entrySize : UInt32) : (remaining i : Nat) → Partition → Partition
  | 0, _, found => found
  | remaining + 1, i, found =>
    let offset := (UInt32.ofNat i * entrySize).toNat
    let typeGuid := entries.bytes offset 16
    if typeGuid.all (· == 0) then scanEntries entries entrySize remaining (i + 1) found
    else if memcmp typeGuid espGuid = 0 then partitionAt entries offset i
    else scanEntries entries entrySize remaining (i + 1) found

/-- The stack below the frame: what it holds, and how many bytes of it are not used for something else. -/
structure Stack where
  bytes : ByteMap
  room : Nat

/-- `found` is what the variables hold before. A table for which the stack has no room is put over other memory, and
nothing can be said then. -/
def loadPartTable (disk : Disk) (stack : Stack) (found : Partition) : DiskProgram (Except BootError Partition) := do
  match ← virtioBlkRead disk 0 512 with
  | none => return .error .ioError
  | some sector =>
    if sector.u16 0x1FE ≠ 0xAA55 then return .error .invalidBootSigniture
    else if sector (0x1BE + 4) ≠ 0xEE then return .error .notGpt
    else
      match ← virtioBlkRead disk 1 512 with
      | none => return .error .ioError
      | some sector2 =>
        if memcmp (sector2.bytes 0 8) gptSignature ≠ 0 then return .error .corruptGpt
        else if sector2.u32 8 ≠ 0x00010000 then return .error .invalidRevsion
        else
          let tableLba := sector2.u64 72
          let entryCount := sector2.u32 80
          let entrySize := sector2.u32 84
          let tableBytes := (entryCount * entrySize).toNat
          let sectors := (tableBytes + 511) / 512
          -- The length of a read has 32 bits.
          let length := sectors * 512 % 2 ^ 32
          if stack.room < sectors * 512 then throw (.panic (.message "part_entries_buf"))
          else
            match ← virtioBlkRead disk tableLba length with
            | none => return .error .ioError
            | some table =>
              return .ok (scanEntries (stack.bytes.put 0 length table) entrySize entryCount.toNat 0 found)

/-! ### The file system -/

structure Fat32Bpb where
  bytesPerSector : UInt16
  sectorsPerCluster : UInt8
  reservedSectors : UInt16
  numFats : UInt8
  fatSize : UInt32
  rootCluster : UInt32
  deriving DecidableEq, Repr

def Fat32Bpb.ofSector (bpb : ByteMap) : Fat32Bpb where
  bytesPerSector := bpb.u16 11
  sectorsPerCluster := bpb 13
  reservedSectors := bpb.u16 14
  numFats := bpb 16
  fatSize := bpb.u32 36
  rootCluster := bpb.u32 44

structure Fat32Handle where
  fat : Fat32Bpb
  range : SectorRange
  dataStartLba : UInt32
  cluster : UInt32
  clusterSize : UInt32
  clusterBuf : ByteMap
  currentCluster : UInt32
  entryIndex : UInt32

structure DirEntry where
  name : Bytes
  attr : UInt8
  firstClusterHigh : UInt16
  firstClusterLow : UInt16
  fileSize : UInt32
  deriving DecidableEq, Repr

namespace DirEntry

def ofRecord (b : ByteMap) (offset : Nat) : DirEntry where
  name := b.bytes offset 11
  attr := b (offset + 11)
  firstClusterHigh := b.u16 (offset + 20)
  firstClusterLow := b.u16 (offset + 26)
  fileSize := b.u32 (offset + 28)

def isDirectory (entry : DirEntry) : Bool := entry.attr &&& 0x10 != 0

def firstCluster (entry : DirEntry) : UInt32 :=
  entry.firstClusterHigh.toUInt32 <<< 16 ||| entry.firstClusterLow.toUInt32

/-- `e->name[0]` in a comparison: a `char` has a sign. -/
def firstChar (entry : DirEntry) : Int :=
  let c := (entry.name.headD 0).toNat
  if c < 128 then c else (c : Int) - 256

end DirEntry

section FileSystem

variable (disk : Disk)

def clusterToLba (fs : Fat32Handle) (cluster : UInt32) : UInt32 :=
  fs.dataStartLba + (cluster - 2) * fs.fat.sectorsPerCluster.toUInt32

def openFat32 (range : SectorRange) (fs : Fat32Handle) : DiskProgram (Except BootError Fat32Handle) := do
  match ← virtioBlkRead disk (range.firstSector + 0) 512 with
  | none => return .error .ioError
  | some bpb =>
    let fat := Fat32Bpb.ofSector bpb
    if fat.bytesPerSector ≠ 512 then return .error .invalidFatSectorSize
    else if fat.sectorsPerCluster = 0 then return .error .invalidFatClusterSize
    else
      return .ok { fs with
        cluster := fat.rootCluster
        clusterSize := fat.sectorsPerCluster.toUInt32 * fat.bytesPerSector.toUInt32
        dataStartLba := fat.reservedSectors.toUInt32 + fat.numFats.toUInt32 * fat.fatSize
        fat
        range }

def readFatEntry (fs : Fat32Handle) (cluster : UInt32) : DiskProgram (Except BootError UInt32) := do
  let fatOffset := cluster * 4
  let fatSector := fs.fat.reservedSectors.toUInt32 + fatOffset / fs.fat.bytesPerSector.toUInt32
  let entryOffset := fatOffset % fs.fat.bytesPerSector.toUInt32
  match ← virtioBlkRead disk (fs.range.firstSector + fatSector.toUInt64) 512 with
  | none => return .error .ioError
  | some sectorBuf => return .ok (sectorBuf.u32 entryOffset.toNat &&& 0x0FFFFFFF)

/-- A cluster of more bytes than `cluster_buf` has is read over what lies behind it, and nothing can be said then. -/
def loadCluster (fs : Fat32Handle) (cluster : UInt32) : DiskProgram (Except BootError Fat32Handle) := do
  let length := fs.fat.sectorsPerCluster.toNat * fs.fat.bytesPerSector.toNat
  match ← virtioBlkRead disk (fs.range.firstSector + (clusterToLba fs cluster).toUInt64) length with
  | none => return .error .ioError
  | some bytes =>
    if 32768 < length then throw (.panic (.message "cluster_buf"))
    else
      return .ok { fs with
        clusterBuf := fs.clusterBuf.put 0 length bytes
        currentCluster := cluster
        entryIndex := 0 }

def openRootDir (fs : Fat32Handle) : DiskProgram (Except BootError Fat32Handle) :=
  loadCluster disk fs fs.fat.rootCluster

def openDirEntry (fs : Fat32Handle) (entry : DirEntry) : DiskProgram (Except BootError Fat32Handle) :=
  let cluster := if entry.firstCluster = 0 then fs.fat.rootCluster else entry.firstCluster
  if ¬entry.isDirectory then return .error .notADirectory
  else loadCluster disk fs cluster

/-- The two loops are one here: a round looks at a record, or goes on to the next cluster. -/
def nextDirEntry : (fuel : Nat) → Fat32Handle → DiskProgram (Except BootError DirEntry × Fat32Handle)
  | 0, _ => throw .outOfFuel
  | fuel + 1, fs => do
      if fs.entryIndex < fs.clusterSize / 32 then
        let e := DirEntry.ofRecord fs.clusterBuf (fs.entryIndex.toNat * 32)
        let fs := { fs with entryIndex := fs.entryIndex + 1 }
        if e.firstChar = 0x00 then return (.error .endOfDir, fs)
        else if e.firstChar = 0xE5 then nextDirEntry fuel fs
        else if e.attr = 0x0F then nextDirEntry fuel fs
        else return (.ok e, fs)
      else
        match ← readFatEntry disk fs fs.currentCluster with
        | .error status => return (.error status, fs)
        | .ok nextCluster =>
          if 0x0FFFFFF8 ≤ nextCluster then return (.error .endOfDir, fs)
          else
            match ← loadCluster disk fs nextCluster with
            | .error status => return (.error status, fs)
            | .ok fs => nextDirEntry fuel fs

/-! ### The boot file -/

def findInDir (name : Bytes) : (fuel : Nat) → Fat32Handle → DiskProgram (Except BootError DirEntry × Fat32Handle)
  | 0, _ => throw .outOfFuel
  | fuel + 1, fs => do
      match ← nextDirEntry disk fuel fs with
      | (.error _, fs) => return (.error .notADirectory, fs)
      | (.ok entry, fs) =>
        if memcmp entry.name name = 0 then return (.ok entry, fs)
        else findInDir name fuel fs

/-- `"EFI        "`, `"BOOT       "` and `"BOOTX64 EFI"`. -/
def efiName : Bytes := [0x45, 0x46, 0x49, 0x20, 0x20, 0x20, 0x20, 0x20, 0x20, 0x20, 0x20]
def bootName : Bytes := [0x42, 0x4F, 0x4F, 0x54, 0x20, 0x20, 0x20, 0x20, 0x20, 0x20, 0x20]
def bootx64Name : Bytes := [0x42, 0x4F, 0x4F, 0x54, 0x58, 0x36, 0x34, 0x20, 0x45, 0x46, 0x49]

def findEfiBootx64 (fuel : Nat) (fs : Fat32Handle) : DiskProgram (Except BootError DirEntry × Fat32Handle) := do
  match ← openRootDir disk fs with
  | .error _ => return (.error .ioError, fs)
  | .ok fs =>
  match ← findInDir disk efiName fuel fs with
  | (.error _, fs) => return (.error .notADirectory, fs)
  | (.ok entry, fs) =>
  match ← openDirEntry disk fs entry with
  | .error _ => return (.error .ioError, fs)
  | .ok fs =>
  match ← findInDir disk bootName fuel fs with
  | (.error _, fs) => return (.error .notADirectory, fs)
  | (.ok entry, fs) =>
  match ← openDirEntry disk fs entry with
  | .error _ => return (.error .ioError, fs)
  | .ok fs =>
  match ← findInDir disk bootx64Name fuel fs with
  | (.error _, fs) => return (.error .notADirectory, fs)
  | (.ok entry, fs) => return (.ok entry, fs)

/-- The memory at `file_buf`: what it holds, and how many bytes of it are not used for something else. -/
structure FileBuf where
  bytes : ByteMap
  room : Nat

def FileBuf.put (buf : FileBuf) (offset length : Nat) (data : ByteMap) : FileBuf :=
  { buf with bytes := buf.bytes.put offset length data }

/-- The loop of `read_file`. Each round reads at least one byte of the file, so there are no more rounds than bytes.
A cluster for which the buffer has no room is put over other memory, and nothing can be said then. -/
def readFileLoop (fs : Fat32Handle) : (rounds : Nat) → (cluster : UInt32) → (offset remaining : Nat) → FileBuf →
    DiskProgram (Except BootError Unit × FileBuf)
  | 0, _, _, _, buf => return (.ok (), buf)
  | rounds + 1, cluster, offset, remaining, buf => do
      if remaining = 0 then return (.ok (), buf)
      else
        let toRead := min remaining fs.clusterSize.toNat
        let length := (toRead + 511) / 512 * 512
        match ← virtioBlkRead disk (fs.range.firstSector + (clusterToLba fs cluster).toUInt64) length with
        | none => return (.error .ioError, buf)
        | some data =>
          if buf.room < offset + length then throw (.panic (.message "file_buf"))
          else
            let buf := buf.put offset length data
            if remaining - toRead = 0 then return (.ok (), buf)
            else
              match ← readFatEntry disk fs cluster with
              | .error status => return (.error status, buf)
              | .ok nextCluster =>
                if 0x0FFFFFF8 ≤ nextCluster then return (.error .ioError, buf)
                else readFileLoop fs rounds nextCluster (offset + toRead) (remaining - toRead) buf

def readFile (fs : Fat32Handle) (entry : DirEntry) (buf : FileBuf) (bufSize : UInt32) :
    DiskProgram (Except BootError Unit × FileBuf) :=
  if entry.isDirectory then return (.error .notAFile, buf)
  else
    let remaining := min entry.fileSize.toNat bufSize.toNat
    readFileLoop disk fs remaining entry.firstCluster 0 remaining buf

/-- What memory holds before the call. Nothing sets the variables of the scan, and `fs` is `static`. -/
structure BootMemory where
  stack : Stack
  partition : Partition
  fs : Fat32Handle

structure Booted where
  range : SectorRange
  fileBuf : FileBuf

def loadEfiApplication (fuel : Nat) (memory : BootMemory) (fileBuf : FileBuf) :
    DiskProgram (Except BootError Booted) := do
  match ← loadPartTable disk memory.stack memory.partition with
  | .error status => return .error status
  | .ok partition =>
  match ← openFat32 disk partition.range memory.fs with
  | .error status => return .error status
  | .ok fs =>
  match ← findEfiBootx64 disk fuel fs with
  | (.error status, _) => return .error status
  | (.ok entry, fs) =>
  -- The status of the read is dropped.
  let (_, fileBuf) ← readFile disk fs entry fileBuf entry.fileSize
  return .ok ⟨partition.range, fileBuf⟩

end FileSystem

end Boot

end FerrumVM
