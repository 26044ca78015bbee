import FerrumVM.BootFile

/-! What `SUCCSESS` of `load_efi_application` means. The status of `read_file` is dropped and the range is used even if
the scan has not set it, so the buffer need not hold the boot file. The condition under which it always does is exact. -/

namespace FerrumVM.Boot

open Base Program

/-! ### The partition table -/

section Gpt

variable (image : ByteMap)

def gptHeader : ByteMap := image.shift 512

/-- The disk has the marks of a partition table that is understood. -/
def HasGpt : Prop :=
  image.u16 0x1FE = 0xAA55 ∧ image (0x1BE + 4) = 0xEE ∧ (gptHeader image).bytes 0 8 = gptSignature ∧
    (gptHeader image).u32 8 = 0x00010000

def tableLba : UInt64 := (gptHeader image).u64 72
def entryCount : UInt32 := (gptHeader image).u32 80
def entrySize : UInt32 := (gptHeader image).u32 84

def table : ByteMap := image.shift ((tableLba image).toNat * 512)

def IsEsp (i : Nat) : Prop :=
  i < (entryCount image).toNat ∧ (table image).bytes (i * (entrySize image).toNat) 16 = espGuid

def espFirst (i : Nat) : UInt64 := (table image).u64 (i * (entrySize image).toNat + 32)

/-- The bytes of `part_entries_buf`. The size of the table is computed in 32 bits. -/
def tableSpace : Nat := wholeSectors (entryCount image * entrySize image).toNat

def tableRead : DiskRead := ⟨tableLba image, tableSpace image % 2 ^ 32⟩

def scanned (stack : Stack) (found : Partition) : Partition :=
  scanEntries (stack.bytes.put 0 (tableRead image).length (table image)) (entrySize image) (entryCount image).toNat 0
    found

end Gpt

def gptReads : List DiskRead := [⟨0, 512⟩, ⟨1, 512⟩]

theorem shift_sector_zero (image : ByteMap) : image.shift ((0 : UInt64).toNat * 512) = image := by
  funext k
  show image (0 * 512 + k) = image k
  rw [Nat.zero_mul, Nat.zero_add]

theorem memcmp_signature_iff {b : ByteMap} : memcmp (b.bytes 0 8) gptSignature = 0 ↔ b.bytes 0 8 = gptSignature :=
  memcmp_eq_zero_iff (show (b.bytes 0 8).length = 8 from ByteMap.length_bytes)

section Table

variable {disk : Disk} {stack : Stack} {found : Partition} {log : List DiskRead}

theorem loadPartTable_of_gpt (stack : Stack) (found : Partition) (hgpt : HasGpt disk.image)
    (ha : Accepted disk log gptReads) : loadPartTable disk stack found log =
      (if stack.room < tableSpace disk.image then throw (.panic (.message "part_entries_buf"))
      else do
        match ← virtioBlkRead disk (tableRead disk.image).sector (tableRead disk.image).length with
        | none => return .error .ioError
        | some table =>
          return .ok (scanEntries (stack.bytes.put 0 (tableRead disk.image).length table) (entrySize disk.image)
            (entryCount disk.image).toNat 0 found) : DiskProgram (Except BootError Partition))
        (log ++ gptReads) := by
  obtain ⟨hboot, htype, hsignature, hrevision⟩ := hgpt
  obtain ⟨ha0, ha1, -⟩ := ha
  have hcmp : memcmp ((gptHeader disk.image).bytes 0 8) gptSignature = 0 :=
    memcmp_signature_iff.mpr hsignature
  unfold loadPartTable
  rw [bind_of_ok (virtioBlkRead_of_accepted ha0)]
  dsimp only
  rw [shift_sector_zero, if_neg (not_not_intro hboot), if_neg (not_not_intro htype)]
  rw [bind_of_ok (virtioBlkRead_of_accepted ha1)]
  dsimp only
  refine (congrFun (if_neg (not_not_intro hcmp)) _).trans ?_
  refine (congrFun (if_neg (not_not_intro hrevision)) _).trans ?_
  rw [List.append_assoc]
  rfl

theorem loadPartTable_of_no_gpt (stack : Stack) (found : Partition)
    (h : ¬(HasGpt disk.image ∧ Accepted disk log gptReads)) :
    ∃ status log', loadPartTable disk stack found log = .ok (.error status) log' := by
  unfold loadPartTable
  by_cases ha0 : disk.accepts log ⟨0, 512⟩ = true
  swap
  · exact ⟨_, _, bind_of_ok (virtioBlkRead_of_refused ha0)⟩
  rw [bind_of_ok (virtioBlkRead_of_accepted ha0)]
  dsimp only
  rw [shift_sector_zero]
  by_cases hboot : disk.image.u16 0x1FE = 0xAA55
  swap
  · exact ⟨_, _, congrFun (if_pos hboot) _⟩
  rw [if_neg (not_not_intro hboot)]
  by_cases htype : disk.image (0x1BE + 4) = 0xEE
  swap
  · exact ⟨_, _, congrFun (if_pos htype) _⟩
  rw [if_neg (not_not_intro htype)]
  by_cases ha1 : disk.accepts (log ++ [⟨0, 512⟩]) ⟨1, 512⟩ = true
  swap
  · exact ⟨_, _, bind_of_ok (virtioBlkRead_of_refused ha1)⟩
  rw [bind_of_ok (virtioBlkRead_of_accepted ha1)]
  by_cases hcmp : memcmp ((gptHeader disk.image).bytes 0 8) gptSignature = 0
  swap
  · exact ⟨_, _, congrFun (if_pos hcmp) _⟩
  have hsignature := memcmp_signature_iff.mp hcmp
  have hrevision : (gptHeader disk.image).u32 8 ≠ 0x00010000 :=
    fun hrevision => h ⟨⟨hboot, htype, hsignature, hrevision⟩, ha0, ha1, trivial⟩
  exact ⟨_, _, (congrFun (if_neg (not_not_intro hcmp)) _).trans (congrFun (if_pos hrevision) _)⟩

theorem loadPartTable_sound
    (hroom : HasGpt disk.image → Accepted disk log gptReads → tableSpace disk.image ≤ stack.room) :
    wp (loadPartTable disk stack found) (fun result log' => ∀ partition, result = .ok partition → HasGpt disk.image ∧
        Accepted disk log (gptReads ++ [tableRead disk.image]) ∧ log' = log ++ (gptReads ++ [tableRead disk.image]) ∧
          partition = scanned disk.image stack found) (fun e _ => e = .outOfFuel) log := by
  by_cases h : HasGpt disk.image ∧ Accepted disk log gptReads
  · obtain ⟨hgpt, ha⟩ := h
    rw [wp_of_eq (loadPartTable_of_gpt stack found hgpt ha), if_neg (Nat.not_lt.mpr (hroom hgpt ha)), wp_bind]
    by_cases hatable : disk.accepts (log ++ gptReads) (tableRead disk.image) = true
    · rw [wp_of_ok (virtioBlkRead_of_accepted hatable)]
      rintro _ ⟨⟩
      exact ⟨hgpt, accepted_append.mpr ⟨ha, hatable, trivial⟩, List.append_assoc _ _ _, rfl⟩
    · rw [wp_of_ok (virtioBlkRead_of_refused hatable)]
      exact nofun
  · obtain ⟨status, log', hrun⟩ := loadPartTable_of_no_gpt stack found h
    rw [wp_of_ok hrun]
    exact nofun

theorem loadPartTable_complete (hgpt : HasGpt disk.image)
    (ha : Accepted disk log (gptReads ++ [tableRead disk.image])) (hroom : tableSpace disk.image ≤ stack.room) :
    loadPartTable disk stack found log =
      .ok (.ok (scanned disk.image stack found)) (log ++ (gptReads ++ [tableRead disk.image])) := by
  obtain ⟨ha, hatable, -⟩ := accepted_append.mp ha
  rw [loadPartTable_of_gpt stack found hgpt ha, if_neg (Nat.not_lt.mpr hroom),
    bind_of_ok (virtioBlkRead_of_accepted hatable), List.append_assoc]
  rfl

/-! The scan of a table whose size has 32 bits finds the first EFI system partition. -/

/-! ### The volume -/

variable {range : SectorRange}

theorem openFat32_complete (fs : Fat32Handle) (ha : disk.accepts log ⟨range.firstSector, 512⟩ = true)
    (hfat : (Volume.mk disk.image range.firstSector).IsFat32) :
    ∃ fs', openFat32 disk range fs log = .ok (.ok fs') (log ++ [⟨range.firstSector, 512⟩]) ∧
      Mounted disk ⟨disk.image, range.firstSector⟩ fs' := by
  have hsize : ((Volume.mk disk.image range.firstSector).fat.sectorsPerCluster.toUInt32 *
      (Volume.mk disk.image range.firstSector).fat.bytesPerSector.toUInt32).toNat =
        (Volume.mk disk.image range.firstSector).clusterSize := by
    have hlt := (Volume.mk disk.image range.firstSector).fat.sectorsPerCluster.toNat_lt
    rw [hfat.1, UInt32.toNat_mul, UInt8.toNat_toUInt32]
    exact Nat.mod_eq_of_lt (show _ * 512 < 2 ^ 32 by omega)
  unfold openFat32
  rw [UInt64.add_zero, bind_of_ok (virtioBlkRead_of_accepted ha)]
  dsimp only
  refine ⟨_, (congrFun (if_neg (not_not_intro hfat.1)) _).trans (congrFun (if_neg hfat.2) _), ?_⟩
  exact { image := rfl, isFat32 := hfat, fat := rfl, firstSector := rfl, dataStart := rfl, clusterSize := hsize }

theorem openFat32_of_no_fat (fs : Fat32Handle)
    (h : ¬(disk.accepts log ⟨range.firstSector, 512⟩ = true ∧ (Volume.mk disk.image range.firstSector).IsFat32)) :
    ∃ status log', openFat32 disk range fs log = .ok (.error status) log' := by
  unfold openFat32
  rw [UInt64.add_zero]
  by_cases ha : disk.accepts log ⟨range.firstSector, 512⟩ = true
  swap
  · exact ⟨_, _, bind_of_ok (virtioBlkRead_of_refused ha)⟩
  rw [bind_of_ok (virtioBlkRead_of_accepted ha)]
  by_cases hbytes : (Volume.mk disk.image range.firstSector).fat.bytesPerSector = 512
  swap
  · exact ⟨_, _, congrFun (if_pos hbytes) _⟩
  have hsectors : (Volume.mk disk.image range.firstSector).fat.sectorsPerCluster = 0 := by
    by_contra hsectors
    exact h ⟨ha, hbytes, hsectors⟩
  exact ⟨_, _, (congrFun (if_neg (not_not_intro hbytes)) _).trans (congrFun (if_pos hsectors) _)⟩

end Table

/-! ### The boot file -/

/-- The record of the boot file on a FAT32 volume. Its path goes through clusters only. -/
def Volume.HasBootFile (vol : Volume) (entry : DirEntry) : Prop :=
  vol.IsFat32 ∧ ¬entry.isDirectory ∧ ∃ visited reads,
    PathTo vol bootPath vol.fat.rootCluster entry visited reads ∧ ∀ cluster ∈ visited, IsData cluster

/-- What `SUCCSESS` is to mean: the range is that of an EFI system partition, and the buffer holds its boot file. -/
def Loaded (image : ByteMap) (booted : Booted) : Prop :=
  ∃ i, IsEsp image i ∧ espFirst image i = booted.range.firstSector ∧
    ∃ entry, (Volume.mk image (espFirst image i)).HasBootFile entry ∧ ∀ p < entry.fileSize.toNat,
      (Volume.mk image (espFirst image i)).fileByte entry.firstCluster p = some (booted.fileBuf.bytes p)

/-- The boot file is loaded whenever the call returns `SUCCSESS`, whatever the buffer held before. -/
def ReportsTruth (disk : Disk) (memory : BootMemory) (room : Nat) (log : List DiskRead) : Prop :=
  ∀ fuel bytes, wp (loadEfiApplication disk fuel memory ⟨bytes, room⟩)
    (fun result _ => ∀ booted, result = .ok booted → Loaded disk.image booted) (fun e _ => e = .outOfFuel) log

section Load

variable (disk : Disk) (memory : BootMemory)

def bootRange : SectorRange := (scanned disk.image memory.stack memory.partition).range

def bootVolume : Volume := ⟨disk.image, (bootRange disk memory).firstSector⟩

def volumeReads : List DiskRead :=
  gptReads ++ [tableRead disk.image] ++ [⟨(bootRange disk memory).firstSector, 512⟩]

/-- The boot file that the search finds is on an EFI system partition and can be read to its end. -/
structure Readable (room : Nat) (log : List DiskRead) (entry : DirEntry) (visited : List UInt32)
    (reads : List DiskRead) : Prop where
  esp : ∃ i, IsEsp disk.image i ∧ espFirst disk.image i = (bootRange disk memory).firstSector
  path : ∀ cluster ∈ visited, IsData cluster
  isFile : ¬entry.isDirectory
  chain : ∀ p < entry.fileSize.toNat, ((bootVolume disk memory).fileByte entry.firstCluster p).isSome
  reads : Accepted disk (log ++ (volumeReads disk memory ++ reads)) ((bootVolume disk memory).fileReads entry)
  room : wholeSectors entry.fileSize.toNat ≤ room

/-- The buffers have room for what is read to them, and a boot file that is found is readable. -/
structure Bootable (room : Nat) (log : List DiskRead) : Prop where
  table : HasGpt disk.image → Accepted disk log gptReads → tableSpace disk.image ≤ memory.stack.room
  cluster : HasGpt disk.image → (bootVolume disk memory).IsFat32 →
    Accepted disk log (volumeReads disk memory ++ [(bootVolume disk memory).clusterRead
      (bootVolume disk memory).fat.rootCluster (bootVolume disk memory).clusterSize]) →
    (bootVolume disk memory).clusterSize ≤ 32768
  file : HasGpt disk.image → (bootVolume disk memory).IsFat32 → ∀ entry visited reads,
    PathTo (bootVolume disk memory) bootPath (bootVolume disk memory).fat.rootCluster entry visited reads →
    Accepted disk log (volumeReads disk memory ++ reads) → Readable disk memory room log entry visited reads

variable {disk memory} {room : Nat} {log : List DiskRead}

theorem readFile_of_file {fs : Fat32Handle} {entry : DirEntry} {buf : FileBuf} (hfile : ¬entry.isDirectory) :
    readFile disk fs entry buf entry.fileSize =
      readFileLoop disk fs entry.fileSize.toNat entry.firstCluster 0 entry.fileSize.toNat buf := by
  rw [readFile, if_neg hfile, Nat.min_self]

theorem loadEfiApplication_sound {Q : Except BootError Booted → List DiskRead → Prop} {fuel : Nat} {fileBuf : FileBuf}
    (h : Bootable disk memory room log) (hfail : ∀ status log', Q (.error status) log')
    (hfound : ∀ entry fs visited reads, HasGpt disk.image → Mounted disk (bootVolume disk memory) fs →
      PathTo (bootVolume disk memory) bootPath (bootVolume disk memory).fat.rootCluster entry visited reads →
      Accepted disk log (volumeReads disk memory ++ reads) → wp (readFile disk fs entry fileBuf entry.fileSize)
        (fun result log' => Q (.ok ⟨bootRange disk memory, result.2⟩) log') (fun e _ => e = .outOfFuel)
        (log ++ (volumeReads disk memory ++ reads))) :
    wp (loadEfiApplication disk fuel memory fileBuf) Q (fun e _ => e = .outOfFuel) log := by
  unfold loadEfiApplication
  rw [wp_bind]
  refine wp_mono ?_ (fun _ _ he => he) (loadPartTable_sound h.table)
  rintro (status | partition) log1 hpartition
  · exact hfail _ _
  obtain ⟨hgpt, hagpt, rfl, hscanned⟩ := hpartition partition rfl
  have hrange : partition.range = bootRange disk memory := congrArg Partition.range hscanned
  dsimp only
  rw [wp_bind, hrange]
  by_cases hfat : disk.accepts (log ++ (gptReads ++ [tableRead disk.image]))
      ⟨(bootRange disk memory).firstSector, 512⟩ = true ∧ (bootVolume disk memory).IsFat32
  swap
  · obtain ⟨status, log2, hrun⟩ := openFat32_of_no_fat memory.fs hfat
    rw [wp_of_ok hrun]
    exact hfail _ _
  obtain ⟨ha, hfat⟩ := hfat
  obtain ⟨fs, hrun, hmounted⟩ := openFat32_complete memory.fs ha hfat
  have havolume : Accepted disk log (volumeReads disk memory) := accepted_append.mpr ⟨hagpt, ha, trivial⟩
  rw [wp_of_ok hrun, List.append_assoc]
  dsimp only
  rw [wp_bind]
  refine wp_mono ?_ (fun _ _ he => he) (findEfiBootx64_sound hmounted fuel ?_)
  swap
  · exact fun haroot => h.cluster hgpt hfat (accepted_append.mpr ⟨havolume, haroot, trivial⟩)
  rintro ⟨status | entry, fs'⟩ log3 hentry
  · exact hfail _ _
  obtain ⟨visited, reads, hpath, hareads, rfl, hmounted'⟩ := hentry entry rfl
  have hfile := hfound entry fs' visited reads hgpt hmounted' hpath (accepted_append.mpr ⟨havolume, hareads⟩)
  rw [← List.append_assoc] at hfile
  exact (wp_bind _ _).mpr hfile

theorem reportsTruth_of_bootable (h : Bootable disk memory room log) : ReportsTruth disk memory room log := by
  intro fuel bytes
  refine loadEfiApplication_sound h (fun _ _ => nofun) ?_
  intro entry fs visited reads hgpt hmounted hpath ha
  have hreadable := h.file hgpt hmounted.isFat32 entry visited reads hpath ha
  have hroom : 0 + wholeSectors entry.fileSize.toNat ≤ (FileBuf.mk bytes room).room := by
    rw [Nat.zero_add]
    exact hreadable.room
  obtain ⟨buf', log', hrun, hbytes, -⟩ :=
    readFileLoop_complete hmounted (Nat.le_refl _) hreadable.reads hreadable.chain hroom
  rw [readFile_of_file hreadable.isFile, wp_of_ok hrun]
  rintro _ ⟨⟩
  obtain ⟨i, hesp, hfirst⟩ := hreadable.esp
  refine ⟨i, hesp, hfirst, entry, ?_⟩
  rw [hfirst]
  refine ⟨⟨hmounted.isFat32, hreadable.isFile, visited, reads, hpath, hreadable.path⟩, ?_⟩
  intro p hp
  have hbyte := hbytes p hp
  rwa [Nat.zero_add] at hbyte

/-! Where the condition fails, some run returns `SUCCSESS` without the file, or goes on from broken memory. -/

theorem loadEfiApplication_of_volume (hgpt : HasGpt disk.image) (hfat : (bootVolume disk memory).IsFat32)
    (htable : tableSpace disk.image ≤ memory.stack.room) (ha : Accepted disk log (volumeReads disk memory)) :
    ∃ fs, Mounted disk (bootVolume disk memory) fs ∧ ∀ fuel fileBuf, loadEfiApplication disk fuel memory fileBuf log =
        (findEfiBootx64 disk fuel fs >>= fun result =>
          match result with
          | (.error status, _) => pure (.error status)
          | (.ok entry, fs) => readFile disk fs entry fileBuf entry.fileSize >>= fun result =>
            pure (.ok ⟨bootRange disk memory, result.2⟩)) (log ++ volumeReads disk memory) := by
  obtain ⟨hagpt, ha, -⟩ := accepted_append.mp ha
  obtain ⟨fs, hrun, hmounted⟩ := openFat32_complete memory.fs ha hfat
  refine ⟨fs, hmounted, fun fuel fileBuf => ?_⟩
  unfold loadEfiApplication
  rw [bind_of_ok (loadPartTable_complete hgpt hagpt htable)]
  refine (bind_of_ok hrun).trans ?_
  rw [List.append_assoc]
  rfl

theorem ReportsTruth.table_room (h : ReportsTruth disk memory room log) (hgpt : HasGpt disk.image)
    (ha : Accepted disk log gptReads) : tableSpace disk.image ≤ memory.stack.room := by
  by_contra hroom
  have hrun := loadPartTable_of_gpt memory.stack memory.partition hgpt ha
  rw [if_pos (Nat.lt_of_not_le hroom)] at hrun
  have hfault := (wp_of_error (bind_of_error hrun)).mp (h 0 fun _ => 0)
  cases hfault

theorem ReportsTruth.cluster_room (h : ReportsTruth disk memory room log) (hgpt : HasGpt disk.image)
    (hfat : (bootVolume disk memory).IsFat32) (ha : Accepted disk log (volumeReads disk memory ++
      [(bootVolume disk memory).clusterRead (bootVolume disk memory).fat.rootCluster
        (bootVolume disk memory).clusterSize])) : (bootVolume disk memory).clusterSize ≤ 32768 := by
  by_contra hroom
  obtain ⟨ha, haroot, -⟩ := accepted_append.mp ha
  have hagpt := (accepted_append.mp (accepted_append.mp ha).1).1
  obtain ⟨fs, hmounted, hrun⟩ := loadEfiApplication_of_volume hgpt hfat (h.table_room hgpt hagpt) ha
  have hload := hmounted.loadCluster_of_large haroot (Nat.lt_of_not_le hroom)
  rw [← openRootDir_eq hmounted] at hload
  have hfault := (wp_of_error ((hrun 0 ⟨fun _ => 0, room⟩).trans (bind_of_error (bind_of_error hload)))).mp
    (h 0 fun _ => 0)
  cases hfault

theorem PathTo.exists_reads {vol : Volume} {names : List Bytes} {cluster : UInt32} {entry : DirEntry}
    {visited : List UInt32} {reads : List DiskRead} (h : PathTo vol names cluster entry visited reads) :
    ∃ rest, reads = [vol.clusterRead cluster vol.clusterSize] ++ rest := by
  cases h with
  | last => exact ⟨_, rfl⟩
  | step => exact ⟨_, rfl⟩

/-- A buffer in which every byte differs from that of a file. -/
def Volume.otherBytes (vol : Volume) (cluster : UInt32) : ByteMap := fun p => (vol.fileByte cluster p).getD 0 + 1

theorem Volume.fileByte_ne_otherBytes {vol : Volume} {cluster : UInt32} {p : Nat} :
    vol.fileByte cluster p ≠ some (vol.otherBytes cluster p) := by
  unfold otherBytes
  cases vol.fileByte cluster p with
  | none => exact nofun
  | some byte => exact fun h => absurd (Option.some.inj h) (by simp)

section Found

variable {entry : DirEntry} {visited : List UInt32} {reads : List DiskRead}
  (hpath : PathTo (bootVolume disk memory) bootPath (bootVolume disk memory).fat.rootCluster entry visited reads)
include hpath

theorem Loaded.of_path {buf : FileBuf} (h : Loaded disk.image ⟨bootRange disk memory, buf⟩) :
    (∃ i, IsEsp disk.image i ∧ espFirst disk.image i = (bootRange disk memory).firstSector) ∧
      (∀ cluster ∈ visited, IsData cluster) ∧ ¬entry.isDirectory ∧ ∀ p < entry.fileSize.toNat,
        (bootVolume disk memory).fileByte entry.firstCluster p = some (buf.bytes p) := by
  obtain ⟨i, hesp, hfirst, entry', hboot, hbytes⟩ := h
  rw [hfirst] at hboot hbytes
  obtain ⟨-, hfile, visited', reads', hpath', hdata⟩ := hboot
  obtain ⟨rfl, rfl, -⟩ := hpath.unique hpath'
  exact ⟨⟨i, hesp, hfirst⟩, hdata, hfile, hbytes⟩

theorem ReportsTruth.readable (h : ReportsTruth disk memory room log) (hgpt : HasGpt disk.image)
    (hfat : (bootVolume disk memory).IsFat32) (ha : Accepted disk log (volumeReads disk memory ++ reads)) :
    Readable disk memory room log entry visited reads := by
  have hroom : (bootVolume disk memory).clusterSize ≤ 32768 := by
    obtain ⟨rest, hreads⟩ := hpath.exists_reads
    rw [hreads, ← List.append_assoc] at ha
    exact h.cluster_room hgpt hfat (accepted_append.mp ha).1
  obtain ⟨havolume, hareads⟩ := accepted_append.mp ha
  have hagpt := (accepted_append.mp (accepted_append.mp havolume).1).1
  obtain ⟨fs, hmounted, hrun⟩ := loadEfiApplication_of_volume hgpt hfat (h.table_room hgpt hagpt) havolume
  obtain ⟨fuel, fs', hmounted', hsearch⟩ := findEfiBootx64_complete hpath hmounted hroom hareads
  -- A buffer that nowhere has the byte of the file shows every byte that is not read.
  have htruth := h fuel ((bootVolume disk memory).otherBytes entry.firstCluster)
  rw [wp_of_eq ((hrun fuel _).trans (bind_of_ok hsearch)), List.append_assoc, wp_bind] at htruth
  by_cases hdir : entry.isDirectory
  · rw [readFile, if_pos hdir] at htruth
    exact absurd hdir (Loaded.of_path hpath (htruth _ rfl)).2.2.1
  rw [readFile_of_file hdir] at htruth
  cases hloop : readFileLoop disk fs' entry.fileSize.toNat entry.firstCluster 0 entry.fileSize.toNat
      ⟨(bootVolume disk memory).otherBytes entry.firstCluster, room⟩ (log ++ (volumeReads disk memory ++ reads)) with
  | error e log' =>
    have hsound := (wp_of_error hloop).mp (readFileLoop_sound hmounted' (Nat.le_refl _) (Nat.zero_le _))
    exact absurd ((wp_of_error hloop).mp htruth) hsound
  | ok result log' =>
    have hsound := (wp_of_ok hloop).mp (readFileLoop_sound hmounted' (Nat.le_refl _) (Nat.zero_le _))
    obtain ⟨hesp, hdata, hfile, hbytes⟩ := Loaded.of_path hpath ((wp_of_ok hloop).mp htruth _ rfl)
    rcases hsound with ⟨hreads, hfits⟩ | ⟨p, -, hp, hkept⟩
    · refine ⟨hesp, hdata, hfile, ?_, hreads, ?_⟩
      · intro p hp
        rw [hbytes p hp]
        rfl
      · rwa [Nat.zero_add] at hfits
    · rw [Nat.zero_add] at hp
      exact absurd ((hbytes p hp).trans (congrArg some hkept)) Volume.fileByte_ne_otherBytes

end Found

end Load

/-! ### A disk with a boot file of one byte -/

instance decidableAccepted (disk : Disk) : (log reads : List DiskRead) → Decidable (Accepted disk log reads)
  | _, [] => isTrue trivial
  | log, read :: reads => @instDecidableAnd _ _ _ (decidableAccepted disk (log ++ [read]) reads)

/-- The parts of the disk that are not zero, each with its offset. -/
def bootImage : ByteMap :=
  [(0x1C2, [0xEE]), (0x1FE, [0x55, 0xAA]),
    (512, gptSignature ++ u32ToLe 0x00010000), (512 + 72, u64ToLe 2 ++ u32ToLe 1 ++ u32ToLe 128),
    (1024, espGuid), (1024 + 32, u64ToLe 3),
    (3 * 512 + 11, u16ToLe 512 ++ [1] ++ u16ToLe 1 ++ [1]), (3 * 512 + 36, u32ToLe 1), (3 * 512 + 44, u32ToLe 2),
    (5 * 512, efiName ++ [0x10]), (5 * 512 + 26, u16ToLe 3),
    (6 * 512, bootName ++ [0x10]), (6 * 512 + 26, u16ToLe 4),
    (7 * 512, bootx64Name ++ [0x20]), (7 * 512 + 26, u16ToLe 5 ++ u32ToLe 1),
    (8 * 512, [0x4D])].foldl (fun image (part : Nat × Bytes) =>
      image.put part.1 part.2.length fun k => part.2.getD k 0) fun _ => 0

def brokenDisk : Disk := ⟨bootImage, fun _ read => read.sector != 8⟩

def bootMemory : BootMemory where
  stack := ⟨fun _ => 0, 65536⟩
  partition := ⟨⟨0, 0⟩, 0, 0, 0, []⟩
  fs := ⟨⟨0, 0, 0, 0, 0, 0⟩, ⟨0, 0⟩, 0, 0, 0, fun _ => 0, 0, 0⟩

theorem FirstIn.of_first {vol : Volume} {name : Bytes} {cluster : UInt32} (hrecords : 0 < vol.records)
    (hend : (vol.record cluster 0).firstChar ≠ 0x00) (hattr : (vol.record cluster 0).attr ≠ 0x0F)
    (hname : (vol.record cluster 0).name = name) : FirstIn vol name cluster 0 (vol.record cluster 0) [] [] :=
  .found (.here hrecords hend hattr) hname

end FerrumVM.Boot
