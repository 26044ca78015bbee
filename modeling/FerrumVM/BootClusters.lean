import FerrumVM.BootLoad

/-! The clusters of a FAT32 volume by exact sector numbers, against the words of 32 and 64 bits that `disk/fat32.c`
computes, and the file that `read_file` puts in a buffer. -/

namespace FerrumVM.Boot

open Base Program

/-! ### Exact positions -/

namespace Volume

variable (vol : Volume)

/-- The sectors of the volume before its first cluster. -/
def dataSector : Nat := vol.fat.reservedSectors.toNat + vol.fat.numFats.toNat * vol.fat.fatSize.toNat

def sectorOf (c : Nat) : Nat := vol.dataSector + (c - 2) * vol.fat.sectorsPerCluster.toNat

def bytesAt (c : Nat) : Bytes := vol.image.bytes ((vol.firstSector.toNat + vol.sectorOf c) * 512) vol.clusterSize

def linkAt (c : Nat) : Nat :=
  (vol.image.u32 ((vol.firstSector.toNat + vol.fat.reservedSectors.toNat) * 512 + 4 * c)).toNat % 2 ^ 28

/-- The clusters that fit in a partition up to its last sector. The numbers from `0x0FFFFFF7` on are no clusters. -/
def clusterCount (lastSector : UInt64) : Nat :=
  min ((lastSector.toNat + 1 - vol.firstSector.toNat - vol.dataSector) / vol.fat.sectorsPerCluster.toNat) 0x0FFFFFF5

/-- A number of a cluster of the volume, with a sector number of 32 bits. -/
structure HasCluster (lastSector : UInt64) (c : Nat) : Prop where
  two_le : 2 ≤ c
  lt_count : c < vol.clusterCount lastSector + 2
  sector_lt : vol.sectorOf c < 2 ^ 32

def clustersFor (n : Nat) : Nat := (n + vol.clusterSize - 1) / vol.clusterSize

def chainBytes (c count : Nat) : Bytes := (List.range count).flatMap fun q => vol.bytesAt (vol.linkAt^[q] c)

variable {vol} {lastSector : UInt64} {cluster : UInt32}

instance (c : Nat) : Decidable (vol.HasCluster lastSector c) :=
  decidable_of_iff (2 ≤ c ∧ c < vol.clusterCount lastSector + 2 ∧ vol.sectorOf c < 2 ^ 32)
    ⟨fun h => ⟨h.1, h.2.1, h.2.2⟩, fun h => ⟨h.two_le, h.lt_count, h.sector_lt⟩⟩

theorem le_clustersFor_mul {n : Nat} (hsize : 0 < vol.clusterSize) : n ≤ vol.clustersFor n * vol.clusterSize := by
  have hdiv := Nat.div_add_mod (n + vol.clusterSize - 1) vol.clusterSize
  have hmod := Nat.mod_lt (n + vol.clusterSize - 1) hsize
  rw [Nat.mul_comm] at hdiv
  rw [clustersFor]
  omega

theorem HasCluster.isData (h : vol.HasCluster lastSector cluster.toNat) : IsData cluster := by
  have hle : vol.clusterCount lastSector ≤ 0x0FFFFFF5 := Nat.min_le_right _ _
  have htwo := h.two_le
  have hlt := h.lt_count
  refine ⟨UInt32.le_iff_toNat_le.mpr htwo, UInt32.lt_iff_toNat_lt.mpr ?_⟩
  simp only [UInt32.reduceToNat]
  omega

theorem HasCluster.sectors_pos {c : Nat} (h : vol.HasCluster lastSector c) : 0 < vol.fat.sectorsPerCluster.toNat := by
  by_contra hzero
  have htwo := h.two_le
  have hlt := h.lt_count
  rw [clusterCount, Nat.eq_zero_of_not_pos hzero, Nat.div_zero] at hlt
  omega

theorem HasCluster.end_le {c : Nat} (h : vol.HasCluster lastSector c) :
    vol.firstSector.toNat + vol.sectorOf c + vol.fat.sectorsPerCluster.toNat ≤ lastSector.toNat + 1 := by
  have htwo := h.two_le
  have hpos := h.sectors_pos
  have hcount : c - 1 ≤ (lastSector.toNat + 1 - vol.firstSector.toNat - vol.dataSector) /
      vol.fat.sectorsPerCluster.toNat := by
    have hlt := h.lt_count
    have hle : vol.clusterCount lastSector ≤ _ := Nat.min_le_left _ _
    omega
  have hsectors := (Nat.mul_le_mul_right _ hcount).trans (Nat.div_mul_le_self _ _)
  rw [show c - 1 = c - 2 + 1 by omega, Nat.succ_mul] at hsectors
  rw [sectorOf]
  omega

theorem toNat_dataStart (h : vol.dataSector < 2 ^ 32) : vol.dataStart.toNat = vol.dataSector := by
  unfold dataSector at h
  rw [dataStart, UInt32.toNat_add, UInt32.toNat_mul, UInt16.toNat_toUInt32, UInt8.toNat_toUInt32, dataSector,
    Nat.add_mod_mod]
  exact Nat.mod_eq_of_lt h

theorem toNat_clusterLba (htwo : 2 ≤ cluster.toNat) (hlt : vol.sectorOf cluster.toNat < 2 ^ 32) :
    (vol.clusterLba cluster).toNat = vol.sectorOf cluster.toNat := by
  unfold sectorOf at hlt
  have hsub : (cluster - 2).toNat = cluster.toNat - 2 :=
    UInt32.toNat_sub_of_le _ _ (UInt32.le_iff_toNat_le.mpr htwo)
  rw [clusterLba, UInt32.toNat_add, UInt32.toNat_mul, UInt8.toNat_toUInt32, hsub, toNat_dataStart (by omega), sectorOf,
    Nat.add_mod_mod]
  exact Nat.mod_eq_of_lt hlt

section

variable (h : vol.HasCluster lastSector cluster.toNat)
include h

theorem HasCluster.toNat_sector {length : Nat} :
    (vol.clusterRead cluster length).sector.toNat = vol.firstSector.toNat + vol.sectorOf cluster.toNat := by
  have hend := h.end_le
  have hpos := h.sectors_pos
  have hlast := lastSector.toNat_lt
  rw [clusterRead, UInt64.toNat_add, UInt32.toNat_toUInt64, toNat_clusterLba h.two_le h.sector_lt]
  exact Nat.mod_eq_of_lt (show _ < 2 ^ 64 by omega)

theorem HasCluster.clusterBytes_eq (o : Nat) :
    vol.clusterBytes cluster o = vol.image ((vol.firstSector.toNat + vol.sectorOf cluster.toNat) * 512 + o) := by
  rw [clusterBytes, h.toNat_sector]
  rfl

theorem HasCluster.toNat_linkSector : (vol.linkRead cluster).sector.toNat =
      vol.firstSector.toNat + (vol.fat.reservedSectors.toNat + cluster.toNat * 4 / 512) := by
  have hend := h.end_le
  have hpos := h.sectors_pos
  have hlast := lastSector.toNat_lt
  have hdata := h.isData.2
  have hreserved := vol.fat.reservedSectors.toNat_lt
  rw [UInt32.lt_iff_toNat_lt] at hdata
  simp only [UInt32.reduceToNat] at hdata
  -- The entry lies before the cluster's last sector, whatever the size of the table.
  have hmul : cluster.toNat - 2 ≤ (cluster.toNat - 2) * vol.fat.sectorsPerCluster.toNat :=
    Nat.le_mul_of_pos_right _ hpos
  rw [sectorOf, dataSector] at hend
  have hsector : (vol.fat.reservedSectors.toUInt32 + cluster * 4 / 512).toNat =
      vol.fat.reservedSectors.toNat + cluster.toNat * 4 / 512 := by
    simp only [UInt32.toNat_add, UInt32.toNat_div, UInt32.toNat_mul, UInt16.toNat_toUInt32, UInt32.reduceToNat]
    omega
  rw [linkRead, UInt64.toNat_add, UInt32.toNat_toUInt64, hsector]
  exact Nat.mod_eq_of_lt (show _ < 2 ^ 64 by omega)

theorem HasCluster.toNat_link : (vol.link cluster).toNat = vol.linkAt cluster.toNat := by
  have hdata := h.isData.2
  rw [UInt32.lt_iff_toNat_lt] at hdata
  simp only [UInt32.reduceToNat] at hdata
  have hoffset : (cluster * 4 % 512).toNat = cluster.toNat * 4 % 512 := by
    simp only [UInt32.toNat_mod, UInt32.toNat_mul, UInt32.reduceToNat]
    omega
  have hentry : (vol.image.shift ((vol.linkRead cluster).sector.toNat * 512)).u32 (cluster.toNat * 4 % 512) =
      vol.image.u32 ((vol.firstSector.toNat + vol.fat.reservedSectors.toNat) * 512 + 4 * cluster.toNat) := by
    refine congrArg u32FromLe (ByteMap.bytes_congr fun k _ => ?_)
    rw [h.toNat_linkSector]
    refine congrArg vol.image (?_ : _ + (_ + k) = _)
    omega
  rw [link, hoffset, hentry, UInt32.toNat_and, linkAt]
  exact Nat.and_two_pow_sub_one_eq_mod _ 28

end

theorem chain_eq_of_clusters {q : Nat} (h : ∀ i ≤ q, vol.HasCluster lastSector (vol.linkAt^[i] cluster.toNat)) :
    ∃ c : UInt32, vol.chain cluster q = some c ∧ c.toNat = vol.linkAt^[q] cluster.toNat := by
  induction q generalizing cluster with
  | zero => exact ⟨cluster, if_pos (h 0 (Nat.le_refl 0)).isData, rfl⟩
  | succ q ih =>
    have hfirst : vol.HasCluster lastSector cluster.toNat := h 0 (by omega)
    have hlink := hfirst.toNat_link
    rw [chain, if_pos hfirst.isData, Function.iterate_succ_apply, ← hlink]
    apply ih
    intro i hi
    rw [hlink]
    exact h (i + 1) (by omega)

theorem fileByte_of_clusters {p : Nat}
    (h : ∀ i ≤ p / vol.clusterSize, vol.HasCluster lastSector (vol.linkAt^[i] cluster.toNat)) :
    vol.fileByte cluster p =
      some (vol.image ((vol.firstSector.toNat + vol.sectorOf (vol.linkAt^[p / vol.clusterSize] cluster.toNat)) * 512 +
        p % vol.clusterSize)) := by
  obtain ⟨c, hchain, hc⟩ := chain_eq_of_clusters h
  have hcluster := h _ (Nat.le_refl _)
  rw [← hc] at hcluster ⊢
  rw [fileByte, hchain, Option.map_some, hcluster.clusterBytes_eq]

end Volume

/-! ### Reading a file -/

/-- The handle is one that `open_fat32` has filled in, whatever cluster it holds. -/
def HandleOf (disk : Disk) (range : SectorRange) (fs : Fat32Handle) : Prop :=
  ∃ fs₀ fs₁ log₀ log₁, openFat32 disk range fs₀ log₀ = .ok (.ok fs₁) log₁ ∧
    fs = { fs₁ with clusterBuf := fs.clusterBuf, currentCluster := fs.currentCluster, entryIndex := fs.entryIndex }

def volumeIn (disk : Disk) (range : SectorRange) : Volume := ⟨disk.image, range.firstSector⟩

theorem HandleOf.mounted {disk : Disk} {range : SectorRange} {fs : Fat32Handle} (h : HandleOf disk range fs) :
    Mounted disk (volumeIn disk range) fs := by
  obtain ⟨fs₀, fs₁, log₀, log₁, hopen, hfs⟩ := h
  by_cases hfat : disk.accepts log₀ ⟨range.firstSector, 512⟩ = true ∧ (volumeIn disk range).IsFat32
  · obtain ⟨fs', hopen', hmounted⟩ := openFat32_complete fs₀ hfat.1 hfat.2
    rw [hopen] at hopen'
    cases hopen'
    rw [hfs]
    exact { hmounted with }
  · obtain ⟨status, log', hopen'⟩ := openFat32_of_no_fat fs₀ hfat
    rw [hopen] at hopen'
    cases hopen'

/-- The bytes of a file that a buffer is given. -/
def DirEntry.readLength (entry : DirEntry) (bufSize : UInt32) : Nat := min entry.fileSize.toNat bufSize.toNat

theorem flatMap_range_map {α : Type*} (size count : Nat) (g : Nat → Nat → α) :
    ((List.range count).flatMap fun q => (List.range size).map (g q)) =
      (List.range (count * size)).map fun p => g (p / size) (p % size) := by
  induction count with
  | zero => simp
  | succ count ih =>
    rw [List.range_succ, List.flatMap_append, ih, Nat.succ_mul, List.range_add, List.map_append, List.map_map,
      List.flatMap_singleton]
    congr 1
    apply List.map_congr_left
    intro k hk
    have hlt := List.mem_range.mp hk
    rw [Function.comp_apply, Nat.mul_comm, Nat.mul_add_div (by omega), Nat.div_eq_of_lt hlt, Nat.add_zero,
      Nat.mul_add_mod, Nat.mod_eq_of_lt hlt]

theorem take_chainBytes {vol : Volume} {n c : Nat} (hsize : 0 < vol.clusterSize) :
    (vol.chainBytes c (vol.clustersFor n)).take n = (List.range n).map fun p =>
      vol.image ((vol.firstSector.toNat + vol.sectorOf (vol.linkAt^[p / vol.clusterSize] c)) * 512 +
        p % vol.clusterSize) := by
  refine (congrArg (List.take n) (flatMap_range_map vol.clusterSize (vol.clustersFor n) fun q k =>
    vol.image ((vol.firstSector.toNat + vol.sectorOf (vol.linkAt^[q] c)) * 512 + k))).trans ?_
  rw [← List.map_take, List.take_range, Nat.min_eq_left (Volume.le_clustersFor_mul hsize)]

/-- **Files are read.** If the chain of a file has the clusters that the file and the buffer call for, all of them
clusters of the volume, and no read fails, then `read_file` succeeds and the buffer starts with the clusters of the
chain, one behind the other. What is read is whole sectors, so the last of them may go past the bytes asked for. -/
theorem file_is_read (disk : Disk) (range : SectorRange) (fs : Fat32Handle) (entry : DirEntry) (buf : FileBuf)
    (bufSize : UInt32) (log : List DiskRead) (hfs : HandleOf disk range fs) (hfile : ¬entry.isDirectory)
    (hchain : ∀ q < (volumeIn disk range).clustersFor (entry.readLength bufSize),
      (volumeIn disk range).HasCluster range.lastSector ((volumeIn disk range).linkAt^[q] entry.firstCluster.toNat))
    (hreads : Accepted disk log
      ((volumeIn disk range).readsFrom (entry.readLength bufSize) entry.firstCluster (entry.readLength bufSize)))
    (hroom : wholeSectors (entry.readLength bufSize) ≤ buf.room) :
    ∃ buf' log', readFile disk fs entry buf bufSize log = .ok (.ok (), buf') log' ∧
      buf'.bytes.bytes 0 (entry.readLength bufSize) = ((volumeIn disk range).chainBytes entry.firstCluster.toNat
          ((volumeIn disk range).clustersFor (entry.readLength bufSize))).take (entry.readLength bufSize) := by
  have hmounted := hfs.mounted
  have hsize := Volume.clusterSize_pos hmounted.isFat32
  -- Each byte of the file that is asked for is in one of the clusters that the chain has.
  have hbyte : ∀ p < entry.readLength bufSize, ∀ i ≤ p / (volumeIn disk range).clusterSize,
      (volumeIn disk range).HasCluster range.lastSector
        ((volumeIn disk range).linkAt^[i] entry.firstCluster.toNat) := by
    intro p hp i hi
    refine hchain i (Nat.lt_of_le_of_lt hi ?_)
    rw [Nat.div_lt_iff_lt_mul hsize]
    exact Nat.lt_of_lt_of_le hp (Volume.le_clustersFor_mul hsize)
  obtain ⟨buf', log', hrun, hbytes, -⟩ := readFileLoop_complete hmounted (Nat.le_refl _) hreads
    (fun p hp => by rw [Volume.fileByte_of_clusters (hbyte p hp)]; rfl)
    (show 0 + wholeSectors (entry.readLength bufSize) ≤ buf.room by omega)
  refine ⟨buf', log', ?_, ?_⟩
  · rw [readFile, if_neg hfile]
    exact hrun
  · rw [take_chainBytes hsize]
    apply List.map_congr_left
    intro p hp
    have hlt := List.mem_range.mp hp
    have heq := hbytes p hlt
    rw [Volume.fileByte_of_clusters (hbyte p hlt)] at heq
    exact (Option.some.inj heq).symm

/-- A disk without faults that starts with a small volume: clusters of one sector from sector 2 on, behind the boot
sector and one sector of links. -/
def smallDisk (links : List (Nat × UInt32)) (clusters : List (Nat × Bytes)) : Disk where
  image := ([(11, u16ToLe 512 ++ [1] ++ u16ToLe 1 ++ [1]), (36, u32ToLe 1), (44, u32ToLe 2)] ++
      links.map (fun (link : Nat × UInt32) => (512 + 4 * link.1, u32ToLe link.2)) ++
      clusters.map (fun (cluster : Nat × Bytes) => (cluster.1 * 512, cluster.2))).foldl (fun image (part : Nat × Bytes) =>
        image.put part.1 part.2.length fun k => part.2.getD k 0) fun _ => 0
  accepts _ _ := true

def smallRange : SectorRange := ⟨0, 63⟩

theorem accepted_smallDisk (links : List (Nat × UInt32)) (clusters : List (Nat × Bytes)) (log reads : List DiskRead) :
    Accepted (smallDisk links clusters) log reads := by
  induction reads generalizing log with
  | nil => trivial
  | cons read reads ih => exact ⟨rfl, ih _⟩

theorem exists_handle {disk : Disk} {range : SectorRange} {log : List DiskRead}
    (ha : disk.accepts log ⟨range.firstSector, 512⟩ = true) (hfat : (volumeIn disk range).IsFat32) :
    ∃ fs, HandleOf disk range fs := by
  obtain ⟨fs, hopen, -⟩ := openFat32_complete bootMemory.fs ha hfat
  exact ⟨fs, _, fs, _, _, hopen, rfl⟩

/-- A file of one sector and one byte that starts in cluster 4 and ends in cluster 3. -/
def fragmentedDisk : Disk := smallDisk [(4, 3), (3, 0x0FFFFFFF)] [(4, [0x4D]), (3, [0x5A])]

def fragmentedFile : DirEntry := ⟨bootx64Name, 0x20, 0, 4, 513⟩

theorem fragmented_file_is_read : ∃ fs buf log, HandleOf fragmentedDisk smallRange fs ∧
    readFile fragmentedDisk fs fragmentedFile ⟨fun _ => 0, 1024⟩ 513 [] = .ok (.ok (), buf) log ∧
    buf.bytes.bytes 0 513 = ((volumeIn fragmentedDisk smallRange).chainBytes 4 2).take 513 := by
  have hlength : fragmentedFile.readLength 513 = 513 := by decide
  have hcount : (volumeIn fragmentedDisk smallRange).clustersFor 513 = 2 := by decide
  have hfirst : fragmentedFile.firstCluster.toNat = 4 := by decide
  obtain ⟨fs, hfs⟩ := @exists_handle fragmentedDisk smallRange [] rfl (by decide)
  obtain ⟨buf, log, hrun, hbytes⟩ := file_is_read fragmentedDisk smallRange fs fragmentedFile
    ⟨fun _ => 0, 1024⟩ 513 [] hfs (by decide) (by rw [hlength, hcount, hfirst]; decide)
    (accepted_smallDisk _ _ _ _) (by rw [hlength]; decide)
  rw [hlength, hcount, hfirst] at hbytes
  exact ⟨fs, buf, log, hfs, hrun, hbytes⟩

end FerrumVM.Boot
