import FerrumVM.BootDisk

/-! A FAT32 volume as the bytes of the disk describe it, and the search of the firmware on it: the search finds a
record exactly if the volume has it first under its name, and makes exactly the reads that lie on the way. -/

namespace FerrumVM.Boot

open Base Program

variable {reads : List DiskRead}

theorem DirEntry.ofRecord_congr {b b' : ByteMap} {offset : Nat} (h : ∀ k < 32, b (offset + k) = b' (offset + k)) :
    ofRecord b offset = ofRecord b' offset := by
  have hbytes : ∀ start count, start + count ≤ 32 →
      b.bytes (offset + start) count = b'.bytes (offset + start) count := by
    intro start count hle
    apply ByteMap.bytes_congr
    intro k hk
    rw [Nat.add_assoc]
    exact h (start + k) (by omega)
  unfold ofRecord ByteMap.u16 ByteMap.u32
  rw [h 11 (by omega), hbytes 20 2 (by omega), hbytes 26 2 (by omega), hbytes 28 4 (by omega)]
  rw [show b.bytes offset 11 = b'.bytes offset 11 from hbytes 0 11 (by omega)]

/-! ### Reads -/

def Accepted (disk : Disk) : (log reads : List DiskRead) → Prop
  | _, [] => True
  | log, read :: reads => disk.accepts log read = true ∧ Accepted disk (log ++ [read]) reads

section Reads

variable {disk : Disk} {log : List DiskRead} {read : DiskRead}

theorem accepted_append {reads' : List DiskRead} :
    Accepted disk log (reads ++ reads') ↔ Accepted disk log reads ∧ Accepted disk (log ++ reads) reads' := by
  induction reads generalizing log with
  | nil => simp [Accepted]
  | cons read reads ih => rw [List.cons_append, Accepted, Accepted, ih, and_assoc, List.append_assoc,
      List.singleton_append]

theorem virtioBlkRead_of_accepted (h : disk.accepts log read = true) :
    virtioBlkRead disk read.sector read.length log =
      .ok (some (disk.image.shift (read.sector.toNat * 512))) (log ++ [read]) := by
  show EStateM.Result.ok (if disk.accepts log read then _ else _) _ = _
  rw [if_pos h]

theorem virtioBlkRead_of_refused (h : ¬disk.accepts log read = true) :
    virtioBlkRead disk read.sector read.length log = .ok none (log ++ [read]) := by
  show EStateM.Result.ok (if disk.accepts log read then _ else _) _ = _
  rw [if_neg h]

end Reads

/-! ### The volume -/

/-- A volume that starts at a sector of a disk. Its sector numbers have 32 bits. -/
structure Volume where
  image : ByteMap
  firstSector : UInt64

namespace Volume

variable (vol : Volume)

def fat : Fat32Bpb := .ofSector (vol.image.shift (vol.firstSector.toNat * 512))

def IsFat32 : Prop := vol.fat.bytesPerSector = 512 ∧ vol.fat.sectorsPerCluster ≠ 0

instance : Decidable vol.IsFat32 := inferInstanceAs (Decidable (_ ∧ _))

def clusterSize : Nat := vol.fat.sectorsPerCluster.toNat * 512

def dataStart : UInt32 := vol.fat.reservedSectors.toUInt32 + vol.fat.numFats.toUInt32 * vol.fat.fatSize

def clusterLba (cluster : UInt32) : UInt32 := vol.dataStart + (cluster - 2) * vol.fat.sectorsPerCluster.toUInt32

def clusterRead (cluster : UInt32) (length : Nat) : DiskRead :=
  ⟨vol.firstSector + (vol.clusterLba cluster).toUInt64, length⟩

def clusterBytes (cluster : UInt32) : ByteMap := vol.image.shift ((vol.clusterRead cluster 0).sector.toNat * 512)

def linkRead (cluster : UInt32) : DiskRead :=
  ⟨vol.firstSector + (vol.fat.reservedSectors.toUInt32 + cluster * 4 / 512).toUInt64, 512⟩

def link (cluster : UInt32) : UInt32 :=
  (vol.image.shift ((vol.linkRead cluster).sector.toNat * 512)).u32 (cluster * 4 % 512).toNat &&& 0x0FFFFFFF

def records : Nat := vol.clusterSize / 32

def record (cluster : UInt32) (k : Nat) : DirEntry := .ofRecord (vol.clusterBytes cluster) (k * 32)

/-- The first cluster of a directory; the root stands under no number. -/
def directory (entry : DirEntry) : UInt32 := if entry.firstCluster = 0 then vol.fat.rootCluster else entry.firstCluster

end Volume

/-- From record `k` of a cluster on, the next record that is not part of a long name, with the position after it, the
clusters that are entered on the way and the reads that enter them. -/
inductive Next (vol : Volume) : (cluster : UInt32) → (k : Nat) → DirEntry → (cluster' : UInt32) → (k' : Nat) →
    (visited : List UInt32) → (reads : List DiskRead) → Prop
  | here {cluster : UInt32} {k : Nat} (hk : k < vol.records) (hend : (vol.record cluster k).firstChar ≠ 0x00)
      (hattr : (vol.record cluster k).attr ≠ 0x0F) :
      Next vol cluster k (vol.record cluster k) cluster (k + 1) [] []
  | long {cluster cluster' : UInt32} {k k' : Nat} {entry : DirEntry} {visited : List UInt32} {reads : List DiskRead}
      (hk : k < vol.records) (hend : (vol.record cluster k).firstChar ≠ 0x00)
      (hattr : (vol.record cluster k).attr = 0x0F)
      (hrest : Next vol cluster (k + 1) entry cluster' k' visited reads) :
      Next vol cluster k entry cluster' k' visited reads
  | link {cluster cluster' : UInt32} {k k' : Nat} {entry : DirEntry} {visited : List UInt32} {reads : List DiskRead}
      (hk : vol.records ≤ k) (hlink : vol.link cluster < 0x0FFFFFF8)
      (hrest : Next vol (vol.link cluster) 0 entry cluster' k' visited reads) :
      Next vol cluster k entry cluster' k' (vol.link cluster :: visited)
        (vol.linkRead cluster :: vol.clusterRead (vol.link cluster) vol.clusterSize :: reads)

inductive FirstIn (vol : Volume) (name : Bytes) : (cluster : UInt32) → (k : Nat) → DirEntry →
    (visited : List UInt32) → (reads : List DiskRead) → Prop
  | found {cluster cluster' : UInt32} {k k' : Nat} {entry : DirEntry} {visited : List UInt32} {reads : List DiskRead}
      (hnext : Next vol cluster k entry cluster' k' visited reads) (hname : entry.name = name) :
      FirstIn vol name cluster k entry visited reads
  | other {cluster cluster' : UInt32} {k k' : Nat} {entry entry' : DirEntry} {visited visited' : List UInt32}
      {reads reads' : List DiskRead}
      (hnext : Next vol cluster k entry' cluster' k' visited reads) (hname : entry'.name ≠ name)
      (hrest : FirstIn vol name cluster' k' entry visited' reads') :
      FirstIn vol name cluster k entry (visited ++ visited') (reads ++ reads')

/-- A path of names leads from the directory at a cluster to a record. -/
inductive PathTo (vol : Volume) : (names : List Bytes) → (cluster : UInt32) → DirEntry →
    (visited : List UInt32) → (reads : List DiskRead) → Prop
  | last {name : Bytes} {cluster : UInt32} {entry : DirEntry} {visited : List UInt32} {reads : List DiskRead}
      (hfirst : FirstIn vol name cluster 0 entry visited reads) :
      PathTo vol [name] cluster entry (cluster :: visited) (vol.clusterRead cluster vol.clusterSize :: reads)
  | step {name : Bytes} {names : List Bytes} {cluster : UInt32} {dir entry : DirEntry} {visited visited' : List UInt32}
      {reads reads' : List DiskRead}
      (hfirst : FirstIn vol name cluster 0 dir visited reads) (hdir : dir.isDirectory)
      (hrest : PathTo vol names (vol.directory dir) entry visited' reads') :
      PathTo vol (name :: names) cluster entry (cluster :: visited ++ visited')
        (vol.clusterRead cluster vol.clusterSize :: reads ++ reads')

/-! ### What is found is unique -/

section Unique

variable {vol : Volume} {name : Bytes} {cluster cluster1 cluster2 : UInt32} {k k1 k2 : Nat} {entry1 entry2 : DirEntry}
  {visited1 visited2 : List UInt32} {reads1 reads2 : List DiskRead}

theorem Next.unique (h1 : Next vol cluster k entry1 cluster1 k1 visited1 reads1)
    (h2 : Next vol cluster k entry2 cluster2 k2 visited2 reads2) :
    entry1 = entry2 ∧ cluster1 = cluster2 ∧ k1 = k2 ∧ visited1 = visited2 ∧ reads1 = reads2 := by
  induction h1 generalizing visited2 reads2 with
  | here hk hend hattr =>
    cases h2 with
    | here => exact ⟨rfl, rfl, rfl, rfl, rfl⟩
    | long _ _ hattr' => exact absurd hattr' hattr
    | link hk' => exact absurd hk' (by omega)
  | long hk hend hattr _ ih =>
    cases h2 with
    | here _ _ hattr' => exact absurd hattr hattr'
    | long _ _ _ hrest => exact ih hrest
    | link hk' => exact absurd hk' (by omega)
  | link hk hlink _ ih =>
    cases h2 with
    | here hk' => exact absurd hk (by omega)
    | long hk' => exact absurd hk (by omega)
    | link _ _ hrest =>
      obtain ⟨rfl, rfl, rfl, rfl, rfl⟩ := ih hrest
      exact ⟨rfl, rfl, rfl, rfl, rfl⟩

theorem FirstIn.unique (h1 : FirstIn vol name cluster k entry1 visited1 reads1)
    (h2 : FirstIn vol name cluster k entry2 visited2 reads2) :
    entry1 = entry2 ∧ visited1 = visited2 ∧ reads1 = reads2 := by
  induction h1 generalizing visited2 reads2 with
  | found hnext hname =>
    cases h2 with
    | found hnext' =>
      obtain ⟨rfl, -, -, rfl, rfl⟩ := hnext.unique hnext'
      exact ⟨rfl, rfl, rfl⟩
    | other hnext' hname' =>
      obtain ⟨rfl, -⟩ := hnext.unique hnext'
      exact absurd hname hname'
  | other hnext hname _ ih =>
    cases h2 with
    | found hnext' hname' =>
      obtain ⟨rfl, -⟩ := hnext.unique hnext'
      exact absurd hname' hname
    | other hnext' _ hrest =>
      obtain ⟨-, rfl, rfl, rfl, rfl⟩ := hnext.unique hnext'
      obtain ⟨rfl, rfl, rfl⟩ := ih hrest
      exact ⟨rfl, rfl, rfl⟩

theorem PathTo.unique {names : List Bytes} (h1 : PathTo vol names cluster entry1 visited1 reads1)
    (h2 : PathTo vol names cluster entry2 visited2 reads2) :
    entry1 = entry2 ∧ visited1 = visited2 ∧ reads1 = reads2 := by
  induction h1 generalizing visited2 reads2 with
  | last hfirst =>
    cases h2 with
    | last hfirst' =>
      obtain ⟨rfl, rfl, rfl⟩ := hfirst.unique hfirst'
      exact ⟨rfl, rfl, rfl⟩
    | step _ _ hrest => cases hrest
  | step hfirst _ hrest ih =>
    cases h2 with
    | last => cases hrest
    | step hfirst' _ hrest' =>
      obtain ⟨rfl, rfl, rfl⟩ := hfirst.unique hfirst'
      obtain ⟨rfl, rfl, rfl⟩ := ih hrest'
      exact ⟨rfl, rfl, rfl⟩

end Unique

/-! ### The handle -/

structure Mounted (disk : Disk) (vol : Volume) (fs : Fat32Handle) : Prop where
  image : vol.image = disk.image
  isFat32 : vol.IsFat32
  fat : fs.fat = vol.fat
  firstSector : fs.range.firstSector = vol.firstSector
  dataStart : fs.dataStartLba = vol.dataStart
  clusterSize : fs.clusterSize.toNat = vol.clusterSize

/-- A cluster of a directory is in the buffer, and the next record to look at is record `k`. -/
structure Opened (disk : Disk) (vol : Volume) (fs : Fat32Handle) (cluster : UInt32) (k : Nat) : Prop
    extends Mounted disk vol fs where
  room : vol.clusterSize ≤ 32768
  bytes : ∀ o < vol.clusterSize, fs.clusterBuf o = vol.clusterBytes cluster o
  cluster : fs.currentCluster = cluster
  index : fs.entryIndex.toNat = k

section Handle

variable {disk : Disk} {vol : Volume} {fs : Fat32Handle} {cluster : UInt32} {k : Nat} {log : List DiskRead}
  {entry : DirEntry} {visited : List UInt32}

namespace Mounted

section

variable (h : Mounted disk vol fs)
include h

theorem sector (cluster : UInt32) :
    fs.range.firstSector + (clusterToLba fs cluster).toUInt64 = (vol.clusterRead cluster 0).sector := by
  rw [clusterToLba, h.firstSector, h.dataStart, h.fat]
  rfl

theorem bytesPerSector : fs.fat.bytesPerSector = 512 := by
  rw [h.fat, h.isFat32.1]

theorem length : fs.fat.sectorsPerCluster.toNat * fs.fat.bytesPerSector.toNat = vol.clusterSize := by
  rw [h.bytesPerSector, h.fat]
  rfl

theorem read_of_accepted {length : Nat} (ha : disk.accepts log (vol.clusterRead cluster length) = true) :
    virtioBlkRead disk (fs.range.firstSector + (clusterToLba fs cluster).toUInt64) length log =
      .ok (some (vol.clusterBytes cluster)) (log ++ [vol.clusterRead cluster length]) := by
  rw [h.sector, Volume.clusterBytes, h.image]
  exact virtioBlkRead_of_accepted ha

theorem read_of_refused {length : Nat} (ha : ¬disk.accepts log (vol.clusterRead cluster length) = true) :
    virtioBlkRead disk (fs.range.firstSector + (clusterToLba fs cluster).toUInt64) length log =
      .ok none (log ++ [vol.clusterRead cluster length]) := by
  rw [h.sector]
  exact virtioBlkRead_of_refused ha

theorem linkSector (cluster : UInt32) : fs.range.firstSector + (fs.fat.reservedSectors.toUInt32 +
      cluster * 4 / fs.fat.bytesPerSector.toUInt32).toUInt64 = (vol.linkRead cluster).sector := by
  rw [h.bytesPerSector, h.firstSector, h.fat]
  rfl

theorem readFatEntry_of_accepted (ha : disk.accepts log (vol.linkRead cluster) = true) :
    readFatEntry disk fs cluster log = .ok (.ok (vol.link cluster)) (log ++ [vol.linkRead cluster]) := by
  have hread : virtioBlkRead disk (vol.linkRead cluster).sector 512 log = _ := virtioBlkRead_of_accepted ha
  unfold readFatEntry
  simp only [h.linkSector]
  rw [bind_of_ok hread, Volume.link, h.image, h.bytesPerSector]
  rfl

theorem readFatEntry_of_refused (ha : ¬disk.accepts log (vol.linkRead cluster) = true) :
    readFatEntry disk fs cluster log = .ok (.error .ioError) (log ++ [vol.linkRead cluster]) := by
  have hread : virtioBlkRead disk (vol.linkRead cluster).sector 512 log = _ := virtioBlkRead_of_refused ha
  unfold readFatEntry
  simp only [h.linkSector]
  rw [bind_of_ok hread]
  rfl

theorem loadCluster_of_refused (ha : ¬disk.accepts log (vol.clusterRead cluster vol.clusterSize) = true) :
    loadCluster disk fs cluster log = .ok (.error .ioError) (log ++ [vol.clusterRead cluster vol.clusterSize]) := by
  unfold loadCluster
  rw [h.length, bind_of_ok (h.read_of_refused ha)]
  rfl

section

variable (ha : disk.accepts log (vol.clusterRead cluster vol.clusterSize) = true)
include ha

theorem loadCluster_of_large (hlarge : 32768 < vol.clusterSize) : loadCluster disk fs cluster log =
      .error (.panic (.message "cluster_buf")) (log ++ [vol.clusterRead cluster vol.clusterSize]) := by
  unfold loadCluster
  rw [h.length, bind_of_ok (h.read_of_accepted ha)]
  dsimp only
  rw [if_pos hlarge]
  rfl

theorem loadCluster_of_accepted (hroom : vol.clusterSize ≤ 32768) :
    ∃ fs', loadCluster disk fs cluster log = .ok (.ok fs') (log ++ [vol.clusterRead cluster vol.clusterSize]) ∧
      Opened disk vol fs' cluster 0 := by
  unfold loadCluster
  rw [h.length, bind_of_ok (h.read_of_accepted ha)]
  dsimp only
  rw [if_neg (by omega)]
  refine ⟨_, rfl, { h with room := hroom, bytes := ?_, cluster := rfl, index := rfl }⟩
  intro o ho
  exact ByteMap.put_of_inside ⟨by omega, by omega⟩

end

end

end Mounted

/-- A `char` is never `0xE5`, so records that are deleted are not passed over. -/
theorem DirEntry.firstChar_ne_deleted (entry : DirEntry) : entry.firstChar ≠ 0xE5 := by
  have hlt := (entry.name.headD 0).toNat_lt
  unfold firstChar
  dsimp only
  split_ifs <;> omega

namespace Opened

section

variable (h : Opened disk vol fs cluster k)
include h

theorem index_lt_iff : fs.entryIndex < fs.clusterSize / 32 ↔ k < vol.records := by
  rw [UInt32.lt_iff_toNat_lt, UInt32.toNat_div, h.index, h.clusterSize]
  rfl

theorem ofRecord_eq (hk : k < vol.records) :
    DirEntry.ofRecord fs.clusterBuf (fs.entryIndex.toNat * 32) = vol.record cluster k := by
  rw [h.index]
  apply DirEntry.ofRecord_congr
  intro j hj
  apply h.bytes
  rw [Volume.records] at hk
  omega

theorem advance (hk : k < vol.records) :
    Opened disk vol { fs with entryIndex := fs.entryIndex + 1 } cluster (k + 1) := by
  have hroom := h.room
  rw [Volume.records] at hk
  have hindex : (fs.entryIndex + 1).toNat = k + 1 := by
    rw [UInt32.toNat_add, h.index]
    change (k + 1) % 2 ^ 32 = k + 1
    omega
  exact { h with index := hindex }

end

/-! One round of `next_dir_entry`. -/

theorem nextDirEntry_of_record (h : Opened disk vol fs cluster k) (hk : k < vol.records) (fuel : Nat) :
    nextDirEntry disk (fuel + 1) fs =
      if (vol.record cluster k).firstChar = 0x00 then
        pure (.error .endOfDir, { fs with entryIndex := fs.entryIndex + 1 })
      else if (vol.record cluster k).attr = 0x0F then
        nextDirEntry disk fuel { fs with entryIndex := fs.entryIndex + 1 }
      else pure (.ok (vol.record cluster k), { fs with entryIndex := fs.entryIndex + 1 }) := by
  rw [nextDirEntry, if_pos (h.index_lt_iff.mpr hk)]
  simp only [h.ofRecord_eq hk, if_neg (DirEntry.firstChar_ne_deleted _)]

theorem nextDirEntry_of_link (h : Opened disk vol fs cluster k) (hk : vol.records ≤ k) (fuel : Nat) :
    nextDirEntry disk (fuel + 1) fs = (do
      match ← readFatEntry disk fs cluster with
      | .error status => return (.error status, fs)
      | .ok nextCluster =>
        if 0x0FFFFFF8 ≤ nextCluster then return (.error .endOfDir, fs)
        else
          match ← loadCluster disk fs nextCluster with
          | .error status => return (.error status, fs)
          | .ok fs => nextDirEntry disk fuel fs) := by
  have hindex : ¬fs.entryIndex < fs.clusterSize / 32 := by
    rw [h.index_lt_iff]
    omega
  rw [nextDirEntry, ← h.cluster]
  exact if_neg hindex

end Opened

/-! ### The search -/

theorem nextDirEntry_sound (h : Opened disk vol fs cluster k) (fuel : Nat) : wp (nextDirEntry disk fuel fs)
      (fun result log' => ∀ entry, result.1 = .ok entry → ∃ cluster' k' visited reads,
        Next vol cluster k entry cluster' k' visited reads ∧ Accepted disk log reads ∧ log' = log ++ reads ∧
          Opened disk vol result.2 cluster' k') (fun e _ => e = .outOfFuel) log := by
  induction fuel generalizing fs cluster k log with
  | zero => exact rfl
  | succ fuel ih =>
    by_cases hk : k < vol.records
    · rw [h.nextDirEntry_of_record hk]
      split_ifs with hend hattr
      · exact nofun
      · refine wp_mono ?_ (fun _ _ he => he) (ih (h.advance hk))
        intro result log' hresult entry hentry
        obtain ⟨cluster', k', visited, reads, hnext, hrest⟩ := hresult entry hentry
        exact ⟨cluster', k', visited, reads, .long hk hend hattr hnext, hrest⟩
      · rintro entry ⟨⟩
        exact ⟨cluster, k + 1, [], [], .here hk hend hattr, trivial, (List.append_nil log).symm, h.advance hk⟩
    · have hk : vol.records ≤ k := Nat.le_of_not_lt hk
      rw [h.nextDirEntry_of_link hk, wp_bind]
      by_cases halink : disk.accepts log (vol.linkRead cluster) = true
      · rw [wp_of_ok (h.readFatEntry_of_accepted halink)]
        dsimp only
        split_ifs with hlink
        · exact nofun
        · rw [wp_bind]
          by_cases ha : disk.accepts (log ++ [vol.linkRead cluster])
              (vol.clusterRead (vol.link cluster) vol.clusterSize) = true
          · obtain ⟨fs', hload, hopened⟩ := h.loadCluster_of_accepted ha h.room
            rw [wp_of_ok hload]
            refine wp_mono ?_ (fun _ _ he => he) (ih hopened)
            intro result log' hresult entry hentry
            obtain ⟨cluster', k', visited, reads, hnext, haccepted, rfl, hopened'⟩ := hresult entry hentry
            refine ⟨cluster', k', _, _, .link hk (UInt32.not_le.mp hlink) hnext, ⟨halink, ha, haccepted⟩, ?_,
              hopened'⟩
            rw [List.append_assoc, List.append_assoc]
            rfl
          · rw [wp_of_ok (h.loadCluster_of_refused ha)]
            exact nofun
      · rw [wp_of_ok (h.readFatEntry_of_refused halink)]
        exact nofun

theorem nextDirEntry_complete {cluster' : UInt32} {k' : Nat}
    (hnext : Next vol cluster k entry cluster' k' visited reads)
    (h : Opened disk vol fs cluster k) (ha : Accepted disk log reads) : ∃ n fs', Opened disk vol fs' cluster' k' ∧
      ∀ fuel, n ≤ fuel → nextDirEntry disk fuel fs log = .ok (.ok entry, fs') (log ++ reads) := by
  induction hnext generalizing fs log with
  | here hk hend hattr =>
    refine ⟨1, _, h.advance hk, ?_⟩
    intro fuel hfuel
    obtain ⟨fuel, rfl⟩ := Nat.exists_eq_add_of_le' hfuel
    rw [h.nextDirEntry_of_record hk, if_neg hend, if_neg hattr, List.append_nil]
    rfl
  | long hk hend hattr _ ih =>
    obtain ⟨n, fs', hopened, hrun⟩ := ih (h.advance hk) ha
    refine ⟨n + 1, fs', hopened, ?_⟩
    intro fuel hfuel
    obtain ⟨fuel, rfl⟩ : ∃ m, fuel = m + 1 := ⟨fuel - 1, by omega⟩
    rw [h.nextDirEntry_of_record hk, if_neg hend, if_pos hattr]
    exact hrun fuel (by omega)
  | link hk hlink _ ih =>
    obtain ⟨halink, hacluster, ha⟩ := ha
    obtain ⟨fs1, hload, hopened1⟩ := h.loadCluster_of_accepted hacluster h.room
    obtain ⟨n, fs', hopened, hrun⟩ := ih hopened1 ha
    refine ⟨n + 1, fs', hopened, ?_⟩
    intro fuel hfuel
    obtain ⟨fuel, rfl⟩ : ∃ m, fuel = m + 1 := ⟨fuel - 1, by omega⟩
    rw [h.nextDirEntry_of_link hk, bind_of_ok (h.readFatEntry_of_accepted halink)]
    dsimp only
    rw [if_neg (UInt32.not_le.mpr hlink), bind_of_ok hload]
    exact (hrun fuel (by omega)).trans (by rw [List.append_assoc, List.append_assoc]; rfl)

theorem Next.length_name {cluster' : UInt32} {k' : Nat}
    (h : Next vol cluster k entry cluster' k' visited reads) : entry.name.length = 11 := by
  induction h with
  | here => exact ByteMap.length_bytes
  | long _ _ _ _ ih => exact ih
  | link _ _ _ ih => exact ih

section Name

variable {name : Bytes} (hlength : name.length = 11)
include hlength

theorem findInDir_sound (h : Opened disk vol fs cluster k) (fuel : Nat) : wp (findInDir disk name fuel fs)
      (fun result log' => ∀ entry, result.1 = .ok entry → ∃ visited reads,
        FirstIn vol name cluster k entry visited reads ∧ Accepted disk log reads ∧ log' = log ++ reads ∧
          Mounted disk vol result.2) (fun e _ => e = .outOfFuel) log := by
  induction fuel generalizing fs cluster k log with
  | zero => exact rfl
  | succ fuel ih =>
    rw [findInDir, wp_bind]
    refine wp_mono ?_ (fun _ _ he => he) (nextDirEntry_sound h fuel)
    rintro ⟨result, fs'⟩ log' hresult
    cases result with
    | error status => exact nofun
    | ok entry =>
      obtain ⟨cluster', k', visited, reads, hnext, ha, rfl, hopened⟩ := hresult entry rfl
      have hcmp := memcmp_eq_zero_iff (hnext.length_name.trans hlength.symm)
      dsimp only
      split_ifs with hname
      · rintro _ ⟨⟩
        exact ⟨visited, reads, .found hnext (hcmp.mp hname), ha, rfl, hopened.toMounted⟩
      · refine wp_mono ?_ (fun _ _ he => he) (ih hopened)
        intro result log' hresult entry hentry
        obtain ⟨visited', reads', hfirst, ha', rfl, hmounted⟩ := hresult entry hentry
        exact ⟨_, _, .other hnext (fun heq => hname (hcmp.mpr heq)) hfirst, accepted_append.mpr ⟨ha, ha'⟩,
          List.append_assoc _ _ _, hmounted⟩

theorem findInDir_complete
    (hfirst : FirstIn vol name cluster k entry visited reads) (h : Opened disk vol fs cluster k)
    (ha : Accepted disk log reads) : ∃ n fs', Mounted disk vol fs' ∧
      ∀ fuel, n ≤ fuel → findInDir disk name fuel fs log = .ok (.ok entry, fs') (log ++ reads) := by
  induction hfirst generalizing fs log with
  | found hnext hname =>
    obtain ⟨n, fs', hopened, hrun⟩ := nextDirEntry_complete hnext h ha
    refine ⟨n + 1, fs', hopened.toMounted, ?_⟩
    intro fuel hfuel
    obtain ⟨fuel, rfl⟩ : ∃ m, fuel = m + 1 := ⟨fuel - 1, by omega⟩
    rw [findInDir, bind_of_ok (hrun fuel (by omega))]
    dsimp only
    rw [if_pos ((memcmp_eq_zero_iff (hnext.length_name.trans hlength.symm)).mpr hname)]
    rfl
  | other hnext hname _ ih =>
    obtain ⟨ha, ha'⟩ := accepted_append.mp ha
    obtain ⟨n, fs1, hopened, hrun⟩ := nextDirEntry_complete hnext h ha
    obtain ⟨n', fs', hmounted, hrun'⟩ := ih hopened ha'
    refine ⟨n + n' + 1, fs', hmounted, ?_⟩
    intro fuel hfuel
    obtain ⟨fuel, rfl⟩ : ∃ m, fuel = m + 1 := ⟨fuel - 1, by omega⟩
    rw [findInDir, bind_of_ok (hrun fuel (by omega))]
    dsimp only
    rw [if_neg fun hcmp => hname ((memcmp_eq_zero_iff (hnext.length_name.trans hlength.symm)).mp hcmp),
      hrun' fuel (by omega), List.append_assoc]

theorem level_sound {Q : Except BootError DirEntry × Fat32Handle → List DiskRead → Prop} {fuel : Nat}
    {next : DirEntry → Fat32Handle → DiskProgram (Except BootError DirEntry × Fat32Handle)} (h : Mounted disk vol fs)
    (hroom : disk.accepts log (vol.clusterRead cluster vol.clusterSize) = true → vol.clusterSize ≤ 32768)
    (hfail : ∀ status fs' log', Q (.error status, fs') log')
    (hnext : ∀ entry fs' visited reads, FirstIn vol name cluster 0 entry visited reads →
      Accepted disk log (vol.clusterRead cluster vol.clusterSize :: reads) → Mounted disk vol fs' →
      vol.clusterSize ≤ 32768 →
      wp (next entry fs') Q (fun e _ => e = .outOfFuel) (log ++ vol.clusterRead cluster vol.clusterSize :: reads)) :
    wp (do
      match ← loadCluster disk fs cluster with
      | .error _ => return (.error .ioError, fs)
      | .ok fs =>
        match ← findInDir disk name fuel fs with
        | (.error _, fs) => return (.error .notADirectory, fs)
        | (.ok entry, fs) => next entry fs) Q (fun e _ => e = .outOfFuel) log := by
  rw [wp_bind]
  by_cases ha : disk.accepts log (vol.clusterRead cluster vol.clusterSize) = true
  · obtain ⟨fs', hload, hopened⟩ := h.loadCluster_of_accepted ha (hroom ha)
    rw [wp_of_ok hload]
    dsimp only
    rw [wp_bind]
    refine wp_mono ?_ (fun _ _ he => he) (findInDir_sound hlength hopened fuel)
    rintro ⟨result, fs''⟩ log' hresult
    cases result with
    | error status => exact hfail _ _ _
    | ok entry =>
      obtain ⟨visited, reads, hfirst, haccepted, rfl, hmounted⟩ := hresult entry rfl
      rw [List.append_assoc]
      exact hnext entry fs'' visited reads hfirst ⟨ha, haccepted⟩ hmounted (hroom ha)
  · rw [wp_of_ok (h.loadCluster_of_refused ha)]
    exact hfail _ _ _

theorem level_complete (hfirst : FirstIn vol name cluster 0 entry visited reads) (h : Mounted disk vol fs)
    (hroom : vol.clusterSize ≤ 32768) (ha : Accepted disk log (vol.clusterRead cluster vol.clusterSize :: reads)) :
    ∃ n fs1 fs', loadCluster disk fs cluster log = .ok (.ok fs1) (log ++ [vol.clusterRead cluster vol.clusterSize]) ∧
      Mounted disk vol fs' ∧ ∀ fuel, n ≤ fuel →
        findInDir disk name fuel fs1 (log ++ [vol.clusterRead cluster vol.clusterSize]) =
          .ok (.ok entry, fs') (log ++ vol.clusterRead cluster vol.clusterSize :: reads) := by
  obtain ⟨fs1, hload, hopened⟩ := h.loadCluster_of_accepted ha.1 hroom
  obtain ⟨n, fs', hmounted, hrun⟩ := findInDir_complete hlength hfirst hopened ha.2
  refine ⟨n, fs1, fs', hload, hmounted, ?_⟩
  intro fuel hfuel
  rw [hrun fuel hfuel, List.append_assoc, List.singleton_append]

end Name

theorem openRootDir_eq (h : Mounted disk vol fs) : openRootDir disk fs = loadCluster disk fs vol.fat.rootCluster := by
  rw [openRootDir, h.fat]

theorem openDirEntry_of_directory (h : Mounted disk vol fs) (hdir : entry.isDirectory) :
    openDirEntry disk fs entry = loadCluster disk fs (vol.directory entry) := by
  rw [openDirEntry, if_neg (not_not_intro hdir), h.fat]
  rfl

theorem openDirEntry_of_file (hdir : ¬entry.isDirectory) :
    openDirEntry disk fs entry = pure (.error .notADirectory) := by
  rw [openDirEntry, if_pos hdir]

/-- `\EFI\BOOT\BOOTX64.EFI`. -/
def bootPath : List Bytes := [efiName, bootName, bootx64Name]

/-- **The search is right.** A record that `find_efi_bootx64` returns is at the end of the path on the volume. -/
theorem findEfiBootx64_sound (h : Mounted disk vol fs) (fuel : Nat)
    (hroom : disk.accepts log (vol.clusterRead vol.fat.rootCluster vol.clusterSize) = true →
      vol.clusterSize ≤ 32768) : wp (findEfiBootx64 disk fuel fs)
      (fun result log' => ∀ entry, result.1 = .ok entry → ∃ visited reads,
        PathTo vol bootPath vol.fat.rootCluster entry visited reads ∧ Accepted disk log reads ∧
          log' = log ++ reads ∧ Mounted disk vol result.2) (fun e _ => e = .outOfFuel) log := by
  unfold findEfiBootx64
  rw [openRootDir_eq h]
  refine level_sound (show efiName.length = 11 from rfl) h hroom (fun _ _ _ => nofun) ?_
  intro efi fs visited reads hefi ha h hroom
  by_cases hdir : efi.isDirectory
  · rw [openDirEntry_of_directory h hdir]
    refine level_sound (show bootName.length = 11 from rfl) h (fun _ => hroom) (fun _ _ _ => nofun) ?_
    intro boot fs visited' reads' hboot ha' h hroom
    by_cases hdir' : boot.isDirectory
    · rw [openDirEntry_of_directory h hdir']
      refine level_sound (show bootx64Name.length = 11 from rfl) h (fun _ => hroom) (fun _ _ _ => nofun) ?_
      rintro entry fs visited'' reads'' hentry ha'' h hroom _ ⟨⟩
      refine ⟨_, _, .step hefi hdir (.step hboot hdir' (.last hentry)), ?_, ?_, h⟩
      · rw [accepted_append, accepted_append]
        exact ⟨ha, ha', ha''⟩
      · simp only [List.append_assoc, List.cons_append]
    · rw [openDirEntry_of_file hdir']
      exact nofun
  · rw [openDirEntry_of_file hdir]
    exact nofun

/-- **The search is complete.** It returns the record at the end of the path, if all on the way to it can be read. -/
theorem findEfiBootx64_complete
    (hpath : PathTo vol bootPath vol.fat.rootCluster entry visited reads) (h : Mounted disk vol fs)
    (hroom : vol.clusterSize ≤ 32768) (ha : Accepted disk log reads) :
    ∃ fuel fs', Mounted disk vol fs' ∧ findEfiBootx64 disk fuel fs log = .ok (.ok entry, fs') (log ++ reads) := by
  cases hpath with
  | step hefi hdir hrest =>
  cases hrest with
  | step hboot hdir' hrest =>
  cases hrest with
  | step _ _ hrest => cases hrest
  | last hentry =>
    rw [accepted_append, accepted_append] at ha
    obtain ⟨ha, ha', ha''⟩ := ha
    obtain ⟨n, fs1, fs2, hload, h2, hrun⟩ := level_complete (show efiName.length = 11 from rfl) hefi h hroom ha
    obtain ⟨n', fs3, fs4, hload', h4, hrun'⟩ :=
      level_complete (show bootName.length = 11 from rfl) hboot h2 hroom ha'
    obtain ⟨n'', fs5, fs6, hload'', h6, hrun''⟩ :=
      level_complete (show bootx64Name.length = 11 from rfl) hentry h4 hroom ha''
    refine ⟨n + n' + n'', fs6, h6, ?_⟩
    unfold findEfiBootx64
    rw [openRootDir_eq h, bind_of_ok hload]
    dsimp only
    rw [bind_of_ok (hrun _ (by omega))]
    dsimp only
    rw [openDirEntry_of_directory h2 hdir, bind_of_ok hload']
    dsimp only
    rw [bind_of_ok (hrun' _ (by omega))]
    dsimp only
    rw [openDirEntry_of_directory h4 hdir', bind_of_ok hload'']
    dsimp only
    rw [bind_of_ok (hrun'' _ (by omega))]
    simp only [List.append_assoc, List.cons_append]
    rfl

end Handle

end FerrumVM.Boot
