import FerrumVM.BaseWalk
import FerrumVM.BootSearch

/-! Chains with numbers that are no clusters of the volume, and what `read_file` and `next_dir_entry` of `disk/fat32.c`
do with them. Only end marks are looked for: any other number is a cluster to be read. -/

namespace FerrumVM.Boot

open Base Program

namespace Volume

variable (vol : Volume) (lastSector : UInt64)

/-- The number stands for no cluster: it is free, reserved, bad, or beyond the last cluster of the volume. -/
def IsCorrupt (cluster : UInt32) : Prop :=
  cluster = 0 ∨ cluster = 1 ∨ cluster = 0x0FFFFFF7 ∨ vol.clusterCount lastSector + 2 ≤ cluster.toNat

instance (cluster : UInt32) : Decidable (vol.IsCorrupt lastSector cluster) := inferInstanceAs (Decidable (_ ∨ _))

/-- The sectors of a read lie between the first sector of the data and the last sector of the partition. -/
def InDataArea (read : DiskRead) : Prop :=
  vol.firstSector.toNat + vol.dataStart.toNat ≤ read.sector.toNat ∧
    read.sector.toNat + read.length / 512 ≤ lastSector.toNat + 1

instance (read : DiskRead) : Decidable (vol.InDataArea lastSector read) := inferInstanceAs (Decidable (_ ∧ _))

end Volume

/-- Of reads that are of data and of the table in turns, those of data that succeed lie in an area. -/
def DataInside (disk : Disk) (area : DiskRead → Prop) : (isData : Bool) → (log reads : List DiskRead) → Prop
  | _, _, [] => True
  | isData, log, read :: reads =>
    (isData = true → disk.accepts log read = true → area read) ∧ DataInside disk area (!isData) (log ++ [read]) reads

/-! ### Files -/

/-- A round of `read_file`: the cluster it comes to, the bytes still to be read, and the reads before it. -/
structure FileRound where
  cluster : UInt32
  remaining : Nat
  log : List DiskRead

section File

variable (disk : Disk) (vol : Volume)

def FileRound.read (r : FileRound) : DiskRead :=
  vol.clusterRead r.cluster (wholeSectors (min r.remaining vol.clusterSize))

/-- The rounds of `read_file`: a round goes on to the next cluster, or fails because of a read or of an end mark that
comes too early. -/
def fileWalk : Walk FileRound where
  next r := ⟨vol.link r.cluster, r.remaining - vol.clusterSize, r.log ++ [r.read vol, vol.linkRead r.cluster]⟩
  go r := vol.clusterSize < r.remaining ∧ disk.accepts r.log (r.read vol) = true ∧
    disk.accepts (r.log ++ [r.read vol]) (vol.linkRead r.cluster) = true ∧ ¬0x0FFFFFF8 ≤ vol.link r.cluster
  fail r := 0 < r.remaining ∧ ¬disk.accepts r.log (r.read vol) = true ∨
    vol.clusterSize < r.remaining ∧ (¬disk.accepts (r.log ++ [r.read vol]) (vol.linkRead r.cluster) = true ∨
      0x0FFFFFF8 ≤ vol.link r.cluster)
  not_go_of_fail := by
    rintro r (⟨-, hrefused⟩ | ⟨-, hrefused | hend⟩) ⟨-, ha, halink, hlink⟩
    · exact hrefused ha
    · exact hrefused halink
    · exact hlink hend

def FileInside (area : DiskRead → Prop) (r : FileRound) : Prop :=
  0 < r.remaining → disk.accepts r.log (r.read vol) = true → area (r.read vol)

end File

/-- From a round on, wherever its bytes go to, an error is returned and data is read in an area only. -/
def FileDetects (disk : Disk) (fs : Fat32Handle) (area : DiskRead → Prop) (r : FileRound) : Prop :=
  ∀ rounds offset buf, r.remaining ≤ rounds → offset + wholeSectors r.remaining ≤ buf.room →
    ∃ status buf' reads, readFileLoop disk fs rounds r.cluster offset r.remaining buf r.log =
      .ok (.error status, buf') (r.log ++ reads) ∧ DataInside disk area true r.log reads

section FileRun

variable {disk : Disk} {vol : Volume} {fs : Fat32Handle} {area : DiskRead → Prop} {cluster : UInt32}
  {rounds offset remaining : Nat} {buf buf' : FileBuf} {log log' : List DiskRead} {status : BootError}

section

variable (hlt : vol.clusterSize < remaining)
include hlt

theorem le_wholeSectors : vol.clusterSize ≤ wholeSectors remaining := by
  unfold wholeSectors
  omega

theorem FileRound.read_of_lt :
    FileRound.read vol ⟨cluster, remaining, log⟩ = vol.clusterRead cluster vol.clusterSize := by
  rw [FileRound.read, Nat.min_eq_right (Nat.le_of_lt hlt), wholeSectors_clusterSize]

theorem next_fileWalk :
    (fileWalk disk vol).next ⟨cluster, remaining, log⟩ = ⟨vol.link cluster, remaining - vol.clusterSize,
      log ++ [vol.clusterRead cluster vol.clusterSize] ++ [vol.linkRead cluster]⟩ := by
  show FileRound.mk _ _ (log ++ [FileRound.read vol ⟨cluster, remaining, log⟩, vol.linkRead cluster]) = _
  rw [FileRound.read_of_lt hlt, List.append_assoc]
  rfl

end

/-- A run that returns an error has come to a round that fails, by induction on the rounds. -/
theorem fileGuarded_of_run (h : Mounted disk vol fs) (hrounds : remaining ≤ rounds)
    (hroom : offset + wholeSectors remaining ≤ buf.room)
    (hrun : readFileLoop disk fs rounds cluster offset remaining buf log = .ok (.error status, buf') log') :
    ∃ reads, log' = log ++ reads ∧ (DataInside disk area true log reads →
      (fileWalk disk vol).Guarded (FileInside disk vol area) ⟨cluster, remaining, log⟩) := by
  have hsize := Volume.clusterSize_pos h.isFat32
  induction rounds generalizing cluster offset remaining buf log with
  | zero => cases hrun
  | succ rounds ih =>
    by_cases hremaining : remaining = 0
    · rw [readFileLoop, if_pos hremaining] at hrun
      cases hrun
    by_cases ha : disk.accepts log (vol.clusterRead cluster (wholeSectors (min remaining vol.clusterSize))) = true
    swap
    · rw [readFileLoop_of_refused h hremaining ha] at hrun
      cases hrun
      have hfail : (fileWalk disk vol).fail ⟨cluster, remaining, log⟩ := Or.inl ⟨Nat.pos_of_ne_zero hremaining, ha⟩
      exact ⟨_, rfl, fun _ => (Walk.guarded_of_fail hfail).mpr fun _ ha' => absurd ha' ha⟩
    by_cases hle : remaining ≤ vol.clusterSize
    · rw [Nat.min_eq_left hle] at ha
      rw [readFileLoop_last h hremaining hle ha hroom] at hrun
      cases hrun
    have hlt : vol.clusterSize < remaining := Nat.lt_of_not_le hle
    have hread := @FileRound.read_of_lt vol cluster remaining log hlt
    obtain ⟨rest, rfl⟩ : ∃ rest, remaining = vol.clusterSize + rest := ⟨remaining - vol.clusterSize, by omega⟩
    rw [Nat.min_eq_right (by omega), wholeSectors_clusterSize] at ha
    rw [wholeSectors_add_clusterSize, ← Nat.add_assoc] at hroom
    have hinside : ∀ reads, DataInside disk area true log (vol.clusterRead cluster vol.clusterSize :: reads) →
        FileInside disk vol area ⟨cluster, vol.clusterSize + rest, log⟩ := by
      intro reads hdata _ _
      rw [hread]
      exact hdata.1 rfl ha
    by_cases halink : disk.accepts (log ++ [vol.clusterRead cluster vol.clusterSize]) (vol.linkRead cluster) = true
    swap
    · rw [readFileLoop_of_link_refused h hlt ha (by omega) halink, List.append_assoc] at hrun
      cases hrun
      have hfail : (fileWalk disk vol).fail ⟨cluster, vol.clusterSize + rest, log⟩ :=
        Or.inr ⟨hlt, Or.inl (by rw [hread]; exact halink)⟩
      exact ⟨_, rfl, fun hdata => (Walk.guarded_of_fail hfail).mpr (hinside _ hdata)⟩
    by_cases hlink : 0x0FFFFFF8 ≤ vol.link cluster
    · rw [readFileLoop_of_end h hlt ha (by omega) halink hlink, List.append_assoc] at hrun
      cases hrun
      have hfail : (fileWalk disk vol).fail ⟨cluster, vol.clusterSize + rest, log⟩ := Or.inr ⟨hlt, Or.inr hlink⟩
      exact ⟨_, rfl, fun hdata => (Walk.guarded_of_fail hfail).mpr (hinside _ hdata)⟩
    · rw [readFileLoop_of_link h hlt ha (by omega) halink hlink, Nat.add_sub_cancel_left] at hrun
      obtain ⟨reads, rfl, hrest⟩ := ih (by omega)
        (show _ ≤ (buf.put offset vol.clusterSize (vol.clusterBytes cluster)).room from hroom) hrun
      refine ⟨vol.clusterRead cluster vol.clusterSize :: vol.linkRead cluster :: reads, by simp, fun hdata => ?_⟩
      have hgo : (fileWalk disk vol).go ⟨cluster, vol.clusterSize + rest, log⟩ :=
        ⟨hlt, by rw [hread]; exact ha, by rw [hread]; exact halink, hlink⟩
      rw [Walk.guarded_of_go hgo, next_fileWalk hlt, Nat.add_sub_cancel_left]
      exact ⟨hinside _ hdata, hrest hdata.2.2⟩

theorem fileDetects_of_guarded (h : Mounted disk vol fs) {r : FileRound}
    (hguarded : (fileWalk disk vol).Guarded (FileInside disk vol area) r) : FileDetects disk fs area r := by
  have hsize := Volume.clusterSize_pos h.isFat32
  refine hguarded.induction ?_ ?_
  · rintro ⟨cluster, remaining, log⟩ hfail hinside rounds offset buf hrounds hroom
    dsimp only at hrounds hroom ⊢
    have hpos : 0 < remaining := by
      obtain ⟨hpos, -⟩ | ⟨hlt, -⟩ := hfail
      · exact hpos
      · exact Nat.lt_trans hsize hlt
    obtain ⟨rounds, rfl⟩ : ∃ m, rounds = m + 1 := ⟨rounds - 1, by omega⟩
    by_cases ha : disk.accepts log (FileRound.read vol ⟨cluster, remaining, log⟩) = true
    swap
    · exact ⟨.ioError, _, _, readFileLoop_of_refused h (Nat.ne_of_gt hpos) ha, fun _ ha' => absurd ha' ha, trivial⟩
    obtain ⟨-, hrefused⟩ | ⟨hlt, hfail⟩ := hfail
    · exact absurd ha hrefused
    have hdata := hinside hpos ha
    dsimp only at hlt hfail
    rw [FileRound.read_of_lt hlt] at ha hfail hdata
    have hroom' : offset + vol.clusterSize ≤ buf.room := (Nat.add_le_add_left (le_wholeSectors hlt) _).trans hroom
    refine ⟨.ioError, buf.put offset vol.clusterSize (vol.clusterBytes cluster),
      [vol.clusterRead cluster vol.clusterSize, vol.linkRead cluster], ?_, fun _ _ => hdata, nofun, trivial⟩
    by_cases halink : disk.accepts (log ++ [vol.clusterRead cluster vol.clusterSize]) (vol.linkRead cluster) = true
    · have hlink := hfail.resolve_left (not_not_intro halink)
      rw [readFileLoop_of_end h hlt ha hroom' halink hlink, List.append_assoc]
      rfl
    · rw [readFileLoop_of_link_refused h hlt ha hroom' halink, List.append_assoc]
      rfl
  · rintro ⟨cluster, remaining, log⟩ ⟨hlt, ha, halink, hlink⟩ hinside hrest rounds offset buf hrounds hroom
    have hdata := hinside (Nat.lt_trans hsize hlt) ha
    dsimp only at hrounds hroom hlt ha halink hlink ⊢
    rw [FileRound.read_of_lt hlt] at ha halink hdata
    rw [next_fileWalk hlt] at hrest
    obtain ⟨rest, rfl⟩ : ∃ rest, remaining = vol.clusterSize + rest := ⟨remaining - vol.clusterSize, by omega⟩
    rw [wholeSectors_add_clusterSize, ← Nat.add_assoc] at hroom
    obtain ⟨rounds, rfl⟩ : ∃ m, rounds = m + 1 := ⟨rounds - 1, by omega⟩
    rw [Nat.add_sub_cancel_left] at hrest
    obtain ⟨status, buf', reads, hrun, hreads⟩ := hrest rounds (offset + vol.clusterSize)
      (buf.put offset vol.clusterSize (vol.clusterBytes cluster)) (show rest ≤ rounds by omega) hroom
    refine ⟨status, buf', vol.clusterRead cluster vol.clusterSize :: vol.linkRead cluster :: reads, ?_,
      fun _ _ => hdata, nofun, hreads⟩
    rw [readFileLoop_of_link h hlt ha (by omega) halink hlink, Nat.add_sub_cancel_left]
    refine hrun.trans ?_
    rw [List.append_assoc, List.append_assoc]
    rfl

end FileRun

/-! ### Directories -/

/-- A place in a directory: a cluster, the slot `next_dir_entry` comes to, and the reads before. -/
structure DirPlace where
  cluster : UInt32
  k : Nat
  log : List DiskRead

section Dir

variable (disk : Disk) (vol : Volume)

/-- From a place on, all slots of the cluster are parts of long names. -/
def DirPlace.Passes (p : DirPlace) : Prop :=
  ∀ e ∈ (vol.slotsIn p.cluster).drop p.k, e.firstByte ≠ 0 ∧ e.attr = 0x0F

/-- The clusters that one call of `next_dir_entry` goes through. It goes on to the next cluster, or fails because of a
read; a record, a free slot and an end mark are not failures. -/
def dirWalk : Walk DirPlace where
  next p := ⟨vol.link p.cluster, 0,
    p.log ++ [vol.linkRead p.cluster] ++ [vol.clusterRead (vol.link p.cluster) vol.clusterSize]⟩
  go p := p.Passes vol ∧ ¬StopsAtLink disk vol p.cluster p.log
  fail p := p.Passes vol ∧ (¬disk.accepts p.log (vol.linkRead p.cluster) = true ∨ ¬0x0FFFFFF8 ≤ vol.link p.cluster ∧
    ¬disk.accepts (p.log ++ [vol.linkRead p.cluster]) (vol.clusterRead (vol.link p.cluster) vol.clusterSize) = true)
  not_go_of_fail := by
    rintro p ⟨-, hrefused | ⟨-, hrefused⟩⟩ ⟨-, hgo⟩
    · exact hgo (.inr (.inl hrefused))
    · exact hgo (.inr (.inr hrefused))

def DirInside (area : DiskRead → Prop) (p : DirPlace) : Prop :=
  (dirWalk disk vol).go p → area (vol.clusterRead (vol.link p.cluster) vol.clusterSize)

end Dir

/-- From a place on, `next_dir_entry` returns an error other than the end, and reads data in an area only. -/
def DirDetects (disk : Disk) (fs : Fat32Handle) (area : DiskRead → Prop) (log : List DiskRead) : Prop :=
  ∃ status fs' reads, status ≠ .endOfDir ∧ CallReturns disk fs log (.error status) fs' (log ++ reads) ∧
    DataInside disk area false log reads

section DirRun

variable {disk : Disk} {vol : Volume} {fs fs' : Fat32Handle} {area : DiskRead → Prop} {cluster : UInt32} {k fuel : Nat}
  {log log' : List DiskRead} {status : BootError}

theorem DirPlace.passes_of_le (hk : vol.records ≤ k) : DirPlace.Passes vol ⟨cluster, k, log⟩ := by
  unfold Passes
  rw [Volume.drop_slotsIn_of_le hk]
  exact nofun

theorem DirPlace.passes_succ_iff (hk : k < vol.records) : DirPlace.Passes vol ⟨cluster, k, log⟩ ↔
    ((vol.record cluster k).firstByte ≠ 0 ∧ (vol.record cluster k).attr = 0x0F) ∧
      DirPlace.Passes vol ⟨cluster, k + 1, log⟩ := by
  unfold Passes
  rw [Volume.drop_slotsIn hk, List.forall_mem_cons]

theorem guarded_succ_iff (hk : k < vol.records) (hend : (vol.record cluster k).firstByte ≠ 0)
    (hattr : (vol.record cluster k).attr = 0x0F) :
    (dirWalk disk vol).Guarded (DirInside disk vol area) ⟨cluster, k, log⟩ ↔
      (dirWalk disk vol).Guarded (DirInside disk vol area) ⟨cluster, k + 1, log⟩ := by
  have hpasses : DirPlace.Passes vol ⟨cluster, k, log⟩ ↔ DirPlace.Passes vol ⟨cluster, k + 1, log⟩ := by
    rw [DirPlace.passes_succ_iff hk, and_iff_right ⟨hend, hattr⟩]
  have hgo : (dirWalk disk vol).go ⟨cluster, k, log⟩ ↔ (dirWalk disk vol).go ⟨cluster, k + 1, log⟩ :=
    and_congr_left' hpasses
  exact Walk.guarded_congr rfl hgo (and_congr_left' hpasses) (imp_congr_left hgo)

/-- A call that returns such an error has come to a place that fails, by induction on the rounds. -/
theorem dirGuarded_of_run (h : Opened disk vol fs cluster k) (hstatus : status ≠ .endOfDir)
    (hrun : nextDirEntry disk fuel fs log = .ok (.error status, fs') log') :
    ∃ reads, log' = log ++ reads ∧ (DataInside disk area false log reads →
      (dirWalk disk vol).Guarded (DirInside disk vol area) ⟨cluster, k, log⟩) := by
  induction fuel generalizing fs cluster k log with
  | zero => cases hrun
  | succ fuel ih =>
    by_cases hk : k < vol.records
    · by_cases hend : (vol.record cluster k).firstByte = 0
      · rw [h.round_of_free hk hend] at hrun
        cases hrun
        exact absurd rfl hstatus
      by_cases hattr : (vol.record cluster k).attr = 0x0F
      · rw [h.round_of_long hk hend hattr] at hrun
        rw [guarded_succ_iff hk hend hattr]
        exact ih (h.advance hk) hrun
      · rw [h.round_of_record hk hend hattr] at hrun
        cases hrun
    have hk : vol.records ≤ k := Nat.le_of_not_lt hk
    have hpasses := @DirPlace.passes_of_le vol cluster k log hk
    by_cases halink : disk.accepts log (vol.linkRead cluster) = true
    swap
    · rw [h.round_of_link_refused hk halink] at hrun
      cases hrun
      have hfail : (dirWalk disk vol).fail ⟨cluster, k, log⟩ := ⟨hpasses, Or.inl halink⟩
      exact ⟨_, rfl, fun _ => (Walk.guarded_of_fail hfail).mpr fun hgo => absurd hgo (Walk.not_go_of_fail _ _ hfail)⟩
    by_cases hlink : 0x0FFFFFF8 ≤ vol.link cluster
    · rw [h.round_of_chain_end hk halink hlink] at hrun
      cases hrun
      exact absurd rfl hstatus
    by_cases ha : disk.accepts (log ++ [vol.linkRead cluster])
        (vol.clusterRead (vol.link cluster) vol.clusterSize) = true
    swap
    · rw [h.round_of_cluster_refused hk halink hlink ha, List.append_assoc] at hrun
      cases hrun
      have hfail : (dirWalk disk vol).fail ⟨cluster, k, log⟩ := ⟨hpasses, Or.inr ⟨hlink, ha⟩⟩
      exact ⟨_, rfl, fun _ => (Walk.guarded_of_fail hfail).mpr fun hgo => absurd hgo (Walk.not_go_of_fail _ _ hfail)⟩
    · obtain ⟨fs1, hopened, hround⟩ := h.round_of_link hk halink hlink ha
      rw [hround] at hrun
      obtain ⟨reads, rfl, hrest⟩ := ih hopened hrun
      refine ⟨vol.linkRead cluster :: vol.clusterRead (vol.link cluster) vol.clusterSize :: reads, by simp, ?_⟩
      rintro ⟨-, hdata, hreads⟩
      have hgo : (dirWalk disk vol).go ⟨cluster, k, log⟩ := by
        refine ⟨hpasses, ?_⟩
        rintro (hend | hrefused | hrefused)
        · exact hlink hend
        · exact hrefused halink
        · exact hrefused ha
      rw [Walk.guarded_of_go hgo]
      exact ⟨fun _ => hdata rfl ha, hrest hreads⟩

theorem Opened.pass (h : Opened disk vol fs cluster k) (hpasses : DirPlace.Passes vol ⟨cluster, k, log⟩) :
    ∃ fs1 k1, Opened disk vol fs1 cluster k1 ∧ vol.records ≤ k1 ∧
      (DirDetects disk fs1 area log → DirDetects disk fs area log) := by
  induction hleft : vol.records - k generalizing fs k with
  | zero => exact ⟨fs, k, h, by omega, id⟩
  | succ left ih =>
    have hk : k < vol.records := by omega
    obtain ⟨⟨hend, hattr⟩, hrest⟩ := (DirPlace.passes_succ_iff hk).mp hpasses
    obtain ⟨fs1, k1, hopened, hk1, hdetects⟩ := ih (h.advance hk) hrest (by omega)
    refine ⟨fs1, k1, hopened, hk1, fun hend' => ?_⟩
    obtain ⟨status, fs', reads, hstatus, hcall, hreads⟩ := hdetects hend'
    exact ⟨status, fs', reads, hstatus, .of_next (h.round_of_long hk hend hattr) hcall, hreads⟩

theorem dirDetects_of_guarded {p : DirPlace} (hguarded : (dirWalk disk vol).Guarded (DirInside disk vol area) p)
    (h : Opened disk vol fs p.cluster p.k) : DirDetects disk fs area p.log := by
  refine hguarded.induction (P := fun p => ∀ fs, Opened disk vol fs p.cluster p.k → DirDetects disk fs area p.log)
    ?_ ?_ fs h
  · rintro ⟨cluster, k, log⟩ ⟨hpasses, hfail⟩ - fs h
    obtain ⟨fs1, k1, hopened, hk, hdetects⟩ := h.pass hpasses
    apply hdetects
    by_cases halink : disk.accepts log (vol.linkRead cluster) = true
    · obtain ⟨hlink, ha⟩ := hfail.resolve_left (not_not_intro halink)
      have hround := hopened.round_of_cluster_refused hk halink hlink ha
      refine ⟨.ioError, fs1, [vol.linkRead cluster, vol.clusterRead (vol.link cluster) vol.clusterSize], nofun,
        .of_round fun fuel => ?_, nofun, fun _ ha' => absurd ha' ha, trivial⟩
      rw [hround fuel, List.append_assoc]
      rfl
    · exact ⟨.ioError, fs1, [vol.linkRead cluster], nofun, .of_round (hopened.round_of_link_refused hk halink), nofun,
        trivial⟩
  · rintro ⟨cluster, k, log⟩ hgo hinside hrest fs h
    obtain ⟨hend, hlink⟩ := not_or.mp hgo.2
    obtain ⟨halink, ha⟩ := not_or.mp hlink
    obtain ⟨fs1, k1, hopened, hk, hdetects⟩ := h.pass hgo.1
    obtain ⟨fs2, hopened2, hround⟩ := hopened.round_of_link hk (not_not.mp halink) hend (not_not.mp ha)
    obtain ⟨status, fs', reads, hstatus, hcall, hreads⟩ := hrest fs2 hopened2
    refine hdetects ⟨status, fs', vol.linkRead cluster :: vol.clusterRead (vol.link cluster) vol.clusterSize :: reads,
      hstatus, .of_next hround ?_, nofun, fun _ _ => hinside hgo, hreads⟩
    have hlog : log ++ vol.linkRead cluster :: vol.clusterRead (vol.link cluster) vol.clusterSize :: reads =
        log ++ [vol.linkRead cluster] ++ [vol.clusterRead (vol.link cluster) vol.clusterSize] ++ reads := by simp
    exact hlog ▸ hcall

end DirRun

/-! ### What is detected -/

/-- Among the clusters that `read_file` follows for a number of bytes is one that is none. -/
def FileMeetsCorrupt (vol : Volume) (lastSector : UInt64) (n : Nat) (cluster : UInt32) : Prop :=
  ∃ q < vol.clustersFor n, (∀ i < q, ¬0x0FFFFFF8 ≤ vol.link (vol.link^[i] cluster)) ∧
    vol.IsCorrupt lastSector (vol.link^[q] cluster)

/-- Among the links that a call of `next_dir_entry` follows from a place on is one to no cluster. -/
def DirMeetsCorrupt (disk : Disk) (vol : Volume) (lastSector : UInt64) (p : DirPlace) : Prop :=
  ∃ q, (∀ i ≤ q, ((dirWalk disk vol).next^[i] p).Passes vol ∧
      ¬0x0FFFFFF8 ≤ vol.link ((dirWalk disk vol).next^[i] p).cluster) ∧
    vol.IsCorrupt lastSector (vol.link ((dirWalk disk vol).next^[q] p).cluster)

theorem readFile_detects_iff {disk : Disk} {vol : Volume} {fs : Fat32Handle} {entry : DirEntry} {buf : FileBuf}
    {bufSize : UInt32} {log : List DiskRead} {area : DiskRead → Prop} (h : Mounted disk vol fs)
    (hfile : ¬entry.isDirectory) (hroom : wholeSectors (entry.readLength bufSize) ≤ buf.room) :
    (∃ status buf' reads, readFile disk fs entry buf bufSize log = .ok (.error status, buf') (log ++ reads) ∧
        DataInside disk area true log reads) ↔
      (fileWalk disk vol).Guarded (FileInside disk vol area) ⟨entry.firstCluster, entry.readLength bufSize, log⟩ := by
  have hstart : 0 + wholeSectors (entry.readLength bufSize) ≤ buf.room := by omega
  rw [readFile, if_neg hfile]
  constructor
  · rintro ⟨status, buf', reads, hrun, hreads⟩
    obtain ⟨reads', hlog, hguarded⟩ := fileGuarded_of_run h (Nat.le_refl _) hstart hrun
    obtain rfl := List.append_cancel_left hlog
    exact hguarded hreads
  · exact fun hguarded => fileDetects_of_guarded h hguarded _ _ _ (Nat.le_refl _) hstart

theorem dirDetects_iff {disk : Disk} {vol : Volume} {fs : Fat32Handle} {cluster : UInt32} {k : Nat}
    {log : List DiskRead} {area : DiskRead → Prop} (h : Opened disk vol fs cluster k) :
    DirDetects disk fs area log ↔ (dirWalk disk vol).Guarded (DirInside disk vol area) ⟨cluster, k, log⟩ := by
  constructor
  · rintro ⟨status, fs', reads, hstatus, ⟨n, hrun⟩, hreads⟩
    obtain ⟨reads', hlog, hguarded⟩ := dirGuarded_of_run h hstatus (hrun n (Nat.le_refl n))
    obtain rfl := List.append_cancel_left hlog
    exact hguarded hreads
  · exact fun hguarded => dirDetects_of_guarded hguarded h

/-- A disk of 64 sectors, with a directory cluster of long names that is linked to a bad cluster. -/
def badLinkDisk : Disk where
  image := (smallDisk [(2, 0x0FFFFFF7)] [(2, List.replicate 512 0x0F)]).image
  accepts _ read := read.sector < 64

def badFile : DirEntry := ⟨bootx64Name, 0x20, 0x0FFF, 0xFFF7, 1⟩

/-- A file whose first cluster is free: the boot sector is read as its first byte, and the call succeeds. -/
def freeFile : DirEntry := ⟨bootx64Name, 0x20, 0, 0, 1⟩

end FerrumVM.Boot
