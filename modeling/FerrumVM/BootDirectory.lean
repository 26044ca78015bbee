import FerrumVM.BootClusters

/-! Directories of a FAT32 volume and the calls that go through them: `next_dir_entry` of `disk/fat32.c`, call after
call, and `find_in_dir` of `disk/boot.c`. A handle in a directory stands for the slots that are ahead of it. -/

namespace FerrumVM.Boot

open Base Program

/-! ### Slots -/

namespace DirEntry

/-- The first byte of the name: zero behind the last slot, `0xE5` in a slot that is deleted. -/
def firstByte (entry : DirEntry) : UInt8 := entry.name.headD 0

theorem firstChar_eq_zero_iff (entry : DirEntry) : entry.firstChar = 0 ↔ entry.firstByte = 0 := by
  have hlt := entry.firstByte.toNat_lt
  have hzero : entry.firstByte = 0 ↔ entry.firstByte.toNat = 0 := UInt8.toNat_inj.symm
  unfold firstChar
  rw [hzero]
  unfold firstByte at hlt ⊢
  dsimp only
  split_ifs <;> omega

end DirEntry

def usedSlots (slots : List DirEntry) : List DirEntry := slots.takeWhile fun e => e.firstByte ≠ 0

/-- The records of a directory, by the format: neither deleted nor part of a long name. -/
def liveSlots (slots : List DirEntry) : List DirEntry :=
  (usedSlots slots).filter fun e => e.firstByte ≠ 0xE5 ∧ e.attr ≠ 0x0F

/-- What a call of `next_dir_entry` returns when these slots are ahead, and the slots that are ahead after it. -/
def nextSlot : List DirEntry → Except BootError DirEntry × List DirEntry
  | [] => (.error .endOfDir, [])
  | e :: slots =>
    if e.firstByte = 0 then (.error .endOfDir, slots)
    else if e.attr = 0x0F then nextSlot slots
    else (.ok e, slots)

def nextSlots : (count : Nat) → List DirEntry → List (Except BootError DirEntry)
  | 0, _ => []
  | count + 1, slots => (nextSlot slots).1 :: nextSlots count (nextSlot slots).2

/-- The results to be expected: the records, and then the end as often as one asks. -/
def expected (records : List DirEntry) (count : Nat) : List (Except BootError DirEntry) :=
  records.map .ok ++ List.replicate count (.error .endOfDir)

/-- The calls go through the slots as the format has it. -/
def GoesThrough (slots : List DirEntry) : Prop :=
  ∀ count, nextSlots ((liveSlots slots).length + count) slots = expected (liveSlots slots) count

section Slots

variable {e : DirEntry} {slots : List DirEntry}

theorem nextSlots_of_long (hend : e.firstByte ≠ 0) (hattr : e.attr = 0x0F) (count : Nat) :
    nextSlots count (e :: slots) = nextSlots count slots := by
  cases count with
  | zero => rfl
  | succ count => rw [nextSlots, nextSlots, nextSlot, if_neg hend, if_pos hattr]

theorem nextSlots_of_record (hend : e.firstByte ≠ 0) (hattr : e.attr ≠ 0x0F) (count : Nat) :
    nextSlots (count + 1) (e :: slots) = .ok e :: nextSlots count slots := by
  rw [nextSlots, nextSlot, if_neg hend, if_neg hattr]

theorem nextSlots_of_end (hend : e.firstByte = 0) (count : Nat) :
    nextSlots (count + 1) (e :: slots) = .error .endOfDir :: nextSlots count slots := by
  rw [nextSlots, nextSlot, if_pos hend]

theorem nextSlots_nil (count : Nat) : nextSlots count [] = List.replicate count (.error .endOfDir) := by
  induction count with
  | zero => rfl
  | succ count ih => rw [nextSlots, nextSlot, ih, List.replicate_succ]

theorem nextSlots_eq_replicate_iff : (∀ count, nextSlots count slots = List.replicate count (.error .endOfDir)) ↔
    ∀ e ∈ slots, e.firstByte ≠ 0 → e.attr = 0x0F := by
  induction slots with
  | nil => exact iff_of_true nextSlots_nil nofun
  | cons e slots ih =>
    rw [List.forall_mem_cons, ← ih]
    by_cases hend : e.firstByte = 0
    · rw [and_iff_right (fun h => absurd hend h)]
      constructor
      · intro h count
        have hnext := h (count + 1)
        rw [nextSlots_of_end hend, List.replicate_succ] at hnext
        exact (List.cons.inj hnext).2
      · intro h count
        cases count with
        | zero => rfl
        | succ count => rw [nextSlots_of_end hend, h count, List.replicate_succ]
    · by_cases hattr : e.attr = 0x0F
      · rw [and_iff_right fun _ => hattr]
        simp only [nextSlots_of_long hend hattr]
      · refine iff_of_false (fun h => ?_) fun h => hattr (h.1 hend)
        have hnext := h 1
        rw [nextSlots_of_record hend hattr] at hnext
        cases hnext

theorem usedSlots_of_end (hend : e.firstByte = 0) : usedSlots (e :: slots) = [] := by
  simp [usedSlots, hend]

theorem usedSlots_of_used (hend : e.firstByte ≠ 0) : usedSlots (e :: slots) = e :: usedSlots slots := by
  simp [usedSlots, hend]

theorem ok_ne_expected {records : List DirEntry} (he : e ∉ records) {results : List (Except BootError DirEntry)} :
    .ok e :: results ≠ expected records 1 := by
  cases records with
  | nil => exact nofun
  | cons record records =>
    intro h
    obtain ⟨hhead, -⟩ := List.cons.inj h
    cases hhead
    exact he List.mem_cons_self

/-- The calls go through the slots exactly if no slot in use is deleted, other than parts of long names, and no slot
behind the first free one looks like a record. -/
theorem goesThrough_iff : GoesThrough slots ↔ (∀ e ∈ usedSlots slots, e.firstByte = 0xE5 → e.attr = 0x0F) ∧
    ∀ e ∈ slots.drop (usedSlots slots).length, e.firstByte ≠ 0 → e.attr = 0x0F := by
  induction slots with
  | nil => exact iff_of_true (fun count => by simp [nextSlots_nil, expected, liveSlots, usedSlots]) ⟨nofun, nofun⟩
  | cons e slots ih =>
    unfold GoesThrough liveSlots at ih ⊢
    by_cases hend : e.firstByte = 0
    · rw [usedSlots_of_end hend]
      simp only [List.filter_nil, List.length_nil, Nat.zero_add, expected, List.map_nil, List.nil_append,
        List.drop_zero]
      rw [nextSlots_eq_replicate_iff]
      exact ⟨fun h => ⟨nofun, h⟩, fun h => h.2⟩
    · rw [usedSlots_of_used hend, List.forall_mem_cons, List.length_cons, List.drop_succ_cons]
      by_cases hattr : e.attr = 0x0F
      · rw [List.filter_cons_of_neg (by simp [hattr]), and_iff_right fun _ => hattr, ← ih]
        simp only [nextSlots_of_long hend hattr]
      · by_cases hdeleted : e.firstByte = 0xE5
        · -- A deleted slot is returned, and no record to be expected is deleted.
          refine iff_of_false (fun h => ?_) fun h => hattr (h.1.1 hdeleted)
          have hnext := h 1
          rw [nextSlots_of_record hend hattr, List.filter_cons_of_neg (by simp [hdeleted])] at hnext
          exact ok_ne_expected (by simp [hdeleted]) hnext
        · rw [List.filter_cons_of_pos (by simp [hattr, hdeleted]), and_iff_right fun h => absurd h hdeleted, ← ih]
          refine forall_congr' fun count => ?_
          rw [List.length_cons, Nat.add_right_comm, nextSlots_of_record hend hattr, expected, List.map_cons,
            List.cons_append, List.cons.injEq, and_iff_right rfl]
          rfl

end Slots

/-! ### The slots of a directory -/

namespace Volume

variable (vol : Volume)

def slotsIn (cluster : UInt32) : List DirEntry := (List.range vol.records).map (vol.record cluster)

def slots (clusters : List UInt32) : List DirEntry := clusters.flatMap vol.slotsIn

/-- The clusters behind a cluster, up to the end mark of its chain. -/
inductive ChainOf : (cluster : UInt32) → (behind : List UInt32) → Prop
  | last {cluster : UInt32} (hlink : 0x0FFFFFF8 ≤ vol.link cluster) : ChainOf cluster []
  | next {cluster : UInt32} {behind : List UInt32} (hlink : vol.link cluster < 0x0FFFFFF8)
      (hrest : ChainOf (vol.link cluster) behind) : ChainOf cluster (vol.link cluster :: behind)

variable {vol} {cluster : UInt32}

/-- The clusters for which `cluster_buf` has room. -/
theorem clusterSize_le_iff : vol.clusterSize ≤ 32768 ↔ vol.fat.sectorsPerCluster ≤ 64 := by
  rw [UInt8.le_iff_toNat_le, clusterSize]
  simp only [UInt8.reduceToNat]
  omega

theorem drop_slotsIn {k : Nat} (hk : k < vol.records) :
    (vol.slotsIn cluster).drop k = vol.record cluster k :: (vol.slotsIn cluster).drop (k + 1) := by
  have hlength : k < (vol.slotsIn cluster).length := by
    rw [slotsIn, List.length_map, List.length_range]
    exact hk
  rw [List.drop_eq_getElem_cons hlength]
  simp only [slotsIn, List.getElem_map, List.getElem_range]

theorem drop_slotsIn_of_le {k : Nat} (hk : vol.records ≤ k) : (vol.slotsIn cluster).drop k = [] := by
  apply List.drop_of_length_le
  rw [slotsIn, List.length_map, List.length_range]
  exact hk

end Volume

/-- A call of `next_dir_entry` returns, if it is given enough rounds. -/
def CallReturns (disk : Disk) (fs : Fat32Handle) (log : List DiskRead) (result : Except BootError DirEntry)
    (fs' : Fat32Handle) (log' : List DiskRead) : Prop :=
  ∃ n, ∀ fuel, n ≤ fuel → nextDirEntry disk fuel fs log = .ok (result, fs') log'

/-- Calls of `next_dir_entry`, one after the other, return these results. -/
inductive Calls (disk : Disk) : Fat32Handle → List DiskRead → List (Except BootError DirEntry) → Prop
  | nil {fs : Fat32Handle} {log : List DiskRead} : Calls disk fs log []
  | cons {fs fs' : Fat32Handle} {log log' : List DiskRead} {result : Except BootError DirEntry}
      {results : List (Except BootError DirEntry)} (hcall : CallReturns disk fs log result fs' log')
      (hrest : Calls disk fs' log' results) : Calls disk fs log (result :: results)

def Ahead (disk : Disk) (vol : Volume) (fs : Fat32Handle) (slots : List DirEntry) : Prop :=
  ∃ cluster behind k, Opened disk vol fs cluster k ∧ vol.ChainOf cluster behind ∧
    slots = (vol.slotsIn cluster).drop k ++ vol.slots behind

def Answers (disk : Disk) (vol : Volume) (fs : Fat32Handle) (log : List DiskRead) (slots : List DirEntry) : Prop :=
  ∃ fs' log', CallReturns disk fs log (nextSlot slots).1 fs' log' ∧ Ahead disk vol fs' (nextSlot slots).2

section Enumeration

variable {disk : Disk} {vol : Volume} {fs fs1 : Fat32Handle} {log log1 : List DiskRead} {slots : List DirEntry}
  {cluster : UInt32} {behind : List UInt32} {k : Nat} {result : Except BootError DirEntry}

theorem CallReturns.unique {result' : Except BootError DirEntry} {fs2 : Fat32Handle} {log2 : List DiskRead}
    (h : CallReturns disk fs log result fs1 log1) (h' : CallReturns disk fs log result' fs2 log2) :
    result = result' ∧ fs1 = fs2 ∧ log1 = log2 := by
  obtain ⟨n, hrun⟩ := h
  obtain ⟨n', hrun'⟩ := h'
  have heq := (hrun (max n n') (Nat.le_max_left _ _)).symm.trans (hrun' (max n n') (Nat.le_max_right _ _))
  cases heq
  exact ⟨rfl, rfl, rfl⟩

theorem CallReturns.of_round (h : ∀ fuel, nextDirEntry disk (fuel + 1) fs log = .ok (result, fs1) log1) :
    CallReturns disk fs log result fs1 log1 := by
  refine ⟨1, fun fuel hfuel => ?_⟩
  obtain ⟨fuel, rfl⟩ := Nat.exists_eq_add_of_le' hfuel
  exact h fuel

theorem CallReturns.of_next {fs2 : Fat32Handle} {log2 : List DiskRead}
    (h : ∀ fuel, nextDirEntry disk (fuel + 1) fs log = nextDirEntry disk fuel fs1 log1)
    (hcall : CallReturns disk fs1 log1 result fs2 log2) : CallReturns disk fs log result fs2 log2 := by
  obtain ⟨n, hrun⟩ := hcall
  refine ⟨n + 1, fun fuel hfuel => ?_⟩
  obtain ⟨fuel, rfl⟩ : ∃ m, fuel = m + 1 := ⟨fuel - 1, by omega⟩
  rw [h fuel]
  exact hrun fuel (by omega)

theorem Answers.of_next (h : ∀ fuel, nextDirEntry disk (fuel + 1) fs log = nextDirEntry disk fuel fs1 log1)
    (hrest : Answers disk vol fs1 log1 slots) : Answers disk vol fs log slots := by
  obtain ⟨fs', log', hcall, hahead⟩ := hrest
  exact ⟨fs', log', .of_next h hcall, hahead⟩

namespace Opened

/-! One round, by the slot it comes to or by what is behind the last slot of the cluster. -/

section

variable (h : Opened disk vol fs cluster k) (hk : k < vol.records)
include h hk

theorem round_of_free (hend : (vol.record cluster k).firstByte = 0) (fuel : Nat) :
    nextDirEntry disk (fuel + 1) fs log =
      .ok (.error .endOfDir, { fs with entryIndex := fs.entryIndex + 1 }) log := by
  rw [h.nextDirEntry_of_record hk, if_pos ((DirEntry.firstChar_eq_zero_iff _).mpr hend)]
  rfl

theorem round_of_record
    (hend : (vol.record cluster k).firstByte ≠ 0) (hattr : (vol.record cluster k).attr ≠ 0x0F) (fuel : Nat) :
    nextDirEntry disk (fuel + 1) fs log =
      .ok (.ok (vol.record cluster k), { fs with entryIndex := fs.entryIndex + 1 }) log := by
  rw [h.nextDirEntry_of_record hk, if_neg (mt (DirEntry.firstChar_eq_zero_iff _).mp hend), if_neg hattr]
  rfl

theorem round_of_long
    (hend : (vol.record cluster k).firstByte ≠ 0) (hattr : (vol.record cluster k).attr = 0x0F) (fuel : Nat) :
    nextDirEntry disk (fuel + 1) fs log = nextDirEntry disk fuel { fs with entryIndex := fs.entryIndex + 1 } log := by
  rw [h.nextDirEntry_of_record hk, if_neg (mt (DirEntry.firstChar_eq_zero_iff _).mp hend), if_pos hattr]

end

theorem round_of_link_refused (h : Opened disk vol fs cluster k) (hk : vol.records ≤ k)
    (halink : ¬disk.accepts log (vol.linkRead cluster) = true) (fuel : Nat) :
    nextDirEntry disk (fuel + 1) fs log = .ok (.error .ioError, fs) (log ++ [vol.linkRead cluster]) := by
  rw [h.nextDirEntry_of_link hk, bind_of_ok (h.readFatEntry_of_refused halink)]
  rfl

section

variable (h : Opened disk vol fs cluster k) (hk : vol.records ≤ k) (halink : disk.accepts log (vol.linkRead cluster) = true)
include h hk halink

theorem round_of_chain_end (hlink : 0x0FFFFFF8 ≤ vol.link cluster) (fuel : Nat) :
    nextDirEntry disk (fuel + 1) fs log = .ok (.error .endOfDir, fs) (log ++ [vol.linkRead cluster]) := by
  rw [h.nextDirEntry_of_link hk, bind_of_ok (h.readFatEntry_of_accepted halink)]
  dsimp only
  rw [if_pos hlink]
  rfl

theorem round_of_cluster_refused (hlink : ¬0x0FFFFFF8 ≤ vol.link cluster)
    (ha : ¬disk.accepts (log ++ [vol.linkRead cluster])
      (vol.clusterRead (vol.link cluster) vol.clusterSize) = true) (fuel : Nat) :
    nextDirEntry disk (fuel + 1) fs log = .ok (.error .ioError, fs)
      (log ++ [vol.linkRead cluster] ++ [vol.clusterRead (vol.link cluster) vol.clusterSize]) := by
  rw [h.nextDirEntry_of_link hk, bind_of_ok (h.readFatEntry_of_accepted halink)]
  dsimp only
  rw [if_neg hlink, bind_of_ok (h.loadCluster_of_refused ha)]
  rfl

theorem round_of_link (hlink : ¬0x0FFFFFF8 ≤ vol.link cluster)
    (ha : disk.accepts (log ++ [vol.linkRead cluster]) (vol.clusterRead (vol.link cluster) vol.clusterSize) = true) :
    ∃ fs', Opened disk vol fs' (vol.link cluster) 0 ∧ ∀ fuel, nextDirEntry disk (fuel + 1) fs log =
      nextDirEntry disk fuel fs'
        (log ++ [vol.linkRead cluster] ++ [vol.clusterRead (vol.link cluster) vol.clusterSize]) := by
  obtain ⟨fs', hload, hopened⟩ := h.loadCluster_of_accepted ha h.room
  refine ⟨fs', hopened, fun fuel => ?_⟩
  rw [h.nextDirEntry_of_link hk, bind_of_ok (h.readFatEntry_of_accepted halink)]
  dsimp only
  rw [if_neg hlink, bind_of_ok hload]

end

end Opened

/-- In a cluster, slot by slot. What is behind the cluster is answered by `hbehind`. -/
theorem Opened.answers (hchain : vol.ChainOf cluster behind)
    (hbehind : ∀ fs k, Opened disk vol fs cluster k → vol.records ≤ k → Answers disk vol fs log (vol.slots behind))
    (h : Opened disk vol fs cluster k) :
    Answers disk vol fs log ((vol.slotsIn cluster).drop k ++ vol.slots behind) := by
  induction hleft : vol.records - k generalizing fs k with
  | zero =>
    have hk : vol.records ≤ k := by omega
    rw [Volume.drop_slotsIn_of_le hk, List.nil_append]
    exact hbehind fs k h hk
  | succ left ih =>
    have hk : k < vol.records := by omega
    have hahead : Ahead disk vol { fs with entryIndex := fs.entryIndex + 1 }
        ((vol.slotsIn cluster).drop (k + 1) ++ vol.slots behind) := ⟨cluster, behind, k + 1, h.advance hk, hchain, rfl⟩
    rw [Volume.drop_slotsIn hk, List.cons_append, Answers, nextSlot]
    by_cases hend : (vol.record cluster k).firstByte = 0
    · rw [if_pos hend]
      exact ⟨_, log, .of_round (h.round_of_free hk hend), hahead⟩
    rw [if_neg hend]
    by_cases hattr : (vol.record cluster k).attr = 0x0F
    · rw [if_pos hattr]
      exact Answers.of_next (h.round_of_long hk hend hattr) (ih (h.advance hk) (by omega))
    · rw [if_neg hattr]
      exact ⟨_, log, .of_round (h.round_of_record hk hend hattr), hahead⟩

section Faultless

variable (hreads : ∀ log read, disk.accepts log read = true)
include hreads

theorem Ahead.answers (h : Ahead disk vol fs slots) : Answers disk vol fs log slots := by
  obtain ⟨cluster, behind, k, hopened, hchain, rfl⟩ := h
  induction hchain generalizing fs k log with
  | last hlink =>
    refine hopened.answers (.last hlink) fun fs k h hk =>
      ⟨fs, _, .of_round (h.round_of_chain_end hk (hreads _ _) hlink), ?_⟩
    exact ⟨_, [], k, h, .last hlink, by rw [Volume.drop_slotsIn_of_le hk]; rfl⟩
  | next hlink hrest ih =>
    refine hopened.answers (.next hlink hrest) fun fs k h hk => ?_
    obtain ⟨fs', hopened', hnext⟩ := h.round_of_link hk (hreads log _) (UInt32.not_le.mpr hlink) (hreads _ _)
    exact .of_next hnext (ih 0 hopened')

theorem Ahead.calls_iff (h : Ahead disk vol fs slots) {results : List (Except BootError DirEntry)} :
    Calls disk fs log results ↔ results = nextSlots results.length slots := by
  induction results generalizing fs log slots with
  | nil => exact iff_of_true .nil rfl
  | cons result results ih =>
    obtain ⟨fs', log', hcall, hahead⟩ := h.answers hreads
    rw [List.length_cons, nextSlots, List.cons.injEq, ← ih hahead]
    constructor
    · intro hcalls
      cases hcalls with
      | cons hcall' hrest =>
        obtain ⟨rfl, rfl, rfl⟩ := hcall'.unique hcall
        exact ⟨rfl, hrest⟩
    · rintro ⟨rfl, hrest⟩
      exact .cons hcall hrest

end Faultless

end Enumeration

/-- Loading a cluster and calling `next_dir_entry` again and again returns the records, and then the end for ever. -/
def Enumerates (disk : Disk) (fs : Fat32Handle) (cluster : UInt32) (log : List DiskRead) (records : List DirEntry) :
    Prop :=
  ∃ fs' log', loadCluster disk fs cluster log = .ok (.ok fs') log' ∧
    ∀ count, Calls disk fs' log' (expected records count)

theorem enumerates_iff_goesThrough {disk : Disk} {vol : Volume} {fs : Fat32Handle} {cluster : UInt32}
    {behind : List UInt32} {log : List DiskRead} (hreads : ∀ log read, disk.accepts log read = true)
    (h : Mounted disk vol fs) (hchain : vol.ChainOf cluster behind) :
    Enumerates disk fs cluster log (liveSlots (vol.slots (cluster :: behind))) ↔
      vol.clusterSize ≤ 32768 ∧ GoesThrough (vol.slots (cluster :: behind)) := by
  by_cases hroom : vol.clusterSize ≤ 32768
  · obtain ⟨fs', hload, hopened⟩ := h.loadCluster_of_accepted (hreads log _) hroom
    have hahead : Ahead disk vol fs' (vol.slots (cluster :: behind)) := ⟨cluster, behind, 0, hopened, hchain, rfl⟩
    have hcalls : Enumerates disk fs cluster log (liveSlots (vol.slots (cluster :: behind))) ↔
        ∀ count, Calls disk fs' (log ++ [vol.clusterRead cluster vol.clusterSize])
          (expected (liveSlots (vol.slots (cluster :: behind))) count) := by
      unfold Enumerates
      rw [hload]
      simp
    rw [and_iff_right hroom, hcalls]
    refine forall_congr' fun count => ?_
    rw [hahead.calls_iff hreads, expected, List.length_append, List.length_map, List.length_replicate]
    exact eq_comm
  · refine iff_of_false ?_ fun hall => hroom hall.1
    rintro ⟨fs', log', hload, -⟩
    rw [h.loadCluster_of_large (hreads log _) (Nat.lt_of_not_le hroom)] at hload
    cases hload

/-- **Directories are enumerated.** On a disk without faults, the calls return the records of a directory in order,
and then the end for ever, exactly if clusters have at most 64 sectors, no slot in use is deleted other than parts of
long names, and no slot behind the first free one looks like a record. -/
theorem directory_enumerated_iff (disk : Disk) (range : SectorRange) (fs : Fat32Handle) (cluster : UInt32)
    (behind : List UInt32) (log : List DiskRead) (hreads : ∀ log read, disk.accepts log read = true)
    (hfs : HandleOf disk range fs) (hchain : (volumeIn disk range).ChainOf cluster behind) :
    Enumerates disk fs cluster log (liveSlots ((volumeIn disk range).slots (cluster :: behind))) ↔
      (volumeIn disk range).fat.sectorsPerCluster ≤ 64 ∧
        (∀ e ∈ usedSlots ((volumeIn disk range).slots (cluster :: behind)), e.firstByte = 0xE5 → e.attr = 0x0F) ∧
        ∀ e ∈ ((volumeIn disk range).slots (cluster :: behind)).drop
          (usedSlots ((volumeIn disk range).slots (cluster :: behind))).length, e.firstByte ≠ 0 → e.attr = 0x0F := by
  rw [enumerates_iff_goesThrough hreads hfs.mounted hchain, Volume.clusterSize_le_iff, goesThrough_iff]

def oneSlotDisk (firstByte : UInt8) : Disk := smallDisk [(2, 0x0FFFFFFF)] [(2, firstByte :: List.replicate 10 0x20)]

theorem record_is_enumerated : ∃ fs, HandleOf (oneSlotDisk 0x41) smallRange fs ∧
    Enumerates (oneSlotDisk 0x41) fs 2 [] (liveSlots ((volumeIn (oneSlotDisk 0x41) smallRange).slots [2])) := by
  obtain ⟨fs, hfs⟩ := @exists_handle (oneSlotDisk 0x41) smallRange [] rfl (by decide)
  exact ⟨fs, hfs, (directory_enumerated_iff _ smallRange fs 2 [] [] (fun _ _ => rfl) hfs
    (.last (by decide))).mpr (by decide)⟩

/-- A deleted slot is returned as a record, because a `char` is never `0xE5`. -/
theorem deleted_slot_is_returned : ∃ fs, HandleOf (oneSlotDisk 0xE5) smallRange fs ∧
    ¬Enumerates (oneSlotDisk 0xE5) fs 2 [] (liveSlots ((volumeIn (oneSlotDisk 0xE5) smallRange).slots [2])) := by
  obtain ⟨fs, hfs⟩ := @exists_handle (oneSlotDisk 0xE5) smallRange [] rfl (by decide)
  refine ⟨fs, hfs, fun h => ?_⟩
  have hgoes := ((enumerates_iff_goesThrough (fun _ _ => rfl) hfs.mounted (.last (by decide))).mp h).2
  exact absurd (goesThrough_iff.mp hgoes) (by decide)

end FerrumVM.Boot
