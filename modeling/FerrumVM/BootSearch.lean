import FerrumVM.BootDirectory

/-! When `find_in_dir` of `disk/boot.c` returns. It goes from cluster to cluster as long as nothing stops it, and a chain
of clusters need not come to an end. -/

namespace FerrumVM.Boot

open Base Program

/-- A directory is opened at a cluster, and a name is looked for in it. -/
def searchDir (disk : Disk) (fs : Fat32Handle) (cluster : UInt32) (name : Bytes) (fuel : Nat) :
    DiskProgram (Except BootError DirEntry) := do
  match ← loadCluster disk fs cluster with
  | .error status => return .error status
  | .ok fs =>
    let (result, _) ← findInDir disk name fuel fs
    return result

/-! ### What stops the search -/

section Stops

variable (disk : Disk) (vol : Volume) (name : Bytes)

/-- The search does not go past this slot: it is free, or a record with the name. -/
def StopsAtSlot (e : DirEntry) : Prop := e.firstByte = 0 ∨ e.attr ≠ 0x0F ∧ memcmp e.name name = 0

instance (e : DirEntry) : Decidable (StopsAtSlot name e) := inferInstanceAs (Decidable (_ ∨ _))

/-- The search does not go past the link of a cluster: it is an end mark, or one of the next two reads fails. -/
def StopsAtLink (cluster : UInt32) (log : List DiskRead) : Prop :=
  0x0FFFFFF8 ≤ vol.link cluster ∨ ¬disk.accepts log (vol.linkRead cluster) = true ∨
    ¬disk.accepts (log ++ [vol.linkRead cluster]) (vol.clusterRead (vol.link cluster) vol.clusterSize) = true

def StopsIn (cluster : UInt32) (log : List DiskRead) : Prop :=
  (∃ e ∈ vol.slotsIn cluster, StopsAtSlot name e) ∨ StopsAtLink disk vol cluster log

/-- The reads from the first cluster of a chain to cluster `n` behind it. -/
def Volume.wayTo (cluster : UInt32) : Nat → List DiskRead
  | 0 => [vol.clusterRead cluster vol.clusterSize]
  | n + 1 => vol.clusterRead cluster vol.clusterSize :: vol.linkRead cluster :: wayTo (vol.link cluster) n

end Stops

/-- Calls of `next_dir_entry` come to a record with the name, or to a status that is not a success. -/
inductive Finishes (disk : Disk) (name : Bytes) : Fat32Handle → List DiskRead → Prop
  | failed {fs fs' : Fat32Handle} {log log' : List DiskRead} {status : BootError}
      (hcall : CallReturns disk fs log (.error status) fs' log') : Finishes disk name fs log
  | found {fs fs' : Fat32Handle} {log log' : List DiskRead} {e : DirEntry}
      (hcall : CallReturns disk fs log (.ok e) fs' log') (hname : memcmp e.name name = 0) : Finishes disk name fs log
  | other {fs fs' : Fat32Handle} {log log' : List DiskRead} {e : DirEntry}
      (hcall : CallReturns disk fs log (.ok e) fs' log') (hname : memcmp e.name name ≠ 0)
      (hrest : Finishes disk name fs' log') : Finishes disk name fs log

section Search

variable {disk : Disk} {vol : Volume} {name : Bytes} {fs fs1 : Fat32Handle} {log log1 : List DiskRead}
  {cluster : UInt32} {k : Nat}

theorem Finishes.returns (h : Finishes disk name fs log) :
    ∃ n, ∀ fuel, n ≤ fuel → Returns (findInDir disk name fuel fs) log := by
  induction h with
  | failed hcall =>
    obtain ⟨n, hrun⟩ := hcall
    refine ⟨n + 1, fun fuel hfuel => ?_⟩
    obtain ⟨fuel, rfl⟩ : ∃ m, fuel = m + 1 := ⟨fuel - 1, by omega⟩
    rw [findInDir, returns_bind_of_ok (hrun fuel (by omega))]
    exact returns_pure _ _
  | found hcall hname =>
    obtain ⟨n, hrun⟩ := hcall
    refine ⟨n + 1, fun fuel hfuel => ?_⟩
    obtain ⟨fuel, rfl⟩ : ∃ m, fuel = m + 1 := ⟨fuel - 1, by omega⟩
    rw [findInDir, returns_bind_of_ok (hrun fuel (by omega))]
    dsimp only
    rw [if_pos hname]
    exact returns_pure _ _
  | other hcall hname _ ih =>
    obtain ⟨n, hrun⟩ := hcall
    obtain ⟨n', hrest⟩ := ih
    refine ⟨n + n' + 1, fun fuel hfuel => ?_⟩
    obtain ⟨fuel, rfl⟩ : ∃ m, fuel = m + 1 := ⟨fuel - 1, by omega⟩
    rw [findInDir, returns_bind_of_ok (hrun fuel (by omega))]
    dsimp only
    rw [if_neg hname]
    exact hrest fuel (by omega)

theorem Finishes.of_next (h : ∀ fuel, nextDirEntry disk (fuel + 1) fs log = nextDirEntry disk fuel fs1 log1)
    (hrest : Finishes disk name fs1 log1) : Finishes disk name fs log := by
  cases hrest with
  | failed hcall => exact .failed (.of_next h hcall)
  | found hcall hname => exact .found (.of_next h hcall) hname
  | other hcall hname hrest => exact .other (.of_next h hcall) hname hrest

theorem Opened.finishes (h : Opened disk vol fs cluster k)
    (hstops : (∃ e ∈ (vol.slotsIn cluster).drop k, StopsAtSlot name e) ∨
      ∀ fs k, Opened disk vol fs cluster k → vol.records ≤ k → Finishes disk name fs log) :
    Finishes disk name fs log := by
  induction hleft : vol.records - k generalizing fs k with
  | zero =>
    have hk : vol.records ≤ k := by omega
    obtain ⟨e, he, -⟩ | hbehind := hstops
    · rw [Volume.drop_slotsIn_of_le hk] at he
      cases he
    · exact hbehind fs k h hk
  | succ left ih =>
    have hk : k < vol.records := by omega
    simp only [Volume.drop_slotsIn hk, List.mem_cons, or_and_right, exists_or, exists_eq_left] at hstops
    by_cases hend : (vol.record cluster k).firstByte = 0
    · exact .failed (.of_round (h.round_of_free hk hend))
    by_cases hattr : (vol.record cluster k).attr = 0x0F
    · have hrest := hstops.imp_left fun h => h.resolve_left (by simp [StopsAtSlot, hend, hattr])
      exact .of_next (h.round_of_long hk hend hattr) (ih (h.advance hk) hrest (by omega))
    have hcall : CallReturns disk fs log _ _ log :=
      .of_round (h.round_of_record hk hend hattr)
    by_cases hname : memcmp (vol.record cluster k).name name = 0
    · exact .found hcall hname
    · have hrest := hstops.imp_left fun h => h.resolve_left (by simp [StopsAtSlot, hend, hname])
      exact .other hcall hname (ih (h.advance hk) hrest (by omega))

theorem Opened.finishes_link (h : Opened disk vol fs cluster k) (hk : vol.records ≤ k)
    (hnext : ¬StopsAtLink disk vol cluster log → ∀ fs', Opened disk vol fs' (vol.link cluster) 0 →
      Finishes disk name fs' (log ++ [vol.linkRead cluster] ++ [vol.clusterRead (vol.link cluster) vol.clusterSize])) :
    Finishes disk name fs log := by
  by_cases halink : disk.accepts log (vol.linkRead cluster) = true
  swap
  · exact .failed (.of_round (h.round_of_link_refused hk halink))
  by_cases hlink : 0x0FFFFFF8 ≤ vol.link cluster
  · exact .failed (.of_round (h.round_of_chain_end hk halink hlink))
  by_cases ha : disk.accepts (log ++ [vol.linkRead cluster]) (vol.clusterRead (vol.link cluster) vol.clusterSize) = true
  swap
  · exact .failed (.of_round (h.round_of_cluster_refused hk halink hlink ha))
  obtain ⟨fs', hopened, hround⟩ := h.round_of_link hk halink hlink ha
  refine .of_next hround (hnext ?_ fs' hopened)
  rintro (hend | hrefused | hrefused)
  · exact hlink hend
  · exact hrefused halink
  · exact hrefused ha

/-- A search that something stops comes to an end, by induction on the clusters before it. -/
theorem Opened.finishes_of_stopsIn {n : Nat} {log₀ : List DiskRead} (h : Opened disk vol fs cluster 0)
    (hstops : StopsIn disk vol name (vol.link^[n] cluster) (log₀ ++ vol.wayTo cluster n)) :
    Finishes disk name fs (log₀ ++ [vol.clusterRead cluster vol.clusterSize]) := by
  induction n generalizing cluster fs log₀ with
  | zero =>
    obtain hslot | hlink := hstops
    · exact h.finishes (.inl hslot)
    · exact h.finishes (.inr fun fs k h hk => h.finishes_link hk fun hgo => absurd hlink hgo)
  | succ n ih =>
    refine h.finishes (.inr fun fs k h hk => h.finishes_link hk fun _ fs' hopened => ?_)
    rw [List.append_assoc log₀]
    refine ih hopened ?_
    rw [Function.iterate_succ_apply] at hstops
    rw [List.append_assoc]
    exact hstops

/-! ### A search that nothing stops -/

/-- The handle is in a chain of clusters in which nothing stops the search. -/
def Endless (disk : Disk) (vol : Volume) (name : Bytes) (fs : Fat32Handle) (log : List DiskRead) : Prop :=
  ∃ cluster k log₀, Opened disk vol fs cluster k ∧ log = log₀ ++ [vol.clusterRead cluster vol.clusterSize] ∧
    ∀ n, ¬StopsIn disk vol name (vol.link^[n] cluster) (log₀ ++ vol.wayTo cluster n)

theorem Endless.nextDirEntry (h : Endless disk vol name fs log) (fuel : Nat) : wp (nextDirEntry disk fuel fs)
      (fun result log' => ∃ e, result.1 = .ok e ∧ memcmp e.name name ≠ 0 ∧ Endless disk vol name result.2 log')
      (fun e _ => e = .outOfFuel) log := by
  induction fuel generalizing fs log with
  | zero => exact rfl
  | succ fuel ih =>
    obtain ⟨cluster, k, log₀, hopened, rfl, hgo⟩ := h
    have hhere : ¬StopsIn disk vol name cluster (log₀ ++ [vol.clusterRead cluster vol.clusterSize]) := hgo 0
    obtain ⟨hslots, hlink⟩ := not_or.mp hhere
    by_cases hk : k < vol.records
    · have hslot : ¬StopsAtSlot name (vol.record cluster k) := fun hstops =>
        hslots ⟨_, List.mem_map.mpr ⟨k, List.mem_range.mpr hk, rfl⟩, hstops⟩
      obtain ⟨hend, hother⟩ := not_or.mp hslot
      have hrest : Endless disk vol name { fs with entryIndex := fs.entryIndex + 1 }
          (log₀ ++ [vol.clusterRead cluster vol.clusterSize]) := ⟨cluster, k + 1, log₀, hopened.advance hk, rfl, hgo⟩
      by_cases hattr : (vol.record cluster k).attr = 0x0F
      · rw [wp_of_eq (hopened.round_of_long hk hend hattr fuel)]
        exact ih hrest
      · rw [wp_of_ok (hopened.round_of_record hk hend hattr fuel)]
        exact ⟨_, rfl, fun hname => hother ⟨hattr, hname⟩, hrest⟩
    · obtain ⟨hend, hlink⟩ := not_or.mp hlink
      obtain ⟨halink, ha⟩ := not_or.mp hlink
      obtain ⟨fs', hopened', hround⟩ :=
        hopened.round_of_link (Nat.le_of_not_lt hk) (not_not.mp halink) hend (not_not.mp ha)
      rw [wp_of_eq (hround fuel), List.append_assoc log₀]
      refine ih ⟨vol.link cluster, 0, _, hopened', rfl, fun n => ?_⟩
      have hnext := hgo (n + 1)
      rw [Function.iterate_succ_apply] at hnext
      rw [List.append_assoc]
      exact hnext

theorem Endless.findInDir (h : Endless disk vol name fs log) (fuel : Nat) :
    wp (findInDir disk name fuel fs) (fun _ _ => False) (fun e _ => e = .outOfFuel) log := by
  induction fuel generalizing fs log with
  | zero => exact rfl
  | succ fuel ih =>
    rw [Boot.findInDir, wp_bind]
    refine wp_mono ?_ (fun _ _ he => he) (h.nextDirEntry fuel)
    rintro ⟨result, fs'⟩ log' ⟨e, rfl, hname, hrest⟩
    dsimp only
    rw [if_neg hname]
    exact ih hrest

theorem not_returns_searchDir (h : Mounted disk vol fs) (hroom : vol.clusterSize ≤ 32768)
    (ha : disk.accepts log (vol.clusterRead cluster vol.clusterSize) = true)
    (hgo : ∀ n, ¬StopsIn disk vol name (vol.link^[n] cluster) (log ++ vol.wayTo cluster n)) (fuel : Nat) :
    ¬Returns (searchDir disk fs cluster name fuel) log := by
  obtain ⟨fs', hload, hopened⟩ := h.loadCluster_of_accepted ha hroom
  have hendless : Endless disk vol name fs' (log ++ [vol.clusterRead cluster vol.clusterSize]) :=
    ⟨cluster, 0, log, hopened, rfl, hgo⟩
  intro hreturns
  rw [searchDir, returns_bind_of_ok hload] at hreturns
  obtain ⟨a, t, hrun, -⟩ := returns_bind.mp hreturns
  exact (wp_of_ok hrun).mp (hendless.findInDir fuel)

end Search

/-- **The search of a directory returns** exactly if its first cluster cannot be read or fits the buffer, and on the way
along the links there is a slot that is free or has the name, an end mark, or a read that fails. -/
theorem search_returns_iff (disk : Disk) (range : SectorRange) (fs : Fat32Handle) (cluster : UInt32) (name : Bytes)
    (log : List DiskRead) (hfs : HandleOf disk range fs) :
    (∃ fuel, Returns (searchDir disk fs cluster name fuel) log) ↔
      ¬disk.accepts log ((volumeIn disk range).clusterRead cluster (volumeIn disk range).clusterSize) = true ∨
        (volumeIn disk range).fat.sectorsPerCluster ≤ 64 ∧
          ∃ n, StopsIn disk (volumeIn disk range) name ((volumeIn disk range).link^[n] cluster)
            (log ++ (volumeIn disk range).wayTo cluster n) := by
  have h := hfs.mounted
  rw [← Volume.clusterSize_le_iff]
  by_cases ha : disk.accepts log ((volumeIn disk range).clusterRead cluster (volumeIn disk range).clusterSize) = true
  swap
  · refine iff_of_true ⟨0, ?_⟩ (.inl ha)
    rw [searchDir, returns_bind_of_ok (h.loadCluster_of_refused ha)]
    exact returns_pure _ _
  by_cases hroom : (volumeIn disk range).clusterSize ≤ 32768
  swap
  · refine iff_of_false ?_ (by simp [ha, hroom])
    rintro ⟨fuel, result, log', hrun⟩
    rw [searchDir, bind_of_error (h.loadCluster_of_large ha (Nat.lt_of_not_le hroom))] at hrun
    cases hrun
  simp only [ha, hroom, not_true_eq_false, false_or, true_and]
  constructor
  · rintro ⟨fuel, hreturns⟩
    by_contra hgo
    exact not_returns_searchDir h hroom ha (not_exists.mp hgo) fuel hreturns
  · rintro ⟨n, hstops⟩
    obtain ⟨fs', hload, hopened⟩ := h.loadCluster_of_accepted ha hroom
    obtain ⟨fuel, hrun⟩ := (hopened.finishes_of_stopsIn hstops).returns
    obtain ⟨a, t, hfind⟩ := hrun fuel (Nat.le_refl _)
    refine ⟨fuel, ?_⟩
    rw [searchDir, returns_bind_of_ok hload]
    exact returns_bind.mpr ⟨a, t, hfind, returns_pure _ _⟩

theorem last_cluster_is_searched : ∃ fs fuel, HandleOf (oneSlotDisk 0x41) smallRange fs ∧
    Returns (searchDir (oneSlotDisk 0x41) fs 2 bootx64Name fuel) [] := by
  obtain ⟨fs, hfs⟩ := @exists_handle (oneSlotDisk 0x41) smallRange [] rfl (by decide)
  obtain ⟨fuel, hreturns⟩ := (search_returns_iff (oneSlotDisk 0x41) smallRange fs 2 bootx64Name [] hfs).mpr
    (.inr ⟨by decide, 0, .inr (.inl (by decide))⟩)
  exact ⟨fs, fuel, hfs, hreturns⟩

/-- A directory whose only cluster is full of other names and linked to itself. -/
def circularDisk : Disk := smallDisk [(2, 2)] [(2, List.replicate 512 0x41)]

theorem circle_is_searched_for_ever : ∃ fs, HandleOf circularDisk smallRange fs ∧
    ¬∃ fuel, Returns (searchDir circularDisk fs 2 bootx64Name fuel) [] := by
  obtain ⟨fs, hfs⟩ := @exists_handle circularDisk smallRange [] rfl (by decide)
  refine ⟨fs, hfs, not_exists.mpr (not_returns_searchDir hfs.mounted (by decide) rfl fun n => ?_)⟩
  have hlink : (volumeIn circularDisk smallRange).link 2 = 2 := by decide
  rw [Function.iterate_fixed hlink]
  rintro (hslot | hend | hrefused | hrefused)
  · exact absurd hslot (by decide +kernel)
  · rw [hlink] at hend
    exact absurd hend (by decide)
  · exact hrefused rfl
  · exact hrefused rfl

end FerrumVM.Boot
