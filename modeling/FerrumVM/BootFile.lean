import FerrumVM.BootVolume

/-! The bytes of a file, cluster by cluster, and `read_file`: what the buffer holds if all goes well, and what is left
in it otherwise. -/

namespace FerrumVM.Boot

open Base Program

/-! ### Files -/

/-- The number stands for a cluster: it is neither free, nor reserved, bad or an end. -/
def IsData (cluster : UInt32) : Prop := 2 ≤ cluster ∧ cluster < 0x0FFFFFF7

instance (cluster : UInt32) : Decidable (IsData cluster) := inferInstanceAs (Decidable (_ ∧ _))

def wholeSectors (length : Nat) : Nat := (length + 511) / 512 * 512

namespace Volume

variable (vol : Volume)

def chain (cluster : UInt32) : Nat → Option UInt32
  | 0 => if IsData cluster then some cluster else none
  | q + 1 => if IsData cluster then chain (vol.link cluster) q else none

def fileByte (cluster : UInt32) (p : Nat) : Option UInt8 :=
  (vol.chain cluster (p / vol.clusterSize)).map fun c => vol.clusterBytes c (p % vol.clusterSize)

def readsFrom : (rounds : Nat) → (cluster : UInt32) → (remaining : Nat) → List DiskRead
  | 0, _, _ => []
  | rounds + 1, cluster, remaining =>
    if remaining = 0 then []
    else
      let toRead := min remaining vol.clusterSize
      vol.clusterRead cluster (wholeSectors toRead) ::
        if remaining - toRead = 0 then []
        else vol.linkRead cluster :: readsFrom rounds (vol.link cluster) (remaining - toRead)

def fileReads (entry : DirEntry) : List DiskRead :=
  vol.readsFrom entry.fileSize.toNat entry.firstCluster entry.fileSize.toNat

variable {vol} {cluster : UInt32} {p : Nat}

theorem clusterSize_pos (h : vol.IsFat32) : 0 < vol.clusterSize := by
  have hne : vol.fat.sectorsPerCluster.toNat ≠ 0 := fun hzero => h.2 (UInt8.toNat.inj hzero)
  rw [clusterSize]
  omega

theorem fileByte_of_lt (hp : p < vol.clusterSize) :
    vol.fileByte cluster p = if IsData cluster then some (vol.clusterBytes cluster p) else none := by
  rw [fileByte, Nat.div_eq_of_lt hp, Nat.mod_eq_of_lt hp, chain]
  split_ifs <;> rfl

theorem fileByte_add (hsize : 0 < vol.clusterSize) : vol.fileByte cluster (vol.clusterSize + p) =
      if IsData cluster then vol.fileByte (vol.link cluster) p else none := by
  rw [fileByte, Nat.add_div_left p hsize, Nat.add_mod_left, chain]
  split_ifs <;> rfl

theorem fileByte_isSome_link (hsize : 0 < vol.clusterSize) {rest : Nat}
    (h : ∀ p < vol.clusterSize + rest, (vol.fileByte cluster p).isSome) :
    ∀ p < rest, (vol.fileByte (vol.link cluster) p).isSome := by
  intro p hp
  have hsome := h (vol.clusterSize + p) (by omega)
  rw [fileByte_add hsize] at hsome
  split_ifs at hsome with hdata
  · exact hsome
  · cases hsome

theorem isData_of_fileByte (h : (vol.fileByte cluster p).isSome) : IsData cluster := by
  by_contra hdata
  have hchain : vol.chain cluster (p / vol.clusterSize) = none := by
    cases p / vol.clusterSize <;> exact if_neg hdata
  rw [fileByte, hchain] at h
  cases h

theorem fileByte_eq_of_parts (hsize : 0 < vol.clusterSize) (hdata : IsData cluster) {bytes : ByteMap}
    {offset rest : Nat} (hfirst : ∀ p < vol.clusterSize, bytes (offset + p) = vol.clusterBytes cluster p)
    (hrest : ∀ p < rest, vol.fileByte (vol.link cluster) p = some (bytes (offset + vol.clusterSize + p))) :
    ∀ p < vol.clusterSize + rest, vol.fileByte cluster p = some (bytes (offset + p)) := by
  intro p hp
  by_cases hlt : p < vol.clusterSize
  · rw [fileByte_of_lt hlt, if_pos hdata, hfirst p hlt]
  · obtain ⟨q, rfl⟩ : ∃ q, p = vol.clusterSize + q := ⟨p - vol.clusterSize, by omega⟩
    rw [fileByte_add hsize, if_pos hdata, hrest q (by omega), Nat.add_assoc]

end Volume

theorem IsData.not_end {cluster : UInt32} (h : IsData cluster) : ¬0x0FFFFFF8 ≤ cluster := by
  have hlt := h.2
  rw [UInt32.lt_iff_toNat_lt] at hlt
  rw [UInt32.le_iff_toNat_le]
  exact Nat.not_le.mpr (Nat.lt_trans hlt (by decide))

theorem FileBuf.bytes_put_add {buf : FileBuf} {offset length p : Nat} {data : ByteMap} (hp : p < length) :
    (buf.put offset length data).bytes (offset + p) = data p := by
  refine (ByteMap.put_of_inside ⟨by omega, by omega⟩).trans ?_
  rw [Nat.add_sub_cancel_left]

theorem FileBuf.bytes_put_of_outside {buf : FileBuf} {offset length p : Nat} {data : ByteMap}
    (hp : ¬(offset ≤ p ∧ p < offset + length)) : (buf.put offset length data).bytes p = buf.bytes p :=
  ByteMap.put_of_outside hp

section Read

variable {disk : Disk} {vol : Volume} {fs : Fat32Handle} {cluster : UInt32} {rounds offset remaining : Nat}
  {buf : FileBuf} {log : List DiskRead}

theorem wholeSectors_clusterSize : wholeSectors vol.clusterSize = vol.clusterSize := by
  unfold wholeSectors Volume.clusterSize
  omega

theorem wholeSectors_add_clusterSize (n : Nat) :
    wholeSectors (vol.clusterSize + n) = vol.clusterSize + wholeSectors n := by
  unfold wholeSectors Volume.clusterSize
  omega

/-! The reads of a file that ends in its first cluster, and of one that goes on. -/

theorem readsFrom_last (hremaining : remaining ≠ 0) (hle : remaining ≤ vol.clusterSize) :
    vol.readsFrom (rounds + 1) cluster remaining = [vol.clusterRead cluster (wholeSectors remaining)] := by
  rw [Volume.readsFrom, if_neg hremaining, Nat.min_eq_left hle]
  dsimp only
  rw [if_pos (Nat.sub_self remaining)]

theorem readsFrom_more (hlt : vol.clusterSize < remaining) :
    vol.readsFrom (rounds + 1) cluster remaining = vol.clusterRead cluster vol.clusterSize ::
      vol.linkRead cluster :: vol.readsFrom rounds (vol.link cluster) (remaining - vol.clusterSize) := by
  rw [Volume.readsFrom, if_neg (by omega), Nat.min_eq_right (by omega)]
  dsimp only
  rw [if_neg (by omega), wholeSectors_clusterSize]

/-! One round of `read_file`. -/

section

variable (h : Mounted disk vol fs) (hremaining : remaining ≠ 0)
include h hremaining

theorem readFileLoop_of_refused
    (ha : ¬disk.accepts log (vol.clusterRead cluster (wholeSectors (min remaining vol.clusterSize))) = true) :
    readFileLoop disk fs (rounds + 1) cluster offset remaining buf log = .ok (.error .ioError, buf)
      (log ++ [vol.clusterRead cluster (wholeSectors (min remaining vol.clusterSize))]) := by
  rw [readFileLoop, if_neg hremaining]
  dsimp only
  rw [h.clusterSize]
  exact bind_of_ok (h.read_of_refused ha)

theorem readFileLoop_of_no_room
    (ha : disk.accepts log (vol.clusterRead cluster (wholeSectors (min remaining vol.clusterSize))) = true)
    (hroom : buf.room < offset + wholeSectors (min remaining vol.clusterSize)) :
    readFileLoop disk fs (rounds + 1) cluster offset remaining buf log = .error (.panic (.message "file_buf"))
      (log ++ [vol.clusterRead cluster (wholeSectors (min remaining vol.clusterSize))]) := by
  rw [readFileLoop, if_neg hremaining]
  dsimp only
  rw [h.clusterSize]
  refine (bind_of_ok (h.read_of_accepted ha)).trans ?_
  exact congrFun (if_pos hroom) _

theorem readFileLoop_last (hle : remaining ≤ vol.clusterSize)
    (ha : disk.accepts log (vol.clusterRead cluster (wholeSectors remaining)) = true)
    (hroom : offset + wholeSectors remaining ≤ buf.room) :
    readFileLoop disk fs (rounds + 1) cluster offset remaining buf log =
      .ok (.ok (), buf.put offset (wholeSectors remaining) (vol.clusterBytes cluster))
        (log ++ [vol.clusterRead cluster (wholeSectors remaining)]) := by
  rw [readFileLoop, if_neg hremaining]
  dsimp only
  rw [h.clusterSize, Nat.min_eq_left hle]
  refine (bind_of_ok (h.read_of_accepted ha)).trans ?_
  refine (congrFun (if_neg (Nat.not_lt.mpr hroom)) _).trans ?_
  rw [if_pos (Nat.sub_self remaining)]
  rfl

end

section

variable (h : Mounted disk vol fs) (hlt : vol.clusterSize < remaining) (ha : disk.accepts log (vol.clusterRead cluster vol.clusterSize) = true) (hroom : offset + vol.clusterSize ≤ buf.room)
include h hlt ha hroom

theorem readFileLoop_more : readFileLoop disk fs (rounds + 1) cluster offset remaining buf log = (do
        match ← readFatEntry disk fs cluster with
        | .error status => return (.error status, buf.put offset vol.clusterSize (vol.clusterBytes cluster))
        | .ok nextCluster =>
          if 0x0FFFFFF8 ≤ nextCluster then
            return (.error .ioError, buf.put offset vol.clusterSize (vol.clusterBytes cluster))
          else
            readFileLoop disk fs rounds nextCluster (offset + vol.clusterSize) (remaining - vol.clusterSize)
              (buf.put offset vol.clusterSize (vol.clusterBytes cluster)) :
        DiskProgram (Except BootError Unit × FileBuf)) (log ++ [vol.clusterRead cluster vol.clusterSize]) := by
  rw [readFileLoop, if_neg (by omega)]
  dsimp only
  rw [h.clusterSize, Nat.min_eq_right (by omega)]
  have hwhole : (vol.clusterSize + 511) / 512 * 512 = vol.clusterSize := wholeSectors_clusterSize
  rw [hwhole]
  refine (bind_of_ok (h.read_of_accepted ha)).trans ?_
  refine (congrFun (if_neg (Nat.not_lt.mpr hroom)) _).trans ?_
  exact congrFun (if_neg (show ¬remaining - vol.clusterSize = 0 by omega)) _

theorem readFileLoop_of_link_refused
    (halink : ¬disk.accepts (log ++ [vol.clusterRead cluster vol.clusterSize]) (vol.linkRead cluster) = true) :
    readFileLoop disk fs (rounds + 1) cluster offset remaining buf log =
      .ok (.error .ioError, buf.put offset vol.clusterSize (vol.clusterBytes cluster))
        (log ++ [vol.clusterRead cluster vol.clusterSize] ++ [vol.linkRead cluster]) := by
  rw [readFileLoop_more h hlt ha hroom, bind_of_ok (h.readFatEntry_of_refused halink)]
  rfl

section

variable (halink : disk.accepts (log ++ [vol.clusterRead cluster vol.clusterSize]) (vol.linkRead cluster) = true)
include halink

theorem readFileLoop_of_end (hlink : 0x0FFFFFF8 ≤ vol.link cluster) :
    readFileLoop disk fs (rounds + 1) cluster offset remaining buf log =
      .ok (.error .ioError, buf.put offset vol.clusterSize (vol.clusterBytes cluster))
        (log ++ [vol.clusterRead cluster vol.clusterSize] ++ [vol.linkRead cluster]) := by
  rw [readFileLoop_more h hlt ha hroom, bind_of_ok (h.readFatEntry_of_accepted halink)]
  dsimp only
  rw [if_pos hlink]
  rfl

theorem readFileLoop_of_link (hlink : ¬0x0FFFFFF8 ≤ vol.link cluster) :
    readFileLoop disk fs (rounds + 1) cluster offset remaining buf log =
      readFileLoop disk fs rounds (vol.link cluster) (offset + vol.clusterSize) (remaining - vol.clusterSize)
        (buf.put offset vol.clusterSize (vol.clusterBytes cluster))
        (log ++ [vol.clusterRead cluster vol.clusterSize] ++ [vol.linkRead cluster]) := by
  rw [readFileLoop_more h hlt ha hroom, bind_of_ok (h.readFatEntry_of_accepted halink)]
  dsimp only
  rw [if_neg hlink]

end

end

theorem readFileLoop_complete (h : Mounted disk vol fs) (hrounds : remaining ≤ rounds)
    (ha : Accepted disk log (vol.readsFrom rounds cluster remaining))
    (hchain : ∀ p < remaining, (vol.fileByte cluster p).isSome) (hroom : offset + wholeSectors remaining ≤ buf.room) :
    ∃ buf' log', readFileLoop disk fs rounds cluster offset remaining buf log = .ok (.ok (), buf') log' ∧
      (∀ p < remaining, vol.fileByte cluster p = some (buf'.bytes (offset + p))) ∧
      ∀ p < offset, buf'.bytes p = buf.bytes p := by
  have hsize := Volume.clusterSize_pos h.isFat32
  induction rounds generalizing cluster offset remaining buf log with
  | zero => exact ⟨buf, log, rfl, fun p hp => absurd hp (by omega), fun _ _ => rfl⟩
  | succ rounds ih =>
    by_cases hremaining : remaining = 0
    · refine ⟨buf, log, ?_, fun p hp => absurd hp (by omega), fun _ _ => rfl⟩
      rw [readFileLoop, if_pos hremaining]
      rfl
    have hdata : IsData cluster := Volume.isData_of_fileByte (hchain 0 (by omega))
    by_cases hle : remaining ≤ vol.clusterSize
    · rw [readsFrom_last hremaining hle] at ha
      refine ⟨_, _, readFileLoop_last h hremaining hle ha.1 hroom, ?_, ?_⟩
      · intro p hp
        have hin : p < wholeSectors remaining := by
          unfold wholeSectors
          omega
        rw [Volume.fileByte_of_lt (by omega), if_pos hdata, FileBuf.bytes_put_add hin]
      · intro p hp
        exact FileBuf.bytes_put_of_outside (by omega)
    · obtain ⟨rest, rfl⟩ : ∃ rest, remaining = vol.clusterSize + rest := ⟨remaining - vol.clusterSize, by omega⟩
      rw [readsFrom_more (by omega), Nat.add_sub_cancel_left] at ha
      obtain ⟨hacluster, halink, ha⟩ := ha
      rw [wholeSectors_add_clusterSize, ← Nat.add_assoc] at hroom
      have hchain' := Volume.fileByte_isSome_link hsize hchain
      have hlink := (Volume.isData_of_fileByte (hchain' 0 (by omega))).not_end
      obtain ⟨buf', log', hrun, hbytes, hbefore⟩ :=
        ih (by omega) ha hchain'
          (show _ ≤ (buf.put offset vol.clusterSize (vol.clusterBytes cluster)).room from hroom)
      refine ⟨buf', log', ?_, ?_, ?_⟩
      · rw [readFileLoop_of_link h (by omega) hacluster (by omega) halink hlink, Nat.add_sub_cancel_left]
        exact hrun
      · refine Volume.fileByte_eq_of_parts hsize hdata (fun p hp => ?_) hbytes
        rw [hbefore (offset + p) (by omega), FileBuf.bytes_put_add hp]
      · intro p hp
        rw [hbefore p (by omega)]
        exact FileBuf.bytes_put_of_outside (by omega)

theorem readFileLoop_sound (h : Mounted disk vol fs) (hrounds : remaining ≤ rounds) (hoffset : offset ≤ buf.room) :
    wp (readFileLoop disk fs rounds cluster offset remaining buf) (fun result _ =>
        (Accepted disk log (vol.readsFrom rounds cluster remaining) ∧ offset + wholeSectors remaining ≤ buf.room) ∨
          ∃ p, offset ≤ p ∧ p < offset + remaining ∧ result.2.bytes p = buf.bytes p)
      (fun e _ => e ≠ .outOfFuel) log := by
  have hsize := Volume.clusterSize_pos h.isFat32
  induction rounds generalizing cluster offset remaining buf log with
  | zero =>
    obtain rfl : remaining = 0 := by omega
    exact Or.inl ⟨trivial, hoffset⟩
  | succ rounds ih =>
    by_cases hremaining : remaining = 0
    · subst hremaining
      exact Or.inl ⟨trivial, hoffset⟩
    by_cases ha : disk.accepts log (vol.clusterRead cluster (wholeSectors (min remaining vol.clusterSize))) = true
    swap
    · rw [wp_of_ok (readFileLoop_of_refused h hremaining ha)]
      exact Or.inr ⟨offset, Nat.le_refl _, by omega, rfl⟩
    by_cases hroom : buf.room < offset + wholeSectors (min remaining vol.clusterSize)
    · rw [wp_of_error (readFileLoop_of_no_room h hremaining ha hroom)]
      exact nofun
    by_cases hle : remaining ≤ vol.clusterSize
    · rw [Nat.min_eq_left hle] at ha hroom
      rw [wp_of_ok (readFileLoop_last h hremaining hle ha (Nat.le_of_not_lt hroom)), readsFrom_last hremaining hle]
      exact Or.inl ⟨⟨ha, trivial⟩, Nat.le_of_not_lt hroom⟩
    · obtain ⟨rest, rfl⟩ : ∃ rest, remaining = vol.clusterSize + rest := ⟨remaining - vol.clusterSize, by omega⟩
      rw [Nat.min_eq_right (by omega), wholeSectors_clusterSize] at ha hroom
      have hroom : offset + vol.clusterSize ≤ buf.room := Nat.le_of_not_lt hroom
      -- What a round puts in the buffer ends where the next round begins.
      have hkeep : ∀ p, offset + vol.clusterSize ≤ p →
          (buf.put offset vol.clusterSize (vol.clusterBytes cluster)).bytes p = buf.bytes p :=
        fun p hp => FileBuf.bytes_put_of_outside (by omega)
      have hstop : ∃ p, offset ≤ p ∧ p < offset + (vol.clusterSize + rest) ∧
          (buf.put offset vol.clusterSize (vol.clusterBytes cluster)).bytes p = buf.bytes p :=
        ⟨offset + vol.clusterSize, by omega, by omega, hkeep _ (Nat.le_refl _)⟩
      have hlt : vol.clusterSize < vol.clusterSize + rest := by omega
      by_cases halink : disk.accepts (log ++ [vol.clusterRead cluster vol.clusterSize]) (vol.linkRead cluster) = true
      swap
      · rw [wp_of_ok (readFileLoop_of_link_refused h hlt ha hroom halink)]
        exact Or.inr hstop
      by_cases hlink : 0x0FFFFFF8 ≤ vol.link cluster
      · rw [wp_of_ok (readFileLoop_of_end h hlt ha hroom halink hlink)]
        exact Or.inr hstop
      rw [wp_of_eq (readFileLoop_of_link h hlt ha hroom halink hlink), Nat.add_sub_cancel_left]
      have hrest : rest ≤ rounds := by omega
      refine wp_mono ?_ (fun _ _ he => he) (ih hrest hroom)
      rintro result _ (⟨hreads, hfits⟩ | ⟨p, hfrom, hto, hp⟩)
      · left
        rw [readsFrom_more (by omega), Nat.add_sub_cancel_left, wholeSectors_add_clusterSize, ← Nat.add_assoc]
        exact ⟨⟨ha, halink, hreads⟩, hfits⟩
      · exact Or.inr ⟨p, by omega, by omega, hp.trans (hkeep p hfrom)⟩

end Read

end FerrumVM.Boot
