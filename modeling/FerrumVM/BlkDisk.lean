import FerrumVM.BlkRequests
import FerrumVM.HostDisk

/-! The block device on a disk image. What a chain does to the disk and to its status byte is told for every
chain, also for one whose service panics: the state is the one that the service ends in. Two things follow.
The device does not look at the capacity that it advertises, so what becomes of a request outside of it is
decided by the host file. And it takes every type but zero for a write. -/

namespace FerrumVM

open Base Program
open FsVirtio (flagged)

abbrev DiskBlk (limits : DiskLimits) : Type := BlkVirtio (HostOs.disk limits)

namespace BlkVirtio

section Final

variable {H : HostOs} {head : UInt16} {t t1 : Ctx (BlkVirtio H) Ram}

/-- The chain that is carried out, if it is: its descriptors can be read, it has the form of a request, and
the byte offset of the sector fits. -/
def carried (q : VirtioQueue) (m : Ram) (head : UInt16) : Option BlkChain :=
  match chainAt q m head with
  | .ok (some chain) => if chain.request.sector.toNat * 512 < 2 ^ 64 then some chain else none
  | _ => none

theorem carried_eq_some {q : VirtioQueue} {m : Ram} {chain : BlkChain} :
    carried q m head = some chain ↔ chainAt q m head = .ok (some chain) ∧ chain.request.sector.toNat * 512 < 2 ^ 64 := by
  unfold carried
  constructor
  · intro h
    split at h
    · next chain' hchain =>
        split_ifs at h with hfits
        obtain rfl := Option.some.inj h
        exact ⟨hchain, hfits⟩
    · cases h
  · rintro ⟨hchain, hfits⟩
    rw [hchain]
    exact if_pos hfits

theorem carried_of_not_some {q : VirtioQueue} {m : Ram} (h : ∀ chain, chainAt q m head ≠ .ok (some chain)) :
    carried q m head = none := by
  unfold carried
  split
  · next chain hchain => exact absurd hchain (h chain)
  · rfl

/-- **What a chain comes to**, whether its service returns or panics: what is carried out of it. -/
theorem finalState_serve (head : UInt16) (t : Ctx (BlkVirtio H) Ram) :
    ((serve head).finalState t).dev = (outcome t.dev t.mem (carried t.queue t.mem head)).dev ∧
      stores ((serve head).finalState t).log =
        stores t.log ++ flagged t.mem (outcome t.dev t.mem (carried t.queue t.mem head)).writes := by
  have hskip (u : Ctx (BlkVirtio H) Ram) := (uses_skip head).effect u
  have hgathered := (uses_gather head).effect t
  obtain ⟨log, hlooks⟩ := looks_gather head t
  dsimp only at hlooks
  cases hchain : chainAt t.queue t.mem head with
  | error e =>
    rw [hchain] at hlooks
    have hnone : carried t.queue t.mem head = none := carried_of_not_some (by simp [hchain])
    rw [serve, finalState_bind_of_error hlooks, hnone]
    rw [finalState_of_error hlooks] at hgathered
    refine ⟨hgathered.dev (by decide), (hgathered.stores_eq (by decide)).trans ?_⟩
    exact (List.append_nil _).symm
  | ok chain? =>
    rw [hchain] at hlooks
    rw [finalState_of_ok hlooks] at hgathered
    rw [serve, finalState_bind_of_ok hlooks]
    have hdev := hgathered.dev (by decide)
    have hmem := hgathered.mem_eq
    have hstores := hgathered.stores_eq (by decide)
    generalize ({ t with log := t.log ++ log } : Ctx (BlkVirtio H) Ram) = t1 at hdev hmem hstores
    have hskipped : ((skip head).finalState t1).dev = t.dev ∧ stores ((skip head).finalState t1).log = stores t.log :=
      ⟨((hskip t1).dev (by decide)).trans hdev, ((hskip t1).stores_eq (by decide)).trans hstores⟩
    cases chain? with
    | none =>
      have hnone : carried t.queue t.mem head = none := carried_of_not_some (by simp [hchain])
      rw [hnone]
      exact ⟨hskipped.1, hskipped.2.trans (List.append_nil _).symm⟩
    | some chain =>
      dsimp only
      by_cases hfits : chain.request.sector.toNat * 512 < 2 ^ 64
      · rw [carried_eq_some.mpr ⟨hchain, hfits⟩]
        obtain ⟨moved, t2, htransfer⟩ := (total_transfer hfits).returns t1
        obtain ⟨_, rfl⟩ := transfer_outcome htransfer
        rw [finalState_bind_of_ok htransfer]
        have hends : Uses [.push] (if moved = true then (do Serve.pushUsed head chain.dataSection.len; return true)
            else skip head : Serve (BlkVirtio H) Ram Bool) :=
          .ite (.finish _ _ _) (uses_skip head)
        have hended := hends.effect (storedAll t1 (carryOut t1.dev t1.mem chain))
        rw [hdev, hmem] at hended ⊢
        refine ⟨hended.dev (by decide), (hended.stores_eq (by decide)).trans ?_⟩
        rw [stores_storedAll, hstores, hmem]
        rfl
      · have hnone : carried t.queue t.mem head = none := by
          unfold carried
          rw [hchain]
          exact if_neg hfits
        rw [hnone, finalState_bind_of_error (transfer_overflows hfits)]
        exact ⟨hdev, hstores.trans (List.append_nil _).symm⟩

end Final

/-! ### On a disk image -/

section Disk

variable {limits : DiskLimits}

def contents (s : BlkVirtio (HostOs.disk limits)) : Bytes := DiskFile.contents s.host

def BlkChain.offset (chain : BlkChain) : Nat := chain.request.sector.toNat * 512

def BlkChain.data (chain : BlkChain) (m : Ram) : Bytes := m.load chain.dataSection.addr chain.dataSection.len.toNat

variable {s : DiskBlk limits} {m : Ram} {chain : BlkChain}

section

variable (hfits : chain.offset < 2 ^ 64)
include hfits

theorem toNat_offset : (chain.request.sector * 512).toNat = chain.offset := by
  rw [UInt64.toNat_mul]
  exact Nat.mod_eq_of_lt hfits

theorem seek_of_le (hle : chain.offset ≤ limits.seekMax) :
    sought s chain = (.ok (), { contents := s.contents, cursor := chain.offset : DiskFile }) := by
  show DiskFile.seek limits (chain.request.sector * 512) s.host = _
  unfold DiskFile.seek
  rw [toNat_offset hfits, if_pos hle]
  rfl

theorem seek_of_lt (hlt : limits.seekMax < chain.offset) : sought s chain = (.error .other, s.host) := by
  show DiskFile.seek limits (chain.request.sector * 512) s.host = _
  unfold DiskFile.seek
  rw [toNat_offset hfits, if_neg (Nat.not_le.mpr hlt)]
  rfl

theorem carryOut_far (hlt : limits.seekMax < chain.offset) : carryOut s m chain = ⟨s, [], 0, false⟩ := by
  have hseek := seek_of_lt (s := s) hfits hlt
  rw [carryOut_unsought (by rw [hseek]; rfl), hseek]

end

/-- The part of the data that the host lets the file take. -/
def fitting (limits : DiskLimits) (offset : Nat) (data : Bytes) : Bytes := data.take (limits.sizeMax - offset)

section

variable (hfits : chain.offset < 2 ^ 64) (hle : chain.offset ≤ limits.seekMax)
include hfits hle

theorem carryOut_write (hreq : chain.request.rqstType = true) : (carryOut s m chain).dev.contents =
        DiskFile.overwrite s.contents chain.offset (fitting limits chain.offset (chain.data m)) ∧
      (carryOut s m chain).writes = [(chain.statusByte.addr,
        [if (fitting limits chain.offset (chain.data m)).length = chain.dataSection.len.toNat then 0 else 1])] := by
  have hseek := seek_of_le (s := s) hfits hle
  have hlength : (chain.data m).length = chain.dataSection.len.toNat := Ram.length_load _ _ _
  rw [carryOut_out (by rw [hseek]; rfl) hreq rfl, hseek]
  refine ⟨rfl, ?_⟩
  show [(_, [if Except.isOk (if (fitting limits chain.offset (chain.data m)).length = (chain.data m).length then _
    else _) then _ else _])] = _
  rw [hlength]
  by_cases hall : (fitting limits chain.offset (chain.data m)).length = chain.dataSection.len.toNat
  · rw [if_pos hall, if_pos hall]
    rfl
  · rw [if_neg hall, if_neg hall]
    rfl

theorem carryOut_read (hreq : chain.request.rqstType = false) (hdisk : chain.dataSection.len.toNat = 0 ∨
      chain.offset + chain.dataSection.len.toNat ≤ s.contents.length) :
    (carryOut s m chain).dev.contents = s.contents ∧ (carryOut s m chain).writes =
        [(chain.dataSection.addr, window s.contents chain.offset chain.dataSection.len.toNat),
          (chain.statusByte.addr, [0])] := by
  have hseek := seek_of_le (s := s) hfits hle
  rw [carryOut_in (by rw [hseek]; rfl) hreq (by rw [hseek]; exact dif_pos hdisk)]
  exact ⟨rfl, rfl⟩

theorem carryOut_unreadable (hreq : chain.request.rqstType = false) (hdisk : ¬(chain.dataSection.len.toNat = 0 ∨
      chain.offset + chain.dataSection.len.toNat ≤ s.contents.length)) :
    (carryOut s m chain).dev.contents = s.contents ∧
      (carryOut s m chain).writes = [(chain.statusByte.addr, [1])] := by
  have hseek := seek_of_le (s := s) hfits hle
  rw [carryOut_unread (by rw [hseek]; rfl) hreq (by rw [hseek]; exact dif_neg hdisk)]
  exact ⟨rfl, rfl⟩

end

/-! ### Requests outside the capacity -/

variable {head : UInt16} {c t : Ctx (DiskBlk limits) Ram}

abbrev ended (head : UInt16) (t : Ctx (BlkVirtio (HostOs.disk limits)) Ram) : Ctx (BlkVirtio (HostOs.disk limits)) Ram :=
  (serve head).finalState t

/-- The last byte stored on the way from `t` to `u` is a status other than zero, in the given buffer. -/
def StatusSet (status : VirtqDesc) (t u : Ctx (BlkVirtio (HostOs.disk limits)) Ram) : Prop :=
  ∃ stored byte, stores u.log = stores t.log ++ stored ∧ byte ≠ 0 ∧ stored.getLast? = some (status.addr, [byte], true)

theorem statusSet_iff {status : VirtqDesc} {u : Ctx (DiskBlk limits) Ram}
    {stored : List (UInt64 × Bytes × Bool)} (h : stores u.log = stores t.log ++ stored) :
    StatusSet status t u ↔ ∃ byte, byte ≠ 0 ∧ stored.getLast? = some (status.addr, [byte], true) := by
  constructor
  · rintro ⟨stored', byte, hstored, hbyte⟩
    obtain rfl : stored' = stored := List.append_cancel_left (hstored.symm.trans h)
    exact ⟨byte, hbyte⟩
  · rintro ⟨byte, hbyte⟩
    exact ⟨stored, byte, h, hbyte⟩

theorem lastStatus_iff {addr addr' : UInt64} {status : UInt8} {landed : Bool} :
    (∃ byte, byte ≠ 0 ∧ some (addr, [status], landed) = some (addr', [byte], true)) ↔
      status ≠ 0 ∧ addr = addr' ∧ landed = true := by
  constructor
  · rintro ⟨byte, hbyte, heq⟩
    cases heq
    exact ⟨hbyte, rfl, rfl⟩
  · rintro ⟨hstatus, rfl, rfl⟩
    exact ⟨status, hstatus, rfl⟩

/-- The chain at `head` is a request, with a status buffer in RAM. -/
structure Asks (head : UInt16) (t : Ctx (BlkVirtio (HostOs.disk limits)) Ram) (chain : BlkChain) : Prop where
  form : chainAt t.queue t.mem head = .ok (some chain)
  status_len : 0 < chain.statusByte.len.toNat
  status_ram : GuestMemory.inRam t.mem chain.statusByte.addr 1 = true

/-- Some byte of the request is beyond the sectors that the configuration space tells of. -/
def BeyondCapacity (s : BlkVirtio (HostOs.disk limits)) (chain : BlkChain) : Prop :=
  0 < chain.dataSection.len.toNat ∧ s.config.capacity.toNat * 512 < chain.offset + chain.dataSection.len.toNat

def Refused (head : UInt16) (t : Ctx (BlkVirtio (HostOs.disk limits)) Ram) (chain : BlkChain) : Prop :=
  (ended head t).dev.contents = t.dev.contents ∧ StatusSet chain.statusByte t (ended head t)

/-- The host refuses the request: the file ends before the data that is to be read; or it cannot grow to the
end of the data that is to be written, and has already what would fit. -/
def HostRefuses (t : Ctx (BlkVirtio (HostOs.disk limits)) Ram) (chain : BlkChain) : Prop :=
  chain.offset ≤ limits.seekMax ∧
    if chain.request.rqstType = true then
      limits.sizeMax < chain.offset + chain.dataSection.len.toNat ∧
        DiskFile.Has t.dev.contents chain.offset (fitting limits chain.offset (chain.data t.mem))
    else t.dev.contents.length < chain.offset + chain.dataSection.len.toNat

theorem writeStatus_ne_zero :
    (if (fitting limits chain.offset (chain.data m)).length = chain.dataSection.len.toNat then (0 : UInt8) else 1) ≠ 0 ↔
      0 < chain.dataSection.len.toNat ∧ limits.sizeMax < chain.offset + chain.dataSection.len.toNat := by
  have hlength : (chain.data m).length = chain.dataSection.len.toNat := Ram.length_load _ _ _
  rw [ite_ne_left_iff, and_iff_left (by decide), fitting, List.length_take, hlength]
  omega

theorem refused_iff (hasks : Asks head t chain) (hbeyond : BeyondCapacity t.dev chain) :
    Refused head t chain ↔ HostRefuses t chain := by
  obtain ⟨hdev, hstores⟩ := finalState_serve head t
  have hmax : limits.seekMax < 2 ^ 64 := lt_of_le_of_lt limits.seekMax_le (by decide)
  unfold Refused HostRefuses
  rw [statusSet_iff hstores, hdev]
  by_cases hfits : chain.offset < 2 ^ 64
  · rw [carried_eq_some.mpr ⟨hasks.form, hfits⟩]
    show (carryOut t.dev t.mem chain).dev.contents = _ ∧ (∃ byte, byte ≠ 0 ∧
      (flagged t.mem (carryOut t.dev t.mem chain).writes).getLast? = _) ↔ _
    by_cases hle : chain.offset ≤ limits.seekMax
    · rw [and_iff_right hle]
      cases hreq : chain.request.rqstType with
      | true =>
        obtain ⟨hcontents, hwrites⟩ := carryOut_write (s := t.dev) (m := t.mem) hfits hle hreq
        rw [hcontents, hwrites, if_pos rfl, DiskFile.overwrite_eq_self_iff, and_comm]
        refine and_congr_left fun _ => (lastStatus_iff.trans (and_iff_left ⟨rfl, hasks.status_ram⟩)).trans ?_
        rw [writeStatus_ne_zero, and_iff_right hbeyond.1]
      | false =>
        rw [if_neg (by decide)]
        by_cases hdisk : chain.dataSection.len.toNat = 0 ∨
            chain.offset + chain.dataSection.len.toNat ≤ t.dev.contents.length
        · obtain ⟨hcontents, hwrites⟩ := carryOut_read (m := t.mem) hfits hle hreq hdisk
          rw [hcontents, hwrites]
          refine iff_of_false (fun hand => ?_) ?_
          · exact (lastStatus_iff.mp hand.2).1 rfl
          · have hpos := hbeyond.1
            omega
        · obtain ⟨hcontents, hwrites⟩ := carryOut_unreadable (m := t.mem) hfits hle hreq hdisk
          rw [hcontents, hwrites]
          refine iff_of_true ⟨rfl, lastStatus_iff.mpr ⟨by decide, rfl, hasks.status_ram⟩⟩ ?_
          omega
    · rw [carryOut_far hfits (Nat.not_le.mp hle)]
      exact iff_of_false (fun hand => by obtain ⟨_, _, _, hlast⟩ := hand; cases hlast) fun hand => hle hand.1
  · have hnone : carried t.queue t.mem head = none := by
      unfold carried
      rw [hasks.form]
      exact if_neg hfits
    rw [hnone]
    refine iff_of_false (fun hand => by obtain ⟨_, _, _, hlast⟩ := hand; cases hlast) fun hand => ?_
    omega

/-- Every request beyond the capacity that a tick comes to is refused. -/
def CapacityEnforced (c : Ctx (BlkVirtio (HostOs.disk limits)) Ram) : Prop :=
  ∀ head t chain, requestLoop.Reaches c head t → Asks head t chain → BeyondCapacity t.dev chain → Refused head t chain

def requestType (head : UInt16) (t : Ctx (BlkVirtio (HostOs.disk limits)) Ram) : UInt32 :=
  t.mem.u32 (t.descAt head).addr

/-- The status buffer of a chain: its last descriptor, if that is not the header and the device may write it. -/
def StatusDesc (q : VirtioQueue) (m : Ram) (head : UInt16) (desc : VirtqDesc) : Prop :=
  (∃ before, q.InChain m head before ∧ before.hasNext = true ∧ q.getDescriptor m before.next = .ok desc) ∧
    desc.hasNext = false ∧ desc.isWrite = true

/-- Only a request of type 1 changes the disk, and a request of a type other than 0 and 1 gets an error
status, if the chain has a buffer for it. -/
def TypeRespected (head : UInt16) (t : Ctx (BlkVirtio (HostOs.disk limits)) Ram) : Prop :=
  ((ended head t).dev.contents ≠ t.dev.contents → requestType head t = 1) ∧
    (requestType head t ≠ 0 → requestType head t ≠ 1 →
      (ended head t).dev.contents = t.dev.contents ∧
        ∀ desc, StatusDesc t.queue t.mem head desc → StatusSet desc t (ended head t))

/-- The chain is not carried out and has no status buffer; or it is carried out as a write that the disk has
already, and its status buffer, if it has one, is the one that the device takes for it, in RAM, and the file
cannot grow to the end of the data. -/
def Harmless (head : UInt16) (t : Ctx (BlkVirtio (HostOs.disk limits)) Ram) : Prop :=
  match carried t.queue t.mem head with
  | none => ∀ desc, ¬StatusDesc t.queue t.mem head desc
  | some chain =>
    if chain.offset ≤ limits.seekMax then
      DiskFile.Has t.dev.contents chain.offset (fitting limits chain.offset (chain.data t.mem)) ∧
        ∀ desc, StatusDesc t.queue t.mem head desc → desc.addr = chain.statusByte.addr ∧
          GuestMemory.inRam t.mem chain.statusByte.addr 1 = true ∧
          0 < chain.dataSection.len.toNat ∧ limits.sizeMax < chain.offset + chain.dataSection.len.toNat
    else ∀ desc, ¬StatusDesc t.queue t.mem head desc

theorem rqstType_of_carried (h : carried t.queue t.mem head = some chain) :
    chain.request.rqstType = (requestType head t != 0) := by
  obtain ⟨log, hlooks⟩ := looks_gather head t
  dsimp only at hlooks
  rw [(carried_eq_some.mp h).1] at hlooks
  obtain ⟨_, _, hrequest, _⟩ := chainIn_eq_some (gather_eq_ok hlooks).symm
  rw [hrequest]
  rfl

theorem contents_of_read (hread : ∀ chain, carried t.queue t.mem head = some chain → chain.request.rqstType = false) :
    (ended head t).dev.contents = t.dev.contents := by
  rw [(finalState_serve head t).1]
  cases hcarried : carried t.queue t.mem head with
  | none => rfl
  | some chain =>
    have hfits : chain.offset < 2 ^ 64 := (carried_eq_some.mp hcarried).2
    show (carryOut t.dev t.mem chain).dev.contents = _
    by_cases hle : chain.offset ≤ limits.seekMax
    · by_cases hdisk : chain.dataSection.len.toNat = 0 ∨
          chain.offset + chain.dataSection.len.toNat ≤ t.dev.contents.length
      · exact (carryOut_read hfits hle (hread chain hcarried) hdisk).1
      · exact (carryOut_unreadable hfits hle (hread chain hcarried) hdisk).1
    · rw [carryOut_far hfits (Nat.not_le.mp hle)]

theorem harmless_iff (hwrite : ∀ chain, carried t.queue t.mem head = some chain → chain.request.rqstType = true) :
    ((ended head t).dev.contents = t.dev.contents ∧
      ∀ desc, StatusDesc t.queue t.mem head desc → StatusSet desc t (ended head t)) ↔ Harmless head t := by
  obtain ⟨hdev, hstores⟩ := finalState_serve head t
  have hsilent (addr : UInt64) :
      ¬∃ byte : UInt8, byte ≠ 0 ∧ (none : Option (UInt64 × Bytes × Bool)) = some (addr, [byte], true) := by
    rintro ⟨byte, _, hlast⟩
    cases hlast
  rw [hdev]
  simp only [statusSet_iff hstores]
  unfold Harmless
  cases hcarried : carried t.queue t.mem head with
  | none =>
    refine (and_iff_right rfl).trans (forall_congr' fun desc => imp_congr_right fun _ => ?_)
    exact iff_of_false (hsilent desc.addr) id
  | some chain =>
    have hfits : chain.offset < 2 ^ 64 := (carried_eq_some.mp hcarried).2
    dsimp only [outcome]
    split_ifs with hle
    · obtain ⟨hcontents, hwrites⟩ := carryOut_write (s := t.dev) (m := t.mem) hfits hle (hwrite chain hcarried)
      rw [hcontents, hwrites, DiskFile.overwrite_eq_self_iff]
      refine and_congr_right fun _ => forall_congr' fun desc => imp_congr_right fun _ => ?_
      refine lastStatus_iff.trans ?_
      rw [writeStatus_ne_zero, and_comm, and_assoc]
      exact and_congr_left' eq_comm
    · rw [carryOut_far hfits (Nat.not_le.mp hle)]
      refine (and_iff_right rfl).trans (forall_congr' fun desc => imp_congr_right fun _ => ?_)
      exact iff_of_false (hsilent desc.addr) id

theorem typeRespected_iff :
    TypeRespected head t ↔ (requestType head t ≠ 0 → requestType head t ≠ 1 → Harmless head t) := by
  unfold TypeRespected
  by_cases hzero : requestType head t = 0
  · have hcontents : (ended head t).dev.contents = t.dev.contents := contents_of_read fun chain hcarried => by
      rw [rqstType_of_carried hcarried, hzero]
      rfl
    exact iff_of_true ⟨fun hne => absurd hcontents hne, fun hne => absurd hzero hne⟩ fun hne => absurd hzero hne
  by_cases hone : requestType head t = 1
  · exact iff_of_true ⟨fun _ => hone, fun _ hne => absurd hone hne⟩ fun _ hne => absurd hone hne
  rw [forall_prop_of_true hzero, forall_prop_of_true hone, forall_prop_of_true hzero, forall_prop_of_true hone]
  rw [← harmless_iff fun chain hcarried => by rw [rqstType_of_carried hcarried]; simpa using hzero]
  exact and_iff_right_of_imp fun hand hne => absurd hand.1 hne

end Disk

end BlkVirtio

/-! ### Two requests -/

/-- A host that bounds its files by `off_t` alone. -/
def ordinaryLimits : DiskLimits := ⟨isizeMax, isizeMax, le_rfl, le_rfl⟩

/-- A header at address 120 with the given type and sector, sixteen bytes to write at 136 and a status byte
at 152, published on a queue of four descriptors: the table is at address 0, the available ring at 64 and the
used ring at 80. -/
def blkMemory (typ sector : UInt8) : Ram :=
  ⟨[{ isNull := false
      bytes := [120, 0, 0, 0, 0, 0, 0, 0, 16, 0, 0, 0, 1, 0, 1, 0] ++
        [136, 0, 0, 0, 0, 0, 0, 0, 16, 0, 0, 0, 1, 0, 2, 0] ++ [152, 0, 0, 0, 0, 0, 0, 0, 1, 0, 0, 0, 2, 0, 0, 0] ++
        List.replicate 16 0 ++ [0, 0, 1, 0] ++ List.replicate 52 0 ++
        [typ, 0, 0, 0, 0, 0, 0, 0, sector, 0, 0, 0, 0, 0, 0, 0] ++ List.replicate 16 255 ++ List.replicate 8 255
      memOffset := 0
      size_le := by simp [isizeMax] }]⟩

def blkWaiting (typ sector : UInt8) : Ctx (BlkVirtio (HostOs.disk ordinaryLimits)) Ram where
  dev := { BlkVirtio.new () 512 (⟨List.replicate 512 0, 0⟩ : DiskFile) with attached := true }
  queue := { VirtioQueue.new with size := 4, ready := true, availAddr := 64, usedAddr := 80 }
  mem := blkMemory typ sector
  log := []

end FerrumVM
