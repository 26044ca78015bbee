import FerrumVM.FuseChain
import FerrumVM.GpuScanouts
import FerrumVM.SafeAccess
import FerrumVM.SharedFolderSafety
import FerrumVM.Shipped

/-! Which queues make a device panic. Guest memory is total here, so a tick comes to its end or panics by
what the driver wrote into the registers of the queue and into guest memory. For each device there is a
condition on the chains that a tick comes to, and a tick comes to its end exactly when they all meet it. -/

namespace FerrumVM

open Base Program Serve Settles VirtioDevice

variable {c : Ctx (VirtioGpu (FerrumSDLContext S)) Ram} {head : UInt16}

section Generic

variable {D M : Type} [GuestMemory M] [VirtioDevice D M] [QueueDevice D M]

theorem returns_tick_iff {queueSel : Nat} {c : Ctx D M} : (∃ fuel, Returns (tick fuel queueSel) c) ↔
      ∀ l, QueueDevice.queueLoop c.dev queueSel = some l → ∃ fuel, Returns (l.run fuel) c := by
  have htick (fuel : Nat) : Returns (tick fuel queueSel) c ↔
      Returns (tickLoop (QueueDevice.queueLoop c.dev queueSel) fuel) c := by
    unfold Returns
    rw [QueueDevice.tick_eq]
  simp only [htick]
  cases (QueueDevice.queueLoop c.dev queueSel : Option (QueueLoop D M)) with
  | none => exact iff_of_true ⟨0, returns_pure _ _⟩ nofun
  | some l => simp [tickLoop]

end Generic

/-- Every chain that the loop comes to is safe, the addresses of the available ring fit, and the loop
catches up with the driver, unless a batch stops it. -/
def PopsSafely {D : Type} (serve : Nat → UInt16 → Serve D Ram Bool) (batch : Option Nat)
    (safe : UInt16 → Ctx D Ram → Prop) (c : Ctx D Ram) : Prop :=
  (QueueLoop.ofPops serve batch).SafeRun (fun t => t.queue.CaughtUp t.mem) (fun t => t.queue.PopSafe t.mem) safe c

theorem returns_pops_iff {D : Type} {serve : Nat → UInt16 → Serve D Ram Bool} {batch : Option Nat}
    (hmono : ∀ head, FuelMono fun fuel => serve fuel head) {c : Ctx D Ram} {safe : UInt16 → Ctx D Ram → Prop}
    (hsafe : ∀ head t, (QueueLoop.ofPops serve batch).Reaches c head t →
      (safe head t ↔ ∃ fuel, Returns (serve fuel head) t)) :
    (∃ fuel, Returns ((QueueLoop.ofPops serve batch).run fuel) c) ↔ PopsSafely serve batch safe c :=
  QueueLoop.returns_iff hmono (fun _ => popAvail_idle_iff) (fun _ => returns_popAvail_iff) hsafe

theorem exists_fuel_iff {P : Prop} : (∃ _ : Nat, P) ↔ P := ⟨fun ⟨_, h⟩ => h, fun h => ⟨0, h⟩⟩

theorem returns_popsEach_iff {D : Type} {serve : UInt16 → Serve D Ram Bool} {batch : Option Nat} {c : Ctx D Ram}
    {safe : UInt16 → Ctx D Ram → Prop} (hsafe : ∀ head t, (QueueLoop.ofPops (fun _ => serve) batch).Reaches c head t →
      (Returns (serve head) t ↔ safe head t)) :
    (∃ fuel, Returns ((QueueLoop.ofPops (fun _ => serve) batch).run fuel) c) ↔
      PopsSafely (fun _ => serve) batch safe c :=
  returns_pops_iff (fun head => .const (serve head)) fun head t ht => (hsafe head t ht).symm.trans exists_fuel_iff.symm

variable {H : HostOs}

/-! ### Entropy and counter -/

namespace RngVirtio

def ChainSafe (head : UInt16) (c : Ctx (RngVirtio H) Ram) : Prop :=
  c.queue.DescSafe head ∧ (c.descAt head).isWrite = true ∧ c.queue.PushSafe

theorem returns_serve_iff {c : Ctx (RngVirtio H) Ram} : Returns (serve head) c ↔ ChainSafe head c := by
  have (len : Nat) : Total (onDev (getRandom len) : Serve (RngVirtio H) Ram Bytes) := .onDev fun s => .of_ok rfl
  unfold serve
  rw [returns_head_bind, returns_ite_throw, returns_iff, Bool.not_eq_true', Bool.not_eq_false]
  rfl

end RngVirtio

namespace CntVirtio

/-- The chain is a writable buffer with a successor, and the number in it has one too. -/
def ChainSafe (head : UInt16) (c : Ctx CntVirtio Ram) : Prop :=
  c.queue.DescSafe head ∧ (c.descAt head).isWrite = true ∧ (c.descAt head).hasNext = true ∧
    c.queue.DescSafe (c.descAt head).next ∧ (c.mem.u32 (c.descAt head).addr).toNat + 1 < 2 ^ 32 ∧ c.queue.PushSafe

theorem returns_serve_iff {c : Ctx CntVirtio Ram} : Returns (serve head) c ↔ ChainSafe head c := by
  unfold serve ChainSafe
  rw [returns_head_bind, returns_ite_throw, returns_next_bind,
    returns_bind_of_ok (readU32_eq_ok.mpr ⟨rfl, rfl⟩), returns_addU32_bind, returns_iff]
  simp only [Bool.or_eq_true, Bool.not_eq_true', not_or, Bool.not_eq_false, and_assoc]
  rfl

end CntVirtio

/-! ### Block device -/

namespace BlkVirtio

def requestIn (mem : Ram) (header : VirtqDesc) : BlkRequest where
  rqstType := mem.u32 header.addr != 0
  sector := mem.u64 (header.addr + 8)

/-- The addresses that a chain leads to can be computed, as far as the device follows it, and so can the
byte offset of the sector, if the chain is carried out. -/
def ChainSafe (head : UInt16) (c : Ctx (BlkVirtio H) Ram) : Prop :=
  let header := c.descAt head
  let request := requestIn c.mem header
  let dataSection := c.descAt header.next
  c.queue.DescSafe head ∧
    (header.hasNext = true → header.len = 16 → header.addr.toNat + 8 < 2 ^ 64 ∧ c.queue.DescSafe header.next ∧
      (flagsOk request dataSection = true → c.queue.DescSafe dataSection.next ∧
        ((c.descAt dataSection.next).isWrite = true → request.sector.toNat * 512 < 2 ^ 64))) ∧
    c.queue.PushSafe

theorem returns_readRequest_bind {β : Type} {header : VirtqDesc} {f : BlkRequest → Serve (BlkVirtio H) Ram β}
    {c : Ctx (BlkVirtio H) Ram} : Returns (readRequest header.addr >>= f) c ↔
      header.addr.toNat + 8 < 2 ^ 64 ∧ Returns (f (requestIn c.mem header)) c := by
  unfold readRequest
  rw [bind_assoc, returns_bind_of_ok (readU32_eq_ok.mpr ⟨rfl, rfl⟩), bind_assoc, returns_addU64_bind,
    bind_assoc, returns_bind_of_ok (readU64_eq_ok.mpr ⟨rfl, rfl⟩), pure_bind]
  rfl

instance (head : UInt16) : Settles (skip head : Serve (BlkVirtio H) Ram Bool) := by
  unfold skip
  infer_instance

section Transfer

variable {request : BlkRequest} {dataSection statusByte : VirtqDesc} {c : Ctx (BlkVirtio H) Ram}

theorem total_transfer (hfits : request.sector.toNat * 512 < 2 ^ 64) :
    Total (transfer request dataSection statusByte : Serve (BlkVirtio H) Ram Bool) := by
  have hmul : mulU64 request.sector 512 = .ok (request.sector * 512) := if_pos hfits
  have hoffset : Total (lift (mulU64 request.sector 512) : Serve (BlkVirtio H) Ram UInt64) := by
    rw [hmul]
    exact ⟨fun c => ⟨_, c, rfl, rfl⟩⟩
  have (offset : UInt64) : Total (onDev (seek offset) : Serve (BlkVirtio H) Ram Bool) := .onDev fun s => .of_ok rfl
  have (len : Nat) : Total (onDev (readExact len) : Serve (BlkVirtio H) Ram _) := .onDev fun s => .of_ok rfl
  have (buf : Bytes) : Total (onDev (writeAll buf) : Serve (BlkVirtio H) Ram _) := .onDev fun s => .of_ok rfl
  unfold transfer
  split
  · refine @Total.bind _ _ _ _ _ hoffset fun offset => @Total.bind _ _ _ _ _ _ fun sought => @Total.ite _ _ _ _ _ _ _ ?_
    refine @Total.bind _ _ _ _ _ _ fun buf? => ?_
    cases buf? <;> infer_instance
  · infer_instance

theorem transfer_overflows (hfits : ¬request.sector.toNat * 512 < 2 ^ 64) :
    transfer request dataSection statusByte c = .error (.panic .overflow) c := by
  have hmul : mulU64 request.sector 512 = .error (.panic .overflow) := if_neg hfits
  have hoffset : (lift (mulU64 request.sector 512) : Serve (BlkVirtio H) Ram UInt64) c =
      .error (.panic .overflow) c := by
    rw [hmul]
    rfl
  unfold transfer
  cases request.rqstType with
  | false => exact bind_of_error hoffset
  | true =>
    dsimp only
    rw [bind_of_ok (readGuestMemoryAlloc_eq_ok.mpr ⟨rfl, rfl⟩)]
    exact bind_of_error hoffset

theorem returns_transfer_iff : Returns (do
      if ← transfer request dataSection statusByte then
        pushUsed head dataSection.len
        return true
      else skip head) c ↔ request.sector.toNat * 512 < 2 ^ 64 ∧ c.queue.PushSafe := by
  by_cases hfits : request.sector.toNat * 512 < 2 ^ 64
  · have : Total (transfer request dataSection statusByte : Serve (BlkVirtio H) Ram Bool) := total_transfer hfits
    rw [and_iff_right hfits, returns_iff]
  · refine iff_of_false ?_ fun hand => hfits hand.1
    rintro ⟨worked, t, h⟩
    rw [bind_of_error (transfer_overflows hfits)] at h
    cases h

end Transfer

theorem returns_serve_iff {c : Ctx (BlkVirtio H) Ram} : Returns (serve head) c ↔ ChainSafe head c := by
  have hskip (t : Ctx (BlkVirtio H) Ram) : Returns (skip head) t ↔ t.queue.PushSafe := returns_iff t
  unfold serve gather ChainSafe
  rw [bind_assoc, returns_head_bind]
  refine and_congr_right fun _ => ?_
  by_cases hshape : (!(c.descAt head).hasNext || (c.descAt head).len != 16) = true
  · rw [if_pos hshape, pure_bind, hskip]
    refine (and_iff_right fun hnext hlen => absurd hshape ?_).symm
    simp [hnext, hlen]
  obtain ⟨hnext, hlen⟩ : (c.descAt head).hasNext = true ∧ (c.descAt head).len = 16 := by simpa using hshape
  rw [if_neg hshape, bind_assoc, returns_readRequest_bind, bind_assoc, returns_next_bind,
    forall_prop_of_true hnext, forall_prop_of_true hlen, and_assoc, and_assoc, fetched_mem, fetched_descAt]
  refine and_congr_right fun _ => and_congr_right fun _ => ?_
  cases hflags : flagsOk (requestIn c.mem (c.descAt head)) (c.descAt (c.descAt head).next) with
  | false => simp [hskip]
  | true =>
    rw [if_neg (by decide), bind_assoc, returns_next_bind, forall_prop_of_true rfl, and_assoc, fetched_descAt,
      fetched_descAt]
    refine and_congr_right fun _ => ?_
    cases hstatus : (c.descAt (c.descAt (c.descAt head).next).next).isWrite with
    | false => simp [hskip]
    | true =>
      rw [if_neg (by decide), pure_bind, returns_transfer_iff, forall_prop_of_true rfl]
      rfl

end BlkVirtio

/-! ### Network device -/

namespace NetVirtio

variable {c : Ctx (NetVirtio H) Ram}

def NoFrame (c : Ctx (NetVirtio H) Ram) : Prop := c.dev.tapDevice.packetReciveQueue = []

/-- If the frame fits in the buffer, so does the address behind the header. -/
def RxSafe (job : Bytes × UInt16) (c : Ctx (NetVirtio H) Ram) : Prop :=
  c.queue.DescSafe job.2 ∧
    (job.1.length + hdrSize ≤ (c.descAt job.2).len.toNat → (c.descAt job.2).addr.toNat + 12 < 2 ^ 64) ∧
    c.queue.PushSafe

def TxSafe (head : UInt16) (c : Ctx (NetVirtio H) Ram) : Prop :=
  c.queue.DescSafe head ∧ (12 ≤ (c.descAt head).len → (c.descAt head).addr.toNat + 12 < 2 ^ 64) ∧ c.queue.PushSafe

theorem total_onTap {α : Type} {x : Program (TAPDevice H) α} (hx : ∀ s, Returns x s) :
    Total (onTap x : Serve (NetVirtio H) Ram α) where
  ok c := by
    obtain ⟨a, tapDevice, hxs⟩ := hx c.dev.tapDevice
    exact ⟨a, { c with dev := c.dev.setTap tapDevice }, onTap_iff.mpr ⟨tapDevice, hxs, rfl⟩, rfl⟩

theorem returns_serveRx_iff {job : Bytes × UInt16} : Returns (serveRx job) c ↔ RxSafe job c := by
  unfold serveRx RxSafe
  rw [returns_head_bind]
  refine and_congr_right fun _ => ?_
  by_cases hshort : (c.descAt job.2).len.toNat < job.1.length + hdrSize
  · rw [if_pos hshort, returns_iff]
    exact (and_iff_right fun hfits => absurd hshort (Nat.not_lt.mpr hfits)).symm
  · rw [if_neg hshort, returns_bind_of_ok (writeGuestMemory_iff (u := ()).mpr ⟨_, rfl, rfl⟩), returns_addU64_bind,
      forall_prop_of_true (Nat.not_lt.mp hshort)]
    exact and_congr_right fun _ => returns_iff _

theorem returns_serveTx_iff : Returns (serveTx head) c ↔ TxSafe head c := by
  unfold serveTx TxSafe
  rw [returns_head_bind]
  refine and_congr_right fun _ => ?_
  by_cases hshort : (c.descAt head).len < 12
  · rw [if_pos hshort, returns_iff]
    exact (and_iff_right fun hfits => absurd hshort (UInt32.not_lt.mpr hfits)).symm
  · rw [if_neg hshort, returns_addU64_bind, forall_prop_of_true (UInt32.not_lt.mp hshort)]
    have (frame : Bytes) : Total (onTap (TAPDevice.sendPacket frame) : Serve (NetVirtio H) Ram _) :=
      total_onTap fun _ => .of_ok rfl
    exact and_congr_right fun _ => returns_iff _

/-- The frame in front is taken while a buffer for it is looked for. -/
def taken (c : Ctx (NetVirtio H) Ram) (rest : List Bytes) : Ctx (NetVirtio H) Ram :=
  { c with dev := c.dev.setTap { c.dev.tapDevice with packetReciveQueue := rest } }

theorem getNextPacket_nil (h : NoFrame c) : onTap TAPDevice.getNextPacket c = .ok none c := by
  refine onTap_iff.mpr ⟨c.dev.tapDevice, ?_, rfl⟩
  unfold TAPDevice.getNextPacket
  rw [get_bind, h]
  rfl

theorem getNextPacket_cons {frame : Bytes} {rest : List Bytes}
    (h : c.dev.tapDevice.packetReciveQueue = frame :: rest) :
    onTap TAPDevice.getNextPacket c = .ok (some frame) (taken c rest) := by
  refine onTap_iff.mpr ⟨{ c.dev.tapDevice with packetReciveQueue := rest }, ?_, rfl⟩
  unfold TAPDevice.getNextPacket
  rw [get_bind, h]
  rfl

theorem nextRx_idle_iff : (NoFrame c ∨ c.queue.CaughtUp c.mem) ↔ ∃ c', nextRx c = .ok none c' := by
  unfold nextRx
  cases hframes : c.dev.tapDevice.packetReciveQueue with
  | nil =>
    rw [bind_of_ok (getNextPacket_nil hframes)]
    exact iff_of_true (Or.inl hframes) ⟨c, rfl⟩
  | cons frame rest =>
    have hframe : ¬NoFrame c := by simp [NoFrame, hframes]
    rw [bind_of_ok (getNextPacket_cons hframes), or_iff_right hframe]
    refine (popAvail_idle_iff (c := taken c rest)).trans ⟨?_, ?_⟩
    · rintro ⟨t, hpop⟩
      exact ⟨_, (bind_of_ok hpop).trans rfl⟩
    · rintro ⟨c', h⟩
      obtain ⟨head?, t, hpop, hrest⟩ := bind_eq_ok.mp h
      cases head? with
      | none => exact ⟨t, hpop⟩
      | some head => cases (pure_eq_ok.mp hrest).1

theorem returns_nextRx_iff : (NoFrame c ∨ c.queue.PopSafe c.mem) ↔ Returns nextRx c := by
  unfold nextRx
  cases hframes : c.dev.tapDevice.packetReciveQueue with
  | nil =>
    rw [returns_bind_of_ok (getNextPacket_nil hframes)]
    exact iff_of_true (Or.inl hframes) (returns_pure _ _)
  | cons frame rest =>
    have hframe : ¬NoFrame c := by simp [NoFrame, hframes]
    rw [returns_bind_of_ok (getNextPacket_cons hframes), or_iff_right hframe]
    refine (returns_popAvail_iff (c := taken c rest)).trans ⟨?_, ?_⟩
    · rintro ⟨head?, t, hpop⟩
      refine (returns_bind_of_ok hpop).mpr ?_
      cases head? with
      | none => exact .of_ok rfl
      | some head => exact returns_pure _ _
    · intro h
      obtain ⟨head?, t, hpop, _⟩ := returns_bind.mp h
      exact .of_ok hpop

end NetVirtio

/-! ### File-system device -/

namespace FsVirtio

variable {c : Ctx (FsVirtio H) Ram}

/-- The walk over the readable part of the chain comes to its end. -/
def HiprioSafe (head : UInt16) (c : Ctx (FsVirtio H) Ram) : Prop :=
  (∃ bytes, Gathers c.queue c.mem head bytes) ∧ c.queue.PushSafe

/-- The request can be gathered, the server answers it, and the walk that lays the answer over the chain
comes to its end. -/
def RequestSafe (head : UInt16) (c : Ctx (FsVirtio H) Ram) : Prop :=
  (∃ bytes, Gathers c.queue c.mem head bytes ∧
    SharedFolder.Answerable (FuseInHeader.new bytes).1 (FuseInHeader.new bytes).2 c.dev.fuseDevice ∧
    ∀ answer, Answers bytes answer c → ∃ parts mem',
      Scatters c.queue (replyBytes (FuseInHeader.new bytes).1.unique answer) head 0 c.mem parts mem') ∧
  c.queue.PushSafe

theorem gathered {fuel : Nat} {t : Ctx (FsVirtio H) Ram} {bytes : Bytes}
    (h : collectReadable fuel head c = .ok bytes t) :
    t.dev = c.dev ∧ t.queue = c.queue ∧ t.mem = c.mem ∧ Gathers c.queue c.mem head bytes := by
  have heffect := (uses_collectReadable fuel head).effect_of_ok h
  exact ⟨heffect.dev (by decide), heffect.queue_eq, heffect.mem_eq,
    collectReadable_iff.mp ⟨fuel, t, h⟩⟩

theorem returns_serveHiprio_iff : HiprioSafe head c ↔ ∃ fuel, Returns (serveHiprio fuel head) c := by
  have (header : FuseInHeader) : Total (hiprio header : Serve (FsVirtio H) Ram Unit) := by
    have hforget : Total (onFuse (SharedFolder.forget header) : Serve (FsVirtio H) Ram Unit) :=
      ⟨fun t => ⟨(), _, onFuse_eq_ok.mpr ⟨_, rfl, rfl⟩, rfl⟩⟩
    unfold hiprio
    infer_instance
  constructor
  · rintro ⟨⟨bytes, hbytes⟩, hpush⟩
    obtain ⟨fuel, t, hcollect⟩ := collectReadable_iff.mpr hbytes
    refine ⟨fuel, (returns_bind_of_ok hcollect).mpr ((returns_iff t).mpr ?_)⟩
    rwa [(gathered hcollect).2.1]
  · rintro ⟨fuel, hreturns⟩
    obtain ⟨bytes, t, hcollect, hrest⟩ := returns_bind.mp hreturns
    obtain ⟨_, hqueue, _, hbytes⟩ := gathered hcollect
    exact ⟨⟨bytes, hbytes⟩, hqueue ▸ (returns_iff t).mp hrest⟩

theorem returns_serveRequest_iff : RequestSafe head c ↔ ∃ fuel, Returns (serveRequest fuel head) c := by
  constructor
  · rintro ⟨⟨bytes, hbytes, hanswerable, hreply⟩, hpush⟩
    obtain ⟨answer, fuseDevice, hdispatch⟩ := (SharedFolder.safe_handle_iff _ _ _).mpr hanswerable
    obtain ⟨parts, mem', hscatters⟩ := hreply answer ⟨fuseDevice, hdispatch⟩
    obtain ⟨fuel, t, hcollect⟩ := collectReadable_iff.mpr hbytes
    obtain ⟨hdev, hqueue, hmem, _⟩ := gathered hcollect
    have hanswer : onFuse (SharedFolder.dispatch (FuseInHeader.new bytes).1 (FuseInHeader.new bytes).2) t =
        .ok answer { t with dev := t.dev.setFuse fuseDevice } := by
      refine onFuse_eq_ok.mpr ⟨fuseDevice, ?_, rfl⟩
      rw [hdev]
      exact hdispatch
    rw [← hqueue, ← hmem] at hscatters
    obtain ⟨fuel', u, hwrite, _⟩ :=
      writeOutReply_of_scatters (c := { t with dev := t.dev.setFuse fuseDevice }) hscatters
    have heffect := (uses_writeOutReply fuel' head _).effect_of_ok hwrite
    -- Both walks end with the fuel that either needs.
    have hcollect' := (fuelMono_collectReadable head fuel (max fuel fuel') c (Nat.le_max_left _ _)
      (by simp [hcollect])).trans hcollect
    have hwrite' := (fuelMono_writeOutReply head _ fuel' (max fuel fuel') _ (Nat.le_max_right _ _)
      (by simp [hwrite])).trans hwrite
    refine ⟨max fuel fuel', (returns_bind_of_ok hcollect').mpr ((returns_bind_of_ok hanswer).mpr ?_)⟩
    refine (returns_bind_of_ok hwrite').mpr ((returns_iff u).mpr ?_)
    rw [heffect.queue_eq]
    exact hqueue ▸ hpush
  · rintro ⟨fuel, hreturns⟩
    obtain ⟨bytes, t, hcollect, hserve⟩ := returns_bind.mp hreturns
    obtain ⟨hdev, hqueue, hmem, hbytes⟩ := gathered hcollect
    obtain ⟨answer, u, hanswer, hrest⟩ := returns_bind.mp hserve
    obtain ⟨fuseDevice, hdispatch, rfl⟩ := onFuse_eq_ok.mp hanswer
    obtain ⟨total, v, hwrite, hpush⟩ := returns_bind.mp hrest
    have heffect := (uses_writeOutReply fuel head _).effect_of_ok hwrite
    obtain ⟨parts, hscatters, _⟩ := scatters_of_writeOutReply hwrite
    rw [hdev] at hdispatch
    refine ⟨⟨bytes, hbytes, (SharedFolder.safe_handle_iff _ _ _).mp (.of_ok hdispatch), fun answer' h => ?_⟩, ?_⟩
    · obtain ⟨fuseDevice', hdispatch'⟩ := h
      rw [hdispatch] at hdispatch'
      cases hdispatch'
      rw [← hqueue, ← hmem]
      exact ⟨parts, v.mem, hscatters⟩
    · have hqueue' : v.queue = c.queue := (heffect.queue_eq).trans hqueue
      exact hqueue' ▸ (returns_iff v).mp hpush

end FsVirtio

/-! ### Graphics device -/

namespace FerrumSDLContext

variable {S : SdlCanvas} {srcStride : Nat}

theorem copyRows_ok (src : Bytes) {srcX srcY : Nat} (hstride : srcStride ≤ 2 ^ 16) (hx : srcX < 2 ^ 32)
    (hy : srcY < 2 ^ 32) (rowLen : Nat) {remaining row : Nat} (hrow : row + remaining < 2 ^ 32) {rows : Bytes}
    (hrows : (row + remaining) * rowLen ≤ rows.length) :
    ∃ rows', copyRows src srcStride srcX srcY rowLen remaining row rows = .ok rows' := by
  induction remaining generalizing row rows with
  | zero => exact ⟨rows, rfl⟩
  | succ remaining ih =>
    have hmul : (srcY + row) * srcStride ≤ 2 ^ 33 * 2 ^ 16 := Nat.mul_le_mul (by omega) hstride
    unfold copyRows
    rw [usize, if_pos (by omega), Exec.ok_bind, usize, if_pos (by omega), Exec.ok_bind]
    generalize (srcY + row) * srcStride + srcX * 4 = srcStart
    split_ifs with hpast
    · exact ⟨rows, rfl⟩
    generalize hlen : min rowLen (src.length - srcStart) = len
    have hpart : slice src srcStart (srcStart + len) = .ok ((src.drop srcStart).take len) := by
      rw [slice_eq_ok]
      exact ⟨Nat.le_add_right _ _, by omega, by rw [Nat.add_sub_cancel_left]⟩
    have hroom : row * rowLen + rowLen ≤ (row + (remaining + 1)) * rowLen := by
      rw [← Nat.succ_mul]
      exact Nat.mul_le_mul_right _ (by omega)
    have hcopy : copySlice rows (row * rowLen) (row * rowLen + len) ((src.drop srcStart).take len) =
        .ok (splice rows (row * rowLen) ((src.drop srcStart).take len)) := by
      refine if_pos ⟨Nat.le_add_right _ _, by omega, ?_⟩
      rw [List.length_take, List.length_drop]
      omega
    simp only [hpart, hcopy, Exec.ok_bind]
    refine ih (by omega) ?_
    rw [(copySlice_eq_ok hcopy).2]
    rwa [Nat.add_right_comm, Nat.add_assoc]

section

variable (ctx : FerrumSDLContext S) (src : Bytes) (hstride : srcStride ≤ 2 ^ 16) {r : DisplayRect}
include hstride

theorem blitRect_ok (hfits : r.width.toNat * 4 * r.height.toNat ≤ isizeMax) :
    ∃ ctx', ctx.blitRect src srcStride r = .ok ctx' := by
  have hheight := r.height.toNat_lt
  obtain ⟨rows, hrows⟩ : ∃ rows, copyRows src srcStride r.x.toNat r.y.toNat (r.width.toNat * 4) r.height.toNat 0
      (List.replicate (r.width.toNat * 4 * r.height.toNat) 0) = .ok rows :=
    copyRows_ok src hstride r.x.toNat_lt r.y.toNat_lt _ (by omega) (by simp [Nat.mul_comm])
  unfold blitRect
  dsimp only
  rw [usize, if_pos (by unfold isizeMax at hfits; omega), Exec.ok_bind, zeros, if_pos hfits, Exec.ok_bind, hrows,
    Exec.ok_bind]
  generalize min r.width _ = w
  generalize min r.height _ = h
  split_ifs
  · exact ⟨_, rfl⟩
  · exact ⟨_, rfl⟩

theorem blit_returns_iff : (∃ ctx', DisplayBackend.blit ctx src srcStride r = .ok ctx') ↔
      r.width.toNat * 4 * r.height.toNat ≤ isizeMax := by
  constructor
  · rintro ⟨ctx', hblit⟩
    obtain ⟨ctx1, hrect, _⟩ := Exec.bind_eq_ok.mp hblit
    unfold blitRect at hrect
    obtain ⟨len, hlen, hrest⟩ := Exec.bind_eq_ok.mp hrect
    obtain ⟨rows, hrows, _⟩ := Exec.bind_eq_ok.mp hrest
    unfold usize at hlen
    split_ifs at hlen
    cases hlen
    unfold zeros at hrows
    split_ifs at hrows with hfits
    exact hfits
  · intro hfits
    obtain ⟨ctx1, hrect⟩ := blitRect_ok ctx src hstride hfits
    exact ⟨_, Exec.bind_eq_ok.mpr ⟨ctx1, hrect, rfl⟩⟩

end

theorem blits_return_iff (src : Bytes) (hstride : srcStride ≤ 2 ^ 16) (rects : List DisplayRect)
    (ctx : FerrumSDLContext S) :
    (∃ ctx', rects.foldlM (fun ctx rect => DisplayBackend.blit ctx src srcStride rect) ctx = .ok ctx') ↔
      ∀ rect ∈ rects, rect.width.toNat * 4 * rect.height.toNat ≤ isizeMax := by
  induction rects generalizing ctx with
  | nil => simp [List.foldlM_nil, Exec.pure_eq]
  | cons rect rest ih =>
    rw [List.forall_mem_cons, ← blit_returns_iff ctx src hstride]
    simp only [List.foldlM_cons, Exec.bind_eq_ok]
    constructor
    · rintro ⟨ctx', ctx1, hblit, hrest⟩
      exact ⟨⟨ctx1, hblit⟩, (ih ctx1).mp ⟨ctx', hrest⟩⟩
    · rintro ⟨⟨ctx1, hblit⟩, hrest⟩
      obtain ⟨ctx', hrest⟩ := (ih ctx1).mpr hrest
      exact ⟨ctx', ctx1, hblit, hrest⟩

end FerrumSDLContext

namespace VirtioGpu

variable {S : SdlCanvas}

/-- The descriptors that the request is gathered from can be fetched. -/
def GatherSafe (q : VirtioQueue) (mem : Ram) : (steps : Nat) → UInt16 → (gathered : Nat) → Prop
  | 0, _, _ => True
  | steps + 1, index, gathered =>
    let desc := q.descAt mem index
    q.DescSafe index ∧
      (desc.isWrite = false → saturatingUsize (gathered + desc.len.toNat) ≤ maxRequestBytes →
        desc.hasNext = true → desc.next < q.size → GatherSafe q mem steps desc.next (gathered + desc.len.toNat))

theorem returns_gatherLoop_iff {W : Type} {steps : Nat} {link : Link} {request : Bytes} {c : Ctx (VirtioGpu W) Ram} :
    Returns (gatherLoop steps link request) c ↔ GatherSafe c.queue c.mem steps link.index request.length := by
  induction steps generalizing link request c with
  | zero => exact iff_of_true (returns_pure _ _) trivial
  | succ steps ih =>
    unfold gatherLoop GatherSafe
    rw [returns_getDescriptor_bind]
    refine and_congr_right fun _ => ?_
    rw [Ctx.descAt]
    generalize c.queue.descAt c.mem link.index = desc
    cases hwrite : desc.isWrite with
    | true =>
      refine iff_of_true ?_ fun hread => absurd hread Bool.true_eq_false.mp
      rw [if_pos rfl]
      split_ifs
      · exact returns_pure _ _
      · exact returns_pure _ _
    | false =>
      rw [if_neg (by decide), forall_prop_of_true rfl]
      by_cases hbig : maxRequestBytes < saturatingUsize (request.length + desc.len.toNat)
      · rw [if_pos hbig]
        exact iff_of_true (returns_pure _ _) fun hle => absurd hbig (Nat.not_lt.mpr hle)
      rw [if_neg hbig, forall_prop_of_true (Nat.not_lt.mp hbig),
        returns_bind_of_ok (readGuestMemoryAlloc_eq_ok.mpr ⟨rfl, rfl⟩),
        returns_get_bind]
      dsimp only
      rw [fetched_queue]
      by_cases hlast : (!desc.hasNext || c.queue.size ≤ desc.next) = true
      · rw [if_pos hlast]
        refine iff_of_true (returns_pure _ _) fun hnext hlt => absurd hlast ?_
        simpa [hnext] using hlt
      · obtain ⟨hnext, hlt⟩ : desc.hasNext = true ∧ desc.next < c.queue.size := by simpa using hlast
        rw [if_neg hlast, ih, forall_prop_of_true hnext, forall_prop_of_true hlt]
        simp [Link.index, Ram.length_load]

/-- A flush of a resource can draw every scanout that shows it. -/
def FlushSafe (head : UInt16) (c : Ctx (VirtioGpu (FerrumSDLContext S)) Ram) : Prop :=
  ∀ bytes id r, requestOf head c = some (.resourceFlush, bytes) → flushFromBytes bytes = some id →
    c.dev.resources.lookup id = some r →
    ∀ rect ∈ blits id c.dev.scanouts.toList, rect.width.toNat * 4 * rect.height.toNat ≤ isizeMax

def ControlSafe (head : UInt16) (c : Ctx (VirtioGpu (FerrumSDLContext S)) Ram) : Prop :=
  GatherSafe c.queue c.mem c.queue.size.toNat head 0 ∧ FlushSafe head c ∧ c.queue.PushSafe

theorem returns_resourceFlush_iff {s : VirtioGpu (FerrumSDLContext S)} (hs : s.Invariant) (bytes : Bytes) :
    Returns (resourceFlush bytes) s ↔ ∀ id r, flushFromBytes bytes = some id → s.resources.lookup id = some r →
      ∀ rect ∈ blits id s.scanouts.toList, rect.width.toNat * 4 * rect.height.toNat ≤ isizeMax := by
  unfold resourceFlush
  rw [returns_get_bind]
  cases hid : flushFromBytes bytes with
  | none => exact iff_of_true (returns_pure _ _) nofun
  | some id =>
    dsimp only
    cases hr : s.resources.lookup id with
    | none => exact iff_of_true (returns_pure _ _) fun id' r heq hr' => by cases heq; rw [hr] at hr'; cases hr'
    | some r =>
      have hvalid := hs.valid id r hr
      have hstride : r.stride ≤ 2 ^ 16 := by
        have hwidth := hvalid.width_le
        rw [hvalid.stride_eq]
        omega
      dsimp only
      rw [returns_lift_bind, flushScanouts_eq_foldlM]
      constructor
      · rintro ⟨window, hflush, _⟩ id' r' heq hr'
        cases heq
        rw [hr] at hr'
        cases hr'
        exact (FerrumSDLContext.blits_return_iff r.data hstride _ s.window).mp ⟨window, hflush⟩
      · intro hfits
        obtain ⟨window, hflush⟩ :=
          (FerrumSDLContext.blits_return_iff r.data hstride _ s.window).mpr (hfits id r rfl hr)
        exact ⟨window, hflush, .of_ok rfl⟩

instance (desc : VirtqDesc) (buf : Bytes) :
    Total (writeBuf desc buf : Serve (VirtioGpu (FerrumSDLContext S)) Ram Nat) := by
  unfold writeBuf
  infer_instance

instance (head : UInt16) : Settles (retire head : Serve (VirtioGpu (FerrumSDLContext S)) Ram Bool) := by
  unfold retire
  infer_instance

theorem returns_command_iff (hc : c.dev.Invariant) (cmd : GpuCommand)
    (bytes : Bytes) : Returns (command cmd bytes) c ↔ (cmd = .resourceFlush → Returns (resourceFlush bytes) c.dev) := by
  by_cases hflush : cmd = .resourceFlush
  · subst hflush
    rw [forall_prop_of_true rfl]
    constructor
    · rintro ⟨response, t, hcommand⟩
      obtain ⟨dev, hdev, _⟩ := onDev_eq_ok.mp hcommand
      exact .of_ok hdev
    · rintro ⟨response, dev, hdev⟩
      exact .of_ok (onDev_eq_ok.mpr ⟨dev, hdev, rfl⟩)
  · refine iff_of_true ?_ fun heq => absurd heq hflush
    cases cmd with
    | resourceFlush => exact absurd rfl hflush
    | transferToHost2d => exact transferToHost2d_returns bytes hc
    | getDisplayInfo => exact .of_ok rfl
    | _ => exact .of_ok rfl

theorem returns_answer_iff {cmd : GpuCommand} {request : Bytes} {desc : VirtqDesc} :
    Returns (answer head cmd request desc) c ↔ Returns (command cmd request) c ∧ c.queue.PushSafe := by
  have hqueue {response : GpuResponse} {t : Ctx (VirtioGpu (FerrumSDLContext S)) Ram}
      (hcommand : command cmd request c = .ok response t) : t.queue = c.queue :=
    ((uses_command cmd request).effect_of_ok hcommand).queue_eq
  unfold answer
  constructor
  · intro h
    obtain ⟨response, t, hcommand, hrest⟩ := returns_bind.mp h
    exact ⟨.of_ok hcommand, hqueue hcommand ▸ (returns_iff t).mp hrest⟩
  · rintro ⟨⟨response, t, hcommand⟩, hpush⟩
    refine (returns_bind_of_ok hcommand).mpr ((returns_iff t).mpr ?_)
    rwa [hqueue hcommand]

theorem returns_serveControl_iff (hc : c.dev.Invariant) : Returns (serveControl head) c ↔ ControlSafe head c := by
  have hgather : Returns (gatherControlRequest head) c ↔ GatherSafe c.queue c.mem c.queue.size.toNat head 0 :=
    returns_gatherLoop_iff
  have hretire (t : Ctx (VirtioGpu (FerrumSDLContext S)) Ram) : Returns (retire head) t ↔ t.queue.PushSafe :=
    returns_iff t
  unfold serveControl ControlSafe FlushSafe
  rw [← hgather]
  by_cases hreturns : Returns (gatherControlRequest head) c
  · obtain ⟨request?, t, hrequest⟩ := hreturns
    have heffect := (uses_gatherControlRequest head).effect_of_ok hrequest
    have hqueue : t.queue = c.queue := heffect.queue_eq
    have hdev : t.dev = c.dev := heffect.dev (by decide)
    rw [returns_bind_of_ok hrequest, and_iff_right (.of_ok hrequest), requestOf, hrequest]
    cases request? with
    | none => simp [hretire, hqueue]
    | some gathered =>
      obtain ⟨request, desc⟩ := gathered
      dsimp only
      cases VirtioGpuCtrlHdr.fromBytes request with
      | none => simp [hretire, hqueue]
      | some header =>
        dsimp only [Option.map_some]
        rw [returns_answer_iff, returns_command_iff (hdev ▸ hc), hqueue, hdev]
        refine and_congr_left fun _ => ?_
        rw [returns_resourceFlush_iff hc]
        constructor
        · intro h bytes id r heq
          rw [Option.some.injEq, Prod.mk.injEq] at heq
          obtain ⟨hflush, rfl⟩ := heq
          exact h hflush id r
        · intro h hflush id r
          exact h request id r (by rw [hflush])
  · refine iff_of_false (fun h => hreturns ?_) fun h => hreturns h.1
    obtain ⟨request?, t, hrequest, _⟩ := returns_bind.mp h
    exact .of_ok hrequest

/-- The descriptors that are looked at lie in a table that fits below the end of the address space. -/
def CursorSafe (head : UInt16) (c : Ctx (VirtioGpu (FerrumSDLContext S)) Ram) : Prop :=
  c.queue.DescSafe head ∧
    (¬(!(c.descAt head).hasNext || (c.descAt head).isWrite || c.queue.size ≤ (c.descAt head).next) →
      c.queue.DescSafe (c.descAt head).next) ∧
    c.queue.PushSafe

theorem returns_serveCursor_iff : Returns (serveCursor head) c ↔ CursorSafe head c := by
  unfold serveCursor CursorSafe
  rw [returns_head_bind, returns_get_bind]
  refine and_congr_right fun _ => ?_
  dsimp only [fetched_queue]
  split_ifs with hshape
  · rw [returns_iff]
    exact (and_iff_right fun h => absurd hshape h).symm
  · rw [returns_next_bind, forall_prop_of_true hshape]
    exact and_congr_right fun _ => returns_iff _

end VirtioGpu

/-! ### A tick -/

section Tick

variable {S : SdlCanvas} {queueSel : Nat}

def RngVirtio.TickSafe (queueSel : Nat) (c : Ctx (RngVirtio H) Ram) : Prop :=
  c.dev.attached = true → queueSel = 0 → PopsSafely (fun _ => serve) none ChainSafe c

theorem RngVirtio.returns_tick {c : Ctx (RngVirtio H) Ram} :
    (∃ fuel, Returns (VirtioDevice.tick fuel queueSel) c) ↔ TickSafe queueSel c := by
  refine returns_tick_iff.trans (RngVirtio.forall_queueLoop.trans ?_)
  exact imp_congr_right fun _ => imp_congr_right fun _ => returns_popsEach_iff fun _ _ _ => returns_serve_iff

def CntVirtio.TickSafe (queueSel : Nat) (c : Ctx CntVirtio Ram) : Prop :=
  c.dev.attached = true → queueSel = 0 → PopsSafely (fun _ => serve) none ChainSafe c

theorem CntVirtio.returns_tick {c : Ctx CntVirtio Ram} :
    (∃ fuel, Returns (VirtioDevice.tick fuel queueSel) c) ↔ TickSafe queueSel c := by
  refine returns_tick_iff.trans (CntVirtio.forall_queueLoop.trans ?_)
  exact imp_congr_right fun _ => imp_congr_right fun _ => returns_popsEach_iff fun _ _ _ => returns_serve_iff

def BlkVirtio.TickSafe (queueSel : Nat) (c : Ctx (BlkVirtio H) Ram) : Prop :=
  c.dev.attached = true → queueSel = 0 → PopsSafely (fun _ => serve) (some maxBatch) ChainSafe c

theorem BlkVirtio.returns_tick {c : Ctx (BlkVirtio H) Ram} :
    (∃ fuel, Returns (VirtioDevice.tick fuel queueSel) c) ↔ TickSafe queueSel c := by
  refine returns_tick_iff.trans (BlkVirtio.forall_queueLoop.trans ?_)
  exact imp_congr_right fun _ => imp_congr_right fun _ => returns_popsEach_iff fun _ _ _ => returns_serve_iff

def NetVirtio.TickSafe (queueSel : Nat) (c : Ctx (NetVirtio H) Ram) : Prop :=
  c.dev.attached = true →
    (queueSel = 0 → rxLoop.SafeRun (fun t => NoFrame t ∨ t.queue.CaughtUp t.mem)
      (fun t => NoFrame t ∨ t.queue.PopSafe t.mem) RxSafe c) ∧
    (queueSel = 1 → PopsSafely (fun _ => serveTx) none TxSafe c)

theorem NetVirtio.returns_tick {c : Ctx (NetVirtio H) Ram} :
    (∃ fuel, Returns (VirtioDevice.tick fuel queueSel) c) ↔ TickSafe queueSel c := by
  refine returns_tick_iff.trans (NetVirtio.forall_queueLoop.trans ?_)
  refine imp_congr_right fun _ => and_congr (imp_congr_right fun _ => ?_) (imp_congr_right fun _ => ?_)
  · exact QueueLoop.returns_iff (fun _ => .const _) (fun _ => nextRx_idle_iff) (fun _ => returns_nextRx_iff)
      fun job t _ => returns_serveRx_iff.symm.trans exists_fuel_iff.symm
  · exact returns_popsEach_iff fun _ _ _ => returns_serveTx_iff

def FsVirtio.TickSafe (queueSel : Nat) (c : Ctx (FsVirtio H) Ram) : Prop :=
  c.dev.attached = true →
    (queueSel = 0 → PopsSafely serveHiprio none HiprioSafe c) ∧
    (queueSel = 1 → PopsSafely serveRequest none RequestSafe c)

theorem FsVirtio.returns_tick {c : Ctx (FsVirtio H) Ram} :
    (∃ fuel, Returns (VirtioDevice.tick fuel queueSel) c) ↔ TickSafe queueSel c := by
  refine returns_tick_iff.trans (FsVirtio.forall_queueLoop.trans ?_)
  refine imp_congr_right fun _ => and_congr (imp_congr_right fun _ => ?_) (imp_congr_right fun _ => ?_)
  · exact returns_pops_iff fuelMono_serveHiprio fun head t _ => returns_serveHiprio_iff
  · exact returns_pops_iff fuelMono_serveRequest fun head t _ => returns_serveRequest_iff

def VirtioGpu.TickSafe (queueSel : Nat) (c : Ctx (VirtioGpu (FerrumSDLContext S)) Ram) : Prop :=
  c.dev.attached = true →
    (queueSel = 0 → PopsSafely (fun _ => serveControl) none ControlSafe c) ∧
    (queueSel = 1 → PopsSafely (fun _ => serveCursor) none CursorSafe c)

theorem VirtioGpu.returns_tick (hc : c.dev.Invariant) :
    (∃ fuel, Returns (VirtioDevice.tick fuel queueSel) c) ↔ TickSafe queueSel c := by
  have hcontrol {head : UInt16} {t : Ctx (VirtioGpu (FerrumSDLContext S)) Ram}
      (ht : controlLoop.Reaches c head t) : t.dev.Invariant :=
    QueueLoop.dev_of_reaches (.of_uses (.popAvail (by decide) : Uses [.pop] _) (by decide)) (fun _ => keeps_serveControl) ht hc
  refine returns_tick_iff.trans (VirtioGpu.forall_queueLoop.trans ?_)
  refine imp_congr_right fun _ => and_congr (imp_congr_right fun _ => ?_) (imp_congr_right fun _ => ?_)
  · exact returns_popsEach_iff fun head t ht => returns_serveControl_iff (hcontrol ht)
  · exact returns_popsEach_iff fun _ _ _ => returns_serveCursor_iff

/-- What the device needs of the chains that a tick comes to. -/
def Device.TickSafe (queueSel : Nat) (c : Ctx (Device H (FerrumSDLContext S)) Ram) : Prop :=
  match c.dev with
  | .blk dev => BlkVirtio.TickSafe queueSel (c.withDev dev)
  | .net dev => NetVirtio.TickSafe queueSel (c.withDev dev)
  | .fs dev => FsVirtio.TickSafe queueSel (c.withDev dev)
  | .gpu dev => VirtioGpu.TickSafe queueSel (c.withDev dev)
  | .rng dev => RngVirtio.TickSafe queueSel (c.withDev dev)
  | .cnt dev => CntVirtio.TickSafe queueSel (c.withDev dev)
  | .console _ => True

theorem Serve.returns_within {D D' M α : Type} {wrap : D' → D} {dev : D'} {x : Serve D' M α} {c : Ctx D M} :
    Returns (within wrap dev x) c ↔ Returns x (c.withDev dev) := by
  simp only [Returns, within_eq_ok]
  constructor
  · rintro ⟨a, _, t, ht, _⟩
    exact ⟨a, t, ht⟩
  · rintro ⟨a, t, ht⟩
    exact ⟨a, _, t, ht, rfl⟩

theorem Device.returns_tick {c : Ctx (Device H (FerrumSDLContext S)) Ram}
    (hgpu : ∀ dev, c.dev = .gpu dev → dev.Invariant) :
    (∃ fuel, Returns (VirtioDevice.tick fuel queueSel) c) ↔ Device.TickSafe queueSel c := by
  obtain ⟨dev, queue, mem, log⟩ := c
  cases dev with
  | blk dev => exact (exists_congr fun _ => returns_within).trans BlkVirtio.returns_tick
  | net dev => exact (exists_congr fun _ => returns_within).trans NetVirtio.returns_tick
  | fs dev => exact (exists_congr fun _ => returns_within).trans FsVirtio.returns_tick
  | gpu dev => exact (exists_congr fun _ => returns_within).trans (VirtioGpu.returns_tick (hgpu dev rfl))
  | rng dev => exact (exists_congr fun _ => returns_within).trans RngVirtio.returns_tick
  | cnt dev => exact (exists_congr fun _ => returns_within).trans CntVirtio.returns_tick
  | console dev => exact iff_of_true ⟨0, returns_within.mpr (returns_pure _ _)⟩ trivial

end Tick

def attachedGpu : VirtioGpu (FerrumSDLContext SdlCanvas.blank) :=
  VirtioDevice.passGuestMemory Ram (.new ⟨(), 640, 480⟩)

theorem attachedGpu_reachable : (gpuSystem _).Reachable attachedGpu := by
  have hinit : (gpuSystem (FerrumSDLContext SdlCanvas.blank)).Reachable (.new ⟨(), 640, 480⟩) :=
    System.Reachable.init ⟨_, rfl⟩
  exact hinit.next (e := .passGuestMemory) rfl

/-- The chain of `oneChain` with a buffer that the device may only read. -/
def readOnlyChain : Ram :=
  ⟨[{ isNull := false, bytes := [0, 0, 1, 0, 0, 0, 0, 0, 0, 0, 0, 0, 0, 0, 0, 0], memOffset := 0,
      size_le := by decide }]⟩

def waitingReadOnly : Ctx BareDevice Ram := { waiting bareRng with mem := readOnlyChain }

theorem tick_waitingReadOnly (fuel : Nat) : tick (fuel + 1) 0 waitingReadOnly =
      .error (.panic (.message "virtio-rng got non-writable buffer"))
        ((tick (fuel + 1) 0).finalState waitingReadOnly) :=
  rfl

end FerrumVM
