import FerrumVM.HostOs
import FerrumVM.QueueLoop

/-! `BlkVirtio` of `devices/blk.rs`. A request is a chain of three descriptors: a header, the data and
a status byte. A chain that is not of that form, and one whose sector cannot be sought, is retired
without a status; any other is carried out on the host file. -/

namespace FerrumVM

open Base Program

def sectorSize : UInt64 := 512
def maxBatch : Nat := 64

structure BlkRequest where
  /-- `false` asks to read and `true` to write. -/
  rqstType : Bool
  sector : UInt64
  deriving DecidableEq, Repr

structure VirtioBlkConfig where
  capacity : UInt64
  sizeMax : UInt32
  segMax : UInt32
  blkSize : UInt32
  deriving DecidableEq, Repr

namespace VirtioBlkConfig

/-- The capacity is given in bytes and kept in blocks; a block size of zero would divide by zero, and
the only one ever given is 512. -/
def new (capacity : UInt64) (sizeMax segMax blkSize : UInt32) : VirtioBlkConfig where
  capacity := capacity / blkSize.toUInt64
  sizeMax := sizeMax
  segMax := segMax
  blkSize := blkSize

def toBytes (config : VirtioBlkConfig) (length : Nat) : Exec Bytes :=
  resize (u64ToLe config.capacity ++ u32ToLe config.sizeMax ++ u32ToLe config.segMax ++
    u32ToLe config.blkSize) length

end VirtioBlkConfig

structure BlkVirtio (H : HostOs) where
  attached : Bool
  blkFile : H.File
  config : VirtioBlkConfig
  host : H.World

namespace BlkVirtio

variable {H : HostOs} {M : Type} [GuestMemory M]

/-- The device on an opened disk image of the given size. -/
def new (blkFile : H.File) (fileSize : UInt64) (host : H.World) : BlkVirtio H where
  attached := false
  blkFile := blkFile
  config := VirtioBlkConfig.new fileSize (1024 * 1024) 128 512
  host := host

def seek (offset : UInt64) : Program (BlkVirtio H) Bool := do
  let s ← get
  let (r, host) := H.seek s.blkFile offset s.host
  set { s with host }
  return r.isOk

def readExact (length : Nat) : Program (BlkVirtio H) (Option Bytes) := do
  let s ← get
  let (r, host) := H.readExact s.blkFile length s.host
  set { s with host }
  return r.toOption.map Subtype.val

def writeAll (data : Bytes) : Program (BlkVirtio H) Bool := do
  let s ← get
  let (r, host) := H.writeAll s.blkFile data s.host
  set { s with host }
  return r.isOk

/-- `BlkRequest::new`. -/
def readRequest (basePtr : UInt64) : Serve (BlkVirtio H) M BlkRequest := do
  let typ ← Serve.readU32 basePtr
  let sector ← Serve.readU64 (← lift (addU64 basePtr 8))
  return { rqstType := typ != 0, sector }

def flagsOk (request : BlkRequest) (dataSection : VirtqDesc) : Bool :=
  if request.rqstType then !dataSection.isWrite else dataSection.isWrite

/-- The request itself, and `false` when the sector could not be sought. -/
def transfer (request : BlkRequest) (dataSection statusByte : VirtqDesc) : Serve (BlkVirtio H) M Bool :=
  match request.rqstType with
  | false => do
      let offset ← lift (mulU64 request.sector sectorSize)
      if !(← Serve.onDev (seek offset)) then return false
      else
        match ← Serve.onDev (readExact dataSection.len.toNat) with
        | some buf =>
          Serve.writeGuestMemory dataSection.addr buf
          Serve.writeU8 statusByte.addr 0x00
        | none => Serve.writeU8 statusByte.addr 0x01
        return true
  | true => do
      let buf ← Serve.readGuestMemoryAlloc dataSection.addr dataSection.len.toNat
      let offset ← lift (mulU64 request.sector 512)
      if !(← Serve.onDev (seek offset)) then return false
      else
        if ← Serve.onDev (writeAll buf) then Serve.writeU8 statusByte.addr 0x00
        else Serve.writeU8 statusByte.addr 0x01
        return true

/-- Retire a chain that was not carried out, without marking work. -/
def skip (head : UInt16) : Serve (BlkVirtio H) M Bool := do
  Serve.pushUsed head 0
  return false

structure BlkChain where
  request : BlkRequest
  dataSection : VirtqDesc
  statusByte : VirtqDesc

/-- The checks at the head of the loop: the parts of the chain, or nothing when it is to be skipped. -/
def gather (head : UInt16) : Serve (BlkVirtio H) M (Option BlkChain) := do
  let header ← Serve.getDescriptor (.head head)
  if !header.hasNext || header.len != 16 then return none
  else
    let request ← readRequest header.addr
    let dataSection ← Serve.getDescriptor (.next header)
    if !flagsOk request dataSection then return none
    else
      -- The NEXT flag of the data descriptor is not looked at.
      let statusByte ← Serve.getDescriptor (.next dataSection)
      if !statusByte.isWrite then return none
      else return some { request, dataSection, statusByte }

def serve (head : UInt16) : Serve (BlkVirtio H) M Bool := do
  match ← gather head with
  | none => skip head
  | some chain =>
    if ← transfer chain.request chain.dataSection chain.statusByte then
      Serve.pushUsed head chain.dataSection.len
      return true
    else skip head

def tick (queueSel : Nat) : Serve (BlkVirtio H) M Bool := do
  let c ← get
  if queueSel ≠ 0 ∨ !c.dev.attached then return false
  else drainBatch Serve.popAvail serve maxBatch

instance : VirtioDevice (BlkVirtio H) M where
  virtioType _ := 0x02
  features _ := 0
  negotiateFeatures s _ := s
  passGuestMemory s := { s with attached := true }
  tick _ := tick
  readConfig s length := s.config.toBytes length
  writeConfig s _ _ := return s
  update s queues mem := return (false, s, queues, mem)
  reset s := s

theorem uses_readRequest (basePtr : UInt64) :
    Uses [.read] (readRequest basePtr : Serve (BlkVirtio H) M BlkRequest) := by
  refine .bind (.readU32 _ (by decide)) fun typ => .bind (.lift _) fun addr => ?_
  exact .bind (.readU64 _ (by decide)) fun sector => .pure _

theorem uses_transfer (request : BlkRequest) (dataSection statusByte : VirtqDesc) :
    Uses [.read, .write, .dev] (transfer request dataSection statusByte : Serve (BlkVirtio H) M Bool) := by
  unfold transfer
  split
  · refine .bind (.lift _) fun offset => .bind (.onDev _ (by decide)) fun sought => .ite (.pure _) ?_
    refine .bind (.onDev _ (by decide)) fun buf? => ?_
    split
    · refine .bind (.writeGuestMemory _ _ (by decide)) fun _ => ?_
      exact .bind (.writeU8 _ _ (by decide)) fun _ => .pure _
    · exact .bind (.writeU8 _ _ (by decide)) fun _ => .pure _
  · refine .bind (.readGuestMemoryAlloc _ _ (by decide)) fun buf => .bind (.lift _) fun offset => ?_
    refine .bind (.onDev _ (by decide)) fun sought => .ite (.pure _) ?_
    refine .bind (.onDev _ (by decide)) fun written => .ite ?_ ?_
    · exact .bind (.writeU8 _ _ (by decide)) fun _ => .pure _
    · exact .bind (.writeU8 _ _ (by decide)) fun _ => .pure _

theorem uses_gather (head : UInt16) :
    Uses [.fetch, .read] (gather head : Serve (BlkVirtio H) M (Option BlkChain)) := by
  refine .bind (.getDescriptor _ (by decide)) fun header => .ite (.pure _) ?_
  refine .bind ((uses_readRequest _).mono) fun request => ?_
  refine .bind (.getDescriptor _ (by decide)) fun dataSection => .ite (.pure _) ?_
  exact .bind (.getDescriptor _ (by decide)) fun statusByte => .ite (.pure _) (.pure _)

theorem retiresOnce_skip (head : UInt16) : RetiresOnce head (skip head : Serve (BlkVirtio H) M Bool) :=
  .finish _ _

theorem uses_skip (head : UInt16) : Uses [.push] (skip head : Serve (BlkVirtio H) M Bool) :=
  .finish _ _ _

theorem uses_serve (head : UInt16) : Service (serve head : Serve (BlkVirtio H) M Bool) := by
  refine .bind ((uses_gather head).mono) fun chain? => ?_
  cases chain? with
  | none => exact (uses_skip head).mono
  | some chain =>
    refine .bind ((uses_transfer _ _ _).mono) fun sought => .ite ?_ ((uses_skip head).mono)
    exact .finish _ _ _

theorem retiresOnce_serve (head : UInt16) : RetiresOnce head (serve head : Serve (BlkVirtio H) M Bool) := by
  refine .after ((uses_gather head).mono) fun chain? => ?_
  cases chain? with
  | none => exact retiresOnce_skip head
  | some chain =>
    refine .after ((uses_transfer _ _ _).mono) fun sought => ?_
    exact .ite (fun _ => .finish _ _) fun _ => retiresOnce_skip head

/-! ### What the checks read -/

def requestAt (mem : M) (basePtr : UInt64) : Exec BlkRequest := do
  let typ ← GuestMemory.readU32 mem basePtr
  let sector ← GuestMemory.readU64 mem (← addU64 basePtr 8)
  return { rqstType := typ != 0, sector }

def chainAt (q : VirtioQueue) (mem : M) (head : UInt16) : Exec (Option BlkChain) := do
  let header ← q.getDescriptor mem head
  if !header.hasNext || header.len != 16 then return none
  else
    let request ← requestAt mem header.addr
    let dataSection ← q.getDescriptor mem header.next
    if !flagsOk request dataSection then return none
    else
      let statusByte ← q.getDescriptor mem dataSection.next
      if !statusByte.isWrite then return none
      else return some { request, dataSection, statusByte }

theorem looks_readRequest (basePtr : UInt64) :
    Looks (readRequest basePtr : Serve (BlkVirtio H) M BlkRequest) fun _ m => requestAt m basePtr :=
  .bind (.readU32 _) fun _ => .bind (.lift _) fun _ => .bind (.readU64 _) fun _ => .pure _

theorem looks_gather (head : UInt16) :
    Looks (gather head : Serve (BlkVirtio H) M (Option BlkChain)) fun q m => chainAt q m head := by
  refine .bind (.getDescriptor _) fun header => .ite (.pure _) ?_
  refine .bind (looks_readRequest _) fun request => .bind (.getDescriptor _) fun dataSection => ?_
  exact .ite (.pure _) (.bind (.getDescriptor _) fun statusByte => .ite (.pure _) (.pure _))

abbrev requestLoop : QueueLoop (BlkVirtio H) M := .ofPops (fun _ => serve) (some maxBatch)

theorem lawful_requestLoop : (requestLoop : QueueLoop (BlkVirtio H) M).Lawful :=
  .ofPops (fun _ => uses_serve) (fun _ => retiresOnce_serve) fun _ => .const _

def queueLoop (s : BlkVirtio H) (queueSel : Nat) : Option (QueueLoop (BlkVirtio H) M) :=
  if queueSel ≠ 0 ∨ !s.attached then none else some requestLoop

theorem forall_queueLoop {P : QueueLoop (BlkVirtio H) M → Prop} {s : BlkVirtio H} {queueSel : Nat} :
    (∀ l, queueLoop s queueSel = some l → P l) ↔ (s.attached = true → queueSel = 0 → P requestLoop) :=
  forall_single

instance : QueueDevice (BlkVirtio H) M where
  queueLoop := queueLoop
  tick_eq _ queueSel c := by
    show (if queueSel ≠ 0 ∨ !c.dev.attached then (return false)
      else drainBatch Serve.popAvail serve maxBatch : Serve (BlkVirtio H) M Bool) c = _
    unfold queueLoop
    split_ifs <;> rfl
  lawful h := forall_queueLoop.mpr (fun _ _ => lawful_requestLoop) _ h

end BlkVirtio

end FerrumVM
