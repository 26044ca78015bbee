import FerrumVM.GpuWire
import FerrumVM.QueueLoop
import Mathlib.Data.List.AList

/-! `VirtioGpu` of `devices/gpu.rs`: a table of resources, a table of scanouts that show them, and the
commands of the control queue and the cursor queue. -/

namespace FerrumVM

open Base Program VirtioGpuTransferToHost

def maxScanouts : Nat := 16
def maxRequestBytes : Nat := 256 * 1024
def maxResourceBytes : Nat := 256 * 1024 * 1024
def maxResourceDimension : UInt32 := 16384
def maxResources : Nat := 64
def bytesPerPixel : Nat := 4
def supportedFormats : List UInt32 := [1, 2, 3, 4]

structure GpuResource where
  width : UInt32
  height : UInt32
  backing : List VirtioGpuMemEntry
  data : Bytes
  stride : Nat

namespace GpuResource

def new (format width height : UInt32) : Option GpuResource :=
  if format ∉ supportedFormats then none
  else if width = 0 ∨ height = 0 then none
  else if maxResourceDimension < width ∨ maxResourceDimension < height then none
  else do
    let stride ← checkedUsize (width.toNat * bytesPerPixel)
    let len ← checkedUsize (stride * height.toNat)
    if maxResourceBytes < len then none
    else some { width, height, backing := [], data := List.replicate len 0, stride }

/-- `u32::saturating_add`. -/
def saturatingAdd (a b : UInt32) : Nat := min (a.toNat + b.toNat) (2 ^ 32 - 1)

def contains (r : GpuResource) (rect : DisplayRect) : Bool :=
  rect.width != 0 && rect.height != 0 && rect.x < r.width && rect.y < r.height &&
    saturatingAdd rect.x rect.width ≤ r.width.toNat && saturatingAdd rect.y rect.height ≤ r.height.toNat

def backingLen (r : GpuResource) : Nat :=
  r.backing.foldl (fun acc e => saturatingUsize (acc + e.length.toNat)) 0

end GpuResource

inductive GpuResponse where
  /-- A bare header with the given type. -/
  | header (typ : UInt32)
  | raw (buf : Bytes)
  deriving DecidableEq, Repr

structure VirtioGpuScanout where
  resourceId : Option UInt32
  rect : DisplayRect
  deriving DecidableEq, Repr

def VirtioGpuScanout.empty : VirtioGpuScanout := ⟨none, .empty⟩

structure VirtioGpu (W : Type) where
  attached : Bool
  config : VirtioGpuConfig
  window : W
  resources : AList (fun _ : UInt32 => GpuResource)
  scanouts : Vector VirtioGpuScanout 16

namespace VirtioGpu

variable {W M : Type}

def new (window : W) : VirtioGpu W where
  attached := false
  config := ⟨0, 0, 1, 0⟩
  window := window
  resources := ∅
  scanouts := Vector.replicate 16 .empty

def reset (s : VirtioGpu W) : VirtioGpu W :=
  { s with resources := ∅, scanouts := Vector.replicate 16 .empty, config := s.config.reset }

def invalidArgument : GpuResponse := .header respErrInvalidArgument
def invalidResourceId : GpuResponse := .header respErrInvalidResourceId
def okNodata : GpuResponse := .header respOkNodata

/-! ### Commands on the tables -/

def resourceCreate2d (s : VirtioGpu W) (bytes : Bytes) : GpuResponse × VirtioGpu W :=
  match VirtioGpuResourceCreate2D.fromBytes bytes with
  | none => (invalidArgument, s)
  | some req =>
    if req.resourceId ∈ s.resources then (invalidResourceId, s)
    else if maxResources ≤ s.resources.entries.length then (invalidArgument, s)
    else
      match GpuResource.new req.format req.width req.height with
      | none => (invalidArgument, s)
      | some resource => (okNodata, { s with resources := s.resources.insert req.resourceId resource })

/-- Dropping a resource also unbinds the scanouts that show it; an unknown id is not an error. -/
def resourceUnref (s : VirtioGpu W) (bytes : Bytes) : GpuResponse × VirtioGpu W :=
  match resourceIdFromBytes bytes with
  | none => (invalidArgument, s)
  | some id =>
    (okNodata, { s with
      resources := s.resources.erase id
      scanouts := s.scanouts.map fun scanout =>
        if scanout.resourceId = some id then .empty else scanout })

def setScanout (s : VirtioGpu W) (bytes : Bytes) : GpuResponse × VirtioGpu W :=
  match VirtioGpuSetScanout.fromBytes bytes with
  | none => (invalidArgument, s)
  | some req =>
    if maxScanouts ≤ req.scanoutId.toNat then (invalidArgument, s)
    else if req.resourceId ≠ 0 ∧ req.resourceId ∉ s.resources then (invalidResourceId, s)
    else
      let scanout : VirtioGpuScanout :=
        if req.resourceId = 0 then .empty else ⟨some req.resourceId, req.rect⟩
      (okNodata, { s with scanouts := s.scanouts.setIfInBounds req.scanoutId.toNat scanout })

def resourceAttachBacking (s : VirtioGpu W) (bytes : Bytes) : GpuResponse × VirtioGpu W :=
  match VirtioGpuBackingAttach.fromBytes bytes with
  | none => (invalidArgument, s)
  | some req =>
    match s.resources.lookup req.resourceId with
    | none => (invalidResourceId, s)
    | some resource =>
      (okNodata, { s with
        resources := s.resources.replace req.resourceId { resource with backing := req.memEntries } })

def resourceDetachBacking (s : VirtioGpu W) (bytes : Bytes) : GpuResponse × VirtioGpu W :=
  match resourceIdFromBytes bytes with
  | none => (invalidArgument, s)
  | some id =>
    match s.resources.lookup id with
    | none => (invalidResourceId, s)
    | some resource =>
      (okNodata, { s with resources := s.resources.replace id { resource with backing := [] } })

section Display

variable [DisplayBackend W]

def getDisplayInfo (s : VirtioGpu W) : GpuResponse := .raw (displayInfoResponse [.new s.window])

def flushScanouts (id : UInt32) (resource : GpuResource) : List VirtioGpuScanout → W → Exec W
  | [], window => return window
  | scanout :: rest, window => do
      if scanout.resourceId = some id then
        flushScanouts id resource rest
          (← DisplayBackend.blit window resource.data resource.stride scanout.rect)
      else flushScanouts id resource rest window

def resourceFlush (bytes : Bytes) : Program (VirtioGpu W) GpuResponse := do
  let s ← get
  match flushFromBytes bytes with
  | none => return invalidArgument
  | some id =>
    match s.resources.lookup id with
    | none => return invalidResourceId
    | some resource => do
        let window ← lift (flushScanouts id resource s.scanouts.toList s.window)
        set { s with window }
        return okNodata

end Display

/-! ### Transfers from guest memory -/

variable [GuestMemory M]

/-- The loop of `read_backing_range` over the backing entries: bytes from `start` on in the list of
pages are copied to `out`, of which `copied` bytes are there and `skipped` bytes of pages are past. -/
def readBackingRange {D : Type} (start : Nat) :
    List VirtioGpuMemEntry → (copied skipped : Nat) → Bytes → Serve D M Bytes
  | [], _, _, out => return out
  | entry :: rest, copied, skipped, out =>
    if copied = out.length then return out
    else
      let entryLen := entry.length.toNat
      let entryStart := start - skipped
      if entryStart < entryLen then
        let n := min (entryLen - entryStart) (out.length - copied)
        match checkedUsize (entry.addr.toNat + entryStart) with
        | none => return out
        | some addr => do
            let tmp ← Serve.readGuestMemoryAlloc (UInt64.ofNat addr) n
            let out ← lift (copySlice out copied (copied + n) tmp)
            readBackingRange start rest (copied + n) (saturatingUsize (skipped + entryLen)) out
      else readBackingRange start rest copied (saturatingUsize (skipped + entryLen)) out

/-- The rows of a transfer, from row `row` on, copied to the resource one by one. The row buffer is
used again for each row. -/
def transferRows (id : UInt32) (rect : DisplayRect) (base : Nat) :
    (remaining row : Nat) → Bytes → Serve (VirtioGpu W) M Unit
  | 0, _, _ => return ()
  | remaining + 1, row, rowBuf => do
      let c ← get
      match c.dev.resources.lookup id with
      | none => return ()
      | some resource =>
        match checkedUsize (base + saturatingUsize (row * resource.stride)) with
        | none => return ()
        | some src => do
            let rowBuf ← readBackingRange src resource.backing 0 0 rowBuf
            let rowStart ← lift (usize ((rect.y.toNat + row) * resource.stride))
            let dstStart ← lift (usize (rowStart + rect.x.toNat * bytesPerPixel))
            let copyLen := min rowBuf.length (resource.data.length - dstStart)
            if copyLen = 0 then return ()
            else
              let data ← lift (copySlice resource.data dstStart (dstStart + copyLen) (rowBuf.take copyLen))
              Serve.onDev (modify fun s => { s with
                resources := s.resources.replace id { resource with data } })
              transferRows id rect base remaining (row + 1) rowBuf

def transferBase (resource : GpuResource) (req : VirtioGpuTransferToHost) : Option Nat := do
  let rows ← checkedUsize (req.offset.toNat + saturatingUsize (req.rect.y.toNat * resource.stride))
  checkedUsize (rows + req.rect.x.toNat * bytesPerPixel)

def transferToHost2d (bytes : Bytes) : Serve (VirtioGpu W) M GpuResponse := do
  match VirtioGpuTransferToHost.fromBytes bytes with
  | none => return invalidArgument
  | some req => do
      let c ← get
      match c.dev.resources.lookup req.resourceId with
      | none => return invalidResourceId
      | some resource =>
        if !resource.contains req.rect then return invalidArgument
        else
          match transferBase resource req with
          | none => return invalidArgument
          | some base =>
            if resource.backingLen < base then return invalidArgument
            else
              let rowBuf ← lift (zeros (req.rect.width.toNat * bytesPerPixel))
              transferRows req.resourceId req.rect base req.rect.height.toNat 0 rowBuf
              return okNodata

/-! ### Commands step by step -/

/-- The checks of a transfer between the lookup and the first row. -/
def Accepts (resource : GpuResource) (req : VirtioGpuTransferToHost) (base : Nat) : Prop :=
  resource.contains req.rect = true ∧ transferBase resource req = some base ∧ base ≤ resource.backingLen

section Steps

variable {bytes : Bytes} {c : Ctx (VirtioGpu W) M} {req : VirtioGpuTransferToHost} {resource : GpuResource}

theorem transferToHost2d_of_short (h : fromBytes bytes = none) :
    transferToHost2d bytes c = .ok invalidArgument c := by
  unfold transferToHost2d
  rw [h]
  rfl

theorem transferToHost2d_of_dead (h : fromBytes bytes = some req)
    (hdead : c.dev.resources.lookup req.resourceId = none) : transferToHost2d bytes c = .ok invalidResourceId c := by
  unfold transferToHost2d
  rw [h]
  dsimp only
  rw [get_bind, hdead]
  rfl

section

variable (h : fromBytes bytes = some req) (hlive : c.dev.resources.lookup req.resourceId = some resource)
include h hlive

theorem transferToHost2d_of_refused (hrefused : ∀ base, ¬Accepts resource req base) :
    transferToHost2d bytes c = .ok invalidArgument c := by
  unfold transferToHost2d
  rw [h]
  dsimp only
  rw [get_bind, hlive]
  dsimp only
  split
  · rfl
  next hcontains =>
  rw [Bool.not_eq_true', Bool.not_eq_false] at hcontains
  cases hbase : transferBase resource req with
  | none => rfl
  | some base =>
    dsimp only
    rw [if_pos (Nat.lt_of_not_le fun hle => hrefused base ⟨hcontains, hbase, hle⟩)]
    rfl

theorem transferToHost2d_of_accepts {base : Nat} (haccepts : Accepts resource req base) :
    transferToHost2d bytes c = (do
      let rowBuf ← lift (zeros (req.rect.width.toNat * bytesPerPixel))
      transferRows req.resourceId req.rect base req.rect.height.toNat 0 rowBuf
      return okNodata : Serve (VirtioGpu W) M GpuResponse) c := by
  obtain ⟨hcontains, hbase, hle⟩ := haccepts
  unfold transferToHost2d
  rw [h]
  dsimp only
  rw [get_bind, hlive]
  dsimp only
  rw [if_neg (by simp [hcontains]), hbase]
  dsimp only
  rw [if_neg (Nat.not_lt.mpr hle)]

end

theorem transferToHost2d_cases {response : GpuResponse} {c' : Ctx (VirtioGpu W) M}
    (h : transferToHost2d bytes c = .ok response c') :
    ((response = invalidArgument ∨ response = invalidResourceId) ∧ c' = c) ∨ response = okNodata := by
  cases hreq : fromBytes bytes with
  | none =>
    rw [transferToHost2d_of_short hreq] at h
    cases h
    exact Or.inl ⟨Or.inl rfl, rfl⟩
  | some req =>
    cases hr : c.dev.resources.lookup req.resourceId with
    | none =>
      rw [transferToHost2d_of_dead hreq hr] at h
      cases h
      exact Or.inl ⟨Or.inr rfl, rfl⟩
    | some resource =>
      by_cases haccepts : ∃ base, Accepts resource req base
      · obtain ⟨base, haccepts⟩ := haccepts
        rw [transferToHost2d_of_accepts hreq hr haccepts] at h
        obtain ⟨_, _, _, h⟩ := bind_eq_ok.mp h
        obtain ⟨_, _, _, h⟩ := bind_eq_ok.mp h
        exact Or.inr (pure_eq_ok.mp h).1.symm
      · rw [transferToHost2d_of_refused hreq hr (not_exists.mp haccepts)] at h
        cases h
        exact Or.inl ⟨Or.inl rfl, rfl⟩

end Steps

section FlushSteps

variable [DisplayBackend W] {bytes : Bytes} {s : VirtioGpu W} {id : UInt32}

theorem resourceFlush_of_short (h : flushFromBytes bytes = none) : resourceFlush bytes s = .ok invalidArgument s := by
  unfold resourceFlush
  rw [get_bind, h]
  rfl

theorem resourceFlush_of_dead (h : flushFromBytes bytes = some id) (hdead : s.resources.lookup id = none) :
    resourceFlush bytes s = .ok invalidResourceId s := by
  unfold resourceFlush
  rw [get_bind, h]
  dsimp only
  rw [hdead]
  rfl

theorem resourceFlush_of_live (h : flushFromBytes bytes = some id) {resource : GpuResource}
    (hlive : s.resources.lookup id = some resource) : resourceFlush bytes s = (do
      let window ← lift (flushScanouts id resource s.scanouts.toList s.window)
      set { s with window }
      return okNodata : Program (VirtioGpu W) GpuResponse) s := by
  unfold resourceFlush
  rw [get_bind, h]
  dsimp only
  rw [hlive]

theorem resourceFlush_cases {response : GpuResponse} {s' : VirtioGpu W} (h : resourceFlush bytes s = .ok response s') :
    ((response = invalidArgument ∨ response = invalidResourceId) ∧ s' = s) ∨ response = okNodata := by
  cases hid : flushFromBytes bytes with
  | none =>
    rw [resourceFlush_of_short hid] at h
    cases h
    exact Or.inl ⟨Or.inl rfl, rfl⟩
  | some id =>
    cases hr : s.resources.lookup id with
    | none =>
      rw [resourceFlush_of_dead hid hr] at h
      cases h
      exact Or.inl ⟨Or.inr rfl, rfl⟩
    | some resource =>
      rw [resourceFlush_of_live hid hr] at h
      obtain ⟨_, _, _, h⟩ := bind_eq_ok.mp h
      obtain ⟨_, _, _, h⟩ := bind_eq_ok.mp h
      exact Or.inr (pure_eq_ok.mp h).1.symm

end FlushSteps

section Queues

variable [DisplayBackend W]

/-! ### The control queue -/

omit [GuestMemory M] [DisplayBackend W] in
def onTables (f : VirtioGpu W → GpuResponse × VirtioGpu W) : Serve (VirtioGpu W) M GpuResponse :=
  Serve.onDev fun s => .ok (f s).1 (f s).2

def command (cmd : GpuCommand) (bytes : Bytes) : Serve (VirtioGpu W) M GpuResponse :=
  match cmd with
  | .getDisplayInfo => do return (← get).dev.getDisplayInfo
  | .resourceCreate2d => onTables fun s => s.resourceCreate2d bytes
  | .resourceUnref => onTables fun s => s.resourceUnref bytes
  | .setScanout => onTables fun s => s.setScanout bytes
  | .resourceFlush => Serve.onDev (resourceFlush bytes)
  | .transferToHost2d => transferToHost2d bytes
  | .resourceAttachBacking => onTables fun s => s.resourceAttachBacking bytes
  | .resourceDetachBacking => onTables fun s => s.resourceDetachBacking bytes
  | .getEdid | .cursorGet => return okNodata
  | .updateCursor | .unsupported => return .header respErrUnsupported

omit [DisplayBackend W] in
/-- The loop of `gather_control_request`: the bytes of the readable descriptors and then the first
writable one. -/
def gatherLoop : (steps : Nat) → Link → Bytes → Serve (VirtioGpu W) M (Option (Bytes × VirtqDesc))
  | 0, _, _ => return none
  | steps + 1, link, request => do
      let desc ← Serve.getDescriptor link
      if desc.isWrite then
        if request = [] then return none else return some (request, desc)
      else if maxRequestBytes < saturatingUsize (request.length + desc.len.toNat) then return none
      else
        let chunk ← Serve.readGuestMemoryAlloc desc.addr desc.len.toNat
        let size := (← get).queue.size
        if !desc.hasNext || size ≤ desc.next then return none
        else gatherLoop steps (.next desc) (request ++ chunk)

omit [DisplayBackend W] in
def gatherControlRequest (head : UInt16) : Serve (VirtioGpu W) M (Option (Bytes × VirtqDesc)) := do
  let size := (← get).queue.size
  gatherLoop size.toNat (.head head) []

omit [DisplayBackend W] in
/-- Write a reply to a descriptor that is writable and long enough; the number of bytes written. -/
def writeBuf (desc : VirtqDesc) (buf : Bytes) : Serve (VirtioGpu W) M Nat :=
  if !desc.isWrite || desc.len.toNat < buf.length then return 0
  else do
    Serve.writeGuestMemory desc.addr buf
    return buf.length

def GpuResponse.bytes : GpuResponse → Bytes
  | .raw buf => buf
  | .header typ => (VirtioGpuCtrlHdr.new typ).toBytes

def answer (head : UInt16) (cmd : GpuCommand) (request : Bytes) (desc : VirtqDesc) : Serve (VirtioGpu W) M Bool := do
  let response ← command cmd request
  let written ← writeBuf desc (GpuResponse.bytes response)
  Serve.pushUsed head (UInt32.ofNat written)
  return true

omit [DisplayBackend W] in
def retire (head : UInt16) : Serve (VirtioGpu W) M Bool := do
  Serve.pushUsed head 0
  return true

def serveControl (head : UInt16) : Serve (VirtioGpu W) M Bool := do
  match ← gatherControlRequest head with
  | none => retire head
  | some (request, desc) =>
    match VirtioGpuCtrlHdr.fromBytes request with
    | none => retire head
    | some header => answer head (GpuCommand.ofNumber header.typ) request desc

/-! ### The cursor queue -/

def cursorResponse (bytes : Bytes) : UInt32 :=
  match GpuCommand.ofNumber (((VirtioGpuCtrlHdr.fromBytes bytes).map (·.typ)).getD 0) with
  | .updateCursor | .cursorGet => respOkNodata
  | _ => respErrUnsupported

omit [DisplayBackend W] in
def serveCursor (head : UInt16) : Serve (VirtioGpu W) M Bool := do
  let headerDesc ← Serve.getDescriptor (.head head)
  let size := (← get).queue.size
  if !headerDesc.hasNext || headerDesc.isWrite || size ≤ headerDesc.next then retire head
  else
    let respDesc ← Serve.getDescriptor (.next headerDesc)
    let bytes ← Serve.readGuestMemoryAlloc headerDesc.addr (min headerDesc.len.toNat maxRequestBytes)
    let written ← writeBuf respDesc (VirtioGpuCtrlHdr.new (cursorResponse bytes)).toBytes
    Serve.pushUsed head (UInt32.ofNat written)
    return true

def tick (fuel queueSel : Nat) : Serve (VirtioGpu W) M Bool := do
  let c ← get
  if !c.dev.attached then return false
  else
    match queueSel with
    | 0 => drain Serve.popAvail serveControl fuel
    | 1 => drain Serve.popAvail serveCursor fuel
    | _ => return false

instance : VirtioDevice (VirtioGpu W) M where
  virtioType _ := 0x10
  features _ := 0
  negotiateFeatures s _ := s
  passGuestMemory s := { s with attached := true }
  tick := tick
  readConfig s length := s.config.toBytes length
  writeConfig s offset data := return { s with config := ← s.config.writeField offset data }
  update s queues mem := return (false, s, queues, mem)
  reset := reset

end Queues

/-! ### The queue while a chain is served -/

theorem uses_readBackingRange {D : Type} (start : Nat) (entries : List VirtioGpuMemEntry)
    (copied skipped : Nat) (out : Bytes) :
    Uses [.read] (readBackingRange start entries copied skipped out : Serve D M Bytes) := by
  induction entries generalizing copied skipped out with
  | nil => exact .pure _
  | cons entry rest ih =>
    refine .ite (.pure _) (.ite ?_ (ih _ _ _))
    split
    · exact .pure _
    · exact .bind (.readGuestMemoryAlloc _ _ (by decide)) fun tmp => .bind (.lift _) fun out => ih _ _ _

theorem uses_transferRows (id : UInt32) (rect : DisplayRect) (base remaining row : Nat) (rowBuf : Bytes) :
    Uses [.read, .dev] (transferRows id rect base remaining row rowBuf : Serve (VirtioGpu W) M Unit) := by
  induction remaining generalizing row rowBuf with
  | zero => exact .pure _
  | succ remaining ih =>
    refine .bind .get fun c => ?_
    split
    · exact .pure _
    split
    · exact .pure _
    refine .bind ((uses_readBackingRange _ _ _ _ _).mono) fun rowBuf => .bind (.lift _) fun _ => ?_
    refine .bind (.lift _) fun dstStart => .ite (.pure _) (.bind (.lift _) fun data => ?_)
    exact .bind (.onDev _ (by decide)) fun _ => ih _ _

theorem uses_transferToHost2d (bytes : Bytes) :
    Uses [.read, .dev] (transferToHost2d bytes : Serve (VirtioGpu W) M GpuResponse) := by
  unfold transferToHost2d
  split
  · exact .pure _
  refine .bind .get fun c => ?_
  split
  · exact .pure _
  refine .ite (.pure _) ?_
  split
  · exact .pure _
  refine .ite (.pure _) (.bind (.lift _) fun rowBuf => ?_)
  exact .bind (uses_transferRows _ _ _ _ _ _) fun _ => .pure _

theorem uses_onTables (f : VirtioGpu W → GpuResponse × VirtioGpu W) :
    Uses [.read, .dev] (onTables f : Serve (VirtioGpu W) M GpuResponse) :=
  .onDev _ (by decide)

theorem uses_command [DisplayBackend W] (cmd : GpuCommand) (bytes : Bytes) :
    Uses [.read, .dev] (command cmd bytes : Serve (VirtioGpu W) M GpuResponse) := by
  cases cmd with
  | getDisplayInfo => exact .bind .get fun c => .pure _
  | transferToHost2d => exact uses_transferToHost2d bytes
  | getEdid => exact .pure _
  | cursorGet => exact .pure _
  | updateCursor => exact .pure _
  | unsupported => exact .pure _
  | resourceFlush => exact .onDev _ (by decide)
  | _ => exact uses_onTables _

theorem uses_gatherLoop (steps : Nat) (link : Link) (request : Bytes) :
    Uses [.fetch, .read] (gatherLoop steps link request : Serve (VirtioGpu W) M _) := by
  induction steps generalizing link request with
  | zero => exact .pure _
  | succ steps ih =>
    refine .bind (.getDescriptor _ (by decide)) fun desc => .ite (.ite (.pure _) (.pure _)) (.ite (.pure _) ?_)
    refine .bind (.readGuestMemoryAlloc _ _ (by decide)) fun chunk => .bind .get fun c => ?_
    exact .ite (.pure _) (ih _ _)

theorem uses_gatherControlRequest (head : UInt16) :
    Uses [.fetch, .read] (gatherControlRequest head : Serve (VirtioGpu W) M _) :=
  .bind .get fun _ => uses_gatherLoop _ _ _

theorem uses_writeBuf (desc : VirtqDesc) (buf : Bytes) :
    Uses [.write] (writeBuf desc buf : Serve (VirtioGpu W) M Nat) :=
  .ite (.pure _) (.bind (.writeGuestMemory _ _ (by decide)) fun _ => .pure _)

theorem uses_retire (head : UInt16) : Uses [.push] (retire head : Serve (VirtioGpu W) M Bool) :=
  .finish _ _ _

theorem uses_answer [DisplayBackend W] (head : UInt16) (cmd : GpuCommand) (request : Bytes) (desc : VirtqDesc) :
    Uses [.read, .write, .push, .dev] (answer head cmd request desc : Serve (VirtioGpu W) M Bool) := by
  refine .bind ((uses_command _ _).mono) fun response => ?_
  refine .bind ((uses_writeBuf _ _).mono) fun written => ?_
  exact .finish _ _ _

theorem uses_serveControl [DisplayBackend W] (head : UInt16) :
    Service (serveControl head : Serve (VirtioGpu W) M Bool) := by
  refine .bind ((uses_gatherControlRequest head).mono) fun request? => ?_
  split
  · exact (uses_retire head).mono
  split
  · exact (uses_retire head).mono
  · exact (uses_answer _ _ _ _).mono

theorem uses_serveCursor (head : UInt16) :
    Uses [.fetch, .read, .write, .push] (serveCursor head : Serve (VirtioGpu W) M Bool) := by
  refine .bind (.getDescriptor _ (by decide)) fun headerDesc => .bind .get fun c => ?_
  refine .ite ((uses_retire head).mono) (.bind (.getDescriptor _ (by decide)) fun respDesc => ?_)
  refine .bind (.readGuestMemoryAlloc _ _ (by decide)) fun bytes => ?_
  refine .bind ((uses_writeBuf _ _).mono) fun written => ?_
  exact .finish _ _ _

theorem retiresOnce_serveControl [DisplayBackend W] (head : UInt16) :
    RetiresOnce head (serveControl head : Serve (VirtioGpu W) M Bool) := by
  refine .after ((uses_gatherControlRequest head).mono) fun request? => ?_
  split
  · exact .finish _ _
  split
  · exact .finish _ _
  refine .after ((uses_command _ _).mono) fun response => ?_
  exact .after ((uses_writeBuf _ _).mono) fun written => .finish _ _

theorem retiresOnce_serveCursor (head : UInt16) :
    RetiresOnce head (serveCursor head : Serve (VirtioGpu W) M Bool) := by
  refine .after (.getDescriptor _ (by decide)) fun headerDesc => .after .get fun c => ?_
  refine .ite (fun _ => .finish _ _) fun _ => .after (.getDescriptor _ (by decide)) fun respDesc => ?_
  refine .after (.readGuestMemoryAlloc _ _ (by decide)) fun bytes => ?_
  exact .after ((uses_writeBuf _ _).mono) fun written => .finish _ _

abbrev controlLoop [DisplayBackend W] : QueueLoop (VirtioGpu W) M := .ofPops (fun _ => serveControl) none

abbrev cursorLoop : QueueLoop (VirtioGpu W) M := .ofPops (fun _ => serveCursor) none

theorem lawful_controlLoop [DisplayBackend W] : (controlLoop : QueueLoop (VirtioGpu W) M).Lawful :=
  .ofPops (fun _ => uses_serveControl) (fun _ => retiresOnce_serveControl) fun _ => .const _

theorem lawful_cursorLoop : (cursorLoop : QueueLoop (VirtioGpu W) M).Lawful :=
  .ofPops (fun _ head => (uses_serveCursor head).mono) (fun _ => retiresOnce_serveCursor)
    fun _ => .const _

def queueLoop [DisplayBackend W] (s : VirtioGpu W) (queueSel : Nat) : Option (QueueLoop (VirtioGpu W) M) :=
  if !s.attached then none
  else
    match queueSel with
    | 0 => some controlLoop
    | 1 => some cursorLoop
    | _ => none

theorem forall_queueLoop [DisplayBackend W] {P : QueueLoop (VirtioGpu W) M → Prop} {s : VirtioGpu W} {queueSel : Nat} :
    (∀ l, queueLoop s queueSel = some l → P l) ↔
      (s.attached = true → (queueSel = 0 → P controlLoop) ∧ (queueSel = 1 → P cursorLoop)) := by
  unfold queueLoop
  cases s.attached with
  | false => simp
  | true =>
    rcases queueSel with _ | _ | queueSel
    · simp
    · simp
    · simp

instance [DisplayBackend W] : QueueDevice (VirtioGpu W) M where
  queueLoop := queueLoop
  tick_eq fuel queueSel c := by
    show (if !c.dev.attached then (return false) else _ : Serve (VirtioGpu W) M Bool) c = _
    unfold queueLoop
    split_ifs
    · rfl
    · match queueSel with
      | 0 => rfl
      | 1 => rfl
      | _ + 2 => rfl
  lawful h := forall_queueLoop.mpr (fun _ => ⟨fun _ => lawful_controlLoop, fun _ => lawful_cursorLoop⟩) _ h

end VirtioGpu

end FerrumVM
