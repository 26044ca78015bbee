import FerrumVM.BaseBytes
import FerrumVM.BaseFault

/-! The messages of the GPU device in `devices/gpu.rs`, its configuration space, and the display behind
it: `DisplayBackend` of `platform/display.rs` with the SDL window of `platform/sdl/context.rs`. The
structs of the wire are packed, so a field is at the sum of the sizes before it. -/

namespace FerrumVM

open Base

/-! ### The display -/

structure DisplayRect where
  x : UInt32
  y : UInt32
  width : UInt32
  height : UInt32
  deriving DecidableEq, Repr

namespace DisplayRect

def empty : DisplayRect := ⟨0, 0, 0, 0⟩

def toBytes (r : DisplayRect) : Bytes := u32ToLe r.x ++ u32ToLe r.y ++ u32ToLe r.width ++ u32ToLe r.height

end DisplayRect

/-- The part of the trait that the device calls. -/
class DisplayBackend (W : Type) where
  getDisplaySize : W → UInt32 × UInt32
  blit : W → Bytes → Nat → DisplayRect → Exec W

/-- The calls into SDL: uploading rows to the texture and drawing it. -/
structure SdlCanvas where
  State : Type
  update : State → DisplayRect → Bytes → Nat → State
  present : State → State

def SdlCanvas.blank : SdlCanvas := ⟨Unit, fun _ _ _ _ => (), fun _ => ()⟩

structure FerrumSDLContext (S : SdlCanvas) where
  canvas : S.State
  width : UInt32
  height : UInt32

namespace FerrumSDLContext

variable {S : SdlCanvas}

/-- The rows of the source that the rectangle covers, from row `row` on. -/
def copyRows (src : Bytes) (srcStride srcX srcY rowLen : Nat) : (remaining row : Nat) → Bytes → Exec Bytes
  | 0, _, rows => return rows
  | remaining + 1, row, rows => do
      let rowStart ← usize ((srcY + row) * srcStride)
      let srcStart ← usize (rowStart + srcX * 4)
      if src.length ≤ srcStart then return rows
      else
        let len := min rowLen (src.length - srcStart)
        let part ← slice src srcStart (srcStart + len)
        let rows ← copySlice rows (row * rowLen) (row * rowLen + len) part
        copyRows src srcStride srcX srcY rowLen remaining (row + 1) rows

/-- `blit_rect`, which `blit` calls with the same place in source and window. -/
def blitRect (ctx : FerrumSDLContext S) (src : Bytes) (srcStride : Nat) (r : DisplayRect) :
    Exec (FerrumSDLContext S) := do
  let rowLen := r.width.toNat * 4
  let rows ← zeros (← usize (rowLen * r.height.toNat))
  let rows ← copyRows src srcStride r.x.toNat r.y.toNat rowLen r.height.toNat 0 rows
  let w := min r.width (if r.x ≤ ctx.width then ctx.width - r.x else 0)
  let h := min r.height (if r.y ≤ ctx.height then ctx.height - r.y else 0)
  if w = 0 ∨ h = 0 then return ctx
  else return { ctx with canvas := S.update ctx.canvas ⟨r.x, r.y, w, h⟩ rows rowLen }

instance : DisplayBackend (FerrumSDLContext S) where
  getDisplaySize ctx := (ctx.width, ctx.height)
  blit ctx src srcStride r := do
    let ctx ← ctx.blitRect src srcStride r
    return { ctx with canvas := S.present ctx.canvas }

end FerrumSDLContext

/-! ### Requests -/

/-- The command of a control request, with its number. -/
inductive GpuCommand where
  | getDisplayInfo
  | resourceCreate2d
  | resourceUnref
  | setScanout
  | resourceFlush
  | transferToHost2d
  | resourceAttachBacking
  | resourceDetachBacking
  | getEdid
  | updateCursor
  | cursorGet
  /-- Any other number. -/
  | unsupported
  deriving DecidableEq, Repr

def GpuCommand.ofNumber (typ : UInt32) : GpuCommand :=
  match typ.toNat with
  | 0x0100 => .getDisplayInfo
  | 0x0101 => .resourceCreate2d
  | 0x0102 => .resourceUnref
  | 0x0103 => .setScanout
  | 0x0104 => .resourceFlush
  | 0x0105 => .transferToHost2d
  | 0x0106 => .resourceAttachBacking
  | 0x0107 => .resourceDetachBacking
  | 0x010A => .getEdid
  | 0x010B => .updateCursor
  | 0x010C => .cursorGet
  | _ => .unsupported

def respOkNodata : UInt32 := 0x1100
def respOkDisplayInfo : UInt32 := 0x1101
def respErrUnsupported : UInt32 := 0x1201
def respErrInvalidArgument : UInt32 := 0x1202
def respErrInvalidResourceId : UInt32 := 0x1203

/-- The fields of a packed struct, whose length has been checked. -/
def field32 (data : Bytes) (offset : Nat) : UInt32 := u32FromLe (data.drop offset)
def field64 (data : Bytes) (offset : Nat) : UInt64 := u64FromLe (data.drop offset)

def fieldRect (data : Bytes) (offset : Nat) : DisplayRect :=
  ⟨field32 data offset, field32 data (offset + 4), field32 data (offset + 8), field32 data (offset + 12)⟩

structure VirtioGpuCtrlHdr where
  typ : UInt32
  flags : UInt32
  fenceId : UInt64
  ctxId : UInt32
  ringIdx : UInt32
  deriving DecidableEq, Repr

namespace VirtioGpuCtrlHdr

def size : Nat := 24

def new (typ : UInt32) : VirtioGpuCtrlHdr := ⟨typ, 0, 0, 0, 0⟩

def fromBytes (data : Bytes) : Option VirtioGpuCtrlHdr :=
  if data.length < size then none
  else some ⟨field32 data 0, field32 data 4, field64 data 8, field32 data 16, field32 data 20⟩

def toBytes (h : VirtioGpuCtrlHdr) : Bytes :=
  u32ToLe h.typ ++ u32ToLe h.flags ++ u64ToLe h.fenceId ++ u32ToLe h.ctxId ++ u32ToLe h.ringIdx

@[simp] theorem length_toBytes (h : VirtioGpuCtrlHdr) : h.toBytes.length = 24 := by
  simp [toBytes]

end VirtioGpuCtrlHdr

structure VirtioGpuResourceCreate2D where
  resourceId : UInt32
  format : UInt32
  width : UInt32
  height : UInt32
  deriving DecidableEq, Repr

def VirtioGpuResourceCreate2D.fromBytes (data : Bytes) : Option VirtioGpuResourceCreate2D :=
  if data.length < 40 then none
  else some ⟨field32 data 24, field32 data 28, field32 data 32, field32 data 36⟩

/-- The resource that `RESOURCE_UNREF` and `RESOURCE_DETACH_BACKING` name. -/
def resourceIdFromBytes (data : Bytes) : Option UInt32 :=
  if data.length < 28 then none else some (field32 data 24)

structure VirtioGpuSetScanout where
  rect : DisplayRect
  scanoutId : UInt32
  resourceId : UInt32
  deriving DecidableEq, Repr

def VirtioGpuSetScanout.fromBytes (data : Bytes) : Option VirtioGpuSetScanout :=
  if data.length < 48 then none else some ⟨fieldRect data 24, field32 data 40, field32 data 44⟩

structure VirtioGpuTransferToHost where
  rect : DisplayRect
  offset : UInt64
  resourceId : UInt32
  deriving DecidableEq, Repr

def VirtioGpuTransferToHost.fromBytes (data : Bytes) : Option VirtioGpuTransferToHost :=
  if data.length < 52 then none else some ⟨fieldRect data 24, field64 data 40, field32 data 48⟩

/-- The resource of a `RESOURCE_FLUSH`, whose rectangle the device does not use. -/
def flushFromBytes (data : Bytes) : Option UInt32 :=
  if data.length < 44 then none else some (field32 data 40)

structure VirtioGpuMemEntry where
  addr : UInt64
  length : UInt32
  deriving DecidableEq, Repr

structure VirtioGpuBackingAttach where
  resourceId : UInt32
  memEntries : List VirtioGpuMemEntry
  deriving DecidableEq, Repr

/-- As many entries as are announced and wholly there. -/
def VirtioGpuBackingAttach.fromBytes (data : Bytes) : Option VirtioGpuBackingAttach :=
  if data.length < 32 then none
  else
    let rest := data.drop 32
    let count := min (field32 data 28).toNat (rest.length / 16)
    some {
      resourceId := field32 data 24
      memEntries := (List.range count).map fun i => ⟨field64 rest (i * 16), field32 rest (i * 16 + 8)⟩ }

/-! ### The answer to GET_DISPLAY_INFO -/

structure VirtioGpuDisplayInfo where
  rect : DisplayRect
  enabled : UInt32
  flags : UInt32
  deriving DecidableEq, Repr

namespace VirtioGpuDisplayInfo

def new {W : Type} [DisplayBackend W] (backend : W) : VirtioGpuDisplayInfo :=
  let size := DisplayBackend.getDisplaySize backend
  ⟨⟨0, 0, size.1, size.2⟩, 1, 0⟩

def empty : VirtioGpuDisplayInfo := ⟨.empty, 0, 0⟩

def toBytes (d : VirtioGpuDisplayInfo) : Bytes := d.rect.toBytes ++ u32ToLe d.enabled ++ u32ToLe d.flags

end VirtioGpuDisplayInfo

/-- `VirtioGpuDisplayInfoResponse`: sixteen displays, of which those past the list are empty. -/
def displayInfoResponse (displays : List VirtioGpuDisplayInfo) : Bytes :=
  (VirtioGpuCtrlHdr.new respOkDisplayInfo).toBytes ++
    ((displays.take 16 ++ List.replicate (16 - displays.length) VirtioGpuDisplayInfo.empty).flatMap
      VirtioGpuDisplayInfo.toBytes)

/-! ### The configuration space -/

structure VirtioGpuConfig where
  eventsRead : UInt32
  eventsClear : UInt32
  numScanouts : UInt32
  numCapsets : UInt32
  deriving DecidableEq, Repr

namespace VirtioGpuConfig

def new (eventsClear numScanouts numCapsets : UInt32) : Option VirtioGpuConfig :=
  if numScanouts = 0 ∨ 16 < numScanouts then none else some ⟨0, eventsClear, numScanouts, numCapsets⟩

def toBytes (config : VirtioGpuConfig) (length : Nat) : Exec Bytes :=
  resize (u32ToLe config.eventsRead ++ u32ToLe config.eventsClear ++ u32ToLe config.numScanouts ++
    u32ToLe config.numCapsets) length

/-- Only `events_clear` takes writes, and only bytes of it. -/
def writeField (config : VirtioGpuConfig) (offset : Nat) (data : Bytes) : Exec VirtioGpuConfig :=
  if data = [] ∨ 4 < data.length then return config
  else
    let field := offset / 4
    let start := offset % 4
    if 4 < start + data.length then return config
    else do
      let shift ← subUsize 32 ((start + data.length) * 8)
      let mask := (← shlU32 0xFFFFFFFF (start * 8)) &&& (← shrU32 0xFFFFFFFF shift)
      let buf ← copySlice (List.replicate 4 0) start (start + data.length) data
      if field = 1 then
        return { config with eventsClear := (config.eventsClear &&& ~~~mask) ||| (u32FromLe buf &&& mask) }
      else return config

def reset (config : VirtioGpuConfig) : VirtioGpuConfig := { config with eventsRead := 0, eventsClear := 0 }

/-- The bits of the bytes from `start` to `stop` of a word. -/
def fieldMask (start stop : Nat) : UInt32 :=
  ((0xFFFFFFFF : UInt32) <<< UInt32.ofNat (start * 8)) &&& ((0xFFFFFFFF : UInt32) >>> UInt32.ofNat (32 - stop * 8))

theorem getLsbD_fieldMask : ∀ stop ≤ 4, ∀ start < stop, ∀ i < 32,
    (fieldMask start stop).toBitVec.getLsbD i = decide (start * 8 ≤ i ∧ i < stop * 8) := by
  decide

theorem masked_eq (cur : UInt32) {start : Nat} {data : Bytes} (hdata : data ≠ []) (hfits : start + data.length ≤ 4) :
    (cur &&& ~~~fieldMask start (start + data.length)) |||
        (u32FromLe (splice (List.replicate 4 0) start data) &&& fieldMask start (start + data.length)) =
      u32FromLe (splice (u32ToLe cur) start data) := by
  have hpos : 0 < data.length := List.length_pos_iff.mpr hdata
  refine UInt32.toBitVec_inj.mp (BitVec.eq_of_getLsbD_eq fun i hi => ?_)
  have hcur := getLsbD_u32FromLe (length_u32ToLe cur) hi
  rw [u32FromLe_toLe] at hcur
  rw [UInt32.toBitVec_or, UInt32.toBitVec_and, UInt32.toBitVec_and, UInt32.toBitVec_not, BitVec.getLsbD_or,
    BitVec.getLsbD_and, BitVec.getLsbD_and, BitVec.getLsbD_not, getLsbD_fieldMask _ hfits _ (by omega) i hi, hcur,
    getLsbD_u32FromLe (by simp [hfits]) hi, getLsbD_u32FromLe (by simp [hfits]) hi,
    getElem?_splice (by simpa using hfits), getElem?_splice (by simpa using hfits)]
  by_cases hin : start ≤ i / 8 ∧ i / 8 < start + data.length
  · have hmask : start * 8 ≤ i ∧ i < (start + data.length) * 8 := by omega
    simp [hin, hmask]
  · have hmask : ¬(start * 8 ≤ i ∧ i < (start + data.length) * 8) := by omega
    simp [hin, hmask, hi]

theorem writeField_eq (config : VirtioGpuConfig) (offset : Nat) (data : Bytes) :
    config.writeField offset data = .ok (if 1 ≤ data.length ∧ data.length ≤ 4 ∧ 4 ≤ offset ∧ offset + data.length ≤ 8
      then { config with eventsClear := u32FromLe (splice (u32ToLe config.eventsClear) (offset - 4) data) }
      else config) := by
  unfold writeField
  by_cases hwidth : data = [] ∨ 4 < data.length
  · rw [if_pos hwidth, if_neg]
    · rfl
    · rintro ⟨hpos, hle, _⟩
      rcases hwidth with rfl | hlong
      · exact absurd hpos (by decide)
      · omega
  obtain ⟨hdata, hle⟩ := not_or.mp hwidth
  have hpos : 0 < data.length := List.length_pos_iff.mpr hdata
  rw [if_neg hwidth]
  by_cases hspill : 4 < offset % 4 + data.length
  · dsimp only
    rw [if_pos hspill, if_neg (by omega)]
    rfl
  have hcopy : copySlice (List.replicate 4 (0 : UInt8)) (offset % 4) (offset % 4 + data.length) data =
      .ok (splice (List.replicate 4 0) (offset % 4) data) := if_pos (by simp; omega)
  dsimp only
  rw [if_neg hspill, subUsize, if_pos (by omega), Exec.ok_bind, shlU32, if_pos (by omega), Exec.ok_bind, shrU32,
    if_pos (by omega), Exec.ok_bind, hcopy, Exec.ok_bind]
  by_cases hfield : offset / 4 = 1
  · have hstart : offset % 4 = offset - 4 := by omega
    have hmasked := masked_eq config.eventsClear hdata (Nat.not_lt.mp hspill)
    rw [fieldMask, hstart] at hmasked
    rw [if_pos hfield, if_pos (by omega), hstart, hmasked]
    rfl
  · rw [if_neg hfield, if_neg (by omega)]
    rfl

/-- **Writes to the configuration space** replace the bytes they name where those are bytes of `events_clear`,
and change nothing elsewhere. -/
theorem config_writes_replace_bytes (config : VirtioGpuConfig) (offset : Nat) (data : Bytes) :
    ∃ config' old, config.writeField offset data = .ok config' ∧ config.toBytes 16 = .ok old ∧
      config'.toBytes 16 = .ok (if 1 ≤ data.length ∧ data.length ≤ 4 ∧ 4 ≤ offset ∧ offset + data.length ≤ 8
        then splice old offset data else old) := by
  have hbytes (c : VirtioGpuConfig) : c.toBytes 16 = .ok (u32ToLe c.eventsRead ++ (u32ToLe c.eventsClear ++
      (u32ToLe c.numScanouts ++ u32ToLe c.numCapsets))) := by
    simp [toBytes, resize, isizeMax, List.take_of_length_le]
  refine ⟨_, _, writeField_eq config offset data, hbytes config, ?_⟩
  rw [hbytes]
  split_ifs with hin
  · obtain ⟨_, _, hlow, hhigh⟩ := hin
    obtain ⟨k, rfl⟩ := Nat.exists_eq_add_of_le hlow
    have hin : k + data.length ≤ (u32ToLe config.eventsClear).length := by
      rw [length_u32ToLe]
      omega
    have hsplice := splice_append_right (u32ToLe config.eventsRead) k data
      (u32ToLe config.eventsClear ++ (u32ToLe config.numScanouts ++ u32ToLe config.numCapsets))
    rw [length_u32ToLe, splice_append_left hin] at hsplice
    rw [hsplice, Nat.add_sub_cancel_left, u32ToLe_fromLe (by rw [length_splice hin, length_u32ToLe])]
  · rfl

end VirtioGpuConfig

end FerrumVM
