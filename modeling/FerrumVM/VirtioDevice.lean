import FerrumVM.BaseProgram
import FerrumVM.VirtioQueue

/-! What a device does while it serves a queue. A device program acts on the device, the queue and
guest memory, and keeps a log of what matters to the driver: the heads it popped, the descriptors it
fetched and by which link, the buffers it wrote, the chains it retired. The log is an observation; no
operation reads it. -/

namespace FerrumVM

open Base

/-- Where the index of a fetched descriptor came from. -/
inductive Link where
  | head (index : UInt16)
  | next (desc : VirtqDesc)
  deriving DecidableEq, Repr

def Link.index : Link → UInt16
  | .head index => index
  | .next desc => desc.next

inductive Event where
  | popped (head : UInt16)
  | fetch (link : Link)
  | descriptor (desc : VirtqDesc)
  /-- Bytes written to a buffer; `landed` tells whether guest RAM took them. -/
  | stored (addr : UInt64) (data : Bytes) (landed : Bool)
  | retired (head : UInt16) (len : UInt32)
  deriving DecidableEq, Repr

@[ext] structure Ctx (D M : Type) where
  dev : D
  queue : VirtioQueue
  mem : M
  log : List Event

def Ctx.fetched {D M : Type} (c : Ctx D M) (link : Link) (desc : VirtqDesc) : Ctx D M :=
  { c with log := c.log ++ [.fetch link, .descriptor desc] }

abbrev Serve (D M α : Type) := Program (Ctx D M) α

namespace Serve

open Program

variable {D M α : Type} [GuestMemory M] {addr : UInt64}

def popAvail : Serve D M (Option UInt16) := act fun c => do
  let (head?, queue) ← c.queue.popAvail c.mem
  return (head?, { c with queue, log := c.log ++ head?.toList.map .popped })

/-- The fetch is logged before the table is read, so that one that faults is in the log too. -/
def getDescriptor (link : Link) : Serve D M VirtqDesc := do
  modify fun c => { c with log := c.log ++ [.fetch link] }
  act fun c => do
    let desc ← c.queue.getDescriptor c.mem link.index
    return (desc, { c with log := c.log ++ [.descriptor desc] })

def readU32 (addr : UInt64) : Serve D M UInt32 := act fun c => do
  return (← GuestMemory.readU32 c.mem addr, c)

def readU64 (addr : UInt64) : Serve D M UInt64 := act fun c => do
  return (← GuestMemory.readU64 c.mem addr, c)

def readGuestMemoryAlloc (addr : UInt64) (len : Nat) : Serve D M Bytes := act fun c => do
  return (← GuestMemory.readGuestMemoryAlloc c.mem addr len, c)

def writeU8 (addr : UInt64) (val : UInt8) : Serve D M Unit := act fun c => do
  let mem ← GuestMemory.writeU8 c.mem addr val
  return ((), { c with mem, log := c.log ++ [.stored addr [val] (GuestMemory.inRam c.mem addr 1)] })

def writeU32 (addr : UInt64) (val : UInt32) : Serve D M Unit := act fun c => do
  let mem ← GuestMemory.writeU32 c.mem addr val
  return ((), { c with
    mem, log := c.log ++ [.stored addr (u32ToLe val) (GuestMemory.inRam c.mem addr 4)] })

def writeGuestMemory (addr : UInt64) (data : Bytes) : Serve D M Unit := act fun c => do
  let mem ← GuestMemory.writeGuestMemory c.mem addr data
  return ((), { c with
    mem, log := c.log ++ [.stored addr data (GuestMemory.inRam c.mem addr data.length)] })

def pushUsed (head : UInt16) (len : UInt32) : Serve D M Unit := act fun c => do
  let (queue, mem) ← c.queue.pushUsed c.mem head len
  return ((), { c with queue, mem, log := c.log ++ [.retired head len] })

omit [GuestMemory M] in
def onDev (x : Program D α) : Serve D M α := fun c =>
  match x c.dev with
  | .ok a dev => .ok a { c with dev }
  | .error e dev => .error e { c with dev }

/-! ### What the operations did when they return -/

variable {c c' : Ctx D M}

theorem popAvail_none (h : popAvail c = .ok none c') : c' = c := by
  obtain ⟨⟨head?, queue⟩, hpop, heq⟩ := Exec.bind_eq_ok.mp (act_eq_ok.mp h)
  cases heq
  rcases VirtioQueue.popAvail_eq_ok hpop with ⟨_, rfl⟩ | ⟨head, hnone, _⟩
  · exact Ctx.ext rfl rfl rfl (List.append_nil _)
  · cases hnone

theorem popAvail_some {head : UInt16} (h : popAvail c = .ok (some head) c') : c.queue.size ≠ 0 ∧ c' = { c with
      queue := { c.queue with lastAvailIdx := c.queue.lastAvailIdx + 1 }
      log := c.log ++ [.popped head] } := by
  obtain ⟨⟨head?, queue⟩, hpop, heq⟩ := Exec.bind_eq_ok.mp (act_eq_ok.mp h)
  cases heq
  rcases VirtioQueue.popAvail_eq_ok hpop with ⟨hnone, _⟩ | ⟨head', _, hsize, rfl⟩
  · cases hnone
  · exact ⟨hsize, rfl⟩

theorem getDescriptor_eq_ok {link : Link} {desc : VirtqDesc} : getDescriptor link c = .ok desc c' ↔
      c.queue.getDescriptor c.mem link.index = .ok desc ∧ c' = c.fetched link desc := by
  simp only [getDescriptor, bind_eq_ok, modify_eq_ok, exists_const, exists_eq_left', act_eq_ok, Ctx.fetched]
  constructor
  · intro h
    obtain ⟨desc', hread, heq⟩ := Exec.bind_eq_ok.mp h
    cases heq
    exact ⟨hread, by simp⟩
  · rintro ⟨hread, rfl⟩
    refine Exec.bind_eq_ok.mpr ⟨desc, hread, ?_⟩
    simp

theorem readU32_eq_ok {val : UInt32} :
    readU32 addr c = .ok val c' ↔ GuestMemory.readU32 c.mem addr = .ok val ∧ c' = c := by
  simp only [readU32, act_eq_ok, Exec.bind_eq_ok, Exec.pure_eq, Except.ok.injEq, Prod.mk.injEq]
  constructor
  · rintro ⟨_, h, rfl, hc⟩
    exact ⟨h, hc.symm⟩
  · rintro ⟨h, hc⟩
    exact ⟨_, h, rfl, hc.symm⟩

theorem readU64_eq_ok {val : UInt64} :
    readU64 addr c = .ok val c' ↔ GuestMemory.readU64 c.mem addr = .ok val ∧ c' = c := by
  simp only [readU64, act_eq_ok, Exec.bind_eq_ok, Exec.pure_eq, Except.ok.injEq, Prod.mk.injEq]
  constructor
  · rintro ⟨_, h, rfl, hc⟩
    exact ⟨h, hc.symm⟩
  · rintro ⟨h, hc⟩
    exact ⟨_, h, rfl, hc.symm⟩

theorem readGuestMemoryAlloc_eq_ok {len : Nat} {data : Bytes} : readGuestMemoryAlloc addr len c = .ok data c' ↔
      GuestMemory.readGuestMemoryAlloc c.mem addr len = .ok data ∧ c' = c := by
  simp only [readGuestMemoryAlloc, act_eq_ok, Exec.bind_eq_ok, Exec.pure_eq, Except.ok.injEq, Prod.mk.injEq]
  constructor
  · rintro ⟨_, h, rfl, hc⟩
    exact ⟨h, hc.symm⟩
  · rintro ⟨h, hc⟩
    exact ⟨_, h, rfl, hc.symm⟩

theorem writeU8_eq_ok {val : UInt8} (h : writeU8 addr val c = .ok () c') :
    ∃ mem, GuestMemory.writeU8 c.mem addr val = .ok mem ∧ GuestMemory.inRam mem = GuestMemory.inRam c.mem ∧
      c' = { c with mem, log := c.log ++ [.stored addr [val] (GuestMemory.inRam c.mem addr 1)] } := by
  obtain ⟨mem, hwrite, heq⟩ := Exec.bind_eq_ok.mp (act_eq_ok.mp h)
  cases heq
  exact ⟨mem, hwrite, GuestMemory.inRam_writeU8 hwrite, rfl⟩

theorem writeU32_eq_ok {val : UInt32} (h : writeU32 addr val c = .ok () c') :
    ∃ mem, GuestMemory.writeU32 c.mem addr val = .ok mem ∧ GuestMemory.inRam mem = GuestMemory.inRam c.mem ∧
      c' = { c with
        mem, log := c.log ++ [.stored addr (u32ToLe val) (GuestMemory.inRam c.mem addr 4)] } := by
  obtain ⟨mem, hwrite, heq⟩ := Exec.bind_eq_ok.mp (act_eq_ok.mp h)
  cases heq
  exact ⟨mem, hwrite, GuestMemory.inRam_writeU32 hwrite, rfl⟩

theorem writeGuestMemory_iff {data : Bytes} {u : Unit} :
    writeGuestMemory addr data c = .ok u c' ↔ ∃ mem, GuestMemory.writeGuestMemory c.mem addr data = .ok mem ∧
      c' = { c with
        mem, log := c.log ++ [.stored addr data (GuestMemory.inRam c.mem addr data.length)] } := by
  simp only [writeGuestMemory, act_eq_ok, Exec.bind_eq_ok, Exec.pure_eq, Except.ok.injEq, Prod.mk.injEq]
  constructor
  · rintro ⟨mem, h, -, hc⟩
    exact ⟨mem, h, hc.symm⟩
  · rintro ⟨mem, h, hc⟩
    exact ⟨mem, h, trivial, hc.symm⟩

theorem writeGuestMemory_eq_ok {data : Bytes} (h : writeGuestMemory addr data c = .ok () c') :
    ∃ mem, GuestMemory.writeGuestMemory c.mem addr data = .ok mem ∧ GuestMemory.inRam mem = GuestMemory.inRam c.mem ∧
      c' = { c with
        mem, log := c.log ++ [.stored addr data (GuestMemory.inRam c.mem addr data.length)] } := by
  obtain ⟨mem, hwrite, rfl⟩ := writeGuestMemory_iff.mp h
  exact ⟨mem, hwrite, GuestMemory.inRam_writeGuestMemory hwrite, rfl⟩

theorem pushUsed_eq_ok {head : UInt16} {len : UInt32} (h : pushUsed head len c = .ok () c') :
    ∃ queue mem, c.queue.pushUsed c.mem head len = .ok (queue, mem) ∧
      c' = { c with queue, mem, log := c.log ++ [.retired head len] } := by
  obtain ⟨⟨queue, mem⟩, hpush, heq⟩ := Exec.bind_eq_ok.mp (act_eq_ok.mp h)
  cases heq
  exact ⟨queue, mem, hpush, rfl⟩

omit [GuestMemory M] in
theorem onDev_eq_ok {x : Program D α} {a : α} :
    onDev x c = .ok a c' ↔ ∃ dev, x c.dev = .ok a dev ∧ c' = { c with dev } := by
  unfold onDev
  cases x c.dev with
  | ok b dev => simp [eq_comm]
  | error e dev => simp

omit [GuestMemory M] in
theorem onDev_finalState (x : Program D α) (c : Ctx D M) : ∃ dev, (onDev x).finalState c = { c with dev } := by
  unfold finalState onDev
  cases x c.dev with
  | ok a dev => exact ⟨dev, rfl⟩
  | error e dev => exact ⟨dev, rfl⟩

end Serve

/-- The trait of the devices behind a transport. A tick takes fuel, as a device may loop for as long as
the driver keeps its queue full. -/
class VirtioDevice (D M : Type) where
  virtioType : D → UInt32
  features : D → UInt64
  negotiateFeatures : D → UInt64 → D
  passGuestMemory : D → D
  tick : Nat → Nat → Serve D M Bool
  readConfig : D → Nat → Exec Bytes
  writeConfig : D → Nat → Bytes → Exec D
  update : D → List VirtioQueue → M → Exec (Bool × D × List VirtioQueue × M)
  reset : D → D

end FerrumVM
