import FerrumVM.BaseSystem
import FerrumVM.VirtioDevice

/-! `MMIOTransport` of `transports/mmio.rs` with the `IRQHandler` of `irq/handler.rs` that it commands.
The transport works on a bus: its own registers, the interrupt commands that wait for the machine, guest
memory, and the log of what its device did on each queue. -/

namespace FerrumVM

open Base Program

structure IRQCommand where
  irqLine : UInt32
  value : Bool
  deriving DecidableEq, Repr

structure IRQHandler where
  commands : List IRQCommand
  deriving DecidableEq, Repr

namespace IRQHandler

def new : IRQHandler := ⟨[]⟩

def triggerIrq (s : IRQHandler) (irq : IRQCommand) : IRQHandler := ⟨s.commands ++ [irq]⟩

def handleIrqs (s : IRQHandler) : List IRQCommand × IRQHandler := (s.commands, new)

end IRQHandler

def magicNumber : UInt32 := 0x74726976
def mmioVersion : UInt32 := 0x2
def vendorId : UInt32 := 0x56484B53
def queueNumMax : UInt32 := 256
def virtioFVersion1 : UInt64 := (1 : UInt64) <<< 32

/-- The registers of the window; `config` is the space of the device behind it. -/
inductive Register where
  | magicValue | version | deviceId | vendorId
  | deviceFeatures | deviceFeaturesSel | driverFeatures | driverFeaturesSel
  | queueSel | queueNumMax | queueNum | queueReady | queueNotify
  | interruptStatus | interruptAck | status
  | queueDescLow | queueDescHigh | queueAvailLow | queueAvailHigh | queueUsedLow | queueUsedHigh
  | shmSel | shmLen
  | config (offset : Nat)
  /-- Any other address. -/
  | reserved
  deriving DecidableEq, Repr

def Register.ofAddr (addr : UInt64) : Register :=
  if 0x100 ≤ addr then .config (addr.toNat - 0x100)
  else
    match addr.toNat with
    | 0x000 => .magicValue
    | 0x004 => .version
    | 0x008 => .deviceId
    | 0x00C => .vendorId
    | 0x010 => .deviceFeatures
    | 0x014 => .deviceFeaturesSel
    | 0x020 => .driverFeatures
    | 0x024 => .driverFeaturesSel
    | 0x030 => .queueSel
    | 0x034 => .queueNumMax
    | 0x038 => .queueNum
    | 0x044 => .queueReady
    | 0x050 => .queueNotify
    | 0x060 => .interruptStatus
    | 0x064 => .interruptAck
    | 0x070 => .status
    | 0x080 => .queueDescLow
    | 0x084 => .queueDescHigh
    | 0x090 => .queueAvailLow
    | 0x094 => .queueAvailHigh
    | 0x0A0 => .queueUsedLow
    | 0x0A4 => .queueUsedHigh
    | 0x0AC => .shmSel
    | 0x0B0 | 0x0B4 => .shmLen
    | _ => .reserved

/-- `read_u32_from_data`. -/
def readU32FromData (data : Bytes) : Exec UInt32 := do
  return u32FromLe (← copySlice (List.replicate 4 0) 0 data.length data)

structure MMIOTransport (D : Type) where
  device : D
  queues : List VirtioQueue
  queueSel : Nat
  status : UInt32
  interruptStatus : UInt32
  deviceFeaturesSel : UInt32
  driverFeaturesSel : UInt32
  driverFeatures : UInt64
  shmSel : UInt32
  /-- `irq_handler.is_some()`. -/
  hasIrqHandler : Bool
  irqSel : UInt32

structure Bus (D M : Type) where
  transport : MMIOTransport D
  irqHandler : IRQHandler
  mem : M
  log : List (Nat × Event)

namespace MMIOTransport

variable {D M : Type}

def new (device : D) (queueNum : Nat) (irqSel : UInt32) : MMIOTransport D where
  device := device
  queues := List.replicate queueNum VirtioQueue.new
  queueSel := 0
  status := 0
  interruptStatus := 0
  deviceFeaturesSel := 0
  driverFeaturesSel := 0
  driverFeatures := 0
  shmSel := 0
  hasIrqHandler := false
  irqSel := irqSel

def setRegs (f : MMIOTransport D → MMIOTransport D) : Program (Bus D M) Unit :=
  modify fun b => { b with transport := f b.transport }

def setIrqLine (value : Bool) : Program (Bus D M) Unit :=
  modify fun b =>
    if b.transport.hasIrqHandler then
      { b with irqHandler := b.irqHandler.triggerIrq ⟨b.transport.irqSel, value⟩ }
    else b

/-- `self.queues[self.queue_sel]`. -/
def selected : Program (Bus D M) VirtioQueue := do
  let b ← get
  lift (index b.transport.queues b.transport.queueSel)

def setSelected (q : VirtioQueue) : Program (Bus D M) Unit :=
  setRegs fun t => { t with queues := t.queues.set t.queueSel q }

/-- The low and the high half of a 64-bit register. -/
def setLow (old : UInt64) (val : UInt32) : UInt64 := (old &&& (0xFFFFFFFF00000000 : UInt64)) ||| val.toUInt64
def setHigh (old : UInt64) (val : UInt32) : UInt64 :=
  (old &&& (0x00000000FFFFFFFF : UInt64)) ||| (val.toUInt64 <<< 32)

/-- A write to one of the address registers of the selected queue. -/
def writeQueueAddr (data : Bytes) (f : VirtioQueue → UInt32 → VirtioQueue) : Program (Bus D M) Unit := do
  let val ← lift (readU32FromData data)
  let q ← selected
  setSelected (f q val)

/-- A write to a register that only keeps its value. -/
def writeReg (data : Bytes) (f : MMIOTransport D → UInt32 → MMIOTransport D) : Program (Bus D M) Unit := do
  let val ← lift (readU32FromData data)
  setRegs fun t => f t val

theorem setRegs_eq_ok {f : MMIOTransport D → MMIOTransport D} {u : Unit} {b b' : Bus D M} :
    setRegs f b = .ok u b' ↔ b' = { b with transport := f b.transport } :=
  modify_eq_ok.trans eq_comm

theorem selected_eq_ok {b b' : Bus D M} {q : VirtioQueue} (h : selected b = .ok q b') :
    b' = b ∧ b.transport.queues[b.transport.queueSel]? = some q := by
  rw [selected, get_bind] at h
  obtain ⟨hindex, rfl⟩ := lift_eq_ok.mp h
  exact ⟨rfl, index_eq_ok.mp hindex⟩

theorem readU32FromData_toLe (val : UInt32) : readU32FromData (u32ToLe val) = .ok val := by
  have hsplice : splice (List.replicate 4 0) 0 (u32ToLe val) = u32ToLe val := by
    simp [splice]
  unfold readU32FromData copySlice
  rw [if_pos (by simp), hsplice]
  simp

variable [VirtioDevice D M]

/-- `self.device.tick(idx, &mut self.queues[idx])`. -/
def tickDevice (fuel idx : Nat) : Program (Bus D M) Bool := fun b =>
  match b.transport.queues[idx]? with
  | none => .error (.panic .bounds) b
  | some queue =>
    let after (c : Ctx D M) : Bus D M :=
      { b with
        transport := { b.transport with device := c.dev, queues := b.transport.queues.set idx c.queue }
        mem := c.mem
        log := b.log ++ c.log.map (Prod.mk idx) }
    match VirtioDevice.tick fuel idx { dev := b.transport.device, queue, mem := b.mem, log := [] } with
    | .ok worked c => .ok worked (after c)
    | .error e c => .error e (after c)

theorem tickDevice_eq_ok {fuel idx : Nat} {b b' : Bus D M} {worked : Bool}
    (h : tickDevice fuel idx b = .ok worked b') : ∃ queue c, b.transport.queues[idx]? = some queue ∧
      VirtioDevice.tick fuel idx { dev := b.transport.device, queue, mem := b.mem, log := [] } = .ok worked c ∧
      b' = { b with
        transport := { b.transport with device := c.dev, queues := b.transport.queues.set idx c.queue }
        mem := c.mem
        log := b.log ++ c.log.map (Prod.mk idx) } := by
  unfold tickDevice at h
  split at h
  · cases h
  · rename_i queue hqueue
    split at h
    · rename_i worked' c htick
      cases h
      exact ⟨queue, c, hqueue, htick, rfl⟩
    · cases h

/-! ### Reads -/

def readRegister : Register → Program (Bus D M) UInt32
  | .magicValue => return magicNumber
  | .version => return mmioVersion
  | .deviceId => do return VirtioDevice.virtioType M (← get).transport.device
  | .vendorId => return FerrumVM.vendorId
  | .deviceFeatures => do
      let t := (← get).transport
      let features := VirtioDevice.features M t.device ||| virtioFVersion1
      return if t.deviceFeaturesSel = 0 then features.toUInt32 else (features >>> 32).toUInt32
  | .queueNumMax => return FerrumVM.queueNumMax
  | .queueNum => do return (← selected).size.toUInt32
  | .queueReady => do return if (← selected).ready then 1 else 0
  | .status => do return (← get).transport.status
  | .interruptStatus => do
      let val := (← get).transport.interruptStatus
      if val ≠ 0 then
        setRegs fun t => { t with interruptStatus := 0 }
        setIrqLine false
      return val
  | .shmLen => return ~~~0
  | _ => return 0

/-- A read of the device's own configuration space. -/
def readConfig (offset length : Nat) : Program (Bus D M) Bytes := do
  let b ← get
  let stop ← lift (usize (offset + length))
  let cfgBytes ← lift (VirtioDevice.readConfig M b.transport.device stop)
  lift (slice cfgBytes offset stop)

def read (addr : UInt64) (length : Nat) : Program (Bus D M) Bytes := do
  match Register.ofAddr addr with
  | .config offset => readConfig offset length
  | reg => do
      let value ← readRegister reg
      lift (slice (u64ToLe value.toUInt64) 0 length)

/-! ### Writes -/

/-- The device finished something: note it and raise the line. -/
def notifyQueue (fuel queueIdx : Nat) : Program (Bus D M) Unit := do
  match (← get).transport.queues[queueIdx]? with
  | none => return ()
  | some queue =>
    if queue.ready then
      if ← tickDevice fuel queueIdx then
        setRegs fun t => { t with interruptStatus := t.interruptStatus ||| 1 }
        setIrqLine true

def ackInterrupt (ack : UInt32) : Program (Bus D M) Unit := do
  setRegs fun t => { t with interruptStatus := t.interruptStatus &&& ~~~ack }
  if (← get).transport.interruptStatus = 0 then setIrqLine false

/-- The registers after a write of zero to the status register. -/
def cleared (t : MMIOTransport D) : MMIOTransport D :=
  { t with
    queues := t.queues.map fun _ => VirtioQueue.new
    interruptStatus := 0
    queueSel := 0
    deviceFeaturesSel := 0
    driverFeaturesSel := 0
    driverFeatures := 0
    shmSel := 0 }

variable (M) in
def writeStatus (val : UInt32) : Program (Bus D M) Unit := do
  if val = 0 then
    setRegs cleared
    setIrqLine false
    setRegs fun t => { t with device := VirtioDevice.reset M t.device }
  setRegs fun t => { t with status := val }

/-- A queue that becomes ready starts again at the first available entry. -/
def enable (q : VirtioQueue) (ready : Bool) : VirtioQueue :=
  if !q.ready && ready then { q with ready, lastAvailIdx := 0 } else { q with ready }

variable (M) in
def withDriverFeatures (t : MMIOTransport D) (val : UInt32) : MMIOTransport D :=
  let driverFeatures :=
    if t.driverFeaturesSel = 0 then setLow t.driverFeatures val else setHigh t.driverFeatures val
  { t with driverFeatures, device := VirtioDevice.negotiateFeatures M t.device driverFeatures }

def writeRegister (fuel : Nat) (data : Bytes) : Register → Program (Bus D M) Unit
  | .deviceFeaturesSel => writeReg data fun t val => { t with deviceFeaturesSel := val }
  | .driverFeatures => writeReg data (withDriverFeatures M)
  | .driverFeaturesSel => writeReg data fun t val => { t with driverFeaturesSel := val }
  | .shmSel => writeReg data fun t val => { t with shmSel := val }
  | .queueSel => writeReg data fun t val =>
    if val.toNat < t.queues.length then { t with queueSel := val.toNat } else t
  | .queueNum => do
      let lo ← lift (index data 0)
      let hi ← lift (index data 1)
      let q ← selected
      setSelected { q with size := u16FromLe [lo, hi] }
  | .queueReady => do
      let q ← selected
      let byte ← lift (index data 0)
      setSelected (enable q (byte != 0))
  | .queueNotify => do notifyQueue fuel (← lift (readU32FromData data)).toNat
  | .interruptStatus | .interruptAck => do ackInterrupt (← lift (readU32FromData data))
  | .status => do writeStatus M (← lift (readU32FromData data))
  | .queueDescLow => writeQueueAddr data fun q val => { q with descAddr := setLow q.descAddr val }
  | .queueDescHigh => writeQueueAddr data fun q val => { q with descAddr := setHigh q.descAddr val }
  | .queueAvailLow => writeQueueAddr data fun q val => { q with availAddr := setLow q.availAddr val }
  | .queueAvailHigh => writeQueueAddr data fun q val => { q with availAddr := setHigh q.availAddr val }
  | .queueUsedLow => writeQueueAddr data fun q val => { q with usedAddr := setLow q.usedAddr val }
  | .queueUsedHigh => writeQueueAddr data fun q val => { q with usedAddr := setHigh q.usedAddr val }
  | .config offset => do
      let b ← get
      let device ← lift (VirtioDevice.writeConfig M b.transport.device offset data)
      setRegs fun t => { t with device }
  | _ => return ()

def write (fuel : Nat) (addr : UInt64) (data : Bytes) : Program (Bus D M) Unit :=
  writeRegister fuel data (Register.ofAddr addr)

theorem write_reset (fuel : Nat) {data : Bytes} (hdata : readU32FromData data = .ok 0) (b : Bus D M) :
    ∃ b', write fuel 0x070 data b = .ok () b' ∧ b'.mem = b.mem ∧ b'.log = b.log ∧
      b'.transport = { cleared b.transport with device := VirtioDevice.reset M b.transport.device, status := 0 } := by
  refine ⟨_, (bind_of_ok (lift_eq_ok.mpr ⟨hdata, rfl⟩)).trans rfl, ?_, ?_, ?_⟩
  · dsimp only
    split_ifs <;> rfl
  · dsimp only
    split_ifs <;> rfl
  · dsimp only
    split_ifs <;> rfl

/-! ### The background tick -/

/-- The queues from `idx` on. -/
def tickQueues (fuel : Nat) : (remaining idx : Nat) → Program (Bus D M) Unit
  | 0, _ => return ()
  | remaining + 1, idx => do
      let queue ← lift (index (← get).transport.queues idx)
      if queue.ready then
        if ← tickDevice fuel idx then
          setRegs fun t => { t with interruptStatus := t.interruptStatus ||| 1 }
      tickQueues fuel remaining (idx + 1)

/-- `self.device.update(self.queues.as_mut_slice())`. -/
def updateDevice : Program (Bus D M) Bool := act fun b => do
  let (worked, device, queues, mem) ← VirtioDevice.update b.transport.device b.transport.queues b.mem
  return (worked, { b with transport := { b.transport with device, queues }, mem })

def tick (fuel : Nat) : Program (Bus D M) Unit := do
  let t := (← get).transport
  if t.status &&& 4 = 0 then return ()
  else
    let wasPending := t.interruptStatus != 0
    tickQueues fuel t.queues.length 0
    if ← updateDevice then setRegs fun t => { t with interruptStatus := t.interruptStatus ||| 1 }
    let nowPending := (← get).transport.interruptStatus != 0
    if nowPending && !wasPending then setIrqLine true

def passGuestMemory (b : Bus D M) : Bus D M :=
  { b with transport := { b.transport with device := VirtioDevice.passGuestMemory M b.transport.device } }

end MMIOTransport

end FerrumVM
