import FerrumVM.FirmwareGuest
import FerrumVM.QueueRegisters

/-! How a driver of the firmware brings its device up: it resets the transport, says that it is there, sets
each queue up and then sets `DRIVER_OK`. Until that bit is set, the machine does not tick the device. -/

namespace FerrumVM

open Base Program MMIOTransport Virtqueue

/-! ### The registers, as `virtio_mmio.h` names them -/

namespace VirtioMmio

def deviceFeatures : UInt64 := 0x010
def drvrFeatures : UInt64 := 0x020
def queueSel : UInt64 := 0x030
def queueNum : UInt64 := 0x038
def queueReady : UInt64 := 0x044
def queueNotify : UInt64 := 0x050
def status : UInt64 := 0x070
def queueDescLow : UInt64 := 0x080
def queueDescHigh : UInt64 := 0x084
def queueDriverLow : UInt64 := 0x090
def queueDriverHigh : UInt64 := 0x094
def queueDeviceLow : UInt64 := 0x0A0
def queueDeviceHigh : UInt64 := 0x0A4
def config : UInt64 := 0x100

def statusAcknowledge : UInt32 := 1
def statusDriver : UInt32 := 2
def statusDriverOk : UInt32 := 4
def statusFeaturesOk : UInt32 := 8

end VirtioMmio

namespace Guest

variable {S D : Type} [VirtioDevice D Ram]

/-- `net_setup_queue`; `virtio_blk_init` has the same accesses in its own body. -/
def setupQueue (fuel : Nat) (queueIdx : UInt32) (queue : UInt64) : Program (Guest S D) Unit := do
  mmioWrite fuel VirtioMmio.queueSel queueIdx
  mmioWrite fuel VirtioMmio.queueNum queueSize.toUInt32
  mmioWrite fuel VirtioMmio.queueDescLow queue.toUInt32
  mmioWrite fuel VirtioMmio.queueDescHigh 0
  mmioWrite fuel VirtioMmio.queueDriverLow (Virtqueue.avail queue).toUInt32
  mmioWrite fuel VirtioMmio.queueDriverHigh 0
  mmioWrite fuel VirtioMmio.queueDeviceLow (Virtqueue.used queue).toUInt32
  mmioWrite fuel VirtioMmio.queueDeviceHigh 0
  mmioWrite fuel VirtioMmio.queueReady 1

/-! ### Programs that only reach for the transport -/

/-- The static variables, the stores and the messages are as they were. -/
def SameDriver (g g' : Guest S D) : Prop := ∃ bus schedule, g' = { g with bus, schedule }

omit [VirtioDevice D Ram] in
theorem SameDriver.trans {g g' g'' : Guest S D} (h : g.SameDriver g') (h' : g'.SameDriver g'') : g.SameDriver g'' := by
  obtain ⟨_, _, rfl⟩ := h
  obtain ⟨bus, schedule, rfl⟩ := h'
  exact ⟨bus, schedule, rfl⟩

/-- The program returns and takes the transport from the one condition to the other. -/
def Leads {α : Type} (x : Program (Guest S D) α) (P Q : Bus D Ram → Prop) : Prop :=
  ∀ g, P g.bus → ∃ a g', x g = .ok a g' ∧ g.SameDriver g' ∧ Q g'.bus

section Leads

variable {α β : Type} {x : Program (Guest S D) α} {P Q R : Bus D Ram → Prop} {fuel : Nat}

omit [VirtioDevice D Ram] in
theorem Leads.bind {f : α → Program (Guest S D) β} (hx : Leads x P Q) (hf : ∀ a, Leads (f a) Q R) :
    Leads (x >>= f) P R := by
  intro g hg
  obtain ⟨a, t, hfirst, hsame, ht⟩ := hx g hg
  obtain ⟨b, g', hrest, hsame', hg'⟩ := hf a t ht
  exact ⟨b, g', (bind_of_ok hfirst).trans hrest, hsame.trans hsame', hg'⟩

theorem leads_access {y : Program (Bus D Ram) α} (hoff : ∀ b, P b → b.transport.status &&& 4 = 0)
    (hy : ∀ b, P b → ∃ a b', y b = .ok a b' ∧ Q b') : Leads (access fuel y : Program (Guest S D) α) P Q := by
  intro g hg
  obtain ⟨a, b', hrun, hb'⟩ := hy g.bus hg
  exact ⟨a, g.next b', access_of_atRest (atRest_of_status (hoff _ hg)) hrun, ⟨_, _, rfl⟩, hb'⟩

end Leads

/-! ### Register writes -/

section Writes

variable {fuel : Nat} {val : UInt32} {b : Bus D Ram}

omit [VirtioDevice D Ram] in
theorem lift_data (val : UInt32) (b : Bus D Ram) :
    (lift (readU32FromData (u32ToLe val)) : Program (Bus D Ram) UInt32) b = .ok val b :=
  lift_eq_ok.mpr ⟨readU32FromData_toLe val, rfl⟩

theorem write_status (hval : val ≠ 0) : MMIOTransport.write fuel VirtioMmio.status (u32ToLe val) b =
      .ok () { b with transport := { b.transport with status := val } } := by
  refine (bind_of_ok (lift_data val b)).trans ?_
  unfold writeStatus
  rw [if_neg hval]
  rfl

theorem write_queueNotify :
    MMIOTransport.write fuel VirtioMmio.queueNotify (u32ToLe val) b = notifyQueue fuel val.toNat b :=
  bind_of_ok (lift_data val b)

theorem write_drvrFeatures : MMIOTransport.write fuel VirtioMmio.drvrFeatures (u32ToLe val) b =
      .ok () { b with transport := withDriverFeatures Ram b.transport val } :=
  bind_of_ok (lift_data val b)

theorem write_queueSel (hval : val.toNat < b.transport.queues.length) :
    MMIOTransport.write fuel VirtioMmio.queueSel (u32ToLe val) b =
      .ok () { b with transport := { b.transport with queueSel := val.toNat } } := by
  refine (bind_of_ok (lift_data val b)).trans (setRegs_eq_ok.mpr ?_)
  dsimp only
  rw [if_pos hval]

theorem write_queueRegister {addr : UInt64} {q : VirtioQueue} (hreg : (Register.ofAddr addr).ofQueue = true)
    (hq : b.transport.queues[b.transport.queueSel]? = some q) :
    MMIOTransport.write fuel addr (u32ToLe val) b = .ok () { b with transport := { b.transport with
      queues := b.transport.queues.set b.transport.queueSel (q.written val (Register.ofAddr addr)) } } := by
  have hsel : (selected : Program (Bus D Ram) VirtioQueue) b = .ok q b := by
    show (lift (index b.transport.queues b.transport.queueSel) : Program (Bus D Ram) VirtioQueue) b = _
    exact lift_eq_ok.mpr ⟨index_eq_ok.mpr hq, rfl⟩
  have hbyte : (lift (index (u32ToLe val) 0) : Program (Bus D Ram) UInt8) b = .ok val.toUInt8 b :=
    lift_eq_ok.mpr ⟨index_toLe_zero val, rfl⟩
  unfold MMIOTransport.write
  cases hofAddr : Register.ofAddr addr with
  | queueNum =>
    have hhigh : (lift (index (u32ToLe val) 1) : Program (Bus D Ram) UInt8) b =
        .ok (UInt8.ofNat (val.toNat / 256)) b := lift_eq_ok.mpr ⟨index_toLe_one val, rfl⟩
    refine (bind_of_ok hbyte).trans ((bind_of_ok hhigh).trans ((bind_of_ok hsel).trans ?_))
    rw [u16FromLe_toLe_low]
    rfl
  | queueReady => exact (bind_of_ok hsel).trans (bind_of_ok hbyte)
  | queueDescLow | queueDescHigh | queueAvailLow | queueAvailHigh | queueUsedLow | queueUsedHigh =>
    exact (bind_of_ok (lift_data val b)).trans (bind_of_ok hsel)
  | _ => simp [hofAddr, Register.ofQueue] at hreg

end Writes

/-! ### Setting a queue up -/

/-- A transport that is being brought up: the queues and the selected one, with the rest fixed. -/
structure Configuring (dev : D) (mem : Ram) (log : List (Nat × Event)) (queues : List VirtioQueue) (sel : Nat)
    (b : Bus D Ram) : Prop where
  device : b.transport.device = dev
  mem : b.mem = mem
  log : b.log = log
  queues : b.transport.queues = queues
  sel : b.transport.queueSel = sel
  off : b.transport.status &&& 4 = 0

section Setup

variable {dev : D} {mem : Ram} {log : List (Nat × Event)} {queues : List VirtioQueue} {sel fuel : Nat}

theorem leads_queueSel {val : UInt32} (hval : val.toNat < queues.length) :
    Leads (mmioWrite fuel VirtioMmio.queueSel val : Program (Guest S D) Unit) (Configuring dev mem log queues sel)
      (Configuring dev mem log queues val.toNat) := by
  refine leads_access (fun b hb => hb.off) fun b hb => ?_
  refine ⟨(), _, write_queueSel (hb.queues ▸ hval), ?_⟩
  exact ⟨hb.device, hb.mem, hb.log, hb.queues, rfl, hb.off⟩

theorem leads_queueRegister {addr : UInt64} {q : VirtioQueue} (val : UInt32)
    (hreg : (Register.ofAddr addr).ofQueue = true) (hq : queues[sel]? = some q) :
    Leads (mmioWrite fuel addr val : Program (Guest S D) Unit) (Configuring dev mem log queues sel)
      (Configuring dev mem log (queues.set sel (q.written val (Register.ofAddr addr))) sel) := by
  refine leads_access (fun b hb => hb.off) fun b hb => ?_
  have hq' : b.transport.queues[b.transport.queueSel]? = some q := by
    rw [hb.queues, hb.sel]
    exact hq
  refine ⟨(), _, write_queueRegister hreg hq', hb.device, hb.mem, hb.log, ?_, hb.sel, hb.off⟩
  dsimp only
  rw [hb.queues, hb.sel]

theorem leads_status {val : UInt32} (hval : val ≠ 0) (hoff : val &&& 4 = 0) :
    Leads (mmioWrite fuel VirtioMmio.status val : Program (Guest S D) Unit) (Configuring dev mem log queues sel)
      (Configuring dev mem log queues sel) := by
  refine leads_access (fun b hb => hb.off) fun b hb => ?_
  exact ⟨(), _, write_status hval, hb.device, hb.mem, hb.log, hb.queues, hb.sel, hoff⟩

theorem ofHalves_of_lt {addr : UInt64} (h : addr.toNat < 2 ^ 32) : ofHalves addr.toUInt32 0 = addr := by
  apply UInt64.toNat_inj.mp
  simp only [ofHalves, UInt64.toNat_or, toNat_high, UInt32.toNat_toUInt64, UInt64.toNat_toUInt32]
  simp
  omega

theorem written_seen {queue : UInt64} (hlow : queue.toNat + sizeInBytes ≤ 2 ^ 32) :
    ((((((((VirtioQueue.new.written queueSize.toUInt32 .queueNum).written queue.toUInt32 .queueDescLow).written 0
      .queueDescHigh).written (avail queue).toUInt32 .queueAvailLow).written 0 .queueAvailHigh).written
      (used queue).toUInt32 .queueUsedLow).written 0 .queueUsedHigh).written 1 .queueReady) = seen queue 0 0 := by
  have hzero : (0 : UInt64) = ofHalves 0 0 := by decide
  have haddr (addr : UInt64) (h : addr.toNat < 2 ^ 32) : setHigh (setLow 0 addr.toUInt32) 0 = addr := by
    rw [hzero, setLow_ofHalves, setHigh_ofHalves, ofHalves_of_lt h]
  unfold sizeInBytes at hlow
  have havail : (avail queue).toNat = queue.toNat + 256 := toNat_add_of_lt (by simp; omega)
  have hused : (used queue).toNat = queue.toNat + 294 := toNat_add_of_lt (by simp; omega)
  simp only [VirtioQueue.written, VirtioQueue.new]
  rw [haddr queue (by omega), haddr _ (by omega), haddr _ (by omega)]
  rfl

/-- **A queue is set up** with its parts where the driver has them. -/
theorem leads_setupQueue {queueIdx : UInt32} {queue : UInt64}
    (hnew : queues[queueIdx.toNat]? = some VirtioQueue.new) (hlow : queue.toNat + sizeInBytes ≤ 2 ^ 32) :
    Leads (setupQueue fuel queueIdx queue : Program (Guest S D) Unit) (Configuring dev mem log queues sel)
      (Configuring dev mem log (queues.set queueIdx.toNat (seen queue 0 0)) queueIdx.toNat) := by
  obtain ⟨hidx, hget⟩ := List.getElem?_eq_some_iff.mp hnew
  have hstep {q : VirtioQueue} {addr : UInt64} (val : UInt32) (hreg : (Register.ofAddr addr).ofQueue = true) :
      Leads (mmioWrite fuel addr val : Program (Guest S D) Unit)
        (Configuring dev mem log (queues.set queueIdx.toNat q) queueIdx.toNat)
        (Configuring dev mem log (queues.set queueIdx.toNat (q.written val (Register.ofAddr addr))) queueIdx.toNat) := by
    have h : Leads (mmioWrite fuel addr val : Program (Guest S D) Unit)
        (Configuring dev mem log (queues.set queueIdx.toNat q) queueIdx.toNat)
        (Configuring dev mem log ((queues.set queueIdx.toNat q).set queueIdx.toNat
          (q.written val (Register.ofAddr addr))) queueIdx.toNat) :=
      leads_queueRegister val hreg (List.getElem?_set_self hidx)
    rwa [List.set_set] at h
  have hstart : queues.set queueIdx.toNat VirtioQueue.new = queues := by
    rw [← hget]
    exact List.set_getElem_self hidx
  rw [← written_seen hlow]
  refine (leads_queueSel hidx).bind fun _ => ?_
  -- The selected queue is the fresh one, and each write changes one of its registers.
  have hfirst := @hstep VirtioQueue.new VirtioMmio.queueNum queueSize.toUInt32 rfl
  rw [hstart] at hfirst
  refine hfirst.bind fun _ => (hstep _ rfl).bind fun _ => (hstep _ rfl).bind fun _ => (hstep _ rfl).bind fun _ => ?_
  exact (hstep _ rfl).bind fun _ => (hstep _ rfl).bind fun _ => (hstep _ rfl).bind fun _ => hstep _ rfl

end Setup

end Guest

end FerrumVM
