import FerrumVM.FirmwareSetup
import FerrumVM.NetReceive
import FerrumVM.NetTransmit

/-! The network driver of the firmware, `guest/firmware/virtio/net.c`, at work with the network device. Each side
puts a header in front of a frame: the driver's has ten bytes, the device's twelve. -/

namespace FerrumVM

open Base Program MMIOTransport Virtqueue NetVirtio HostOs

/-! ### The driver -/

structure NetLayout where
  rxQueue : UInt64
  txQueue : UInt64
  rxBuffers : UInt64
  txBuffer : UInt64

structure NetStatics where
  rxAvailIdx : UInt16
  rxLastUsed : UInt16
  txNextDesc : UInt16
  txAvailIdx : UInt16
  txLastUsed : UInt16

namespace NetDriver

open Guest

/-- `sizeof(VirtioNetHdr)`. -/
def hdrSize : Nat := 10

/-- `NET_BUF_SIZE`. -/
def bufSize : Nat := hdrSize + 1514

/-- The place of `net_rx_buffers[idx]`. -/
def rxBuffer (layout : NetLayout) (idx : UInt16) : UInt64 := layout.rxBuffers + idx.toUInt64 * 1524

def rxDesc (layout : NetLayout) (idx : UInt16) : VirtqDesc :=
  ⟨rxBuffer layout idx, UInt32.ofNat bufSize, virtqDescFWrite, 0⟩

def posting (queue : UInt64) (idx : UInt16) (desc : VirtqDesc) (availIdx : UInt16) : List (UInt64 × Bytes) :=
  VirtioQueue.descFields queue idx desc ++ [(Virtqueue.availSlot queue availIdx, u16ToLe idx)]

abbrev publishing (queue : UInt64) (idx : UInt16) (desc : VirtqDesc) (availIdx : UInt16) : List (UInt64 × Bytes) :=
  posting queue idx desc availIdx ++ [(Virtqueue.avail queue + 2, u16ToLe (availIdx + 1))]

section Driver

variable {D : Type} [VirtioDevice D Ram]

/-- Put a descriptor on a queue whose index of the available ring is given. -/
def post (fuel : Nat) (queue : UInt64) (idx : UInt16) (desc : VirtqDesc) (availIdx : UInt16)
    (advance : NetStatics → NetStatics) : Program (Guest NetStatics D) Unit := do
  storeEach fuel (posting queue idx desc availIdx)
  setStatics advance
  store fuel (Virtqueue.avail queue + 2) (u16ToLe (availIdx + 1))

def netRxPostBuffer (layout : NetLayout) (fuel : Nat) (idx : UInt16) : Program (Guest NetStatics D) Unit := do
  let s := (← get).statics
  post fuel layout.rxQueue idx (rxDesc layout idx) s.rxAvailIdx fun s => { s with rxAvailIdx := s.rxAvailIdx + 1 }

def fillTxBuffer (layout : NetLayout) (fuel : Nat) (buf : UInt64) (length : UInt16) :
    Program (Guest NetStatics D) Unit := do
  store fuel layout.txBuffer (List.replicate hdrSize 0)
  let frame ← load fuel buf length.toNat
  store fuel (layout.txBuffer + 10) frame

/-- `tx_next_desc % QUEUE_SIZE`. -/
def txDesc (s : NetStatics) : UInt16 := s.txNextDesc % queueSize

def publishTx (layout : NetLayout) (fuel : Nat) (length : UInt16) : Program (Guest NetStatics D) Unit := do
  let s := (← get).statics
  setStatics fun s => { s with txNextDesc := (s.txNextDesc + 1) % queueSize }
  post fuel layout.txQueue (txDesc s) ⟨layout.txBuffer, UInt32.ofNat (hdrSize + length.toNat), 0, 0⟩ s.txAvailIdx
    fun s => { s with txAvailIdx := s.txAvailIdx + 1 }

def virtioNetSend (layout : NetLayout) (fuel : Nat) (buf : UInt64) (length : UInt16) :
    Program (Guest NetStatics D) UInt8 := do
  if bufSize < length.toNat + hdrSize then
    serialPuts "virtio-net: frame too large!\n"
    return 1
  else
    fillTxBuffer layout fuel buf length
    publishTx layout fuel length
    mmioWrite fuel VirtioMmio.queueNotify 1
    waitUsed fuel (Virtqueue.used layout.txQueue + 2) (← get).statics.txLastUsed fuel
    setStatics fun s => { s with txLastUsed := s.txLastUsed + 1 }
    return 0

def recycle (layout : NetLayout) (fuel : Nat) (descIdx : UInt16) : Program (Guest NetStatics D) Unit := do
  netRxPostBuffer layout fuel descIdx
  mmioWrite fuel VirtioMmio.queueNotify 0

def takeFrame (layout : NetLayout) (fuel : Nat) (buf : UInt64) (bufCap descIdx : UInt16) (written : UInt32) :
    Program (Guest NetStatics D) UInt16 := do
  if written.toNat < hdrSize then
    serialPuts "virtio-net: short rx descriptor!\n"
    recycle layout fuel descIdx
    return 0
  else
    let frameLen := min (written.toNat - hdrSize) bufCap.toNat
    let frame ← load fuel (rxBuffer layout descIdx + 10) frameLen
    store fuel buf frame
    recycle layout fuel descIdx
    return UInt16.ofNat frameLen

def virtioNetPollReceive (layout : NetLayout) (fuel : Nat) (buf : UInt64) (bufCap : UInt16) :
    Program (Guest NetStatics D) UInt16 := do
  let s := (← get).statics
  if u16FromLe (← load fuel (Virtqueue.used layout.rxQueue + 2) 2) = s.rxLastUsed then return 0
  else
    let id ← load fuel (Virtqueue.usedSlot layout.rxQueue s.rxLastUsed) 4
    let written ← load fuel (Virtqueue.usedSlot layout.rxQueue s.rxLastUsed + 4) 4
    setStatics fun s => { s with rxLastUsed := s.rxLastUsed + 1 }
    takeFrame layout fuel buf bufCap (u32FromLe id).toUInt16 (u32FromLe written)

end Driver

/-! ### The transport of the network device -/

section Transport

/-- The transport runs the receive queue and the transmit queue of the device. -/
structure Runs (dev : NetVirtio HostOs.recorder) (rx tx : VirtioQueue) (m : Ram)
    (b : Bus (NetVirtio HostOs.recorder) Ram) : Prop where
  device : b.transport.device = dev
  queues : b.transport.queues = [rx, tx]
  mem : b.mem = m
  running : b.transport.status &&& 4 ≠ 0
  rxReady : rx.ready = true
  txReady : tx.ready = true

variable {fuel : Nat} {dev : RecordedNet} {rx tx : VirtioQueue} {m : Ram}
  {b : Bus RecordedNet Ram} {u v : Ctx RecordedNet Ram} {worked worked' : Bool}

section

variable (h : Runs dev rx tx m b)
include h

theorem Runs.rx_eq : b.transport.queues[0]? = some rx := by
  rw [h.queues]
  rfl

theorem Runs.tx_eq : b.transport.queues[1]? = some tx := by
  rw [h.queues]
  rfl

theorem Runs.contextOf_eq (queue : VirtioQueue) : contextOf b queue = ⟨dev, queue, m, []⟩ := by
  rw [contextOf, h.device, h.mem]

theorem Runs.irq (worked : Bool) (irqHandler : IRQHandler) :
    Runs dev rx tx m { pendingIf worked b with irqHandler } := by
  cases worked with
  | false => exact ⟨h.device, h.queues, h.mem, h.running, h.rxReady, h.txReady⟩
  | true => exact ⟨h.device, h.queues, h.mem, h.running, h.rxReady, h.txReady⟩

theorem Runs.served_rx (hready : u.queue.ready = true) : Runs u.dev u.queue tx u.mem (served b 0 u) := by
  refine ⟨rfl, ?_, rfl, h.running, hready, h.txReady⟩
  dsimp only [served]
  rw [h.queues]
  rfl

theorem Runs.served_tx (hready : u.queue.ready = true) : Runs u.dev rx u.queue u.mem (served b 1 u) := by
  refine ⟨rfl, ?_, rfl, h.running, h.rxReady, hready⟩
  dsimp only [served]
  rw [h.queues]
  rfl

theorem Runs.tick (hrx : VirtioDevice.tick fuel 0 ⟨dev, rx, m, []⟩ = .ok worked u) (hrxReady : u.queue.ready = true)
    (htx : VirtioDevice.tick fuel 1 (⟨u.dev, tx, u.mem, []⟩ : Ctx RecordedNet Ram) = .ok worked' v)
    (htxReady : v.queue.ready = true) :
    ∃ b', MMIOTransport.tick fuel b = .ok () b' ∧ Runs v.dev u.queue v.queue v.mem b' := by
  have hfirst : Runs u.dev u.queue tx u.mem (pendingIf worked (served b 0 u)) :=
    (h.served_rx hrxReady).irq worked _
  have hsecond : Runs v.dev u.queue v.queue v.mem (pendingIf worked' (served (pendingIf worked (served b 0 u)) 1 v)) :=
    (hfirst.served_tx htxReady).irq worked' _
  rw [← h.contextOf_eq] at hrx
  rw [← hfirst.contextOf_eq] at htx
  have hqueues : tickQueues fuel b.transport.queues.length 0 b =
      .ok () (pendingIf worked' (served (pendingIf worked (served b 0 u)) 1 v)) := by
    rw [h.queues]
    refine (tickQueues_succ 1 h.rx_eq h.rxReady hrx).trans ?_
    exact (tickQueues_succ 0 hfirst.tx_eq h.txReady htx).trans rfl
  obtain ⟨irqHandler, hrun⟩ := tick_of_tickQueues h.running hqueues rfl
  exact ⟨_, hrun, hsecond.irq false irqHandler⟩

theorem Runs.notify_tx (htx : VirtioDevice.tick fuel 1 ⟨dev, tx, m, []⟩ = .ok worked u)
    (hready : u.queue.ready = true) :
    ∃ b', MMIOTransport.write fuel VirtioMmio.queueNotify (u32ToLe 1) b = .ok () b' ∧
      Runs u.dev rx u.queue u.mem b' := by
  rw [← h.contextOf_eq] at htx
  obtain ⟨irqHandler, hrun⟩ := notifyQueue_of_tick h.tx_eq h.txReady htx
  exact ⟨_, write_queueNotify.trans hrun, (h.served_tx hready).irq worked irqHandler⟩

theorem Runs.atRest
    (hrx : VirtioDevice.tick fuel 0 (⟨dev, rx, m, []⟩ : Ctx RecordedNet Ram) = .ok false ⟨dev, rx, m, []⟩)
    (htx : VirtioDevice.tick fuel 1 (⟨dev, tx, m, []⟩ : Ctx RecordedNet Ram) = .ok false ⟨dev, tx, m, []⟩) :
    AtRest fuel b := by
  refine atRest_of_idle (fun idx queue hqueue _ => ?_) rfl
  rw [h.queues] at hqueue
  match idx with
  | 0 =>
    cases hqueue
    rw [IdleOn, h.contextOf_eq]
    exact hrx
  | 1 =>
    cases hqueue
    rw [IdleOn, h.contextOf_eq]
    exact htx
  | idx + 2 => cases hqueue

end

end Transport

/-! ### What the device does on its queues -/

section Device

variable {fuel : Nat} {head : UInt16} {frame : Bytes} {c t : Ctx RecordedNet Ram}

def sending (dev : NetVirtio HostOs.recorder) (frames : List Bytes) : NetVirtio HostOs.recorder :=
  dev.setTap { dev.tapDevice with host := dev.sent ++ frames }

theorem sending_nil (dev : RecordedNet) : sending dev [] = dev :=
  congrArg (fun host : List Bytes => dev.setTap ⟨dev.tapDevice.packetReciveQueue, host⟩) (List.append_nil dev.sent)

theorem tick_rx (fuel : Nat) (h : c.dev.attached = true) : VirtioDevice.tick fuel 0 c =
    drainWith (fun _ => throw .outOfFuel) nextRx serveRx fuel false c :=
  tick_of_attached fuel h

theorem tick_tx (fuel : Nat) (h : c.dev.attached = true) : VirtioDevice.tick fuel 1 c =
    drainWith (fun _ => throw .outOfFuel) Serve.popAvail serveTx fuel false c := by
  show (if !c.dev.attached then (return false) else drain Serve.popAvail serveTx fuel :
    Serve RecordedNet Ram Bool) c = _
  rw [if_neg (by simp [h])]
  rfl

theorem rx_idle (hattached : c.dev.attached = true) (hheld : c.queue.RingsHeld c.mem)
    (hnone : c.dev.tapDevice.packetReciveQueue = []) : VirtioDevice.tick (fuel + 1) 0 c = .ok false c := by
  rw [tick_rx _ hattached, drainWith, bind_of_ok (nextRx_none hheld (.inl hnone))]
  rfl

theorem tx_idle (hattached : c.dev.attached = true) (hheld : c.queue.RingsHeld c.mem)
    (hnone : c.queue.published c.mem = []) : VirtioDevice.tick (fuel + 1) 1 c = .ok false c := by
  rw [tick_tx _ hattached, drainWith, bind_of_ok (popAvail_nil hheld hnone)]
  rfl

theorem serveTx_held (hheld : t.queue.QueueHeld t.mem) (hhead : head.toNat < t.queue.size.toNat)
    (hbelow : (t.descAt head).addr.toNat + 12 < 2 ^ 64) : ∃ worked len u, serveTx head t = .ok worked u ∧
      u.dev = sending t.dev (frameIn t.mem (t.descAt head)).toList ∧
        u.queue = { t.queue with lastUsedIdx := t.queue.lastUsedIdx + 1 } ∧ u.mem = t.queue.pushedTo t.mem head len := by
  by_cases hshort : (t.descAt head).len < 12
  · have hlen : ¬12 ≤ (t.descAt head).len.toNat := Nat.not_le.mpr (UInt32.lt_iff_toNat_lt.mp hshort)
    refine ⟨false, 0, _, getDescriptor_bind_eq_ok.mpr ⟨hheld.descSafe hhead, (congrFun (if_pos hshort) _).trans
      (finish_held (t := t.fetched _ _) hheld.toRingsHeld head 0 false)⟩, ?_, rfl, rfl⟩
    rw [frameIn, if_neg fun h => hlen h.1]
    exact (sending_nil t.dev).symm
  · have hlen : 12 ≤ (t.descAt head).len.toNat := UInt32.le_iff_toNat_le.mp (UInt32.not_lt.mp hshort)
    have hsend (frame : Bytes) (u : Ctx RecordedNet Ram) :
        onTap (TAPDevice.sendPacket frame) u = .ok () { u with dev := sending u.dev [frame] } :=
      onTap_iff.mpr ⟨_, rfl, rfl⟩
    obtain ⟨frame, hframe⟩ : ∃ frame, t.mem.load ((t.descAt head).addr + 12) ((t.descAt head).len.toNat - 12) = frame :=
      ⟨_, rfl⟩
    have hserve : serveTx head t = .ok true (Ctx.retire { t.fetched (.head head) (t.descAt head) with
        dev := sending t.dev [frame] } head (t.descAt head).len) := by
      refine getDescriptor_bind_eq_ok.mpr ⟨hheld.descSafe hhead, (congrFun (if_neg hshort) _).trans
        (addU64_bind_eq_ok.mpr ⟨hbelow, ?_⟩)⟩
      rw [read_bind, bind_of_ok (hsend _ _), ← hframe]
      refine finish_held ?_ head _ true
      exact hheld.toRingsHeld
    refine ⟨true, _, _, hserve, ?_, rfl, rfl⟩
    rw [frameIn, if_pos ⟨hlen, hbelow⟩, hframe]
    rfl

/-- **One chain on the transmit queue.** -/
theorem tx_one (fuel : Nat) (hattached : c.dev.attached = true) (hheld : c.queue.QueueHeld c.mem)
    (hpublished : c.queue.published c.mem = [head]) (hhead : head.toNat < c.queue.size.toNat)
    (hbelow : (c.descAt head).addr.toNat + 12 < 2 ^ 64) :
    ∃ worked len u, VirtioDevice.tick (fuel + 2) 1 c = .ok worked u ∧
      u.dev = sending c.dev (frameIn c.mem (c.descAt head)).toList ∧ u.queue = { c.queue with
          lastAvailIdx := c.queue.lastAvailIdx + 1, lastUsedIdx := c.queue.lastUsedIdx + 1 } ∧
          u.mem = c.queue.pushedTo c.mem head len := by
  have hpop := popAvail_cons (D := RecordedNet) hheld.toRingsHeld hpublished
  have hnone : (c.pop c.dev head).queue.published c.mem = [] :=
    (List.cons.inj ((published_of_pop hheld.toRingsHeld hpop).2.2.symm.trans hpublished)).2
  have hheld' : (c.pop c.dev head).queue.QueueHeld c.mem := hheld.moved _ _
  obtain ⟨worked, len, u, hserve, hdev, hqueue, hmem⟩ := serveTx_held (t := c.pop c.dev head) hheld' hhead hbelow
  have hframe := hheld'.toRingsHeld.frame_pushedTo head len
  have hrings : u.queue.RingsHeld u.mem := by
    rw [hqueue, hmem]
    exact (hheld'.toRingsHeld.moved _ _).frame hframe
  have hrest : u.queue.published u.mem = [] := by
    have hagree := hframe.agree fun r hr => by
      rw [List.mem_singleton.mp hr]
      exact hheld'.toRingsHeld.apart.symm
    rw [hqueue, hmem]
    exact (VirtioQueue.published_of_agree hheld'.toRingsHeld hagree).trans hnone
  refine ⟨false || worked, len, u, ?_, hdev, hqueue, hmem⟩
  rw [tick_tx _ hattached, drainWith, bind_of_ok hpop]
  refine (bind_of_ok hserve).trans ?_
  rw [drainWith]
  exact bind_of_ok (popAvail_nil hrings hrest)

def reported (x : NetVirtio.Matched) : UInt32 := if x.Fits then UInt32.ofNat (12 + x.frame.length) else 0

/-- **One frame for the receive queue.** -/
theorem rx_one (fuel : Nat) {heads : List UInt16} (hattached : c.dev.attached = true) (hheld : c.queue.QueueHeld c.mem)
    (hframes : c.dev.tapDevice.packetReciveQueue = [frame]) (hpublished : c.queue.published c.mem = head :: heads)
    (hhead : head.toNat < c.queue.size.toNat) (hbelow : (c.descAt head).addr.toNat + 12 < 2 ^ 64) :
    ∃ worked u, VirtioDevice.tick (fuel + 2) 0 c = .ok worked u ∧ u.dev = (taken c []).dev ∧ u.queue = { c.queue with
        lastAvailIdx := c.queue.lastAvailIdx + 1, lastUsedIdx := c.queue.lastUsedIdx + 1 } ∧
        u.mem = c.queue.pushedTo (c.mem.storeAll (NetVirtio.Matched.writes ⟨frame, head, c.descAt head, true⟩)) head
          (reported ⟨frame, head, c.descAt head, true⟩) := by
  have hnext := nextRx_some hheld.toRingsHeld hframes hpublished
  have hheld' : (matching c [] head).queue.QueueHeld c.mem := hheld.moved _ _
  have hserve : ∃ worked u, serveRx (frame, head) (matching c [] head) = .ok worked u ∧
      u.dev = (taken c []).dev ∧ u.queue = { c.queue with
        lastAvailIdx := c.queue.lastAvailIdx + 1, lastUsedIdx := c.queue.lastUsedIdx + 1 } ∧
        u.mem = c.queue.pushedTo (c.mem.storeAll (NetVirtio.Matched.writes ⟨frame, head, c.descAt head, true⟩)) head
          (reported ⟨frame, head, c.descAt head, true⟩) := by
    by_cases hfits : NetVirtio.Matched.Fits ⟨frame, head, c.descAt head, true⟩
    · rw [NetVirtio.Matched.writes_of_fits hfits, reported, if_pos hfits]
      exact ⟨true, _, serveRx_fits (t := matching c [] head) (hheld'.descSafe hhead)
        hheld'.toRingsHeld hbelow hfits, rfl, rfl, rfl⟩
    · rw [NetVirtio.Matched.writes_of_not_fits hfits, reported, if_neg hfits]
      exact ⟨false, _, serveRx_short (t := matching c [] head) (hheld'.descSafe hhead)
        hheld'.toRingsHeld (Nat.not_le.mp hfits), rfl, rfl, rfl⟩
  obtain ⟨worked, u, hserve, hdev, hqueue, hmem⟩ := hserve
  have hrings : u.queue.RingsHeld u.mem := by
    have hstored := Ram.frame_storeAll c.mem (NetVirtio.Matched.writes ⟨frame, head, c.descAt head, true⟩)
    rw [hqueue, hmem]
    exact ((hheld.toRingsHeld.frame hstored).moved _ _).frame ((hheld.toRingsHeld.frame hstored).frame_pushedTo _ _)
  refine ⟨false || worked, u, ?_, hdev, hqueue, hmem⟩
  rw [tick_rx _ hattached, drainWith, bind_of_ok hnext]
  refine (bind_of_ok hserve).trans ?_
  rw [drainWith]
  exact bind_of_ok (nextRx_none hrings (.inl (by rw [hdev]; rfl)))

end Device

end NetDriver

/-! ### Between two calls -/

/-- The queues, the receive buffers and the transmit buffer. -/
def NetLayout.ranges (layout : NetLayout) : List (UInt64 × Nat) :=
  [(layout.rxQueue, Virtqueue.sizeInBytes), (layout.txQueue, Virtqueue.sizeInBytes),
    (layout.rxBuffers, 16 * NetDriver.bufSize), (layout.txBuffer, NetDriver.bufSize)]

/-- The static variables stand in RAM, each in a place of its own, and no address belongs to two regions. -/
structure NetLayout.Valid (layout : NetLayout) (m : Ram) : Prop where
  flat : m.Flat
  held : ∀ r ∈ layout.ranges, m.Holds r.1 r.2
  apart : layout.ranges.Pairwise fun r r' => Apart r.1 r.2 r'.1 r'.2

namespace NetLayout

variable {layout : NetLayout} {m : Ram}

section

variable (h : layout.Valid m)
include h

theorem Valid.rxQueue : m.Holds layout.rxQueue sizeInBytes :=
  h.held (layout.rxQueue, sizeInBytes) (by simp [ranges])

theorem Valid.txQueue : m.Holds layout.txQueue sizeInBytes :=
  h.held (layout.txQueue, sizeInBytes) (by simp [ranges])

theorem Valid.rxBuffers : m.Holds layout.rxBuffers (16 * NetDriver.bufSize) :=
  h.held (layout.rxBuffers, 16 * NetDriver.bufSize) (by simp [ranges])

theorem Valid.txBuffer : m.Holds layout.txBuffer NetDriver.bufSize :=
  h.held (layout.txBuffer, NetDriver.bufSize) (by simp [ranges])

theorem Valid.pairs : Apart layout.rxQueue sizeInBytes layout.txQueue sizeInBytes ∧
      Apart layout.rxQueue sizeInBytes layout.rxBuffers (16 * NetDriver.bufSize) ∧
      Apart layout.rxQueue sizeInBytes layout.txBuffer NetDriver.bufSize ∧
      Apart layout.txQueue sizeInBytes layout.rxBuffers (16 * NetDriver.bufSize) ∧
      Apart layout.txQueue sizeInBytes layout.txBuffer NetDriver.bufSize ∧
      Apart layout.rxBuffers (16 * NetDriver.bufSize) layout.txBuffer NetDriver.bufSize := by
  have hapart := h.apart
  simp only [ranges, List.pairwise_cons, List.mem_cons, List.not_mem_nil, or_false, forall_eq_or_imp, forall_eq,
    false_imp_iff, implies_true, and_true, List.Pairwise.nil] at hapart
  obtain ⟨⟨h1, h2, h3⟩, ⟨h4, h5⟩, h6⟩ := hapart
  exact ⟨h1, h2, h3, h4, h5, h6⟩

theorem Valid.store (addr : UInt64) (data : Bytes) : layout.Valid (m.store addr data) :=
  ⟨h.flat.store addr data, fun r hr => (h.held r hr).frame (Ram.Frame.store m addr data), h.apart⟩

theorem Valid.storeAll (writes : List (UInt64 × Bytes)) : layout.Valid (m.storeAll writes) := by
  induction writes generalizing m with
  | nil => exact h
  | cons w writes ih => exact ih (h.store w.1 w.2)

theorem Valid.pushedTo (q : VirtioQueue) (head : UInt16) (len : UInt32) : layout.Valid (q.pushedTo m head len) :=
  ((h.store _ _).store _ _).store _ _

end

end NetLayout

namespace NetDriver

open Guest

variable {layout : NetLayout} {fuel : Nat} {m : Ram} {frame : Bytes} {g : Guest NetStatics RecordedNet}

/-- The driver and the device agree on their indices, and the frames given wait at the TAP device; `rxSeen` is how
far the device has come on the receive queue. -/
structure Ready (layout : NetLayout) (rxSeen : UInt16) (frames : List Bytes)
    (g : Guest NetStatics (NetVirtio HostOs.recorder)) : Prop where
  queues : g.bus.transport.queues = [Virtqueue.seen layout.rxQueue rxSeen g.statics.rxLastUsed,
    Virtqueue.seen layout.txQueue g.statics.txAvailIdx g.statics.txLastUsed]
  running : g.bus.transport.status &&& 4 ≠ 0
  attached : g.bus.transport.device.attached = true
  frames : g.bus.transport.device.tapDevice.packetReciveQueue = frames
  valid : layout.Valid g.bus.mem
  txAvail : g.bus.mem.u16 (Virtqueue.avail layout.txQueue + 2) = g.statics.txAvailIdx

theorem Ready.runs {rxSeen : UInt16} {frames : List Bytes} (h : Ready layout rxSeen frames g) (m : Ram) :
    Runs g.bus.transport.device (seen layout.rxQueue rxSeen g.statics.rxLastUsed)
      (seen layout.txQueue g.statics.txAvailIdx g.statics.txLastUsed) m { g.bus with mem := m } :=
  ⟨rfl, h.queues, rfl, h.running, rfl, rfl⟩

/-- Both queues are in RAM, and nothing more is on the transmit queue than the device has seen. -/
structure Settled (layout : NetLayout) (txSeen : UInt16) (m : Ram) : Prop where
  rxQueue : m.Holds layout.rxQueue Virtqueue.sizeInBytes
  txQueue : m.Holds layout.txQueue Virtqueue.sizeInBytes
  txAvail : m.u16 (Virtqueue.avail layout.txQueue + 2) = txSeen

theorem Settled.store {txSeen : UInt16} (h : Settled layout txSeen m) {addr : UInt64} {data : Bytes}
    (happart : Apart addr data.length (avail layout.txQueue + 2) 2) : Settled layout txSeen (m.store addr data) :=
  ⟨h.rxQueue.frame (Ram.Frame.store m _ _), h.txQueue.frame (Ram.Frame.store m _ _),
    (Ram.u16_store_of_disjoint happart).trans h.txAvail⟩

theorem Settled.atRest {dev : RecordedNet} {rxSeen rxUsed txSeen txUsed : UInt16}
    {b : Bus RecordedNet Ram} (h : Settled layout txSeen m)
    (hruns : Runs dev (seen layout.rxQueue rxSeen rxUsed) (seen layout.txQueue txSeen txUsed) m b)
    (hattached : dev.attached = true) (hnone : dev.tapDevice.packetReciveQueue = []) : AtRest (fuel + 1) b :=
  hruns.atRest (rx_idle (c := ⟨_, _, _, _⟩) hattached (queueHeld h.rxQueue).toRingsHeld hnone)
    (tx_idle (c := ⟨_, _, _, _⟩) hattached (queueHeld h.txQueue).toRingsHeld (published_nil h.txAvail))

theorem posting_places {queue : UInt64} {idx : UInt16} (hqueue : m.Holds queue sizeInBytes)
    (hidx : idx.toNat < 16) (desc : VirtqDesc) (availIdx : UInt16) : ∀ w ∈ posting queue idx desc availIdx,
      Covers queue sizeInBytes w.1 w.2.length ∧ Apart w.1 w.2.length (avail queue + 2) 2 := by
  have hentry := toNat_entry hqueue hidx
  have hslot := toNat_availSlot hqueue availIdx
  have hindex := toNat_availIdx hqueue
  have hfits : queue.toNat + 428 ≤ 2 ^ 64 := hqueue.fits
  intro w hw
  rcases List.mem_append.mp hw with hw | hw
  · have hin := VirtioQueue.descFields_within desc (by omega) w hw
    unfold Covers at hin
    unfold Covers Apart sizeInBytes
    dsimp only at hin
    omega
  · rw [List.mem_singleton.mp hw]
    unfold Covers Apart sizeInBytes
    dsimp only
    rw [length_u16ToLe]
    omega

theorem post_of_atRest {queue : UInt64} {idx availIdx txSeen : UInt16} {desc : VirtqDesc}
    (advance : NetStatics → NetStatics) (hatRest : ∀ m, Settled layout txSeen m → AtRest fuel { g.bus with mem := m })
    (hsettled : Settled layout txSeen g.bus.mem)
    (hapart : ∀ w ∈ posting queue idx desc availIdx, Apart w.1 w.2.length (avail layout.txQueue + 2) 2) :
    ∃ g', post fuel queue idx desc availIdx advance g = .ok () g' ∧ g'.statics = advance g.statics ∧
      g'.bus = { g.bus with mem := g.bus.mem.storeAll (publishing queue idx desc availIdx) } := by
  obtain ⟨hstore, hafter⟩ := storeEach_of_atRest hatRest (fun w hw m hm => hm.store (hapart w hw)) hsettled
  have hlast := store_of_atRest (g := { g.storedAll (posting queue idx desc availIdx) with statics := advance g.statics })
    (hatRest _ hafter) (avail queue + 2) (u16ToLe (availIdx + 1))
  refine ⟨_, (bind_of_ok hstore).trans ((bind_of_ok rfl).trans hlast), rfl, ?_⟩
  rw [Ram.storeAll, List.foldl_append]
  rfl

/-! ### The transmit buffer on its queue -/

section Transmit

variable {s : NetStatics}

def txBlocks (layout : NetLayout) (s : NetStatics) (frame : Bytes) : List (List (UInt64 × Bytes)) :=
  [[(layout.txBuffer, List.replicate hdrSize 0)], [(layout.txBuffer + 10, frame)],
    VirtioQueue.descFields layout.txQueue (txDesc s) ⟨layout.txBuffer, UInt32.ofNat (hdrSize + frame.length), 0, 0⟩,
    [(Virtqueue.availSlot layout.txQueue s.txAvailIdx, u16ToLe (txDesc s))],
    [(Virtqueue.avail layout.txQueue + 2, u16ToLe (s.txAvailIdx + 1))]]

def txRanges (layout : NetLayout) (s : NetStatics) (frame : Bytes) : List (UInt64 × Nat) :=
  [(layout.txBuffer, 10), (layout.txBuffer + 10, frame.length), (layout.txQueue + (txDesc s).toUInt64 * 16, 16),
    (Virtqueue.availSlot layout.txQueue s.txAvailIdx, 2), (Virtqueue.avail layout.txQueue + 2, 2)]

theorem txDesc_lt (s : NetStatics) : (txDesc s).toNat < 16 := by
  have hmod := UInt16.toNat_mod s.txNextDesc queueSize
  unfold txDesc
  rw [hmod]
  exact Nat.mod_lt _ (by decide)

structure TxPlaces (layout : NetLayout) (s : NetStatics) : Prop where
  buffer : layout.txBuffer.toNat + 1524 ≤ 2 ^ 64
  queue : layout.txQueue.toNat + 428 ≤ 2 ^ 64
  body : (layout.txBuffer + 10).toNat = layout.txBuffer.toNat + 10
  entry : (layout.txQueue + (txDesc s).toUInt64 * 16).toNat = layout.txQueue.toNat + 16 * (txDesc s).toNat
  entry_lt : (txDesc s).toNat < 16
  slot : (Virtqueue.availSlot layout.txQueue s.txAvailIdx).toNat =
    layout.txQueue.toNat + 260 + 2 * (s.txAvailIdx.toNat % 16)
  slot_lt : s.txAvailIdx.toNat % 16 < 16
  idx : (Virtqueue.avail layout.txQueue + 2).toNat = layout.txQueue.toNat + 258

theorem txPlaces (hvalid : layout.Valid m) (s : NetStatics) : TxPlaces layout s := by
  have hfits : layout.txBuffer.toNat + 1524 ≤ 2 ^ 64 := hvalid.txBuffer.fits
  have hqueue := hvalid.txQueue
  have hlt := txDesc_lt s
  refine ⟨hfits, hqueue.fits, toNat_add_of_lt ?_, toNat_entry hqueue hlt, hlt,
    toNat_availSlot hqueue _, Nat.mod_lt _ (by decide), toNat_availIdx hqueue⟩
  simp only [UInt64.reduceToNat]
  omega

section Laid

variable (hvalid : layout.Valid m) (hlength : frame.length ≤ 1514)

include hvalid hlength

theorem txRanges_cases : ∀ r ∈ txRanges layout s frame,
    Covers layout.txBuffer bufSize r.1 r.2 ∨ Covers layout.txQueue sizeInBytes r.1 r.2 := by
  obtain ⟨hbuffer, hqueue, hbody, hentry, hlt, hslot, hmod, hidx⟩ := txPlaces hvalid s
  have hbufSize : bufSize = 1524 := rfl
  intro r hr
  simp only [txRanges, List.mem_cons, List.not_mem_nil, or_false] at hr
  rw [hbufSize]
  unfold Covers sizeInBytes
  rcases hr with rfl | rfl | rfl | rfl | rfl <;> dsimp only <;> omega

theorem txLaid : m.Laid (txRanges layout s frame) (txBlocks layout s frame) := by
  obtain ⟨hbuffer, hqueue, hbody, hentry, hlt, hslot, hmod, hidx⟩ := txPlaces hvalid s
  have hend : (layout.txQueue + (txDesc s).toUInt64 * 16).toNat + 16 ≤ 2 ^ 64 := by omega
  have hone (addr : UInt64) (data : Bytes) : Within (addr, data.length) [(addr, data)] := by
    intro w hw
    rw [List.mem_singleton.mp hw]
    exact .refl _ _
  refine ⟨?_, ?_, fun block hblock => ?_, fun r hr => ?_⟩
  · refine .cons (hone _ (List.replicate 10 0)) (.cons (hone _ _) (.cons (VirtioQueue.descFields_within _ hend) ?_))
    exact .cons (hone _ (u16ToLe _)) (.cons (hone _ (u16ToLe _)) .nil)
  · have hapart : Apart layout.txQueue 428 layout.txBuffer 1524 := hvalid.pairs.2.2.2.2.1
    unfold Apart at hapart
    simp only [txRanges, List.pairwise_cons, List.mem_cons, List.not_mem_nil, or_false, forall_eq_or_imp, forall_eq,
      Apart, hbody, hentry, hslot, hidx, false_imp_iff, implies_true, and_true, List.Pairwise.nil]
    omega
  · simp only [txBlocks, List.mem_cons, List.not_mem_nil, or_false] at hblock
    rcases hblock with rfl | rfl | rfl | rfl | rfl
    · exact List.pairwise_singleton _ _
    · exact List.pairwise_singleton _ _
    · exact VirtioQueue.pairwise_descFields _ hend
    · exact List.pairwise_singleton _ _
    · exact List.pairwise_singleton _ _
  · rcases txRanges_cases hvalid hlength r hr with hin | hin
    · exact hvalid.txBuffer.sub hin
    · exact hvalid.txQueue.sub hin

structure TxWaits (layout : NetLayout) (s : NetStatics) (frame : Bytes) (m : Ram) : Prop where
  valid : layout.Valid m
  published : (Virtqueue.seen layout.txQueue s.txAvailIdx s.txLastUsed).published m = [txDesc s]
  desc : (Virtqueue.seen layout.txQueue s.txAvailIdx s.txLastUsed).descAt m (txDesc s) =
    ⟨layout.txBuffer, UInt32.ofNat (hdrSize + frame.length), 0, 0⟩
  body : m.load (layout.txBuffer + 10) frame.length = frame
  txAvail : m.u16 (Virtqueue.avail layout.txQueue + 2) = s.txAvailIdx + 1

theorem txWaits : TxWaits layout s frame (m.storeAll (txBlocks layout s frame).flatten) := by
  have hlaid := txLaid (s := s) hvalid hlength
  have hvalid' := hvalid.storeAll (txBlocks layout s frame).flatten
  have hload {block : List (UInt64 × Bytes)} {w : UInt64 × Bytes} (hblock : block ∈ txBlocks layout s frame)
      (hw : w ∈ block) : (m.storeAll (txBlocks layout s frame).flatten).load w.1 w.2.length = w.2 :=
    hlaid.load block hblock w hw
  generalize m.storeAll (txBlocks layout s frame).flatten = m' at hload hvalid'
  have hu16 {addr : UInt64} {val : UInt16} (hblock : [(addr, u16ToLe val)] ∈ txBlocks layout s frame) :
      m'.u16 addr = val := by
    have hword := hload hblock List.mem_cons_self
    rw [length_u16ToLe] at hword
    exact (congrArg u16FromLe hword).trans (u16FromLe_toLe val)
  have hidx : m'.u16 (avail layout.txQueue + 2) = s.txAvailIdx + 1 := hu16 (by simp [txBlocks])
  have hhead : m'.u16 (availSlot layout.txQueue s.txAvailIdx) = txDesc s := hu16 (by simp [txBlocks])
  have hbody : [(layout.txBuffer + 10, frame)] ∈ txBlocks layout s frame := by simp [txBlocks]
  have hframe := hload hbody List.mem_cons_self
  refine ⟨hvalid', ?_, ?_, hframe, hidx⟩
  · rw [published_one hidx, hhead]
  · exact VirtioQueue.descAt_of_fields fun w hw => hload (by simp [txBlocks, seen]) hw

end Laid

/-- **What the device takes for the frame**: it skips twelve bytes, the header and two bytes of the frame. -/
theorem TxWaits.frameIn (h : TxWaits layout s frame m) (hlength : frame.length ≤ 1514) :
    NetVirtio.frameIn m ⟨layout.txBuffer, UInt32.ofNat (hdrSize + frame.length), 0, 0⟩ =
      if 2 ≤ frame.length then some (frame.drop 2) else none := by
  have hlen : (UInt32.ofNat (hdrSize + frame.length)).toNat = 10 + frame.length :=
    UInt32.toNat_ofNat_of_lt' (show hdrSize + frame.length < 2 ^ 32 by unfold hdrSize; omega)
  have hplaces := txPlaces h.valid s
  have hfits := hplaces.buffer
  rw [NetVirtio.frameIn]
  dsimp only
  rw [hlen]
  by_cases htwo : 2 ≤ frame.length
  · obtain ⟨rest, hrest⟩ := Nat.exists_eq_add_of_le htwo
    have hcovers : Covers layout.txBuffer 1524 (layout.txBuffer + 10) (2 + rest) := by
      have hbody := hplaces.body
      unfold Covers
      omega
    have hparts := h.valid.flat.load_append (h.valid.txBuffer.sub hcovers)
    have hnext : layout.txBuffer + 10 + UInt64.ofNat 2 = layout.txBuffer + 12 := UInt64.add_assoc _ _ _
    rw [← hrest, h.body, hnext] at hparts
    rw [if_pos (by omega), if_pos htwo, show 10 + frame.length - 12 = rest by omega, hparts,
      List.drop_left' (Ram.length_load _ _ _)]
  · rw [if_neg (by omega), if_neg htwo]

section Send

variable {buf : UInt64} {length : UInt16} {txSeen : UInt16}

theorem fillTxBuffer_of_atRest (hatRest : ∀ m, Settled layout txSeen m → AtRest fuel { g.bus with mem := m })
    (hsettled : Settled layout txSeen g.bus.mem) (hvalid : layout.Valid g.bus.mem)
    (hload : g.bus.mem.load buf length.toNat = frame) (hapart : Apart buf frame.length layout.txBuffer bufSize)
    (hlength : frame.length ≤ 1514) :
    ∃ g', fillTxBuffer layout fuel buf length g = .ok () g' ∧ g'.statics = g.statics ∧ g'.bus = { g.bus with
      mem := g.bus.mem.storeAll [(layout.txBuffer, List.replicate hdrSize 0), (layout.txBuffer + 10, frame)] } ∧
        Settled layout txSeen g'.bus.mem := by
  obtain ⟨hbuffer, hqueue, hbody, -, -, -, -, hidx⟩ := txPlaces hvalid g.statics
  have hpair : Apart layout.txQueue 428 layout.txBuffer 1524 := hvalid.pairs.2.2.2.2.1
  have hheader : Apart layout.txBuffer (List.replicate hdrSize (0 : UInt8)).length (avail layout.txQueue + 2) 2 := by
    rw [List.length_replicate, hdrSize]
    unfold Apart at hpair ⊢
    omega
  have hframe : Apart (layout.txBuffer + 10) frame.length (avail layout.txQueue + 2) 2 := by
    unfold Apart at hpair ⊢
    omega
  have hsettled' := hsettled.store hheader
  have hread : (g.bus.mem.store layout.txBuffer (List.replicate hdrSize 0)).load buf length.toNat = frame := by
    rw [Ram.load_store_of_disjoint _ ?_, hload]
    have happart : Apart buf frame.length layout.txBuffer 1524 := hapart
    rw [List.length_replicate, hdrSize, ← Ram.length_load g.bus.mem buf length.toNat, hload]
    unfold Apart at happart
    omega
  have hfirst := store_of_atRest (hatRest _ hsettled) layout.txBuffer (List.replicate hdrSize 0)
  have hsecond := load_of_atRest (g := g.storedAll [(layout.txBuffer, List.replicate hdrSize 0)])
    (hatRest _ hsettled') buf length.toNat
  have hthird := store_of_atRest (g := (g.storedAll [(layout.txBuffer, List.replicate hdrSize 0)]).next
    (g.storedAll [(layout.txBuffer, List.replicate hdrSize 0)]).bus) (hatRest _ hsettled') (layout.txBuffer + 10) frame
  have hvalue : (g.storedAll [(layout.txBuffer, List.replicate hdrSize 0)]).bus.mem.load buf length.toNat = frame := hread
  rw [hvalue] at hsecond
  exact ⟨_, (bind_of_ok hfirst).trans ((bind_of_ok hsecond).trans hthird), rfl, rfl, hsettled'.store hframe⟩

def txAdvanced (s : NetStatics) : NetStatics :=
  { s with txNextDesc := (s.txNextDesc + 1) % queueSize, txAvailIdx := s.txAvailIdx + 1 }

theorem publishTx_of_atRest (length : UInt16) (hatRest : ∀ m, Settled layout txSeen m → AtRest fuel { g.bus with mem := m })
    (hsettled : Settled layout txSeen g.bus.mem) :
    ∃ g', publishTx layout fuel length g = .ok () g' ∧ g'.statics = txAdvanced g.statics ∧ g'.bus = { g.bus with
      mem := g.bus.mem.storeAll (publishing layout.txQueue (txDesc g.statics)
        ⟨layout.txBuffer, UInt32.ofNat (hdrSize + length.toNat), 0, 0⟩ g.statics.txAvailIdx) } := by
  obtain ⟨g', hpost, hstatics, hbus⟩ := post_of_atRest
    (g := { g with statics := { g.statics with txNextDesc := (g.statics.txNextDesc + 1) % queueSize } })
    (fun s => { s with txAvailIdx := s.txAvailIdx + 1 }) hatRest hsettled fun w hw =>
      (posting_places hsettled.txQueue (txDesc_lt g.statics) _ _ w hw).2
  refine ⟨g', get_bind.trans ((bind_of_ok rfl).trans hpost), ?_, hbus⟩
  rw [hstatics]
  rfl

def InFlight (dev : NetVirtio HostOs.recorder) (rx tx : VirtioQueue) (m : Ram)
    (u : Ctx (NetVirtio HostOs.recorder) Ram) (b : Bus (NetVirtio HostOs.recorder) Ram) : Prop :=
  Runs dev rx tx m b ∨ Runs u.dev rx u.queue u.mem b

section Waiting

variable {rxSeen rxUsed : UInt16} {dev : RecordedNet} (hwaits : TxWaits layout s frame m)
  (hlength : frame.length ≤ 1514) (hattached : dev.attached = true) (hnone : dev.tapDevice.packetReciveQueue = [])

include hwaits hlength hattached hnone

/-- **The device serves the frame**, by a tick or by the notification, whichever comes first. -/
theorem TxWaits.served (fuel : Nat) : ∃ u : Ctx RecordedNet Ram,
    u.dev.sent = dev.sent ++ (if 2 ≤ frame.length then [frame.drop 2] else []) ∧
      u.mem.u16 (used layout.txQueue + 2) = s.txLastUsed + 1 ∧
      (∀ b, Runs u.dev (seen layout.rxQueue rxSeen rxUsed) u.queue u.mem b → AtRest (fuel + 2) b) ∧
      ∀ b, InFlight dev (seen layout.rxQueue rxSeen rxUsed) (seen layout.txQueue s.txAvailIdx s.txLastUsed) m u b →
        (∃ b', MMIOTransport.tick (fuel + 2) b = .ok () b' ∧ InFlight dev (seen layout.rxQueue rxSeen rxUsed)
            (seen layout.txQueue s.txAvailIdx s.txLastUsed) m u b') ∧
        ∃ b', MMIOTransport.write (fuel + 2) VirtioMmio.queueNotify (u32ToLe 1) b = .ok () b' ∧
          Runs u.dev (seen layout.rxQueue rxSeen rxUsed) u.queue u.mem b' := by
  have hheld : (seen layout.txQueue s.txAvailIdx s.txLastUsed).QueueHeld m :=
    queueHeld hwaits.valid.txQueue
  have hrings : (seen layout.rxQueue rxSeen rxUsed).RingsHeld m :=
    (queueHeld hwaits.valid.rxQueue).toRingsHeld
  have hplaces := txPlaces hwaits.valid s
  have hbelow : ((seen layout.txQueue s.txAvailIdx s.txLastUsed).descAt m (txDesc s)).addr.toNat + 12 < 2 ^ 64 := by
    have hbuffer := hplaces.buffer
    rw [hwaits.desc]
    dsimp only
    omega
  obtain ⟨worked, len, u, htick, hdev, hqueue, hmem⟩ := tx_one
    (c := ⟨dev, seen layout.txQueue s.txAvailIdx s.txLastUsed, m, []⟩) fuel hattached hheld hwaits.published
    (txDesc_lt s) hbelow
  have hseen : u.queue = seen layout.txQueue (s.txAvailIdx + 1) (s.txLastUsed + 1) := hqueue
  have hready : u.queue.ready = true := by rw [hseen]; rfl
  have hattached' : u.dev.attached = true := by rw [hdev]; exact hattached
  have hnone' : u.dev.tapDevice.packetReciveQueue = [] := by rw [hdev]; exact hnone
  have hvalid : layout.Valid u.mem := by rw [hmem]; exact hwaits.valid.pushedTo _ _ _
  have hsettled : Settled layout (s.txAvailIdx + 1) u.mem := by
    refine ⟨hvalid.rxQueue, hvalid.txQueue, ?_⟩
    have hagree := (hheld.toRingsHeld.frame_pushedTo (txDesc s) len).agree fun r hr => by
      rw [List.mem_singleton.mp hr]
      exact hheld.toRingsHeld.apart.symm
    have hin : Covers (avail layout.txQueue) 36 (avail layout.txQueue + 2) 2 := by
      have havail := toNat_avail hwaits.valid.txQueue
      have hidx := hplaces.idx
      unfold Covers
      omega
    rw [hmem]
    exact (hagree.u16 hin).trans hwaits.txAvail
  have hatRest : ∀ b, Runs u.dev (seen layout.rxQueue rxSeen rxUsed) u.queue u.mem b → AtRest (fuel + 2) b := by
    intro b hruns
    rw [hseen] at hruns
    exact hsettled.atRest hruns hattached' hnone'
  refine ⟨u, ?_, ?_, hatRest, fun b hb => ⟨?_, ?_⟩⟩
  · have hframe := hwaits.frameIn hlength
    rw [← hwaits.desc] at hframe
    rw [hdev]
    refine congrArg (dev.sent ++ ·) ((congrArg Option.toList hframe).trans ?_)
    split_ifs <;> rfl
  · rw [hmem]
    exact (hheld.toRingsHeld.usedEntry (txDesc s) len).idx
  · rcases hb with hruns | hruns
    · obtain ⟨b', hrun, hruns'⟩ := hruns.tick (rx_idle (c := ⟨dev, _, m, []⟩) hattached hrings hnone) rfl htick hready
      exact ⟨b', hrun, .inr hruns'⟩
    · exact ⟨b, hatRest b hruns, .inr hruns⟩
  · rcases hb with hruns | hruns
    · exact hruns.notify_tx htick hready
    · refine ⟨b, write_queueNotify.trans (notifyQueue_of_idle hruns.tx_eq fun _ => ?_), hruns⟩
      rw [IdleOn, hruns.contextOf_eq, hseen]
      exact tx_idle (c := ⟨_, _, _, _⟩) hattached' (queueHeld hsettled.txQueue).toRingsHeld
        (published_nil hsettled.txAvail)

end Waiting

/-- **Sending.** The call returns, and the TAP device has been given the frame without its first two bytes, or
nothing if it has only one. -/
theorem virtioNetSend_of_ready (fuel : Nat) {rxSeen : UInt16} (hready : Ready layout rxSeen [] g)
    (hload : g.bus.mem.load buf length.toNat = frame) (hapart : Apart buf frame.length layout.txBuffer bufSize)
    (hlength : frame.length ≤ 1514) :
    ∃ g', virtioNetSend layout (fuel + 2) buf length g = .ok 0 g' ∧ g'.bus.transport.device.sent =
      g.bus.transport.device.sent ++ (if 2 ≤ frame.length then [frame.drop 2] else []) := by
  have hcount : length.toNat = frame.length := by rw [← hload, Ram.length_load]
  have hsettled : Settled layout g.statics.txAvailIdx g.bus.mem :=
    ⟨hready.valid.rxQueue, hready.valid.txQueue, hready.txAvail⟩
  have hatRest (m : Ram) (hm : Settled layout g.statics.txAvailIdx m) : AtRest (fuel + 2) { g.bus with mem := m } :=
    hm.atRest (hready.runs m) hready.attached hready.frames
  obtain ⟨g1, hfill, hstatics1, hbus1, hsettled1⟩ :=
    fillTxBuffer_of_atRest hatRest hsettled hready.valid hload hapart hlength
  obtain ⟨g2, hpublish, hstatics2, hbus2⟩ := publishTx_of_atRest (g := g1) length
    (by rw [hbus1]; exact hatRest) hsettled1
  have hmem : g2.bus.mem = g.bus.mem.storeAll (txBlocks layout g.statics frame).flatten := by
    rw [hbus2, hbus1, hstatics1, hcount]
    exact List.foldl_append.symm
  have hbus : g2.bus = { g.bus with mem := g2.bus.mem } := by rw [hbus2, hbus1]
  have hruns := hready.runs g2.bus.mem
  rw [← hbus] at hruns
  have hwaits := txWaits (s := g.statics) hready.valid hlength
  rw [← hmem] at hwaits
  obtain ⟨u, hsent, hused, hdone, hflight⟩ := hwaits.served hlength hready.attached hready.frames fuel
  -- Ticks before the notification may serve the frame; after it, it has been served.
  obtain ⟨_, b, hnotify, hruns'⟩ := access_of_stable (g := g2) (Q := fun _ b => Runs u.dev _ u.queue u.mem b)
    (fun b hb => (hflight b hb).1) (fun b hb => ⟨(), (hflight b hb).2⟩) (.inl hruns)
  have hlast : (g2.next b).statics.txLastUsed = g.statics.txLastUsed := by
    show g2.statics.txLastUsed = _
    rw [hstatics2, hstatics1]
    rfl
  have hnew : (g2.next b).bus.mem.u16 (used layout.txQueue + 2) ≠ (g2.next b).statics.txLastUsed := by
    show b.mem.u16 _ ≠ _
    rw [hruns'.mem, hused, hlast]
    exact succ_idx_ne _
  have hwait := waitUsed_of_atRest (g := g2.next b) (hdone b hruns') (fuel + 1) hnew
  refine ⟨{ (g2.next b).next b with statics := { g2.statics with txLastUsed := g2.statics.txLastUsed + 1 } }, ?_, ?_⟩
  · unfold virtioNetSend
    rw [if_neg (by unfold bufSize hdrSize; omega)]
    refine (bind_of_ok hfill).trans ((bind_of_ok hpublish).trans ((bind_of_ok hnotify).trans ?_))
    refine get_bind.trans ((bind_of_ok hwait).trans ?_)
    exact (bind_of_ok rfl).trans rfl
  · show b.transport.device.sent = _
    rw [hruns'.device, hsent]

end Send

end Transmit

end NetDriver

end FerrumVM
