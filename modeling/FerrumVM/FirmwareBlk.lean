import FerrumVM.BlkRefinement
import FerrumVM.FirmwareSetup

/-! The block driver of the firmware, `guest/firmware/virtio/blk.c`, at work with the block device. A call of
`virtio_blk_read` lays its request out in three descriptors, publishes it and waits; a tick that comes in
before the request is published finds nothing to do, the first one after it carries the request out, and the
notification does so if no tick has. -/

namespace FerrumVM

open Base Program MMIOTransport Virtqueue VirtioQueue

/-! ### The driver -/

/-- Where `blk_queue` and the static `request` of `virtio_blk_read` stand. -/
structure BlkLayout where
  queue : UInt64
  request : UInt64

structure BlkStatics where
  nextDesc : UInt16
  availIdx : UInt16
  lastUsed : UInt16
  config : Bytes

/-- A call of `virtio_blk_read`; `status` is where its local variable stands on the stack. -/
structure BlkRead where
  sector : UInt64
  length : UInt32
  buf : UInt64
  status : UInt64

namespace BlkDriver

open Guest

section Driver

variable {D : Type} [VirtioDevice D Ram]

/-- The part of `virtio_blk_init` between the reset and `DRIVER_OK`. -/
def configure (layout : BlkLayout) (fuel : Nat) : Program (Guest BlkStatics D) Unit := do
  mmioWrite fuel VirtioMmio.status VirtioMmio.statusAcknowledge
  mmioWrite fuel VirtioMmio.status (VirtioMmio.statusAcknowledge ||| VirtioMmio.statusDriver)
  let features ← mmioRead fuel VirtioMmio.deviceFeatures
  mmioWrite fuel VirtioMmio.drvrFeatures features
  mmioWrite fuel VirtioMmio.status
    (VirtioMmio.statusAcknowledge ||| VirtioMmio.statusDriver ||| VirtioMmio.statusFeaturesOk)
  setupQueue fuel 0 layout.queue

/-- The copy of the 24 bytes of the configuration; how it is cut into accesses is left to the compiler. -/
def readConfig (fuel : Nat) : Program (Guest BlkStatics D) Unit := do
  let capacity ← access fuel (MMIOTransport.read VirtioMmio.config 8)
  let maxima ← access fuel (MMIOTransport.read (VirtioMmio.config + 8) 8)
  let blkSize ← access fuel (MMIOTransport.read (VirtioMmio.config + 16) 8)
  setStatics fun s => { s with config := capacity ++ maxima ++ blkSize }

def virtioBlkInit (layout : BlkLayout) (fuel : Nat) : Program (Guest BlkStatics D) Unit := do
  mmioWrite fuel VirtioMmio.status 0
  configure layout fuel
  mmioWrite fuel VirtioMmio.status (VirtioMmio.statusAcknowledge ||| VirtioMmio.statusDriver |||
    VirtioMmio.statusFeaturesOk ||| VirtioMmio.statusDriverOk)
  readConfig fuel

/-- `(blk_next_desc + i) % QUEUE_SIZE`. -/
def desc (s : BlkStatics) (i : UInt16) : UInt16 := (s.nextDesc + i) % queueSize

def assignments (layout : BlkLayout) (s : BlkStatics) (call : BlkRead) : List (List (UInt64 × Bytes)) :=
  [[(layout.request, u32ToLe 0), (layout.request + 8, u64ToLe call.sector)],
    VirtioQueue.descFields layout.queue (desc s 0) ⟨layout.request, 16, virtqDescFNext, desc s 1⟩,
    VirtioQueue.descFields layout.queue (desc s 1)
      ⟨call.buf, call.length, virtqDescFWrite ||| virtqDescFNext, desc s 2⟩,
    [(call.status, [0xFF])],
    VirtioQueue.descFields layout.queue (desc s 2) ⟨call.status, 1, virtqDescFWrite, 0⟩,
    [(Virtqueue.availSlot layout.queue s.availIdx, u16ToLe (desc s 0))]]

def publish (layout : BlkLayout) (fuel : Nat) (call : BlkRead) : Program (Guest BlkStatics D) Unit := do
  let s := (← get).statics
  storeEach fuel (assignments layout s call).flatten
  setStatics fun s => { s with nextDesc := desc s 3, availIdx := s.availIdx + 1 }
  store fuel (Virtqueue.avail layout.queue + 2) (u16ToLe (s.availIdx + 1))

def takeUsed (layout : BlkLayout) (fuel : Nat) : Program (Guest BlkStatics D) Unit := do
  let s := (← get).statics
  waitUsed fuel (Virtqueue.used layout.queue + 2) s.lastUsed fuel
  let _written ← load fuel (Virtqueue.usedSlot layout.queue s.lastUsed + 4) 4
  setStatics fun s => { s with lastUsed := s.lastUsed + 1 }

def awaitStatus (layout : BlkLayout) (fuel : Nat) (call : BlkRead) : Program (Guest BlkStatics D) UInt8 := do
  if (← mmioRead fuel VirtioMmio.queueReady) ≠ 1 then serialPuts "virtio-blk: queue not ready!\n"
  takeUsed layout fuel
  return (← load fuel call.status 1).headD 0

def virtioBlkRead (layout : BlkLayout) (fuel : Nat) (call : BlkRead) : Program (Guest BlkStatics D) UInt8 := do
  publish layout fuel call
  mmioWrite fuel VirtioMmio.queueNotify 0
  awaitStatus layout fuel call

def reads (layout : BlkLayout) (fuel : Nat) : List BlkRead → Program (Guest BlkStatics D) Unit
  | [] => return ()
  | call :: calls => do
      let _status ← virtioBlkRead layout fuel call
      reads layout fuel calls

end Driver

/-! ### The transport of the block device -/

section Transport

variable {H : HostOs} {fuel : Nat} {b : Bus (BlkVirtio H) Ram} {c u : Ctx (BlkVirtio H) Ram} {worked : Bool}

/-- The transport runs one queue of the device, and both are as in the context. -/
structure Shows (c : Ctx (BlkVirtio H) Ram) (b : Bus (BlkVirtio H) Ram) : Prop where
  device : b.transport.device = c.dev
  queues : b.transport.queues = [c.queue]
  sel : b.transport.queueSel = 0
  mem : b.mem = c.mem
  log : b.log = c.log.map (Prod.mk 0)
  running : b.transport.status &&& 4 ≠ 0
  ready : c.queue.ready = true

def fresh (c : Ctx (BlkVirtio H) Ram) : Ctx (BlkVirtio H) Ram := { c with log := [] }

def continued (c u : Ctx (BlkVirtio H) Ram) : Ctx (BlkVirtio H) Ram := { u with log := c.log ++ u.log }

theorem Shows.contextOf_eq (h : Shows c b) : contextOf b c.queue = fresh c := by
  rw [contextOf, h.device, h.mem]
  rfl

theorem Shows.queue_eq (h : Shows c b) : b.transport.queues[0]? = some c.queue := by
  rw [h.queues]
  rfl

theorem Shows.served (h : Shows c b) (worked : Bool) (hready : u.queue.ready = true) (irqHandler : IRQHandler) :
    Shows (continued c u) { pendingIf worked (Guest.served b 0 u) with irqHandler } := by
  have hqueues : b.transport.queues.set 0 u.queue = [u.queue] := by
    rw [h.queues]
    rfl
  have hlog : b.log ++ u.log.map (Prod.mk 0) = (c.log ++ u.log).map (Prod.mk 0) := by
    rw [h.log, List.map_append]
  cases worked with
  | false => exact ⟨rfl, hqueues, h.sel, rfl, hlog, h.running, hready⟩
  | true => exact ⟨rfl, hqueues, h.sel, rfl, hlog, h.running, hready⟩

section

variable (h : Shows c b) (htick : VirtioDevice.tick fuel 0 (fresh c) = .ok worked u) (hready : u.queue.ready = true)
include h htick hready

theorem tick_of_shows : ∃ b', MMIOTransport.tick fuel b = .ok () b' ∧ Shows (continued c u) b' := by
  rw [← h.contextOf_eq] at htick
  have hqueues : tickQueues fuel b.transport.queues.length 0 b = .ok () (pendingIf worked (Guest.served b 0 u)) := by
    rw [h.queues]
    exact (tickQueues_succ 0 h.queue_eq h.ready htick).trans rfl
  obtain ⟨irqHandler, hrun⟩ := tick_of_tickQueues h.running hqueues rfl
  exact ⟨_, hrun, h.served worked hready irqHandler⟩

theorem notify_of_shows :
    ∃ b', MMIOTransport.write fuel VirtioMmio.queueNotify (u32ToLe 0) b = .ok () b' ∧ Shows (continued c u) b' := by
  rw [← h.contextOf_eq] at htick
  obtain ⟨irqHandler, hrun⟩ := notifyQueue_of_tick h.queue_eq h.ready htick
  exact ⟨_, write_queueNotify.trans hrun, h.served worked hready irqHandler⟩

end

theorem atRest_of_shows (h : Shows c b) (hidle : VirtioDevice.tick fuel 0 (fresh c) = .ok false (fresh c)) :
    AtRest fuel b := by
  refine atRest_of_idle (fun idx queue hqueue _ => ?_) rfl
  rw [h.queues] at hqueue
  match idx with
  | 0 =>
    cases hqueue
    rw [IdleOn, h.contextOf_eq]
    exact hidle
  | idx + 1 => cases hqueue

end Transport

/-! ### What the device does with the requests -/

section Device

variable {limits : DiskLimits} {fuel : Nat} {c u : Ctx (DiskBlk limits) Ram} {r : DriverRequest}

theorem tick_idle (hheld : c.queue.RingsHeld c.mem) (hattached : c.dev.attached = true)
    (hnone : c.queue.published c.mem = []) : VirtioDevice.tick fuel 0 c = .ok false c := by
  rw [BlkVirtio.tick_of_attached fuel hattached]
  exact bind_of_ok (popAvail_nil hheld hnone)

theorem tick_request (h : BlkVirtio.Outstanding c.queue c.mem [r]) (hattached : c.dev.attached = true)
    (hfits : r.sector.toNat * 512 < 2 ^ 64) :
    ∃ worked u, VirtioDevice.tick fuel 0 c = .ok worked u ∧ BlkVirtio.Carried r (c.pop c.dev r.head) u ∧
      BlkVirtio.Outstanding u.queue u.mem [] := by
  obtain ⟨worked, u, hpop, hserve, hcarried, hrest⟩ := h.serve_first hfits
  have hnone := popAvail_nil (D := DiskBlk limits) hrest.held.toRingsHeld hrest.heads
  refine ⟨false || worked, u, ?_, hcarried, hrest⟩
  rw [BlkVirtio.tick_of_attached fuel hattached, drainBatch, maxBatch, drainWith, bind_of_ok hpop]
  refine (bind_of_ok hserve).trans ?_
  rw [drainWith]
  exact bind_of_ok hnone

section Carried

variable {t : Ctx (DiskBlk limits) Ram} (h : BlkVirtio.Carried r t u) (hheld : t.queue.QueueHeld t.mem)
  (hw : r.WellFormed t.queue) (hp : r.InPlace t.queue t.mem) (hread : r.write = false)

include h hheld hw hp hread

theorem carried_inside (hsize : t.dev.contents.length ≤ limits.sizeMax)
    (hin : r.sector.toNat * 512 + r.dataSection.len.toNat ≤ t.dev.contents.length) :
    u.mem.load r.statusByte.addr 1 = [0] ∧ u.dev.contents = t.dev.contents ∧
      u.mem.load r.dataSection.addr r.dataSection.len.toNat =
        window t.dev.contents (r.sector.toNat * 512) r.dataSection.len.toNat := by
  have hinside : r.op.Inside t.dev.contents.length := by
    rw [DriverRequest.op_of_read hread]
    exact hin
  obtain ⟨hcontents, hwrites⟩ := BlkVirtio.carryOut_inside_read (m := t.mem) hsize hinside hread
  have hload {w : UInt64 × Bytes} (hmem : w ∈ (BlkVirtio.carryOut t.dev t.mem r.chain).writes) :
      u.mem.load w.1 w.2.length = w.2 := h.load hheld hw hp hmem
  rw [hwrites] at hload
  have hdata := hload List.mem_cons_self
  rw [length_window hin] at hdata
  refine ⟨hload (List.mem_cons_of_mem _ List.mem_cons_self), ?_, hdata⟩
  rw [h.dev]
  exact hcontents

/-- A read that goes beyond the disk leaves the buffer alone, and the status that the driver put there is
changed to another one than zero or stays. -/
theorem carried_outside (hfits : r.sector.toNat * 512 < 2 ^ 64) (hlen : 0 < r.dataSection.len.toNat)
    (hout : t.dev.contents.length < r.sector.toNat * 512 + r.dataSection.len.toNat)
    (hstatus : t.mem.load r.statusByte.addr 1 = [0xFF]) :
    (u.mem.load r.statusByte.addr 1).headD 0 ≠ 0 ∧ u.dev.contents = t.dev.contents ∧
      u.mem.load r.dataSection.addr r.dataSection.len.toNat =
        t.mem.load r.dataSection.addr r.dataSection.len.toNat := by
  have hkept {addr : UInt64} {n : Nat} (hbuffer : (addr, n) ∈ r.buffers)
      (hwrites : ∀ w ∈ (BlkVirtio.carryOut t.dev t.mem r.chain).writes, Apart w.1 w.2.length addr n) :
      u.mem.load addr n = t.mem.load addr n := by
    refine (h.frame hheld).load addr n fun p hp => ?_
    rcases List.mem_cons.mp hp with rfl | hp
    · exact (hw.clear _ hbuffer _ t.queue.used_mem).symm
    · obtain ⟨w, hmem, rfl⟩ := List.mem_map.mp hp
      exact hwrites w hmem
  have hdev := congrArg BlkVirtio.contents h.dev
  have hoffset : r.chain.offset < 2 ^ 64 := hfits
  by_cases hle : r.chain.offset ≤ limits.seekMax
  · have hout' : ¬(r.chain.dataSection.len.toNat = 0 ∨
        r.chain.offset + r.chain.dataSection.len.toNat ≤ t.dev.contents.length) :=
      not_or.mpr ⟨Nat.ne_of_gt hlen, Nat.not_le.mpr hout⟩
    obtain ⟨hcontents, hwrites⟩ := BlkVirtio.carryOut_unreadable (m := t.mem) hoffset hle hread hout'
    have hone : u.mem.load r.statusByte.addr 1 = [1] := by
      have hload := h.load hheld hw hp (w := (r.statusByte.addr, [1])) (by rw [hwrites]; exact List.mem_singleton_self _)
      exact hload
    refine ⟨by rw [hone]; decide, hdev.trans hcontents, hkept r.dataSection_mem fun w hmem => ?_⟩
    rw [hwrites] at hmem
    rw [List.mem_singleton.mp hmem]
    exact hw.data_status.symm
  · have hfar := BlkVirtio.carryOut_far (s := t.dev) (m := t.mem) hoffset (Nat.lt_of_not_le hle)
    have hnone : ∀ w ∈ (BlkVirtio.carryOut t.dev t.mem r.chain).writes, ∀ addr n, Apart w.1 w.2.length addr n := by
      rw [hfar]
      exact nofun
    refine ⟨?_, hdev.trans (by rw [hfar]), hkept r.dataSection_mem fun w hmem => hnone w hmem _ _⟩
    rw [hkept r.statusByte_mem fun w hmem => hnone w hmem _ _, hstatus]
    decide

end Carried

end Device

/-! ### The request in memory -/

end BlkDriver

/-- The static variables stand in RAM, below the 4 GiB that the queue registers are given 32 bits for. -/
structure BlkLayout.Valid (layout : BlkLayout) (m : Ram) : Prop where
  queue : m.Holds layout.queue Virtqueue.sizeInBytes
  low : layout.queue.toNat + Virtqueue.sizeInBytes ≤ 2 ^ 32
  request : m.Holds layout.request 16
  apart : Apart layout.queue Virtqueue.sizeInBytes layout.request 16

/-- A call for at least one byte, with a buffer in RAM apart from what the driver itself uses. -/
structure BlkRead.Valid (layout : BlkLayout) (m : Ram) (call : BlkRead) : Prop where
  length_pos : 0 < call.length.toNat
  buf : m.Holds call.buf call.length.toNat
  status : m.Holds call.status 1
  buf_queue : Apart call.buf call.length.toNat layout.queue Virtqueue.sizeInBytes
  buf_request : Apart call.buf call.length.toNat layout.request 16
  buf_status : Apart call.buf call.length.toNat call.status 1
  status_queue : Apart call.status 1 layout.queue Virtqueue.sizeInBytes
  status_request : Apart call.status 1 layout.request 16

theorem BlkLayout.Valid.congr {layout : BlkLayout} {m m' : Ram} (h : layout.Valid m)
    (hlands : landsIn m'.regions = landsIn m.regions) : layout.Valid m' :=
  ⟨h.queue.congr hlands, h.low, h.request.congr hlands, h.apart⟩

theorem BlkRead.Valid.congr {layout : BlkLayout} {m m' : Ram} {call : BlkRead} (h : call.Valid layout m)
    (hlands : landsIn m'.regions = landsIn m.regions) : call.Valid layout m' :=
  ⟨h.length_pos, h.buf.congr hlands, h.status.congr hlands, h.buf_queue, h.buf_request, h.buf_status, h.status_queue,
    h.status_request⟩

namespace BlkDriver

open Guest

section Layout

variable {layout : BlkLayout} {m : Ram} {s : BlkStatics} {call : BlkRead}

def blocks (layout : BlkLayout) (s : BlkStatics) (call : BlkRead) : List (List (UInt64 × Bytes)) :=
  assignments layout s call ++ [[(Virtqueue.avail layout.queue + 2, u16ToLe (s.availIdx + 1))]]

def entry (layout : BlkLayout) (s : BlkStatics) (i : UInt16) : UInt64 := layout.queue + (desc s i).toUInt64 * 16

def ranges (layout : BlkLayout) (s : BlkStatics) (call : BlkRead) : List (UInt64 × Nat) :=
  [(layout.request, 16), (entry layout s 0, 16), (entry layout s 1, 16), (call.status, 1), (entry layout s 2, 16),
    (Virtqueue.availSlot layout.queue s.availIdx, 2), (Virtqueue.avail layout.queue + 2, 2)]

theorem desc_lt (s : BlkStatics) (i : UInt16) : (desc s i).toNat < 16 := by
  have hmod := UInt16.toNat_mod (s.nextDesc + i) queueSize
  unfold desc
  rw [hmod]
  exact Nat.mod_lt _ (by decide)

theorem desc_ne (s : BlkStatics) : (desc s 0).toNat ≠ (desc s 1).toNat ∧ (desc s 0).toNat ≠ (desc s 2).toNat ∧
    (desc s 1).toNat ≠ (desc s 2).toNat := by
  have hnat (i : UInt16) : (desc s i).toNat = (s.nextDesc.toNat + i.toNat) % 2 ^ 16 % 16 := by
    rw [desc, UInt16.toNat_mod, UInt16.toNat_add]
    rfl
  rw [hnat, hnat, hnat]
  simp only [UInt16.reduceToNat]
  omega

theorem ranges_cases (hl : layout.Valid m) : ∀ r ∈ ranges layout s call,
    r = (layout.request, 16) ∨ r = (call.status, 1) ∨ Covers layout.queue sizeInBytes r.1 r.2 := by
  have hpart {addr : UInt64} {n : Nat} (o : Nat) (haddr : addr.toNat = layout.queue.toNat + o) (hin : o + n ≤ 428) :
      Covers layout.queue sizeInBytes addr n := ⟨by omega, by unfold sizeInBytes; omega⟩
  have hentry (i : UInt16) : Covers layout.queue sizeInBytes (entry layout s i) 16 := by
    have hlt := desc_lt s i
    exact hpart _ (toNat_entry hl.queue hlt) (by omega)
  have hslot : Covers layout.queue sizeInBytes (availSlot layout.queue s.availIdx) 2 := by
    have haddr := toNat_availSlot hl.queue s.availIdx
    exact hpart (260 + 2 * (s.availIdx.toNat % 16)) (by omega) (by omega)
  have hidx : Covers layout.queue sizeInBytes (avail layout.queue + 2) 2 :=
    hpart 258 (toNat_availIdx hl.queue) (by decide)
  intro r hr
  simp only [ranges, List.mem_cons, List.not_mem_nil, or_false] at hr
  rcases hr with rfl | rfl | rfl | rfl | rfl | rfl | rfl
  · exact Or.inl rfl
  · exact Or.inr (Or.inr (hentry 0))
  · exact Or.inr (Or.inr (hentry 1))
  · exact Or.inr (Or.inl rfl)
  · exact Or.inr (Or.inr (hentry 2))
  · exact Or.inr (Or.inr hslot)
  · exact Or.inr (Or.inr hidx)

section Laid

variable (hl : layout.Valid m) (hc : call.Valid layout m)

include hl hc

theorem pairwise_ranges : (ranges layout s call).Pairwise fun r r' => Apart r.1 r.2 r'.1 r'.2 := by
  have hentry (i : UInt16) : (entry layout s i).toNat = layout.queue.toNat + 16 * (desc s i).toNat :=
    toNat_entry hl.queue (desc_lt s i)
  have h0 := hentry 0
  have h1 := hentry 1
  have h2 := hentry 2
  have hlt0 := desc_lt s 0
  have hlt1 := desc_lt s 1
  have hlt2 := desc_lt s 2
  obtain ⟨hne, hne', hne''⟩ := desc_ne s
  have hidx := toNat_availIdx hl.queue
  have hslot := toNat_availSlot hl.queue s.availIdx
  have hrequest := hl.apart
  have hstatus := hc.status_queue
  have hstatus' := hc.status_request
  unfold Apart sizeInBytes at hrequest hstatus
  unfold Apart at hstatus'
  simp only [ranges, List.pairwise_cons, List.mem_cons, List.not_mem_nil, or_false, forall_eq_or_imp, forall_eq, Apart,
    h0, h1, h2, hidx, hslot, false_imp_iff, implies_true, and_true, List.Pairwise.nil]
  refine ⟨?_, ?_, ?_, ?_, ?_, ?_⟩
  all_goals omega

theorem held_ranges : ∀ r ∈ ranges layout s call, m.Holds r.1 r.2 := by
  intro r hr
  rcases ranges_cases hl r hr with rfl | rfl | hin
  · exact hl.request
  · exact hc.status
  · exact hl.queue.sub hin

theorem laid : m.Laid (ranges layout s call) (blocks layout s call) := by
  have hfits {r : UInt64 × Nat} (hr : r ∈ ranges layout s call) : r.1.toNat + r.2 ≤ 2 ^ 64 :=
    (held_ranges hl hc r hr).fits
  have hentry (i : UInt16) (hr : (entry layout s i, 16) ∈ ranges layout s call) (d : VirtqDesc) :
      Within (entry layout s i, 16) (descFields layout.queue (desc s i) d) :=
    descFields_within d (hfits hr)
  have hsector : (layout.request + 8).toNat = layout.request.toNat + 8 := by
    have hend := hl.request.fits
    exact toNat_add_of_lt (by simp; omega)
  have hone (addr : UInt64) (data : Bytes) : Within (addr, data.length) [(addr, data)] := by
    intro w hw
    rw [List.mem_singleton.mp hw]
    exact .refl _ _
  have hrequest : Within (layout.request, 16) [(layout.request, u32ToLe 0), (layout.request + 8, u64ToLe call.sector)] := by
    intro w hw
    rcases List.mem_pair.mp hw with rfl | rfl
    · exact ⟨le_rfl, by simp⟩
    · exact ⟨by dsimp only; omega, by simp only [length_u64ToLe]; omega⟩
  refine ⟨?_, pairwise_ranges hl hc, fun block hblock => ?_, held_ranges hl hc⟩
  · refine .cons hrequest (.cons (hentry 0 (by simp [ranges]) _) (.cons (hentry 1 (by simp [ranges]) _) ?_))
    refine .cons (hone _ _) (.cons (hentry 2 (by simp [ranges]) _) (.cons ?_ (.cons ?_ .nil)))
    · exact hone _ (u16ToLe (desc s 0))
    · exact hone _ (u16ToLe (s.availIdx + 1))
  · have hfields (i : UInt16) (hr : (entry layout s i, 16) ∈ ranges layout s call) (d : VirtqDesc) :=
      pairwise_descFields d (hfits hr)
    simp only [blocks, assignments, List.cons_append, List.nil_append, List.mem_cons, List.not_mem_nil, or_false] at hblock
    rcases hblock with rfl | rfl | rfl | rfl | rfl | rfl | rfl
    · refine List.pairwise_pair.mpr (Or.inl ?_)
      simp only [length_u32ToLe]
      omega
    · exact hfields 0 (by simp [ranges]) _
    · exact hfields 1 (by simp [ranges]) _
    · exact List.pairwise_singleton _ _
    · exact hfields 2 (by simp [ranges]) _
    · exact List.pairwise_singleton _ _
    · exact List.pairwise_singleton _ _

theorem assignments_apart : ∀ w ∈ (assignments layout s call).flatten,
    Apart w.1 w.2.length (avail layout.queue + 2) 2 := by
  have hlaid := laid (s := s) hl hc
  have hpairs := Ram.pairwise_flatten hlaid.within hlaid.apart hlaid.inner
  unfold blocks at hpairs
  rw [List.flatten_append] at hpairs
  intro w hw
  have happart := (List.pairwise_append.mp hpairs).2.2 w hw
    (avail layout.queue + 2, u16ToLe (s.availIdx + 1)) (List.mem_singleton_self _)
  rwa [StoresApart, length_u16ToLe] at happart

theorem assignments_ne : ∀ w ∈ (assignments layout s call).flatten, w.1 ≠ avail layout.queue + 2 := by
  have hpos : ∀ w ∈ (assignments layout s call).flatten, 0 < w.2.length := by
    intro w hw
    obtain ⟨block, hblock, hw⟩ := List.mem_flatten.mp hw
    have hfields (i : UInt16) (d : VirtqDesc) (hw : w ∈ descFields layout.queue i d) : 0 < w.2.length := by
      simp only [descFields, List.mem_cons, List.not_mem_nil, or_false] at hw
      rcases hw with rfl | rfl | rfl | rfl <;> exact Nat.succ_pos _
    simp only [assignments, List.mem_cons, List.not_mem_nil, or_false] at hblock
    rcases hblock with rfl | rfl | rfl | rfl | rfl | rfl
    · rcases List.mem_pair.mp hw with rfl | rfl <;> exact Nat.succ_pos _
    · exact hfields _ _ hw
    · exact hfields _ _ hw
    · rw [List.mem_singleton.mp hw]
      exact Nat.succ_pos _
    · exact hfields _ _ hw
    · rw [List.mem_singleton.mp hw]
      exact Nat.succ_pos _
  intro w hw heq
  have happart := assignments_apart hl hc w hw
  have hpos := hpos w hw
  rw [heq] at happart
  unfold Apart at happart
  omega

end Laid

def request (layout : BlkLayout) (s : BlkStatics) (call : BlkRead) : DriverRequest where
  head := desc s 0
  header := ⟨layout.request, 16, virtqDescFNext, desc s 1⟩
  dataSection := ⟨call.buf, call.length, virtqDescFWrite ||| virtqDescFNext, desc s 2⟩
  statusByte := ⟨call.status, 1, virtqDescFWrite, 0⟩
  write := false
  sector := call.sector
  payload := []

def publishedIn (m : Ram) (layout : BlkLayout) (s : BlkStatics) (call : BlkRead) : Ram :=
  m.storeAll (blocks layout s call).flatten

abbrev queueOf (layout : BlkLayout) (s : BlkStatics) : VirtioQueue :=
  Virtqueue.seen layout.queue s.availIdx s.lastUsed

section Published

variable (hl : layout.Valid m) (hc : call.Valid layout m)

include hl hc

theorem wellFormed_request : (request layout s call).WellFormed (queueOf layout s) := by
  have hheader : (virtqDescFNext &&& virtqDescFWrite != 0) = false ∧ (virtqDescFNext &&& virtqDescFNext != 0) = true := by
    decide
  have hdata : ((virtqDescFWrite ||| virtqDescFNext) &&& virtqDescFNext != 0) = true ∧
      ((virtqDescFWrite ||| virtqDescFNext) &&& virtqDescFWrite != 0) = true := by decide
  have hstatus : (virtqDescFWrite &&& virtqDescFWrite != 0) = true := by decide
  refine ⟨desc_lt s 0, hheader.1, hheader.2, rfl, desc_lt s 1, hdata.1, hdata.2, desc_lt s 2, hstatus, Nat.one_pos,
    fun b hb p hp => ?_, ?_⟩
  · refine Apart.of_covers (b := layout.queue) (k := sizeInBytes) ?_
      (parts_covered hl.queue p hp)
    simp only [DriverRequest.buffers, request, List.mem_cons, List.not_mem_nil, or_false] at hb
    rcases hb with rfl | rfl | rfl
    · exact hl.apart.symm
    · exact hc.buf_queue
    · exact hc.status_queue
  · simp only [DriverRequest.buffers, request, List.pairwise_cons, List.mem_cons, List.not_mem_nil, or_false,
      forall_eq_or_imp, forall_eq, false_imp_iff, implies_true, and_true, List.Pairwise.nil]
    exact ⟨⟨hc.buf_request.symm, hc.status_request.symm⟩, hc.buf_status⟩

theorem inPlace_request : (request layout s call).InPlace (queueOf layout s) (publishedIn m layout s call) := by
  have hlaid := laid (s := s) hl hc
  have hload {block : List (UInt64 × Bytes)} {w : UInt64 × Bytes} (hblock : block ∈ blocks layout s call)
      (hw : w ∈ block) : (publishedIn m layout s call).load w.1 w.2.length = w.2 := hlaid.load block hblock w hw
  refine ⟨?_, ?_, ?_, ?_, ?_, nofun, fun b hb => ?_⟩
  · exact descAt_of_fields fun w hw => hload (by simp [blocks, assignments, request, seen]) hw
  · exact descAt_of_fields fun w hw => hload (by simp [blocks, assignments, request, seen]) hw
  · exact descAt_of_fields fun w hw => hload (by simp [blocks, assignments, request, seen]) hw
  · have htype := hload (w := (layout.request, u32ToLe 0)) List.mem_cons_self List.mem_cons_self
    rw [length_u32ToLe] at htype
    exact (congrArg u32FromLe htype).trans (u32FromLe_toLe 0)
  · have hsector := hload (w := (layout.request + 8, u64ToLe call.sector)) List.mem_cons_self
      (List.mem_cons_of_mem _ List.mem_cons_self)
    rw [length_u64ToLe] at hsector
    exact (congrArg u64FromLe hsector).trans (u64FromLe_toLe _)
  · simp only [DriverRequest.buffers, request, List.mem_cons, List.not_mem_nil, or_false] at hb
    rcases hb with rfl | rfl | rfl
    · exact hl.request.frame hlaid.frame
    · exact hc.buf.frame hlaid.frame
    · exact hc.status.frame hlaid.frame

/-- **The request waits** once the index of the available ring is stored. -/
theorem outstanding_request :
    BlkVirtio.Outstanding (queueOf layout s) (publishedIn m layout s call) [request layout s call] := by
  have hlaid := laid (s := s) hl hc
  have hu16 {addr : UInt64} {val : UInt16} (hblock : [(addr, u16ToLe val)] ∈ blocks layout s call) :
      (publishedIn m layout s call).u16 addr = val := by
    have hload := hlaid.load _ hblock _ List.mem_cons_self
    rw [length_u16ToLe] at hload
    exact (congrArg u16FromLe hload).trans (u16FromLe_toLe val)
  have hidx : (publishedIn m layout s call).u16 (avail layout.queue + 2) = s.availIdx + 1 :=
    hu16 (by simp [blocks])
  have hhead : (publishedIn m layout s call).u16 (availSlot layout.queue s.availIdx) = desc s 0 :=
    hu16 (by simp [blocks, assignments])
  refine ⟨(queueHeld hl.queue).frame hlaid.frame, ?_, ?_, ?_, List.pairwise_singleton _ _⟩
  · rw [published_one hidx, hhead]
    rfl
  · intro r hr
    rw [List.mem_singleton.mp hr]
    exact wellFormed_request hl hc
  · intro r hr
    rw [List.mem_singleton.mp hr]
    exact inPlace_request hl hc

theorem published_buffers : Ram.Agree call.buf call.length.toNat m (publishedIn m layout s call) ∧
    (publishedIn m layout s call).load call.status 1 = [0xFF] := by
  have hlaid := laid (s := s) hl hc
  refine ⟨hlaid.frame.agree fun r hr => ?_, ?_⟩
  · rcases ranges_cases hl r hr with rfl | rfl | hin
    · exact hc.buf_request.symm
    · exact hc.buf_status.symm
    · exact (hc.buf_queue.of_covers hin).symm
  · have hblock : [(call.status, [(0xFF : UInt8)])] ∈ blocks layout s call := by simp [blocks, assignments]
    have hload := hlaid.load _ hblock _ List.mem_cons_self
    unfold publishedIn
    generalize m.storeAll (blocks layout s call).flatten = m' at hload ⊢
    exact hload

end Published

end Layout

end BlkDriver

end FerrumVM
