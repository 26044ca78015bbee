import FerrumVM.FirmwareBlk

/-! Calls of `virtio_blk_read` in a row. Between two calls nothing is published, and the indices of the driver
are those of the device, wherever in their 16 bits they are. A call publishes its own request and no other, so
whichever tick or notification comes first carries it out, and the call returns with what the device left. -/

namespace FerrumVM

open Base Program MMIOTransport Virtqueue BlkVirtio VirtioMmio

theorem retiredHeads_eq_usedEntries (log : List Event) : retiredHeads log = (usedEntries log).map Prod.fst := by
  unfold retiredHeads usedEntries
  rw [List.map_filterMap]
  refine List.filterMap_congr fun e _ => ?_
  cases e <;> rfl

/-- The first byte that is asked for has an offset that fits 64 bits. -/
def BlkRead.Fits (call : BlkRead) : Prop := call.sector.toNat * 512 < 2 ^ 64

def BlkRead.Inside (call : BlkRead) (disk : Bytes) : Prop :=
  call.sector.toNat * 512 + call.length.toNat ≤ disk.length

namespace BlkDriver

open Guest

variable {limits : DiskLimits} {layout : BlkLayout} {disk : Bytes} {fuel : Nat}
  {g : Guest BlkStatics (DiskBlk limits)}

/-! ### Between two calls -/

/-- The device has done all it was asked to do, and both sides have the same indices. -/
structure Idle (layout : BlkLayout) (disk : Bytes) (s : BlkStatics)
    (c : Ctx (BlkVirtio (HostOs.disk limits)) Ram) : Prop where
  queue : c.queue = queueOf layout s
  attached : c.dev.attached = true
  contents : c.dev.contents = disk
  valid : layout.Valid c.mem
  availIdx : c.mem.u16 (Virtqueue.avail layout.queue + 2) = s.availIdx
  usedIdx : c.mem.u16 (Virtqueue.used layout.queue + 2) = s.lastUsed

section Idle

variable {s : BlkStatics} {c : Ctx (DiskBlk limits) Ram} {b : Bus (DiskBlk limits) Ram}

theorem atRest_of_published_nil (h : Shows c b) (hheld : c.queue.RingsHeld c.mem) (hattached : c.dev.attached = true)
    (hnone : c.queue.published c.mem = []) : AtRest fuel b :=
  atRest_of_shows h (@tick_idle limits fuel (fresh c) hheld hattached hnone)

theorem Idle.published (h : Idle layout disk s c) : c.queue.published c.mem = [] := by
  rw [h.queue]
  exact published_nil h.availIdx

theorem Idle.held (h : Idle layout disk s c) : c.queue.QueueHeld c.mem := by
  rw [h.queue]
  exact queueHeld h.valid.queue

theorem Idle.atRest (h : Idle layout disk s c) (hshows : Shows c b) : AtRest fuel b :=
  atRest_of_published_nil hshows h.held.toRingsHeld h.attached h.published

theorem Shows.withMem (h : Shows c b) (m : Ram) : Shows { c with mem := m } { b with mem := m } :=
  ⟨h.device, h.queues, h.sel, rfl, h.log, h.running, h.ready⟩

end Idle

/-! ### Publishing -/

def advanced (s : BlkStatics) : BlkStatics := { s with nextDesc := desc s 3, availIdx := s.availIdx + 1 }

def publishing (layout : BlkLayout) (call : BlkRead) (g : Guest BlkStatics (BlkVirtio (HostOs.disk limits))) :
    Guest BlkStatics (BlkVirtio (HostOs.disk limits)) :=
  { g.storedAll (blocks layout g.statics call).flatten with statics := advanced g.statics }

section Call

variable {c : Ctx (DiskBlk limits) Ram} {call : BlkRead}

def publishedCtx (layout : BlkLayout) (s : BlkStatics) (call : BlkRead)
    (c : Ctx (BlkVirtio (HostOs.disk limits)) Ram) : Ctx (BlkVirtio (HostOs.disk limits)) Ram :=
  { c with mem := publishedIn c.mem layout s call }

/-- **Publishing.** Until the index of the available ring is stored, ticks find nothing to do. -/
theorem publish_of_idle (fuel : Nat) (hshows : Shows c g.bus) (h : Idle layout disk g.statics c) (hc : call.Valid layout c.mem) :
    publish layout fuel call g = .ok () (publishing layout call g) ∧
      Shows (publishedCtx layout g.statics call c) (publishing layout call g).bus := by
  have hidx := assignments_apart (s := g.statics) h.valid hc
  -- Ticks find nothing as long as the queue stands in RAM and the index is the old one.
  have hatRest (m : Ram) (hm : m.Holds layout.queue sizeInBytes ∧
      m.u16 (avail layout.queue + 2) = g.statics.availIdx) : AtRest fuel { g.bus with mem := m } := by
    refine atRest_of_published_nil (hshows.withMem m) ?_ h.attached ?_
    · dsimp only
      rw [h.queue]
      exact (queueHeld hm.1).toRingsHeld
    · dsimp only
      rw [h.queue]
      exact published_nil hm.2
  have hkeep : ∀ w ∈ (assignments layout g.statics call).flatten, ∀ m : Ram,
      (m.Holds layout.queue sizeInBytes ∧ m.u16 (avail layout.queue + 2) = g.statics.availIdx) →
      (m.store w.1 w.2).Holds layout.queue sizeInBytes ∧
        (m.store w.1 w.2).u16 (avail layout.queue + 2) = g.statics.availIdx := by
    intro w hw m hm
    exact ⟨hm.1.frame (Ram.Frame.store m _ _), (Ram.u16_store_of_disjoint (hidx w hw)).trans hm.2⟩
  have hstart : g.bus.mem.Holds layout.queue sizeInBytes ∧
      g.bus.mem.u16 (avail layout.queue + 2) = g.statics.availIdx := by
    rw [hshows.mem]
    exact ⟨h.valid.queue, h.availIdx⟩
  obtain ⟨hassign, hassigned⟩ := storeEach_of_atRest hatRest hkeep hstart
  have hlast : AtRest fuel { g.storedAll (assignments layout g.statics call).flatten with
      statics := advanced g.statics }.bus := hatRest _ hassigned
  refine ⟨?_, ?_⟩
  · have hflatten : (blocks layout g.statics call).flatten = (assignments layout g.statics call).flatten ++
        [(avail layout.queue + 2, u16ToLe (g.statics.availIdx + 1))] := List.flatten_append
    unfold publish publishing
    rw [get_bind]
    dsimp only
    rw [bind_of_ok hassign, hflatten, ← storedAll_storedAll]
    generalize (assignments layout g.statics call).flatten = writes at hlast
    exact (bind_of_ok rfl).trans (store_of_atRest hlast _ _)
  · unfold publishing publishedCtx publishedIn
    rw [← hshows.mem]
    generalize (blocks layout g.statics call).flatten = writes
    exact hshows.withMem (g.bus.mem.storeAll writes)

/-! ### Carrying the request out -/

structure Finished (layout : BlkLayout) (s : BlkStatics) (call : BlkRead)
    (c u : Ctx (BlkVirtio (HostOs.disk limits)) Ram) : Prop where
  carried : BlkVirtio.Carried (request layout s call) ((fresh c).pop c.dev (request layout s call).head) u
  rest : BlkVirtio.Outstanding u.queue u.mem []

def InFlight (layout : BlkLayout) (s : BlkStatics) (call : BlkRead) (c : Ctx (BlkVirtio (HostOs.disk limits)) Ram)
    (b : Bus (BlkVirtio (HostOs.disk limits)) Ram) : Prop :=
  Shows c b ∨ ∃ u, Finished layout s call c u ∧ Shows (continued c u) b

variable {s : BlkStatics} {u : Ctx (DiskBlk limits) Ram}

section

variable (h : Finished layout s call c u)
include h

theorem Finished.queue (hqueue : c.queue = queueOf layout s) :
    u.queue = seen layout.queue (s.availIdx + 1) (s.lastUsed + 1) := by
  rw [h.carried.queue]
  simp only [Ctx.pop, fresh, hqueue]
  rfl

theorem Finished.attached (hattached : c.dev.attached = true) : u.dev.attached = true := by
  rw [h.carried.dev, carryOut_attached]
  exact hattached

theorem Finished.retired : retiredHeads u.log = [desc s 0] := by
  rw [retiredHeads_eq_usedEntries, h.carried.entry]
  rfl

theorem Finished.idle (hattached : c.dev.attached = true) :
    VirtioDevice.tick fuel 0 (fresh (continued c u)) = .ok false (fresh (continued c u)) :=
  @tick_idle limits fuel (fresh (continued c u)) h.rest.held.toRingsHeld (h.attached hattached) h.rest.heads

end

section Waiting

variable (hwait : BlkVirtio.Outstanding c.queue c.mem [request layout s call]) (hattached : c.dev.attached = true)
  (hqueue : c.queue = queueOf layout s) (hfits : call.Fits)

include hwait hattached hqueue hfits

theorem tick_waiting : ∃ worked u, VirtioDevice.tick fuel 0 (fresh c) = .ok worked u ∧
    Finished layout s call c u ∧ u.queue.ready = true := by
  obtain ⟨worked, u, htick, hcarried, hrest⟩ := @tick_request limits fuel (fresh c) _ hwait hattached hfits
  have hfinished : Finished layout s call c u := ⟨hcarried, hrest⟩
  refine ⟨worked, u, htick, hfinished, ?_⟩
  rw [hfinished.queue hqueue]
  rfl

section

variable (fuel : Nat) (b : Bus (DiskBlk limits) Ram) (h : InFlight layout s call c b)
include h

theorem tick_inFlight : ∃ b', MMIOTransport.tick fuel b = .ok () b' ∧ InFlight layout s call c b' := by
  rcases h with hshows | ⟨u, hfinished, hshows⟩
  · obtain ⟨worked, u, htick, hfinished, hready⟩ := @tick_waiting _ _ fuel _ _ _ hwait hattached hqueue hfits
    obtain ⟨b', hrun, hshows'⟩ := tick_of_shows hshows htick hready
    exact ⟨b', hrun, Or.inr ⟨u, hfinished, hshows'⟩⟩
  · exact ⟨b, atRest_of_shows hshows (hfinished.idle hattached), Or.inr ⟨u, hfinished, hshows⟩⟩

/-- **The notification** carries the request out, if no tick has done so. -/
theorem notify_inFlight : ∃ a b', MMIOTransport.write fuel queueNotify (u32ToLe 0) b = .ok a b' ∧
      ∃ u, Finished layout s call c u ∧ Shows (continued c u) b' := by
  rcases h with hshows | ⟨u, hfinished, hshows⟩
  · obtain ⟨worked, u, htick, hfinished, hready⟩ := @tick_waiting _ _ fuel _ _ _ hwait hattached hqueue hfits
    obtain ⟨b', hrun, hshows'⟩ := notify_of_shows hshows htick hready
    exact ⟨(), b', hrun, u, hfinished, hshows'⟩
  · obtain ⟨b', hrun, hshows'⟩ := notify_of_shows hshows (hfinished.idle hattached) hshows.ready
    refine ⟨(), b', hrun, u, hfinished, ?_⟩
    have hsame : continued (continued c u) (fresh (continued c u)) = continued c u := by
      simp [continued, fresh]
    rwa [hsame] at hshows'

end

end Waiting

/-! ### After the notification -/

section Rest

variable (hshows : Shows c g.bus) (hatRest : AtRest fuel g.bus)

include hshows hatRest

theorem mmioRead_ready : mmioRead fuel queueReady g = .ok 1 (g.next g.bus) := by
  have hsel : (selected : Program (Bus (DiskBlk limits) Ram) VirtioQueue) g.bus = .ok c.queue g.bus := by
    show (lift (index g.bus.transport.queues g.bus.transport.queueSel) :
      Program (Bus (DiskBlk limits) Ram) VirtioQueue) g.bus = _
    rw [hshows.queues, hshows.sel]
    rfl
  have hreg : (readRegister .queueReady : Program (Bus (DiskBlk limits) Ram) UInt32) g.bus =
      .ok 1 g.bus := by
    refine (bind_of_ok hsel).trans ?_
    rw [hshows.ready]
    rfl
  have hread : (MMIOTransport.read queueReady 4 :
      Program (Bus (DiskBlk limits) Ram) Bytes) g.bus = .ok [1, 0, 0, 0] g.bus :=
    (bind_of_ok hreg).trans rfl
  exact access_of_atRest hatRest (bind_of_ok hread)

end Rest

theorem takeUsed_of_atRest (hfuel : 0 < fuel) (hatRest : AtRest fuel g.bus)
    (hused : g.bus.mem.u16 (used layout.queue + 2) = g.statics.lastUsed + 1) :
    takeUsed layout fuel g = .ok () { (g.next g.bus).next g.bus with
      statics := { g.statics with lastUsed := g.statics.lastUsed + 1 } } := by
  obtain ⟨rounds, rfl⟩ := Nat.exists_eq_add_one.mpr hfuel
  have hnew : g.bus.mem.u16 (used layout.queue + 2) ≠ g.statics.lastUsed := by
    rw [hused]
    exact succ_idx_ne _
  unfold takeUsed
  rw [get_bind]
  dsimp only
  rw [bind_of_ok (waitUsed_of_atRest hatRest rounds hnew)]
  exact bind_of_ok (load_of_atRest (g := g.next g.bus) hatRest _ _)

theorem awaitStatus_of_atRest (layout : BlkLayout) (call : BlkRead) (hfuel : 0 < fuel) (hshows : Shows c g.bus) (hatRest : AtRest fuel g.bus)
    (hused : g.bus.mem.u16 (used layout.queue + 2) = g.statics.lastUsed + 1) :
    ∃ g', awaitStatus layout fuel call g = .ok ((g.bus.mem.load call.status 1).headD 0) g' ∧ g'.bus = g.bus ∧
      g'.statics = { g.statics with lastUsed := g.statics.lastUsed + 1 } ∧ g'.stores = g.stores := by
  have hready := mmioRead_ready hshows hatRest
  have htake := takeUsed_of_atRest (g := g.next g.bus) hfuel hatRest hused
  have hload := @load_of_atRest _ _ _ fuel { ((g.next g.bus).next g.bus).next g.bus with
      statics := { g.statics with lastUsed := g.statics.lastUsed + 1 } } hatRest call.status 1
  have hrun : awaitStatus layout fuel call g = (do
      takeUsed layout fuel
      return (← load fuel call.status 1).headD 0 : Program (Guest BlkStatics _) UInt8) (g.next g.bus) := by
    unfold awaitStatus
    rw [bind_of_ok hready, if_neg (by simp)]
  refine ⟨_, hrun.trans ((bind_of_ok htake).trans (bind_of_ok hload)), rfl, rfl, rfl⟩

/-! ### The call as a whole -/

/-- What a call of `virtio_blk_read` is to do between `g` and `g'`: its stores come before the device does
anything, its own chain and no other has been retired on return, and its status and buffer tell what is on
the disk. -/
structure Answered (layout : BlkLayout) (disk : Bytes) (call : BlkRead)
    (g : Guest BlkStatics (BlkVirtio (HostOs.disk limits))) (status : UInt8)
    (g' : Guest BlkStatics (BlkVirtio (HostOs.disk limits))) : Prop where
  stores : g'.stores = g.stores ++
    (blocks layout g.statics call).flatten.map fun w => ⟨w.1, w.2.length, g.bus.log.length⟩
  retired : ∃ events, g'.bus.log = g.bus.log ++ events.map (Prod.mk 0) ∧ retiredHeads events = [desc g.statics 0]
  inside : call.Inside disk → status = 0 ∧
    g'.bus.mem.load call.buf call.length.toNat = window disk (call.sector.toNat * 512) call.length.toNat
  outside : ¬call.Inside disk → status ≠ 0 ∧
    g'.bus.mem.load call.buf call.length.toNat = g.bus.mem.load call.buf call.length.toNat

/-- The driver and the device between two calls, on memory with the regions of `m₀`. -/
structure Between (layout : BlkLayout) (disk : Bytes) (m₀ : Ram)
    (g : Guest BlkStatics (BlkVirtio (HostOs.disk limits))) : Prop where
  idle : ∃ c, Shows c g.bus ∧ Idle layout disk g.statics c
  backing : landsIn g.bus.mem.regions = landsIn m₀.regions

section Done

variable (hwait : BlkVirtio.Outstanding c.queue c.mem [request layout s call]) (hqueue : c.queue = queueOf layout s)
  (hfinished : Finished layout s call c u)

include hwait hfinished

theorem Finished.lands : landsIn u.mem.regions = landsIn c.mem.regions :=
  (hfinished.carried.frame (hwait.held.moved _ _)).lands

/-- **What the device left.** Inside the disk the buffer has its bytes; outside, the buffer is as it was. -/
theorem Finished.answer (hvalid : call.Valid layout c.mem) (hfits : call.Fits) (hcontents : c.dev.contents = disk)
    (hsize : disk.length ≤ limits.sizeMax) (hstatus : c.mem.load call.status 1 = [0xFF]) : u.dev.contents = disk ∧
      (call.Inside disk → (u.mem.load call.status 1).headD 0 = 0 ∧
        u.mem.load call.buf call.length.toNat = window disk (call.sector.toNat * 512) call.length.toNat) ∧
      (¬call.Inside disk → (u.mem.load call.status 1).headD 0 ≠ 0 ∧
        u.mem.load call.buf call.length.toNat = c.mem.load call.buf call.length.toNat) := by
  obtain ⟨_, hw, hp, hrest⟩ := hwait.pop
  have hserved := carried_inside hfinished.carried hrest.held hw hp rfl
  have hrefused := carried_outside hfinished.carried hrest.held hw hp rfl hfits hvalid.length_pos
  subst hcontents
  by_cases hin : call.Inside c.dev.contents
  · obtain ⟨hzero, hsame, hdata⟩ := hserved hsize hin
    refine ⟨hsame, fun _ => ⟨?_, hdata⟩, fun hout => absurd hin hout⟩
    exact congrArg (·.headD 0) hzero
  · obtain ⟨hnonzero, hsame, hkept⟩ := hrefused (Nat.lt_of_not_le hin) hstatus
    exact ⟨hsame, fun hin' => absurd hin' hin, fun _ => ⟨hnonzero, hkept⟩⟩

include hqueue

theorem Finished.usedIdx : u.mem.u16 (used layout.queue + 2) = s.lastUsed + 1 := by
  have hmem := hfinished.carried.mem
  generalize hwrites : (carryOut _ _ (request layout s call).chain).writes = writes at hmem
  generalize (carryOut _ _ (request layout s call).chain).len = len at hmem
  have hheld : ((fresh c).pop c.dev (request layout s call).head).queue.RingsHeld (c.mem.storeAll writes) :=
    (hwait.held.moved _ _).toRingsHeld.frame (Ram.frame_storeAll c.mem writes)
  have hidx := (hheld.usedEntry (request layout s call).head len).idx
  have hseen : ((fresh c).pop c.dev (request layout s call).head).queue =
      seen layout.queue (s.availIdx + 1) s.lastUsed := by
    simp only [Ctx.pop, fresh, hqueue]
    rfl
  rw [hseen] at hidx hmem
  rw [hmem]
  exact hidx

theorem Finished.toIdle (hvalid : layout.Valid c.mem) (hattached : c.dev.attached = true)
    (hcontents : u.dev.contents = disk) :
    Idle layout disk { advanced s with lastUsed := s.lastUsed + 1 } (continued c u) := by
  have hseen := hfinished.queue hqueue
  have hlands : landsIn u.mem.regions = landsIn c.mem.regions := hfinished.lands hwait
  have hused : u.mem.u16 (used layout.queue + 2) = s.lastUsed + 1 := hfinished.usedIdx hwait hqueue
  refine ⟨hseen, hfinished.attached hattached, hcontents, hvalid.congr hlands, ?_, hused⟩
  have hnone := hfinished.rest.heads
  rw [hseen] at hnone
  have hpending : (seen layout.queue (s.availIdx + 1) (s.lastUsed + 1)).pending u.mem = 0 := by
    rw [← VirtioQueue.length_published, hnone]
    rfl
  exact (VirtioQueue.pending_eq_zero_iff.mp hpending).symm

end Done

/-- The request of the call waits in `c'`, which differs from `c` in what the driver has stored for it. -/
structure Waits (layout : BlkLayout) (s : BlkStatics) (call : BlkRead)
    (c c' : Ctx (BlkVirtio (HostOs.disk limits)) Ram) : Prop where
  dev : c'.dev = c.dev
  queue : c'.queue = c.queue
  log : c'.log = c.log
  outstanding : BlkVirtio.Outstanding c'.queue c'.mem [request layout s call]
  status : c'.mem.load call.status 1 = [0xFF]
  buf : c'.mem.load call.buf call.length.toNat = c.mem.load call.buf call.length.toNat
  lands : landsIn c'.mem.regions = landsIn c.mem.regions

theorem waits_publishedCtx (h : Idle layout disk s c) (hc : call.Valid layout c.mem) :
    Waits layout s call c (publishedCtx layout s call c) := by
  obtain ⟨hbuf, hstatus⟩ := published_buffers (s := s) h.valid hc
  have hlands : landsIn (publishedIn c.mem layout s call).regions = landsIn c.mem.regions :=
    (laid h.valid hc).frame.lands
  have hout : BlkVirtio.Outstanding c.queue (publishedIn c.mem layout s call) [request layout s call] := by
    rw [h.queue]
    exact outstanding_request h.valid hc
  unfold publishedCtx
  generalize publishedIn c.mem layout s call = m at hbuf hstatus hlands hout
  exact ⟨rfl, rfl, rfl, hout, hstatus, hbuf.load_eq, hlands⟩

/-- **One call.** It returns, with the answer of the device, and leaves driver and device as it found them. -/
theorem virtioBlkRead_of_between {m₀ : Ram} (hfuel : 0 < fuel) (hsize : disk.length ≤ limits.sizeMax)
    (h : Between layout disk m₀ g) (hc : call.Valid layout m₀) (hfits : call.Fits) :
    ∃ status g', virtioBlkRead layout fuel call g = .ok status g' ∧ Between layout disk m₀ g' ∧
      Answered layout disk call g status g' := by
  obtain ⟨c, hshows, hidle⟩ := h.idle
  have hbacking : landsIn c.mem.regions = landsIn m₀.regions := hshows.mem ▸ h.backing
  have hcall := hc.congr hbacking
  obtain ⟨hpublish, hpublished⟩ := publish_of_idle fuel hshows hidle hcall
  have hwaits := waits_publishedCtx hidle hcall
  generalize publishedCtx layout g.statics call c = c' at hpublished hwaits
  have hqueue : c'.queue = queueOf layout g.statics := hwaits.queue.trans hidle.queue
  have hattached : c'.dev.attached = true := hwaits.dev ▸ hidle.attached
  have hcontents : c'.dev.contents = disk := hwaits.dev ▸ hidle.contents
  -- Ticks before the notification may carry the request out; after it, it has been.
  obtain ⟨_, b, hnotify, u, hfinished, hshown⟩ := access_of_stable (g := publishing layout call g)
    (tick_inFlight hwaits.outstanding hattached hqueue hfits fuel)
    (notify_inFlight hwaits.outstanding hattached hqueue hfits fuel) (Or.inl hpublished)
  have hatRest : AtRest fuel b := atRest_of_shows hshown (hfinished.idle hattached)
  have hmem : b.mem = u.mem := hshown.mem
  have hused : b.mem.u16 (used layout.queue + 2) = g.statics.lastUsed + 1 := by
    rw [hmem]
    exact hfinished.usedIdx hwaits.outstanding hqueue
  obtain ⟨g', hawait, hbus, hstatics, hstores⟩ := awaitStatus_of_atRest layout call
    (g := (publishing layout call g).next b) hfuel hshown hatRest hused
  obtain ⟨hkept, hinside, houtside⟩ := hfinished.answer hwaits.outstanding (hcall.congr hwaits.lands) hfits hcontents
    hsize hwaits.status
  have hbus' : g'.bus = b := hbus
  rw [← hmem, ← hbus'] at hinside houtside
  refine ⟨_, g', (bind_of_ok hpublish).trans ((bind_of_ok hnotify).trans hawait), ⟨⟨continued c' u, ?_, ?_⟩, ?_⟩,
    ?_, ?_, ?_, ?_⟩
  · rw [hbus']
    exact hshown
  · rw [hstatics]
    exact hfinished.toIdle hwaits.outstanding hqueue ((hidle.valid).congr hwaits.lands) hattached hkept
  · rw [hbus', hmem, hfinished.lands hwaits.outstanding, hwaits.lands, hbacking]
  · rw [hstores]
    rfl
  · refine ⟨u.log, ?_, hfinished.retired⟩
    rw [hbus', hshown.log, hshows.log, ← List.map_append, ← hwaits.log]
    rfl
  · rw [← hbus]
    exact hinside
  · rw [← hbus, hshows.mem, ← hwaits.buf]
    exact houtside

/-! ### Sectors beyond 64 bits -/

section Overflow

variable {b : Bus (DiskBlk limits) Ram}

theorem returns_device_of_tickDevice (h : Shows c b) (hrun : Returns (tickDevice fuel 0) b) :
    Returns (VirtioDevice.tick fuel 0) (fresh c) := by
  obtain ⟨worked, b', hrun⟩ := hrun
  obtain ⟨queue, u, hqueue, htick, _⟩ := tickDevice_eq_ok hrun
  rw [h.queues] at hqueue
  cases hqueue
  rw [h.device, h.mem] at htick
  exact ⟨worked, u, htick⟩

theorem returns_device_of_notify (h : Shows c b)
    (hrun : Returns (MMIOTransport.write fuel queueNotify (u32ToLe 0)) b) :
    Returns (VirtioDevice.tick fuel 0) (fresh c) := by
  have hqueue : b.transport.queues[0]? = some c.queue := by
    rw [h.queues]
    rfl
  have hnotify : Returns (notifyQueue fuel 0) b := (returns_bind_of_ok (lift_data 0 b)).mp hrun
  unfold notifyQueue at hnotify
  rw [returns_get_bind, hqueue] at hnotify
  dsimp only at hnotify
  rw [if_pos h.ready] at hnotify
  obtain ⟨_, _, hfirst, _⟩ := returns_bind.mp hnotify
  exact returns_device_of_tickDevice h ⟨_, _, hfirst⟩

theorem returns_device_of_tick (h : Shows c b) (hrun : Returns (MMIOTransport.tick fuel) b) :
    Returns (VirtioDevice.tick fuel 0) (fresh c) := by
  have hindex : (lift (index b.transport.queues 0) :
      Program (Bus (DiskBlk limits) Ram) VirtioQueue) b = .ok c.queue b :=
    lift_eq_ok.mpr ⟨by rw [h.queues]; rfl, rfl⟩
  unfold MMIOTransport.tick at hrun
  rw [returns_get_bind] at hrun
  dsimp only at hrun
  rw [if_neg h.running, h.queues] at hrun
  obtain ⟨_, _, hqueues, _⟩ := returns_bind.mp hrun
  have hfirst : Returns (tickQueues fuel 1 0) b := ⟨_, _, hqueues⟩
  unfold tickQueues at hfirst
  rw [returns_get_bind, returns_bind_of_ok hindex, if_pos h.ready] at hfirst
  obtain ⟨_, _, hdevice, _⟩ := returns_bind.mp hfirst
  exact returns_device_of_tickDevice h ⟨_, _, hdevice⟩

theorem fits_of_returns_tick (fuel : Nat) (hwait : BlkVirtio.Outstanding c.queue c.mem [request layout s call])
    (hattached : c.dev.attached = true) (hrun : Returns (VirtioDevice.tick fuel 0) (fresh c)) : call.Fits := by
  obtain ⟨hpop, hw, hp, _⟩ := BlkVirtio.Outstanding.pop (c := fresh c) hwait
  rw [Returns, tick_of_attached (c := fresh c) fuel hattached] at hrun
  have hserve : Returns (serve (request layout s call).head)
      ((fresh c).pop c.dev (request layout s call).head) := by
    have hloop : Returns (drainBatch Serve.popAvail serve maxBatch) (fresh c) := hrun
    rw [drainBatch, maxBatch, drainWith, returns_bind_of_ok hpop] at hloop
    obtain ⟨_, _, hserve, _⟩ := returns_bind.mp hloop
    exact ⟨_, _, hserve⟩
  have hsafe := returns_serve_iff.mp hserve
  have hfits : (request layout s call).sector.toNat * 512 < 2 ^ 64 := fits_of_chainSafe hw hp hsafe
  exact hfits

theorem fits_of_returns {m₀ : Ram} (h : Between layout disk m₀ g) (hc : call.Valid layout m₀)
    (hrun : Returns (virtioBlkRead layout fuel call) g) : call.Fits := by
  obtain ⟨c, hshows, hidle⟩ := h.idle
  have hcall := hc.congr (hshows.mem ▸ h.backing : landsIn c.mem.regions = landsIn m₀.regions)
  obtain ⟨hpublish, hpublished⟩ := publish_of_idle fuel hshows hidle hcall
  have hwaits := waits_publishedCtx hidle hcall
  generalize publishedCtx layout g.statics call c = c' at hpublished hwaits
  have hattached : c'.dev.attached = true := hwaits.dev ▸ hidle.attached
  -- Whatever comes first, a tick or the notification, runs the device.
  refine fits_of_returns_tick fuel hwaits.outstanding hattached ?_
  obtain ⟨_, t, hnotify, _⟩ := returns_bind.mp ((returns_bind_of_ok hpublish).mp hrun)
  obtain ⟨b, b', hticks, hwrite, _⟩ := access_eq_ok hnotify
  cases hcount : (publishing layout call g).schedule 0 with
  | zero =>
    rw [hcount] at hticks
    cases hticks
    exact returns_device_of_notify hpublished ⟨_, _, hwrite⟩
  | succ n =>
    rw [hcount] at hticks
    obtain ⟨_, _, hfirst, _⟩ := bind_eq_ok.mp hticks
    exact returns_device_of_tick hpublished ⟨_, _, hfirst⟩

end Overflow

end Call

/-! ### Bringing the device up -/

/-- The driver before `virtio_blk_init`: its queue is as the compiler initialised it, and the device waits for
its driver. -/
structure Boot (layout : BlkLayout) (disk : Bytes) (fuel : Nat)
    (g : Guest BlkStatics (BlkVirtio (HostOs.disk limits))) : Prop where
  atRest : AtRest fuel g.bus
  queues : g.bus.transport.queues.length = 1
  attached : g.bus.transport.device.attached = true
  contents : g.bus.transport.device.contents = disk
  valid : layout.Valid g.bus.mem
  availIdx : g.bus.mem.u16 (Virtqueue.avail layout.queue + 2) = 0
  usedIdx : g.bus.mem.u16 (Virtqueue.used layout.queue + 2) = 0
  statics : g.statics.availIdx = 0 ∧ g.statics.lastUsed = 0
  log : g.bus.log = []
  stores : g.stores = []

section Init

variable {dev : DiskBlk limits} {mem : Ram}

theorem leads_configure (fuel : Nat) (hlow : layout.queue.toNat + sizeInBytes ≤ 2 ^ 32) :
    Leads (configure layout fuel : Program (Guest BlkStatics (DiskBlk limits)) Unit)
      (Configuring dev mem [] [VirtioQueue.new] 0) (Configuring dev mem [] [seen layout.queue 0 0] 0) := by
  have hfeatures : Leads (mmioRead fuel deviceFeatures : Program (Guest BlkStatics _) UInt32)
      (Configuring dev mem [] [VirtioQueue.new] 0) (Configuring dev mem [] [VirtioQueue.new] 0) :=
    leads_access (fun b hb => hb.off) fun b hb => ⟨_, b, rfl, hb⟩
  have hnegotiate (val : UInt32) : Leads (mmioWrite fuel drvrFeatures val : Program (Guest BlkStatics _) Unit)
      (Configuring dev mem [] [VirtioQueue.new] 0) (Configuring dev mem [] [VirtioQueue.new] 0) := by
    refine leads_access (fun b hb => hb.off) fun b hb => ⟨_, _, write_drvrFeatures, ?_⟩
    exact ⟨hb.device, hb.mem, hb.log, hb.queues, hb.sel, hb.off⟩
  refine (leads_status (by decide) (by decide)).bind fun _ => (leads_status (by decide) (by decide)).bind fun _ => ?_
  refine hfeatures.bind fun features => (hnegotiate features).bind fun _ => ?_
  exact (leads_status (by decide) (by decide)).bind fun _ => leads_setupQueue rfl hlow

theorem reset_of_boot (h : Boot layout disk fuel g) : ∃ b, mmioWrite fuel status 0 g = .ok () (g.next b) ∧
      Configuring g.bus.transport.device g.bus.mem [] [VirtioQueue.new] 0 b := by
  obtain ⟨b, hwrite, hmem, hlog, htransport⟩ :=
    MMIOTransport.write_reset fuel (readU32FromData_toLe 0) g.bus
  obtain ⟨q, hq⟩ := List.length_eq_one_iff.mp h.queues
  refine ⟨b, access_of_atRest h.atRest hwrite, ?_, hmem, hlog.trans h.log, ?_, ?_, ?_⟩
  · rw [htransport]
    rfl
  · rw [htransport]
    simp [cleared, hq]
  · rw [htransport]
    rfl
  · have hstatus : b.transport.status = 0 := by rw [htransport]
    rw [hstatus]
    decide

/-- The configuration as the firmware copies it: the fields, and what fills the struct up to its alignment. -/
def configBytes (config : VirtioBlkConfig) : Bytes :=
  u64ToLe config.capacity ++ u32ToLe config.sizeMax ++ u32ToLe config.segMax ++ u32ToLe config.blkSize ++
    List.replicate 4 0

theorem length_configBytes (config : VirtioBlkConfig) : (configBytes config).length = 24 := by simp [configBytes]

theorem readConfig_eq (offset length : Nat) (hsmall : offset + length ≤ 24) (b : Bus (DiskBlk limits) Ram) :
    MMIOTransport.readConfig offset length b =
      .ok (((configBytes b.transport.device.config).drop offset).take length) b := by
  have hmax : 24 ≤ isizeMax := by decide
  have husize : usize (offset + length) = .ok (offset + length) := if_pos (by omega)
  have hcfg : b.transport.device.config.toBytes (offset + length) =
      .ok ((configBytes b.transport.device.config).take (offset + length)) := by
    rw [VirtioBlkConfig.toBytes, resize, if_pos (hsmall.trans hmax), configBytes,
      @List.take_append _ _ (List.replicate 4 0), List.take_replicate]
    congr 3
    simp only [List.length_append, length_u64ToLe, length_u32ToLe]
    omega
  have hlength := resize_eq_ok hcfg
  have hslice := slice_eq_ok.mpr ⟨Nat.le_add_right offset length, hlength.ge, rfl⟩
  unfold MMIOTransport.readConfig
  rw [get_bind, bind_of_ok (lift_eq_ok.mpr ⟨husize, rfl⟩)]
  refine (bind_of_ok (lift_eq_ok.mpr ⟨hcfg, rfl⟩)).trans ((lift_eq_ok.mpr ⟨hslice, rfl⟩).trans ?_)
  rw [List.drop_take, Nat.add_sub_cancel_left, List.take_take, Nat.min_self]

theorem readConfig_of_atRest {fuel : Nat} (hatRest : AtRest fuel g.bus) :
    ∃ g', readConfig fuel g = .ok () g' ∧ g'.bus = g.bus ∧ g'.stores = g.stores ∧
      g'.statics.availIdx = g.statics.availIdx ∧ g'.statics.lastUsed = g.statics.lastUsed ∧
      g'.statics.config = configBytes g.bus.transport.device.config := by
  have hcapacity := readConfig_eq 0 8 (by decide) g.bus
  have hmaxima := readConfig_eq 8 8 (by decide) g.bus
  have hblkSize := readConfig_eq 16 8 (by decide) g.bus
  have hwhole := length_configBytes g.bus.transport.device.config
  generalize configBytes g.bus.transport.device.config = bytes at hcapacity hmaxima hblkSize hwhole ⊢
  have hfirst : access fuel (MMIOTransport.read VirtioMmio.config 8) g = .ok _ (g.next g.bus) :=
    access_of_atRest hatRest hcapacity
  have hsecond : access fuel (MMIOTransport.read (VirtioMmio.config + 8) 8) (g.next g.bus) =
      .ok _ ((g.next g.bus).next g.bus) := access_of_atRest (g := g.next g.bus) hatRest hmaxima
  have hthird : access fuel (MMIOTransport.read (VirtioMmio.config + 16) 8) ((g.next g.bus).next g.bus) =
      .ok _ (((g.next g.bus).next g.bus).next g.bus) :=
    access_of_atRest (g := (g.next g.bus).next g.bus) hatRest hblkSize
  have hrun : readConfig fuel g = .ok () { ((g.next g.bus).next g.bus).next g.bus with
      statics := { g.statics with
        config := (bytes.drop 0).take 8 ++ (bytes.drop 8).take 8 ++ (bytes.drop 16).take 8 } } :=
    (bind_of_ok hfirst).trans ((bind_of_ok hsecond).trans (bind_of_ok hthird))
  refine ⟨_, hrun, rfl, rfl, rfl, rfl, ?_⟩
  show (bytes.drop 0).take 8 ++ (bytes.drop 8).take 8 ++ (bytes.drop 16).take 8 = bytes
  have hlast : (bytes.drop 16).take 8 = bytes.drop 16 := List.take_of_length_le (by rw [List.length_drop]; omega)
  have hmiddle : (bytes.drop 8).take 8 ++ bytes.drop 16 = bytes.drop 8 := by
    have hsplit := List.take_append_drop 8 (bytes.drop 8)
    rwa [List.drop_drop] at hsplit
  rw [hlast, List.append_assoc, hmiddle, List.drop_zero, List.take_append_drop]

/-- **Bringing the device up** leaves both sides at the beginning. -/
theorem virtioBlkInit_of_boot (h : Boot layout disk fuel g) :
    ∃ g', virtioBlkInit layout fuel g = .ok () g' ∧ Between layout disk g.bus.mem g' ∧ g'.bus.log = [] ∧
      g'.stores = [] ∧ g'.statics.config = configBytes g.bus.transport.device.config := by
  obtain ⟨b, hreset, hconfiguring⟩ := reset_of_boot h
  obtain ⟨_, t, hconfigure, ⟨b', schedule, rfl⟩, hb'⟩ :=
    leads_configure fuel h.valid.low (g.next b) hconfiguring
  let c : Ctx (DiskBlk limits) Ram :=
    ⟨g.bus.transport.device, seen layout.queue 0 0, g.bus.mem, []⟩
  have hidle : Idle layout disk g.statics c := by
    refine ⟨?_, h.attached, h.contents, h.valid, h.availIdx.trans h.statics.1.symm, h.usedIdx.trans h.statics.2.symm⟩
    show _ = seen layout.queue g.statics.availIdx g.statics.lastUsed
    rw [h.statics.1, h.statics.2]
  have hshows : Shows c { b' with transport := { b'.transport with status := 15 } } := by
    refine ⟨hb'.device, hb'.queues, hb'.sel, hb'.mem, hb'.log, ?_, rfl⟩
    show (15 : UInt32) &&& 4 ≠ 0
    decide
  have hok : mmioWrite fuel status 15 { g.next b with bus := b', schedule } = .ok ()
      ({ g.next b with bus := b', schedule }.next { b' with transport := { b'.transport with status := 15 } }) :=
    access_of_atRest (atRest_of_status hb'.off) (write_status (by decide))
  obtain ⟨g', hconfig, hbus, hstores, havail, hlast, hcopy⟩ := readConfig_of_atRest
    (g := { g.next b with bus := b', schedule }.next { b' with transport := { b'.transport with status := 15 } })
    (hidle.atRest hshows)
  refine ⟨g', ?_, ⟨⟨c, ?_, ?_⟩, ?_⟩, ?_, ?_, ?_⟩
  · exact (bind_of_ok hreset).trans ((bind_of_ok hconfigure).trans ((bind_of_ok hok).trans hconfig))
  · rw [hbus]
    exact hshows
  · refine ⟨?_, hidle.attached, hidle.contents, hidle.valid, hidle.availIdx.trans havail.symm,
      hidle.usedIdx.trans hlast.symm⟩
    refine hidle.queue.trans ?_
    show seen _ _ _ = seen _ _ _
    rw [havail, hlast]
    rfl
  · rw [hbus]
    exact congrArg (fun m : Ram => landsIn m.regions) hb'.mem
  · rw [hbus]
    exact hb'.log
  · rw [hstores]
    exact h.stores
  · rw [hcopy]
    exact congrArg (fun device => configBytes (config device)) hb'.device

end Init

/-! ### Calls in a row -/

/-- How often the driver has stored the index of the available ring. -/
def publications (layout : BlkLayout) (stores : List GuestStore) : Nat :=
  stores.countP fun st => st.addr == Virtqueue.avail layout.queue + 2

/-- Each store of the driver, and so each one in its descriptor table, comes when all the chains that it has
published before have been retired. -/
def StoresWhenRetired (layout : BlkLayout) (g : Guest BlkStatics (BlkVirtio (HostOs.disk limits))) : Prop :=
  ∀ before st after, g.stores = before ++ st :: after →
    (retiredHeads (eventsOf 0 (g.bus.log.take st.logged))).length = publications layout before

structure Accounted (layout : BlkLayout) (g : Guest BlkStatics (BlkVirtio (HostOs.disk limits))) : Prop where
  balanced : (retiredHeads (eventsOf 0 g.bus.log)).length = publications layout g.stores
  logged : ∀ st ∈ g.stores, st.logged ≤ g.bus.log.length
  reuse : StoresWhenRetired layout g

section Runs

variable {m₀ : Ram} {call : BlkRead} {status : UInt8} {g' : Guest BlkStatics (DiskBlk limits)}

theorem publications_append (stores stores' : List GuestStore) :
    publications layout (stores ++ stores') = publications layout stores + publications layout stores' :=
  List.countP_append

def storesOf (layout : BlkLayout) (call : BlkRead) (g : Guest BlkStatics (BlkVirtio (HostOs.disk limits))) :
    List GuestStore :=
  (blocks layout g.statics call).flatten.map fun w => ⟨w.1, w.2.length, g.bus.log.length⟩

theorem storesOf_eq (hl : layout.Valid m₀) (hc : call.Valid layout m₀) :
    ∃ early last, storesOf layout call g = early ++ [last] ∧ publications layout early = 0 ∧
      publications layout [last] = 1 := by
  have hflatten : (blocks layout g.statics call).flatten = (assignments layout g.statics call).flatten ++
      [(avail layout.queue + 2, u16ToLe (g.statics.availIdx + 1))] := List.flatten_append
  refine ⟨(assignments layout g.statics call).flatten.map fun w => ⟨w.1, w.2.length, g.bus.log.length⟩,
    ⟨avail layout.queue + 2, 2, g.bus.log.length⟩, ?_, ?_, ?_⟩
  · rw [storesOf, hflatten, List.map_append]
    rfl
  · refine List.countP_eq_zero.mpr fun st hst => ?_
    obtain ⟨w, hw, rfl⟩ := List.mem_map.mp hst
    simpa using assignments_ne hl hc w hw
  · simp [publications]

theorem publications_front {early before after : List GuestStore} {last st : GuestStore}
    (hearly : publications layout early = 0) (hsplit : early ++ [last] = before ++ st :: after) :
    publications layout before = 0 := by
  refine List.countP_eq_zero.mpr fun x hx => List.countP_eq_zero.mp hearly x ?_
  have hlength : before.length ≤ early.length := by
    have h := congrArg List.length hsplit
    simp only [List.length_append, List.length_cons, List.length_nil] at h
    omega
  have hfront : before = early.take before.length := by
    have h := congrArg (List.take before.length) hsplit
    rw [List.take_append_of_le_length hlength, List.take_left'] at h
    · exact h.symm
    · rfl
  rw [hfront] at hx
  exact List.mem_of_mem_take hx

theorem Accounted.answered (h : Accounted layout g) (hl : layout.Valid m₀) (hc : call.Valid layout m₀)
    (hcall : Answered layout disk call g status g') : Accounted layout g' := by
  obtain ⟨events, hlog, hevents⟩ := hcall.retired
  have hstores : g'.stores = g.stores ++ storesOf layout call g := hcall.stores
  obtain ⟨early, last, hsplit, hearly, hlast⟩ := storesOf_eq (g := g) hl hc
  have hnew : ∀ st ∈ storesOf layout call g, st.logged = g.bus.log.length := by
    intro st hst
    obtain ⟨w, _, rfl⟩ := List.mem_map.mp hst
    rfl
  have htake {k : Nat} (hk : k ≤ g.bus.log.length) : g'.bus.log.take k = g.bus.log.take k := by
    rw [hlog, List.take_append_of_le_length hk]
  refine ⟨?_, fun st hst => ?_, fun before st after hbefore => ?_⟩
  · rw [hlog, eventsOf_append, eventsOf_same, retiredHeads_append, hevents, List.length_append, h.balanced, hstores,
      publications_append, hsplit, publications_append, hearly, hlast]
    rfl
  · have hle : g.bus.log.length ≤ g'.bus.log.length := by
      rw [hlog, List.length_append]
      omega
    rw [hstores] at hst
    rcases List.mem_append.mp hst with hst | hst
    · exact (h.logged st hst).trans hle
    · exact (hnew st hst).le.trans hle
  · rw [hstores] at hbefore
    rcases List.append_eq_append_iff.mp hbefore with ⟨front, hfront, hback⟩ | ⟨back, hback, hrest⟩
    · -- The store is one of this call.
      have hmem : st ∈ storesOf layout call g := by
        rw [hback]
        exact List.mem_append_right _ List.mem_cons_self
      rw [hsplit] at hback
      rw [hnew st hmem, htake le_rfl, List.take_length, h.balanced, hfront, publications_append,
        publications_front hearly hback]
      rfl
    · -- The store is one of an earlier call, or the first one of this call.
      cases back with
      | nil =>
        rw [List.nil_append] at hrest
        have hmem : st ∈ storesOf layout call g := by
          rw [← hrest]
          exact List.mem_cons_self
        rw [hnew st hmem, htake le_rfl, List.take_length, h.balanced, hback, List.append_nil]
      | cons st' back =>
        obtain ⟨rfl, hafter⟩ := List.cons.inj hrest
        have hmem : st ∈ g.stores := by
          rw [hback]
          exact List.mem_append_right _ List.mem_cons_self
        rw [htake (h.logged st hmem)]
        exact h.reuse before st back hback

section

variable {calls : List BlkRead} (hfuel : 0 < fuel) (hsize : disk.length ≤ limits.sizeMax)
include hfuel hsize

/-- **A row of calls.** Where the calls return, driver and device are between two calls again. -/
theorem between_of_reads (hl : layout.Valid m₀) (h : Between layout disk m₀ g) (haccounted : Accounted layout g)
    (hvalid : ∀ call ∈ calls, call.Valid layout m₀) (hrun : reads layout fuel calls g = .ok () g') :
    Between layout disk m₀ g' ∧ Accounted layout g' := by
  induction calls generalizing g with
  | nil =>
    obtain ⟨_, rfl⟩ := pure_eq_ok.mp hrun
    exact ⟨h, haccounted⟩
  | cons call calls ih =>
    obtain ⟨status, t, hfirst, hrest⟩ := bind_eq_ok.mp hrun
    have hc := hvalid call List.mem_cons_self
    have hfits := fits_of_returns h hc ⟨status, t, hfirst⟩
    obtain ⟨status', t', hcall, hbetween, hanswered⟩ := virtioBlkRead_of_between hfuel hsize h hc hfits
    cases hfirst.symm.trans hcall
    exact ih hbetween (haccounted.answered hl hc hanswered) (fun c hmem => hvalid c (List.mem_cons_of_mem _ hmem)) hrest

theorem returns_reads (h : Between layout disk m₀ g) (hvalid : ∀ call ∈ calls, call.Valid layout m₀)
    (hfits : ∀ call ∈ calls, call.Fits) : Returns (reads layout fuel calls) g := by
  induction calls generalizing g with
  | nil => exact returns_pure _ _
  | cons call calls ih =>
    obtain ⟨_, _, hcall, hbetween, _⟩ := virtioBlkRead_of_between hfuel hsize h (hvalid call List.mem_cons_self)
      (hfits call List.mem_cons_self)
    refine (returns_bind_of_ok hcall).mpr (ih hbetween (fun c hmem => ?_) fun c hmem => ?_)
    · exact hvalid c (List.mem_cons_of_mem _ hmem)
    · exact hfits c (List.mem_cons_of_mem _ hmem)

end

/-- **The block driver with its device.** After `virtio_blk_init`, a row of calls of `virtio_blk_read`,
however long, returns as long as no call asks for an offset of more than 64 bits. Each call that returns does so
after its own chain has been retired, with the bytes of the disk if its range is inside the disk, and
otherwise with a status other than zero and its buffer as it was. No descriptor is stored anew before all the
chains published earlier have been retired. The ticks that come in between may be any. -/
theorem block_reads_are_answered (hfuel : 0 < fuel) (hsize : disk.length ≤ limits.sizeMax)
    (hboot : Boot layout disk fuel g) (calls : List BlkRead) (hvalid : ∀ call ∈ calls, call.Valid layout g.bus.mem) :
    ∃ t, virtioBlkInit layout fuel g = .ok () t ∧
      ((∀ call ∈ calls, call.Fits) → Returns (reads layout fuel calls) t) ∧
      ∀ earlier call later, calls = earlier ++ call :: later → ∀ t₁ status t₂,
        reads layout fuel earlier t = .ok () t₁ → virtioBlkRead layout fuel call t₁ = .ok status t₂ →
          Answered layout disk call t₁ status t₂ ∧ StoresWhenRetired layout t₂ := by
  obtain ⟨t, hinit, hbetween, hlog, hstores, -⟩ := virtioBlkInit_of_boot hboot
  have haccounted : Accounted layout t := by
    refine ⟨?_, ?_, fun before st after hsplit => ?_⟩
    · rw [hlog, hstores]
      rfl
    · rw [hstores]
      exact nofun
    · rw [hstores] at hsplit
      exact absurd hsplit (by simp)
  refine ⟨t, hinit, returns_reads hfuel hsize hbetween hvalid, ?_⟩
  rintro earlier call later rfl t₁ status t₂ hearlier hcall
  have hc := hvalid call (List.mem_append_right _ List.mem_cons_self)
  obtain ⟨hbetween1, haccounted1⟩ := between_of_reads hfuel hsize hboot.valid hbetween haccounted
    (fun c hmem => hvalid c (List.mem_append_left _ hmem)) hearlier
  have hfits := fits_of_returns hbetween1 hc ⟨status, t₂, hcall⟩
  obtain ⟨status', t2', hcall', _, hanswered⟩ := virtioBlkRead_of_between hfuel hsize hbetween1 hc hfits
  cases hcall.symm.trans hcall'
  exact ⟨hanswered, (haccounted1.answered hboot.valid hc hanswered).reuse⟩

end Runs

/-! ### A machine that has just started -/

def bootRegion : MemoryRegion where
  isNull := false
  bytes := List.replicate 512 0
  memOffset := 0
  size_le := by
    rw [List.length_replicate]
    decide

def bootLayout : BlkLayout := ⟨0, 432⟩

def bootRead : BlkRead := ⟨0, 4, 456, 448⟩

/-- The driver before `virtio_blk_init`, on a disk of one sector, with a background tick before each access. -/
def booting : Guest BlkStatics (BlkVirtio (HostOs.disk ordinaryLimits)) where
  bus := {
    transport := MMIOTransport.new
      { BlkVirtio.new () 512 (⟨BlkVirtio.readDisk, 0⟩ : DiskFile) with attached := true } 1 5
    irqHandler := IRQHandler.new
    mem := ⟨[bootRegion]⟩
    log := [] }
  statics := ⟨0, 0, 0, []⟩
  schedule := fun _ => 1
  stores := []
  serial := []

theorem holds_bootRegion {addr : UInt64} {n : Nat} (h : addr.toNat + n ≤ 512) : Ram.Holds ⟨[bootRegion]⟩ addr n := by
  have hlength : bootRegion.bytes.length = 512 := List.length_replicate
  have hoffset : bootRegion.memOffset.toNat = 0 := rfl
  exact Ram.holds_of_contains rfl (by omega) ⟨by omega, by omega⟩

theorem valid_bootLayout : bootLayout.Valid ⟨[bootRegion]⟩ :=
  ⟨holds_bootRegion (by decide), by decide, holds_bootRegion (by decide), by decide⟩

theorem valid_bootRead : bootRead.Valid bootLayout ⟨[bootRegion]⟩ :=
  ⟨by decide, holds_bootRegion (by decide), holds_bootRegion (by decide), by decide, by decide, by decide, by decide,
    by decide⟩

theorem boot_booting : Boot bootLayout readDisk 1 booting :=
  ⟨atRest_of_status (by decide), rfl, rfl, rfl, valid_bootLayout, by decide +kernel, by decide +kernel, ⟨rfl, rfl⟩, rfl,
    rfl⟩

theorem first_sector_is_read : ∃ t status t', virtioBlkInit bootLayout 1 booting = .ok () t ∧
    virtioBlkRead bootLayout 1 bootRead t = .ok status t' ∧ status = 0 ∧
    t'.bus.mem.load bootRead.buf 4 = [7, 7, 7, 7] := by
  have hdisk : readDisk.length = 512 := length_readDisk
  have hsize : readDisk.length ≤ ordinaryLimits.sizeMax := by
    rw [hdisk]
    decide
  have hvalid : ∀ call ∈ [bootRead], call.Valid bootLayout booting.bus.mem := by
    intro call hcall
    rw [List.mem_singleton.mp hcall]
    exact valid_bootRead
  have hfits : ∀ call ∈ [bootRead], call.Fits := by
    intro call hcall
    rw [List.mem_singleton.mp hcall]
    show bootRead.sector.toNat * 512 < 2 ^ 64
    decide
  obtain ⟨t, hinit, hreturns, hanswers⟩ := block_reads_are_answered Nat.one_pos hsize boot_booting [bootRead] hvalid
  obtain ⟨status, t', hcall, _⟩ := returns_bind.mp (hreturns hfits)
  obtain ⟨hanswered, _⟩ := hanswers [] bootRead [] rfl t status t' rfl hcall
  have hinside : bootRead.Inside readDisk := by
    show bootRead.sector.toNat * 512 + bootRead.length.toNat ≤ readDisk.length
    rw [hdisk]
    decide
  obtain ⟨hzero, hdata⟩ := hanswered.inside hinside
  exact ⟨t, status, t', hinit, hcall, hzero, hdata⟩

end BlkDriver

end FerrumVM
