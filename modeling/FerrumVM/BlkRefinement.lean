import FerrumVM.BaseSystem
import FerrumVM.BlkQueue

/-! The block device refines a disk. A tick takes the requests that wait, up to the length of a batch, and
the disk image, the data buffers and the status bytes are then as if a disk of bytes had carried out the
operations one after another. So it stays over any run in which the guest publishes requests and the device
ticks, however the requests are divided among the ticks. -/

namespace FerrumVM

open Base Program

namespace DriverRequest

/-- What the request delivers, once it is retired: a read has it in its data buffer. -/
def delivered (r : DriverRequest) (m : Ram) : Bytes :=
  if r.write then [] else m.load r.dataSection.addr r.dataSection.len.toNat

theorem delivered_of_agree {r : DriverRequest} {m m' : Ram}
    (h : Ram.Agree r.dataSection.addr r.dataSection.len.toNat m m') : r.delivered m' = r.delivered m := by
  unfold delivered
  rw [h.load_eq]

end DriverRequest

namespace BlkVirtio

variable {limits : DiskLimits} {q : VirtioQueue} {m : Ram} {r : DriverRequest}

/-! ### One request inside the disk -/

section Inside

variable {s : DiskBlk limits} (hsize : s.contents.length ≤ limits.sizeMax)

include hsize

section

variable (hin : r.op.Inside s.contents.length)
include hin

theorem offset_le : r.sector.toNat * 512 ≤ limits.sizeMax := by
  cases hwrite : r.write with
  | false =>
    rw [DriverRequest.op_of_read hwrite] at hin
    exact le_trans (Nat.le_of_add_right_le hin) hsize
  | true =>
    rw [DriverRequest.op_of_write hwrite] at hin
    exact le_trans (Nat.le_of_add_right_le hin) hsize

theorem offset_lt : r.sector.toNat * 512 < 2 ^ 64 := by
  have hle := offset_le hsize hin
  have hmax : isizeMax < 2 ^ 64 := by decide
  have hseek := limits.sizeMax_le
  have hlimit := limits.seekMax_le
  omega

theorem carryOut_inside_read (hread : r.write = false) : (carryOut s m r.chain).dev.contents = s.contents ∧
      (carryOut s m r.chain).writes =
        [(r.dataSection.addr, window s.contents (r.sector.toNat * 512) r.dataSection.len.toNat),
          (r.statusByte.addr, [0])] := by
  have hle : r.chain.offset ≤ limits.seekMax := (offset_le hsize hin).trans limits.sizeMax_le
  have hlt : r.chain.offset < 2 ^ 64 := offset_lt hsize hin
  have hrange : r.sector.toNat * 512 + r.dataSection.len.toNat ≤ s.contents.length := by
    rw [DriverRequest.op_of_read hread] at hin
    exact hin
  exact carryOut_read hlt hle hread (Or.inr hrange)

theorem carryOut_inside_write (hwrite : r.write = true)
    (hpayload : m.load r.dataSection.addr r.dataSection.len.toNat = r.payload) :
    (carryOut s m r.chain).dev.contents = splice s.contents (r.sector.toNat * 512) r.payload ∧
      (carryOut s m r.chain).writes = [(r.statusByte.addr, [0])] := by
  have hle : r.chain.offset ≤ limits.seekMax := (offset_le hsize hin).trans limits.sizeMax_le
  have hlt : r.chain.offset < 2 ^ 64 := offset_lt hsize hin
  have hrange : r.sector.toNat * 512 + r.payload.length ≤ s.contents.length := by
    rw [DriverRequest.op_of_write hwrite] at hin
    exact hin
  have hlength : r.payload.length = r.chain.dataSection.len.toNat := by
    rw [← hpayload, Ram.length_load]
    rfl
  have hfitting : fitting limits (r.sector.toNat * 512) r.payload = r.payload := by
    refine List.take_of_length_le ?_
    omega
  have hdata : r.chain.data m = r.payload := hpayload
  obtain ⟨hcontents, hwrites⟩ := carryOut_write (s := s) (m := m) hlt hle hwrite
  rw [hdata, show r.chain.offset = r.sector.toNat * 512 from rfl, hfitting] at hcontents hwrites
  rw [if_pos hlength] at hwrites
  exact ⟨hcontents.trans (DiskFile.overwrite_inside hrange), hwrites⟩

end

theorem carryOut_inside (hp : r.InPlace q m) (hin : r.op.Inside s.contents.length) :
    (carryOut s m r.chain).dev.contents = r.op.apply s.contents ∧
      (r.statusByte.addr, [0]) ∈ (carryOut s m r.chain).writes ∧
      (r.write = false → (r.dataSection.addr, r.op.answer s.contents) ∈ (carryOut s m r.chain).writes) := by
  cases hwrite : r.write with
  | false =>
    obtain ⟨hcontents, hwrites⟩ := carryOut_inside_read (m := m) hsize hin hwrite
    rw [hcontents, hwrites, DriverRequest.op_of_read hwrite]
    exact ⟨rfl, by simp, fun _ => List.mem_cons_self⟩
  | true =>
    obtain ⟨hcontents, hwrites⟩ := carryOut_inside_write hsize hin hwrite (hp.payload hwrite)
    rw [hcontents, hwrites, DriverRequest.op_of_write hwrite]
    exact ⟨rfl, List.mem_singleton_self _, nofun⟩

end Inside

/-! ### A batch of requests -/

variable {c t u : Ctx (DiskBlk limits) Ram} {done done' reqs : List DriverRequest}

/-- The requests were carried out on the disk, one after another, and retired. -/
structure Processed (done : List DriverRequest) (t u : Ctx (BlkVirtio (HostOs.disk limits)) Ram) : Prop where
  contents : u.dev.contents = DiskOp.applyAll t.dev.contents (done.map (·.op))
  delivered : done.map (·.delivered u.mem) = DiskOp.answers t.dev.contents (done.map (·.op))
  status : ∀ r ∈ done, u.mem.load r.statusByte.addr 1 = [0]
  entries : (usedEntries u.log).map Prod.fst = (usedEntries t.log).map Prod.fst ++ done.map (·.head)
  attached : u.dev.attached = t.dev.attached
  frame : Ram.Frame ((t.queue.usedAddr, t.queue.usedBytes) :: done.flatMap (·.buffers)) t.mem u.mem
  used : u.queue.usedAddr = t.queue.usedAddr ∧ u.queue.usedBytes = t.queue.usedBytes

theorem Processed.refl (c : Ctx (DiskBlk limits) Ram) : Processed [] c c where
  contents := rfl
  delivered := rfl
  status := nofun
  entries := (List.append_nil _).symm
  attached := rfl
  frame := .refl _ _
  used := ⟨rfl, rfl⟩

theorem Processed.trans (h : Processed done c t) (h' : Processed done' t u)
    (hclear : ∀ r ∈ done, ∀ b ∈ r.buffers, Apart c.queue.usedAddr c.queue.usedBytes b.1 b.2)
    (hapart : ∀ r ∈ done, ∀ r' ∈ done', r.ApartFrom r') : Processed (done ++ done') c u := by
  have hframe := h'.frame
  rw [h.used.1, h.used.2] at hframe
  have hagree (r) (hr : r ∈ done) {addr : UInt64} {n : Nat} (hb : (addr, n) ∈ r.buffers) :
      Ram.Agree addr n t.mem u.mem := by
    refine hframe.agree fun p hp => ?_
    rcases List.mem_cons.mp hp with rfl | hp
    · exact hclear r hr _ hb
    · obtain ⟨r', hr', hb'⟩ := List.mem_flatMap.mp hp
      exact (hapart r hr r' hr' _ hb _ hb').symm
  have hsame : done.map (·.delivered u.mem) = done.map (·.delivered t.mem) :=
    List.map_congr_left fun r hr => DriverRequest.delivered_of_agree (hagree r hr r.dataSection_mem)
  refine ⟨?_, ?_, fun r hr => ?_, ?_, h'.attached.trans h.attached, ?_, ?_⟩
  · rw [h'.contents, h.contents, List.map_append, DiskOp.applyAll_append]
  · rw [List.map_append, List.map_append, DiskOp.answers_append, hsame, h.delivered, h'.delivered, h.contents]
  · rcases List.mem_append.mp hr with hr | hr
    · exact ((hagree r hr r.statusByte_mem).load_eq).trans (h.status r hr)
    · exact h'.status r hr
  · rw [h'.entries, h.entries, List.map_append, List.append_assoc]
  · rw [List.flatMap_append]
    refine (h.frame.weaken ?_).trans (hframe.weaken ?_)
    · exact List.cons_subset_cons _ (List.subset_append_left _ _)
    · exact List.cons_subset_cons _ (List.subset_append_right _ _)
  · exact ⟨h'.used.1.trans h.used.1, h'.used.2.trans h.used.2⟩

theorem processed_first (h : Outstanding c.queue c.mem (r :: reqs)) (hsize : c.dev.contents.length ≤ limits.sizeMax)
    (hin : r.op.Inside c.dev.contents.length) (hcarried : Carried r (c.pop c.dev r.head) u) : Processed [r] c u := by
  obtain ⟨_, hw, hp, hrest⟩ := h.pop
  obtain ⟨hcontents, hstatus, hdata⟩ := carryOut_inside hsize hp hin
  have hload {w : UInt64 × Bytes} (hwrite : w ∈ (carryOut c.dev c.mem r.chain).writes) :
      u.mem.load w.1 w.2.length = w.2 := hcarried.load hrest.held hw hp hwrite
  have hframe := hcarried.frame hrest.held
  refine ⟨?_, ?_, ?_, ?_, ?_, ?_, ?_⟩
  · rw [hcarried.dev]
    exact hcontents
  · refine congrArg (· :: []) ?_
    cases hwrite : r.write with
    | false =>
      have hlength : (r.op.answer c.dev.contents).length = r.dataSection.len.toNat := by
        rw [DriverRequest.op_of_read hwrite] at hin ⊢
        exact length_window hin
      have hanswer := hload (hdata hwrite)
      rw [hlength] at hanswer
      simpa [DriverRequest.delivered, hwrite] using hanswer
    | true => simp [DriverRequest.delivered, hwrite, DriverRequest.op_of_write hwrite, DiskOp.answer]
  · intro r' hr'
    rw [List.mem_singleton.mp hr']
    exact hload hstatus
  · rw [hcarried.entry, List.map_append]
    refine congrArg (· ++ _) ?_
    simp [Ctx.pop, usedEntries]
  · rw [hcarried.dev]
    exact carryOut_attached _ _ _
  · refine hframe.weaken (List.cons_subset_cons _ ?_)
    intro p hp
    obtain ⟨w, hwrite, rfl⟩ := List.mem_map.mp hp
    exact List.mem_flatMap.mpr ⟨r, List.mem_singleton_self _, write_mem_buffers hwrite⟩
  · rw [hcarried.queue]
    exact ⟨rfl, rfl⟩

theorem drain_outstanding (count : Nat) (didWork : Bool) (h : Outstanding c.queue c.mem reqs)
    (hsize : c.dev.contents.length ≤ limits.sizeMax) (hin : ∀ r ∈ reqs, r.op.Inside c.dev.contents.length) :
    ∃ worked u, drainWith pure Serve.popAvail serve count didWork c = .ok worked u ∧
      Processed (reqs.take count) c u ∧ Outstanding u.queue u.mem (reqs.drop count) := by
  induction count generalizing didWork c reqs with
  | zero => exact ⟨didWork, c, rfl, .refl c, h⟩
  | succ count ih =>
    cases reqs with
    | nil =>
      have hnone := popAvail_nil (D := DiskBlk limits) h.held.toRingsHeld h.heads
      exact ⟨didWork, c, bind_of_ok hnone, .refl c, h⟩
    | cons r reqs =>
      have hfirst := hin r List.mem_cons_self
      obtain ⟨worked, t, hpop, hserve, hcarried, hrest⟩ := h.serve_first (offset_lt hsize hfirst)
      have hdone := processed_first h hsize hfirst hcarried
      have hlength : t.dev.contents.length = c.dev.contents.length := by
        rw [hdone.contents]
        exact DiskOp.length_apply hfirst
      obtain ⟨worked', u, hdrain, hprocessed, hlater⟩ := ih (didWork || worked) hrest (hlength ▸ hsize)
        fun r' hr' => hlength ▸ hin r' (List.mem_cons_of_mem _ hr')
      refine ⟨worked', u, ?_, ?_, hlater⟩
      · rw [drainWith, bind_of_ok hpop]
        exact (bind_of_ok hserve).trans hdrain
      · refine hdone.trans hprocessed (fun r' hr' b hb => ?_) fun r' hr' r'' hr'' => ?_
        · rw [List.mem_singleton.mp hr'] at hb
          exact ((h.wellFormed r List.mem_cons_self).clear b hb _ c.queue.used_mem).symm
        · rw [List.mem_singleton.mp hr']
          exact (List.pairwise_cons.mp h.apart).1 r'' (List.mem_of_mem_take hr'')

/-- **One tick.** It processes the requests that wait, up to the length of a batch, and leaves the others
waiting. -/
theorem tick_outstanding (fuel : Nat) (h : Outstanding c.queue c.mem reqs) (hattached : c.dev.attached = true)
    (hsize : c.dev.contents.length ≤ limits.sizeMax) (hin : ∀ r ∈ reqs, r.op.Inside c.dev.contents.length) :
    ∃ worked u, VirtioDevice.tick fuel 0 c = .ok worked u ∧ Processed (reqs.take maxBatch) c u ∧
      Outstanding u.queue u.mem (reqs.drop maxBatch) := by
  obtain ⟨worked, u, hdrain, hthen⟩ := drain_outstanding maxBatch false h hsize hin
  exact ⟨worked, u, (tick_of_attached fuel hattached).trans hdrain, hthen⟩

/-! ### Runs -/

/-- A retired request, with what its buffers held when the tick returned. -/
structure Finished where
  request : DriverRequest
  delivered : Bytes
  status : Bytes

/-- The device with the requests of its driver, in the order of the available ring. -/
structure DiskRun (limits : DiskLimits) where
  ctx : Ctx (BlkVirtio (HostOs.disk limits)) Ram
  /-- All that were ever published. -/
  issued : List DriverRequest
  waiting : List DriverRequest
  finished : List Finished

inductive DiskAction where
  /-- The guest leaves memory as given, with further requests published in it. -/
  | publish (mem : Ram) (reqs : List DriverRequest)
  | tick (fuel : Nat)

namespace DiskRun

def retire (s : DiskRun limits) (u : Ctx (BlkVirtio (HostOs.disk limits)) Ram) : DiskRun limits :=
  let count := (usedEntries u.log).length - (usedEntries s.ctx.log).length
  { ctx := u
    issued := s.issued
    waiting := s.waiting.drop count
    finished := s.finished ++ (s.waiting.take count).map fun r =>
      ⟨r, r.delivered u.mem, u.mem.load r.statusByte.addr 1⟩ }

/-- What has been done is what a disk of bytes would have done. -/
structure Refines (disk : Bytes) (s : DiskRun limits) : Prop where
  attached : s.ctx.dev.attached = true
  contents : s.ctx.dev.contents = DiskOp.applyAll disk (s.finished.map (·.request.op))
  delivered : s.finished.map (·.delivered) = DiskOp.answers disk (s.finished.map (·.request.op))
  status : ∀ f ∈ s.finished, f.status = [0]
  order : s.issued = s.finished.map (·.request) ++ s.waiting
  outstanding : Outstanding s.ctx.queue s.ctx.mem s.waiting
  inside : ∀ r ∈ s.issued, r.op.Inside disk.length

end DiskRun

/-- The guest publishes requests inside the disk, the ones that wait staying in place, and the device
ticks. -/
def diskSystem (limits : DiskLimits) (disk : Bytes) : System (DiskRun limits) DiskAction where
  init s := s.ctx.dev.attached = true ∧ s.ctx.dev.contents = disk ∧ Outstanding s.ctx.queue s.ctx.mem [] ∧
    s.issued = [] ∧ s.waiting = [] ∧ s.finished = []
  step s action s' :=
    match action with
    | .publish mem reqs =>
      Outstanding s.ctx.queue mem (s.waiting ++ reqs) ∧ (∀ r ∈ reqs, r.op.Inside disk.length) ∧
        s' = { s with
          ctx := { s.ctx with mem }, issued := s.issued ++ reqs, waiting := s.waiting ++ reqs }
    | .tick fuel => ∃ worked u, VirtioDevice.tick fuel 0 s.ctx = .ok worked u ∧ s' = s.retire u

section Runs

variable {disk : Bytes} {s : DiskRun limits} (hsize : disk.length ≤ limits.sizeMax)

include hsize

theorem DiskRun.Refines.tick (h : s.Refines disk) (fuel : Nat) :
    ∃ worked u, VirtioDevice.tick fuel 0 s.ctx = .ok worked u ∧ Processed (s.waiting.take maxBatch) s.ctx u ∧
      Outstanding u.queue u.mem (s.waiting.drop maxBatch) := by
  have hlength : s.ctx.dev.contents.length = disk.length := by
    rw [h.contents]
    refine DiskOp.length_applyAll fun op hop => ?_
    obtain ⟨f, hf, rfl⟩ := List.mem_map.mp hop
    refine h.inside _ ?_
    rw [h.order]
    exact List.mem_append_left _ (List.mem_map_of_mem hf)
  refine tick_outstanding fuel h.outstanding h.attached (hlength ▸ hsize) fun r hr => ?_
  rw [hlength]
  refine h.inside r ?_
  rw [h.order]
  exact List.mem_append_right _ hr

theorem DiskRun.Refines.retire (h : s.Refines disk) {fuel : Nat} {worked : Bool}
    {u : Ctx (DiskBlk limits) Ram} (htick : VirtioDevice.tick fuel 0 s.ctx = .ok worked u) :
    (s.retire u).Refines disk := by
  obtain ⟨worked', u', htick', hprocessed, hlater⟩ := h.tick hsize fuel
  cases htick.symm.trans htick'
  have hcount : (usedEntries u.log).length - (usedEntries s.ctx.log).length = (s.waiting.take maxBatch).length := by
    have hlength := congrArg List.length hprocessed.entries
    simp only [List.length_map, List.length_append] at hlength
    omega
  have htake : s.waiting.take (s.waiting.take maxBatch).length = s.waiting.take maxBatch := by
    rw [List.length_take, ← List.take_eq_take_min]
  have hdrop : s.waiting.drop (s.waiting.take maxBatch).length = s.waiting.drop maxBatch := by
    rw [List.length_take, ← List.drop_eq_drop_min]
  unfold DiskRun.retire
  dsimp only
  rw [hcount, htake, hdrop]
  refine ⟨hprocessed.attached.trans h.attached, ?_, ?_, ?_, ?_, hlater, h.inside⟩
  · rw [hprocessed.contents, h.contents, ← DiskOp.applyAll_append, List.map_append, List.map_map]
    rfl
  · rw [List.map_append, List.map_append, DiskOp.answers_append, h.delivered, List.map_map, List.map_map, ← h.contents]
    exact congrArg (_ ++ ·) hprocessed.delivered
  · intro f hf
    rcases List.mem_append.mp hf with hf | hf
    · exact h.status f hf
    · obtain ⟨r, hr, rfl⟩ := List.mem_map.mp hf
      exact hprocessed.status r hr
  · rw [List.map_append, List.map_map, h.order, List.append_assoc]
    refine congrArg (_ ++ ·) ?_
    show s.waiting = (s.waiting.take maxBatch).map id ++ s.waiting.drop maxBatch
    rw [List.map_id, List.take_append_drop]

theorem refines_of_reachable (h : (diskSystem limits disk).Reachable s) : s.Refines disk := by
  refine h.invariant (fun s hinit => ?_) fun s action s' hs hstep => ?_
  · obtain ⟨hattached, hcontents, houtstanding, hissued, hwaiting, hfinished⟩ := hinit
    refine ⟨hattached, ?_, ?_, ?_, ?_, hwaiting ▸ houtstanding, ?_⟩
    · rw [hcontents, hfinished]
      rfl
    · rw [hfinished]
      rfl
    · rw [hfinished]
      exact nofun
    · rw [hissued, hfinished, hwaiting]
      rfl
    · rw [hissued]
      exact nofun
  · cases action with
    | publish mem reqs =>
      obtain ⟨houtstanding, hinside, rfl⟩ := hstep
      refine ⟨hs.attached, hs.contents, hs.delivered, hs.status, ?_, houtstanding, fun r hr => ?_⟩
      · rw [hs.order, List.append_assoc]
      · rcases List.mem_append.mp hr with hr | hr
        · exact hs.inside r hr
        · exact hinside r hr
    | tick fuel =>
      obtain ⟨worked, u, htick, rfl⟩ := hstep
      exact hs.retire hsize htick

/-- **The block device refines a disk of bytes.** In every run, the requests that are finished are the first
of those that were issued, in the order of the available ring; the disk image is what their operations make of
the disk; each read has delivered what the writes before it left, and every status is zero. And each tick
returns, with the next requests retired, up to the length of a batch. -/
theorem block_device_refines_disk (h : (diskSystem limits disk).Reachable s) :
    s.issued = s.finished.map (·.request) ++ s.waiting ∧
      s.ctx.dev.contents = DiskOp.applyAll disk (s.finished.map (·.request.op)) ∧
      s.finished.map (·.delivered) = DiskOp.answers disk (s.finished.map (·.request.op)) ∧
      (∀ f ∈ s.finished, f.status = [0]) ∧ ∀ fuel, ∃ worked u, VirtioDevice.tick fuel 0 s.ctx = .ok worked u ∧
        (usedEntries u.log).map Prod.fst =
          (usedEntries s.ctx.log).map Prod.fst ++ (s.waiting.take maxBatch).map (·.head) := by
  have hrefines := refines_of_reachable hsize h
  refine ⟨hrefines.order, hrefines.contents, hrefines.delivered, hrefines.status, fun fuel => ?_⟩
  obtain ⟨worked, u, htick, hprocessed, _⟩ := hrefines.tick hsize fuel
  exact ⟨worked, u, htick, hprocessed.entries⟩

end Runs

/-! ### A read -/

/-- Sixteen bytes from the start of the disk are to be read into the buffer at address 136. -/
def firstRead : DriverRequest where
  head := 0
  header := ⟨120, 16, 1, 1⟩
  dataSection := ⟨136, 16, 3, 2⟩
  statusByte := ⟨152, 1, 2, 0⟩
  write := false
  sector := 0
  payload := []

/-- The request in memory, published if the index of the available ring is one. -/
def readRegion (availIdx : UInt8) : MemoryRegion where
  isNull := false
  bytes := [120, 0, 0, 0, 0, 0, 0, 0, 16, 0, 0, 0, 1, 0, 1, 0] ++ [136, 0, 0, 0, 0, 0, 0, 0, 16, 0, 0, 0, 3, 0, 2, 0] ++
    [152, 0, 0, 0, 0, 0, 0, 0, 1, 0, 0, 0, 2, 0, 0, 0] ++ List.replicate 16 0 ++ [0, 0, availIdx, 0] ++
    List.replicate 92 0
  memOffset := 0
  size_le := by simp [isizeMax]

def readQueue : VirtioQueue := { VirtioQueue.new with size := 4, ready := true, availAddr := 64, usedAddr := 80 }

theorem holds_readRegion (availIdx : UInt8) {addr : UInt64} {n : Nat} (h : addr.toNat + n ≤ 160) :
    Ram.Holds ⟨[readRegion availIdx]⟩ addr n :=
  Ram.holds_of_contains rfl (by simp [readRegion]) ⟨Nat.zero_le _, by simpa [readRegion] using h⟩

theorem held_readQueue (availIdx : UInt8) : readQueue.QueueHeld ⟨[readRegion availIdx]⟩ where
  size_ne := by decide
  avail := holds_readRegion availIdx (by decide)
  used := holds_readRegion availIdx (by decide)
  apart := by decide
  table := holds_readRegion availIdx (by decide)
  table_apart := by decide

theorem outstanding_firstRead : Outstanding readQueue ⟨[readRegion 1]⟩ [firstRead] where
  held := held_readQueue 1
  heads := by decide +kernel
  wellFormed := by
    intro r hr
    rw [List.mem_singleton.mp hr]
    exact ⟨by decide, by decide, by decide, by decide, by decide, by decide, by decide, by decide, by decide, by decide,
      by decide, by decide⟩
  inPlace := by
    intro r hr
    rw [List.mem_singleton.mp hr]
    refine ⟨by decide +kernel, by decide +kernel, by decide +kernel, by decide +kernel, by decide +kernel, nofun, ?_⟩
    intro b hb
    refine holds_readRegion 1 ?_
    revert b
    decide
  apart := List.pairwise_singleton _ _

def readDisk : Bytes := List.replicate 512 7

theorem length_readDisk : readDisk.length = 512 := List.length_replicate

def readWaiting : DiskRun ordinaryLimits where
  ctx :=
    { dev := { BlkVirtio.new () 512 (⟨readDisk, 0⟩ : DiskFile) with attached := true }
      queue := readQueue
      mem := ⟨[readRegion 1]⟩
      log := [] }
  issued := [firstRead]
  waiting := [firstRead]
  finished := []

theorem reachable_readWaiting : (diskSystem ordinaryLimits readDisk).Reachable readWaiting := by
  have hidle : Outstanding readQueue ⟨[readRegion 0]⟩ [] := ⟨held_readQueue 0, by decide +kernel, nofun, nofun, .nil⟩
  have hinit : (diskSystem ordinaryLimits readDisk).Reachable
      { readWaiting with
        ctx := { readWaiting.ctx with mem := ⟨[readRegion 0]⟩ }, issued := [], waiting := [] } :=
    .init ⟨rfl, rfl, hidle, rfl, rfl, rfl⟩
  refine hinit.next (e := .publish ⟨[readRegion 1]⟩ [firstRead]) ⟨outstanding_firstRead, fun r hr => ?_, rfl⟩
  rw [List.mem_singleton.mp hr]
  show firstRead.sector.toNat * 512 + firstRead.dataSection.len.toNat ≤ readDisk.length
  rw [length_readDisk]
  decide

/-- The tick retires the request, and the run that it leads to has the bytes delivered. -/
theorem first_read_is_delivered : ∃ worked u, VirtioDevice.tick 0 0 readWaiting.ctx = .ok worked u ∧
    (usedEntries u.log).map Prod.fst = [0] ∧
    (readWaiting.retire u).finished.map (·.delivered) = [List.replicate 16 7] := by
  have hsize : readDisk.length ≤ ordinaryLimits.sizeMax := by
    rw [length_readDisk]
    decide
  obtain ⟨_, _, _, _, hticks⟩ := block_device_refines_disk hsize reachable_readWaiting
  obtain ⟨worked, u, htick, hentries⟩ := hticks 0
  have hone : (usedEntries u.log).map Prod.fst = [0] := hentries
  have hcount : (usedEntries u.log).length = 1 := by simpa using congrArg List.length hone
  refine ⟨worked, u, htick, hone, ?_⟩
  have hnext : (diskSystem ordinaryLimits readDisk).Reachable (readWaiting.retire u) :=
    reachable_readWaiting.next (e := .tick 0) ⟨worked, u, htick, rfl⟩
  rw [(block_device_refines_disk hsize hnext).2.2.1]
  unfold DiskRun.retire
  dsimp only
  rw [hcount]
  show DiskOp.answers readDisk [firstRead.op] = [List.replicate 16 7]
  decide

end BlkVirtio

end FerrumVM
