import FerrumVM.BaseDisk
import FerrumVM.BlkDisk

/-! The requests that a driver lays out for the block device: a header, a data buffer and a status byte,
linked by three descriptors and published by the head. As long as the buffers lie in RAM, apart from the
queue and from one another, serving one request leaves the others as they are. -/

namespace FerrumVM

open Base Program

/-! ### Requests -/

/-- A request as a driver lays it out; `payload` is what it wants to have written. -/
structure DriverRequest where
  head : UInt16
  header : VirtqDesc
  dataSection : VirtqDesc
  statusByte : VirtqDesc
  write : Bool
  sector : UInt64
  payload : Bytes

namespace DriverRequest

variable {q : VirtioQueue} {m m' : Ram} {r r' : DriverRequest}

def buffers (r : DriverRequest) : List (UInt64 × Nat) :=
  [(r.header.addr, 16), (r.dataSection.addr, r.dataSection.len.toNat), (r.statusByte.addr, 1)]

def ApartFrom (r r' : DriverRequest) : Prop :=
  ∀ b ∈ r.buffers, ∀ b' ∈ r'.buffers, Apart b.1 b.2 b'.1 b'.2

def op (r : DriverRequest) : DiskOp :=
  if r.write then .write (r.sector.toNat * 512) r.payload
  else .read (r.sector.toNat * 512) r.dataSection.len.toNat

theorem op_of_read (h : r.write = false) : r.op = .read (r.sector.toNat * 512) r.dataSection.len.toNat := by
  simp [op, h]

theorem op_of_write (h : r.write = true) : r.op = .write (r.sector.toNat * 512) r.payload := if_pos h

def chain (r : DriverRequest) : BlkVirtio.BlkChain where
  request := { rqstType := r.write, sector := r.sector }
  dataSection := r.dataSection
  statusByte := r.statusByte

/-- A chain of three descriptors with the right flags, whose buffers lie apart from the queue and from one
another. -/
structure WellFormed (q : VirtioQueue) (r : DriverRequest) : Prop where
  head_lt : r.head.toNat < q.size.toNat
  header_readable : r.header.isWrite = false
  header_next : r.header.hasNext = true
  header_len : r.header.len = 16
  dataSection_lt : r.header.next.toNat < q.size.toNat
  dataSection_next : r.dataSection.hasNext = true
  direction : r.dataSection.isWrite = !r.write
  statusByte_lt : r.dataSection.next.toNat < q.size.toNat
  statusByte_writable : r.statusByte.isWrite = true
  statusByte_len : 0 < r.statusByte.len.toNat
  clear : ∀ b ∈ r.buffers, ∀ p ∈ q.parts, Apart b.1 b.2 p.1 p.2
  apart : r.buffers.Pairwise fun b b' => Apart b.1 b.2 b'.1 b'.2

structure InPlace (q : VirtioQueue) (m : Ram) (r : DriverRequest) : Prop where
  header : q.descAt m r.head = r.header
  dataSection : q.descAt m r.header.next = r.dataSection
  statusByte : q.descAt m r.dataSection.next = r.statusByte
  typ : m.u32 r.header.addr = if r.write then 1 else 0
  sector : m.u64 (r.header.addr + 8) = r.sector
  payload : r.write = true → m.load r.dataSection.addr r.dataSection.len.toNat = r.payload
  held : ∀ b ∈ r.buffers, m.Holds b.1 b.2

theorem header_mem (r : DriverRequest) : (r.header.addr, 16) ∈ r.buffers := List.mem_cons_self

theorem dataSection_mem (r : DriverRequest) : (r.dataSection.addr, r.dataSection.len.toNat) ∈ r.buffers :=
  List.mem_cons_of_mem _ List.mem_cons_self

theorem statusByte_mem (r : DriverRequest) : (r.statusByte.addr, 1) ∈ r.buffers :=
  List.mem_cons_of_mem _ (List.mem_cons_of_mem _ List.mem_cons_self)

theorem WellFormed.moved (h : r.WellFormed q) (lastAvailIdx lastUsedIdx : UInt16) :
    r.WellFormed { q with lastAvailIdx, lastUsedIdx } :=
  ⟨h.head_lt, h.header_readable, h.header_next, h.header_len, h.dataSection_lt, h.dataSection_next, h.direction,
    h.statusByte_lt, h.statusByte_writable, h.statusByte_len, h.clear, h.apart⟩

theorem InPlace.moved (h : r.InPlace q m) (lastAvailIdx lastUsedIdx : UInt16) :
    r.InPlace { q with lastAvailIdx, lastUsedIdx } m :=
  ⟨h.header, h.dataSection, h.statusByte, h.typ, h.sector, h.payload, h.held⟩

theorem WellFormed.data_status (h : r.WellFormed q) :
    Apart r.dataSection.addr r.dataSection.len.toNat r.statusByte.addr 1 := by
  obtain ⟨_, htail⟩ := List.pairwise_cons.mp h.apart
  exact (List.pairwise_cons.mp htail).1 _ (List.mem_singleton_self _)

theorem InPlace.frame {ranges : List (UInt64 × Nat)} (h : r.InPlace q m) (hw : r.WellFormed q) (hheld : q.QueueHeld m)
    (hframe : Ram.Frame ranges m m') (htable : ∀ p ∈ ranges, Apart p.1 p.2 q.descAddr q.tableBytes)
    (hbuffers : ∀ p ∈ ranges, ∀ b ∈ r.buffers, Apart p.1 p.2 b.1 b.2) : r.InPlace q m' := by
  have hdesc {index : UInt16} (hindex : index.toNat < q.size.toNat) : q.descAt m' index = q.descAt m index :=
    VirtioQueue.descAt_of_agree (hheld.descSafe hindex) hindex (hframe.agree htable)
  have hbuffer {addr : UInt64} {n : Nat} (hmem : (addr, n) ∈ r.buffers) : Ram.Agree addr n m m' :=
    hframe.agree fun p hp => hbuffers p hp _ hmem
  have hheader := hbuffer r.header_mem
  refine ⟨(hdesc hw.head_lt).trans h.header, (hdesc hw.dataSection_lt).trans h.dataSection,
    (hdesc hw.statusByte_lt).trans h.statusByte, ?_, ?_, ?_, fun b hb => (h.held b hb).frame hframe⟩
  · exact (hheader.u32 ⟨le_rfl, by omega⟩).trans h.typ
  · have hfits := (h.held _ r.header_mem).fits
    exact (hheader.u64 (Covers.offset (o := 8) hfits (by decide) (by decide))).trans h.sector
  · intro hwrite
    exact (hbuffer r.dataSection_mem).load_eq.trans (h.payload hwrite)

end DriverRequest

/-! ### Serving one request -/

namespace BlkVirtio

variable {H : HostOs} {q : VirtioQueue} {m : Ram} {r : DriverRequest} {t u : Ctx (BlkVirtio H) Ram}

theorem requestIn_of_inPlace (h : r.InPlace q m) : requestIn m r.header = r.chain.request := by
  unfold requestIn
  rw [h.typ, h.sector]
  cases hwrite : r.write with
  | false => simp [DriverRequest.chain, hwrite]
  | true => simp [DriverRequest.chain, hwrite]

theorem flagsOk_of_wellFormed (hw : r.WellFormed q) : flagsOk r.chain.request r.dataSection = true := by
  show (if r.write = true then !r.dataSection.isWrite else r.dataSection.isWrite) = true
  rw [hw.direction]
  cases r.write <;> rfl

theorem chainIn_of_inPlace (hw : r.WellFormed q) (h : r.InPlace q m) : chainIn q m r.head = some r.chain := by
  unfold chainIn
  dsimp only
  rw [h.header, requestIn_of_inPlace h, h.dataSection, h.statusByte]
  exact if_pos ⟨hw.header_next, hw.header_len, flagsOk_of_wellFormed hw, hw.statusByte_writable⟩

theorem chainSafe_of_inPlace (hheld : t.queue.QueueHeld t.mem) (hw : r.WellFormed t.queue)
    (h : r.InPlace t.queue t.mem) (hfits : r.sector.toNat * 512 < 2 ^ 64) : ChainSafe r.head t := by
  unfold ChainSafe
  dsimp only [Ctx.descAt]
  rw [h.header, requestIn_of_inPlace h, h.dataSection]
  refine ⟨hheld.descSafe hw.head_lt, fun _ _ => ⟨?_, hheld.descSafe hw.dataSection_lt, fun _ => ?_⟩, hheld.pushSafe⟩
  · have hend := (h.held _ r.header_mem).fits
    dsimp only at hend
    omega
  · exact ⟨hheld.descSafe hw.statusByte_lt, fun _ => hfits⟩

theorem fits_of_chainSafe (hw : r.WellFormed t.queue) (h : r.InPlace t.queue t.mem) (hsafe : ChainSafe r.head t) :
    r.sector.toNat * 512 < 2 ^ 64 := by
  unfold ChainSafe at hsafe
  dsimp only [Ctx.descAt] at hsafe
  rw [h.header, requestIn_of_inPlace h, h.dataSection, h.statusByte] at hsafe
  have hdata := (hsafe.2.1 hw.header_next hw.header_len).2.2 (flagsOk_of_wellFormed hw)
  exact hdata.2 hw.statusByte_writable

structure Carried (r : DriverRequest) (t u : Ctx (BlkVirtio H) Ram) : Prop where
  dev : u.dev = (carryOut t.dev t.mem r.chain).dev
  queue : u.queue = { t.queue with lastUsedIdx := t.queue.lastUsedIdx + 1 }
  mem : u.mem = t.queue.pushedTo (t.mem.storeAll (carryOut t.dev t.mem r.chain).writes) r.head
    (carryOut t.dev t.mem r.chain).len
  entry : usedEntries u.log = usedEntries t.log ++ [(r.head, (carryOut t.dev t.mem r.chain).len)]

theorem serve_inPlace (hheld : t.queue.QueueHeld t.mem) (hw : r.WellFormed t.queue) (h : r.InPlace t.queue t.mem)
    (hfits : r.sector.toNat * 512 < 2 ^ 64) : ∃ worked u, serve r.head t = .ok worked u ∧ Carried r t u := by
  obtain ⟨worked, u, hserve⟩ := returns_serve_iff.mpr (chainSafe_of_inPlace hheld hw h hfits)
  obtain ⟨_, hserved⟩ := serve_eq_ok hserve
  rw [chainIn_of_inPlace hw h] at hserved
  have hpushed := hserved.pushed
  rw [hheld.pushSafe.pushUsed_eq hheld.size_ne] at hpushed
  obtain ⟨hqueue, hmem⟩ := Prod.mk.inj (Except.ok.inj hpushed)
  exact ⟨worked, u, hserve, hserved.dev, hqueue.symm, hmem.symm, hserved.accounts.entry⟩

theorem carryOut_buffers (s : BlkVirtio H) (m : Ram) (chain : BlkChain) : ∀ w ∈ (carryOut s m chain).writes,
      (w.1, w.2.length) ∈ [(chain.dataSection.addr, chain.dataSection.len.toNat), (chain.statusByte.addr, 1)] := by
  refine carryOut_cases s m chain (P := fun o => ∀ w ∈ o.writes, (w.1, w.2.length) ∈
    [(chain.dataSection.addr, chain.dataSection.len.toNat), (chain.statusByte.addr, 1)]) ?_ ?_ ?_ ?_
  · exact fun _ => nofun
  · intro _ _ written host _
    simp
  · intro _ _ buf host _
    simp [buf.2]
  · intro _ _ e host _
    simp

theorem carryOut_apart (s : BlkVirtio H) (m : Ram) {chain : BlkChain}
    (h : Apart chain.dataSection.addr chain.dataSection.len.toNat chain.statusByte.addr 1) :
    (carryOut s m chain).writes.Pairwise fun w w' => Apart w.1 w.2.length w'.1 w'.2.length := by
  refine carryOut_cases s m chain
    (P := fun o => o.writes.Pairwise fun w w' => Apart w.1 w.2.length w'.1 w'.2.length) ?_ ?_ ?_ ?_
  · exact fun _ => .nil
  · exact fun _ _ _ _ _ => List.pairwise_singleton _ _
  · intro _ _ buf host _
    rw [List.pairwise_pair, buf.2]
    exact h
  · exact fun _ _ _ _ _ => List.pairwise_singleton _ _

theorem carryOut_attached (s : BlkVirtio H) (m : Ram) (chain : BlkChain) :
    (carryOut s m chain).dev.attached = s.attached :=
  carryOut_cases s m chain (P := fun o => o.dev.attached = s.attached)
    (fun _ => rfl) (fun _ _ _ _ _ => rfl) (fun _ _ _ _ _ => rfl) fun _ _ _ _ _ => rfl

theorem write_mem_buffers {s : BlkVirtio H} {w : UInt64 × Bytes} (hw : w ∈ (carryOut s m r.chain).writes) :
    (w.1, w.2.length) ∈ r.buffers :=
  List.mem_cons_of_mem _ (carryOut_buffers s m r.chain w hw)

/-- What is written for a request: the used ring and the buffers that are stored. -/
def touched (r : DriverRequest) (t : Ctx (BlkVirtio H) Ram) : List (UInt64 × Nat) :=
  (t.queue.usedAddr, t.queue.usedBytes) :: (carryOut t.dev t.mem r.chain).writes.map fun w => (w.1, w.2.length)

theorem touched_apart {addr : UInt64} {n : Nat} (hused : Apart t.queue.usedAddr t.queue.usedBytes addr n)
    (hbuffers : ∀ b ∈ r.buffers, Apart b.1 b.2 addr n) : ∀ p ∈ touched r t, Apart p.1 p.2 addr n := by
  intro p hp
  rcases List.mem_cons.mp hp with rfl | hp
  · exact hused
  · obtain ⟨w, hw, rfl⟩ := List.mem_map.mp hp
    exact hbuffers _ (write_mem_buffers hw)

theorem Carried.frame (h : Carried r t u) (hheld : t.queue.QueueHeld t.mem) :
    Ram.Frame (touched r t) t.mem u.mem := by
  have hstored := Ram.frame_storeAll t.mem (carryOut t.dev t.mem r.chain).writes
  have hpushed := (hheld.toRingsHeld.frame hstored).frame_pushedTo r.head (carryOut t.dev t.mem r.chain).len
  rw [h.mem]
  exact (hstored.weaken (List.subset_cons_self _ _)).trans (hpushed.weaken (by simp))

theorem Carried.load (h : Carried r t u) (hheld : t.queue.QueueHeld t.mem) (hw : r.WellFormed t.queue)
    (hp : r.InPlace t.queue t.mem) {w : UInt64 × Bytes} (hwrite : w ∈ (carryOut t.dev t.mem r.chain).writes) :
    u.mem.load w.1 w.2.length = w.2 := by
  have hstored := Ram.frame_storeAll t.mem (carryOut t.dev t.mem r.chain).writes
  have hpushed := (hheld.toRingsHeld.frame hstored).frame_pushedTo r.head (carryOut t.dev t.mem r.chain).len
  rw [h.mem]
  refine (hpushed.load w.1 w.2.length fun p hmem => ?_).trans ?_
  · rw [List.mem_singleton.mp hmem]
    exact (hw.clear _ (write_mem_buffers hwrite) _ t.queue.used_mem).symm
  · refine Ram.load_storeAll (fun w' hw' => ?_) (carryOut_apart _ _ hw.data_status) w hwrite
    exact hp.held _ (write_mem_buffers hw')

/-! ### The requests that wait -/

/-- The driver has published the requests, in this order, and the device has not taken any of them yet. -/
structure Outstanding (q : VirtioQueue) (m : Ram) (reqs : List DriverRequest) : Prop where
  held : q.QueueHeld m
  heads : q.published m = reqs.map (·.head)
  wellFormed : ∀ r ∈ reqs, r.WellFormed q
  inPlace : ∀ r ∈ reqs, r.InPlace q m
  apart : reqs.Pairwise DriverRequest.ApartFrom

variable {c : Ctx (BlkVirtio H) Ram} {reqs : List DriverRequest}

theorem Outstanding.pop (h : Outstanding c.queue c.mem (r :: reqs)) :
    Serve.popAvail c = .ok (some r.head) (c.pop c.dev r.head) ∧
      r.WellFormed (c.pop c.dev r.head).queue ∧ r.InPlace (c.pop c.dev r.head).queue c.mem ∧
      Outstanding (c.pop c.dev r.head).queue c.mem reqs := by
  have hpop := popAvail_cons (D := BlkVirtio H) h.held.toRingsHeld h.heads
  have hpublished := (published_of_pop h.held.toRingsHeld hpop).2.2
  have hlater {r' : DriverRequest} (hr' : r' ∈ reqs) : r' ∈ r :: reqs := List.mem_cons_of_mem _ hr'
  refine ⟨hpop, (h.wellFormed r List.mem_cons_self).moved _ _, (h.inPlace r List.mem_cons_self).moved _ _, ?_⟩
  refine ⟨h.held.moved _ _, ?_, fun r' hr' => (h.wellFormed r' (hlater hr')).moved _ _,
    fun r' hr' => (h.inPlace r' (hlater hr')).moved _ _, (List.pairwise_cons.mp h.apart).2⟩
  exact (List.cons.inj (hpublished.symm.trans h.heads)).2

theorem Outstanding.carried (h : Outstanding t.queue t.mem reqs) (hw : r.WellFormed t.queue)
    (hapart : ∀ r' ∈ reqs, r.ApartFrom r') (hcarried : Carried r t u) : Outstanding u.queue u.mem reqs := by
  have hframe := hcarried.frame h.held
  have htable : ∀ p ∈ touched r t, Apart p.1 p.2 t.queue.descAddr t.queue.tableBytes :=
    touched_apart h.held.table_apart.symm fun b hb => hw.clear b hb _ t.queue.table_mem
  have havail : ∀ p ∈ touched r t, Apart p.1 p.2 t.queue.availAddr t.queue.availBytes :=
    touched_apart h.held.toRingsHeld.apart.symm fun b hb => hw.clear b hb _ t.queue.avail_mem
  have hplace (r' : DriverRequest) (hr' : r' ∈ reqs) : r'.InPlace t.queue u.mem := by
    refine (h.inPlace r' hr').frame (h.wellFormed r' hr') h.held hframe htable fun p hp b' hb' => ?_
    refine touched_apart ?_ (fun b hb => hapart r' hr' b hb b' hb') p hp
    exact ((h.wellFormed r' hr').clear b' hb' _ t.queue.used_mem).symm
  rw [hcarried.queue]
  refine ⟨(h.held.frame hframe).moved _ _, ?_, fun r' hr' => (h.wellFormed r' hr').moved _ _,
    fun r' hr' => (hplace r' hr').moved _ _, h.apart⟩
  exact (VirtioQueue.published_of_agree h.held.toRingsHeld (hframe.agree havail)).trans h.heads

/-- **One request.** The device takes the first of the requests, carries it out, and leaves the others
waiting. -/
theorem Outstanding.serve_first (h : Outstanding c.queue c.mem (r :: reqs)) (hfits : r.sector.toNat * 512 < 2 ^ 64) :
    ∃ worked u, Serve.popAvail c = .ok (some r.head) (c.pop c.dev r.head) ∧
      serve r.head (c.pop c.dev r.head) = .ok worked u ∧ Carried r (c.pop c.dev r.head) u ∧
      Outstanding u.queue u.mem reqs := by
  obtain ⟨hpop, hw, hp, hrest⟩ := h.pop
  obtain ⟨worked, u, hserve, hcarried⟩ := serve_inPlace (t := c.pop c.dev r.head) hrest.held hw hp hfits
  exact ⟨worked, u, hpop, hserve, hcarried, Outstanding.carried hrest hw (List.pairwise_cons.mp h.apart).1 hcarried⟩

theorem tick_of_attached (fuel : Nat) (h : c.dev.attached = true) :
    VirtioDevice.tick fuel 0 c = drainBatch Serve.popAvail serve maxBatch c := by
  show (if (0 : Nat) ≠ 0 ∨ !c.dev.attached then (return false)
    else drainBatch Serve.popAvail serve maxBatch : Serve (BlkVirtio H) Ram Bool) c = _
  rw [if_neg (by simp [h])]

end BlkVirtio

end FerrumVM
