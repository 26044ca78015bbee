import FerrumVM.FirmwareNet

/-! Frames that come in, up to the buffer of the caller of `virtio_net_poll_receive`: the device stores twelve bytes
of header in front of a frame, and the driver skips ten of them. With that, what becomes of a frame on its way
through driver and device, in both directions. -/

namespace FerrumVM

open Base Program MMIOTransport Virtqueue

namespace NetDriver

open Guest

variable {layout : NetLayout} {fuel : Nat} {m : Ram} {frame : Bytes} {idx rxSeen txSeen : UInt16}
  {g : Guest NetStatics RecordedNet} {s : NetStatics}

/-! ### The receive buffers -/

theorem rxBuffer_place (hvalid : layout.Valid m) (hidx : idx.toNat < 16) :
    (rxBuffer layout idx).toNat = layout.rxBuffers.toNat + 1524 * idx.toNat ∧
      Covers layout.rxBuffers (16 * bufSize) (rxBuffer layout idx) bufSize := by
  have hfits : layout.rxBuffers.toNat + 24384 ≤ 2 ^ 64 := hvalid.rxBuffers.fits
  have hoffset : (idx.toUInt64 * 1524).toNat = 1524 * idx.toNat := by
    simp only [UInt64.toNat_mul, UInt16.toNat_toUInt64, UInt64.reduceToNat]
    omega
  have hat : (rxBuffer layout idx).toNat = layout.rxBuffers.toNat + 1524 * idx.toNat := by
    rw [rxBuffer, toNat_add_of_lt (by omega), hoffset]
  have hbufSize : bufSize = 1524 := rfl
  refine ⟨hat, ?_⟩
  rw [hbufSize]
  unfold Covers
  omega

section Buffer

variable (hvalid : layout.Valid m) (hidx : idx.toNat < 16)

include hvalid hidx

theorem rxBuffer_held : m.Holds (rxBuffer layout idx) 1524 := hvalid.rxBuffers.sub (rxBuffer_place hvalid hidx).2

theorem toNat_rxBuffer_add {k : UInt64} (hk : k.toNat < 1524) :
    (rxBuffer layout idx + k).toNat = (rxBuffer layout idx).toNat + k.toNat := by
  have hfits := (rxBuffer_held hvalid hidx).fits
  exact toNat_add_of_lt (by omega)

theorem body_held {n : Nat} (hn : n ≤ 1514) : m.Holds (rxBuffer layout idx + 10) n := by
  have hten : (rxBuffer layout idx + 10).toNat = (rxBuffer layout idx).toNat + 10 :=
    toNat_rxBuffer_add hvalid hidx (by decide)
  refine (rxBuffer_held hvalid hidx).sub ?_
  unfold Covers
  omega

end Buffer

structure Arrived (layout : NetLayout) (s : NetStatics) (idx : UInt16) (frame : Bytes) (m : Ram) : Prop where
  valid : layout.Valid m
  txAvail : m.u16 (Virtqueue.avail layout.txQueue + 2) = s.txAvailIdx
  usedIdx : m.u16 (Virtqueue.used layout.rxQueue + 2) = s.rxLastUsed + 1
  id : m.u32 (Virtqueue.usedSlot layout.rxQueue s.rxLastUsed) = idx.toUInt32
  len : m.u32 (Virtqueue.usedSlot layout.rxQueue s.rxLastUsed + 4) = reported ⟨frame, idx, rxDesc layout idx, true⟩
  body : frame.length ≤ 1512 → m.load (rxBuffer layout idx + 10) (2 + frame.length) = [0, 0] ++ frame

abbrev matched (layout : NetLayout) (idx : UInt16) (frame : Bytes) : NetVirtio.Matched :=
  ⟨frame, idx, rxDesc layout idx, true⟩

theorem load_body (hvalid : layout.Valid m) (hidx : idx.toNat < 16) (hlength : frame.length ≤ 1512)
    (hheader : m.load (rxBuffer layout idx) 12 = List.replicate 12 0)
    (hframe : m.load (rxBuffer layout idx + 12) frame.length = frame) :
    m.load (rxBuffer layout idx + 10) (2 + frame.length) = [0, 0] ++ frame := by
  have hhead := hvalid.flat.load_append (n := 10) (k := 2)
    ((rxBuffer_held hvalid hidx).sub (show Covers (rxBuffer layout idx) 1524 (rxBuffer layout idx) (10 + 2) by
      unfold Covers; omega))
  have hrest := hvalid.flat.load_append (n := 2) (k := frame.length) (body_held hvalid hidx (by omega))
  have htwo : m.load (rxBuffer layout idx + 10) 2 = [0, 0] := by
    rw [hheader] at hhead
    have hdrop := congrArg (List.drop 10) hhead
    rw [List.drop_left' (Ram.length_load _ _ _)] at hdrop
    exact hdrop.symm
  have hnext : rxBuffer layout idx + 10 + UInt64.ofNat 2 = rxBuffer layout idx + 12 := UInt64.add_assoc _ _ _
  rw [hrest, htwo, hnext, hframe]

theorem fits_iff : (matched layout idx frame).Fits ↔ frame.length ≤ 1512 := by
  have hlen : (UInt32.ofNat bufSize).toNat = 1524 := rfl
  show frame.length + 12 ≤ (UInt32.ofNat bufSize).toNat ↔ _
  rw [hlen]
  omega

theorem writes_within (frame : Bytes) (hvalid : layout.Valid m) (hidx : idx.toNat < 16) :
    ∀ w ∈ (matched layout idx frame).writes, Covers (rxBuffer layout idx) bufSize w.1 w.2.length := by
  intro w hw
  by_cases hfits : (matched layout idx frame).Fits
  · have hlength := fits_iff.mp hfits
    have hbufSize : bufSize = 1524 := rfl
    have hbody : (rxBuffer layout idx + 12).toNat = (rxBuffer layout idx).toNat + 12 :=
      toNat_rxBuffer_add hvalid hidx (by decide)
    rw [NetVirtio.Matched.writes_of_fits hfits] at hw
    rw [hbufSize]
    unfold Covers
    rcases List.mem_pair.mp hw with rfl | rfl
    · dsimp only [rxDesc]
      rw [List.length_replicate]
      omega
    · dsimp only [rxDesc]
      omega
  · rw [NetVirtio.Matched.writes_of_not_fits hfits] at hw
    cases hw

/-- **A frame arrives** in the buffer and on the used ring, and what the driver has on its transmit queue stays. -/
theorem arrived (frame : Bytes) (rxSeen : UInt16) (hvalid : layout.Valid m)
    (htxAvail : m.u16 (avail layout.txQueue + 2) = s.txAvailIdx) (hidx : idx.toNat < 16) :
    Arrived layout s idx frame ((seen layout.rxQueue rxSeen s.rxLastUsed).pushedTo
      (m.storeAll (matched layout idx frame).writes) idx (reported (matched layout idx frame))) := by
  obtain ⟨hqueues, hrxBuffers, -, htxBuffers, -, -⟩ := hvalid.pairs
  have hbuffer := (rxBuffer_place hvalid hidx).2
  have hwithin := writes_within frame hvalid hidx
  have hstored := Ram.frame_storeAll m (matched layout idx frame).writes
  have hvalid' := hvalid.storeAll (matched layout idx frame).writes
  have hheld : (seen layout.rxQueue rxSeen s.rxLastUsed).QueueHeld
      (m.storeAll (matched layout idx frame).writes) := queueHeld hvalid'.rxQueue
  have hused : Covers layout.rxQueue sizeInBytes (used layout.rxQueue) 132 :=
    parts_covered hvalid.rxQueue _ ((seen layout.rxQueue rxSeen s.rxLastUsed).used_mem)
  have hpushed := hheld.toRingsHeld.frame_pushedTo idx (reported (matched layout idx frame))
  have hentry := hheld.toRingsHeld.usedEntry idx (reported (matched layout idx frame))
  have hvalid'' := hvalid'.pushedTo (seen layout.rxQueue rxSeen s.rxLastUsed) idx
    (reported (matched layout idx frame))
  refine ⟨hvalid'', ?_, hentry.idx, hentry.id, hentry.len, fun hlength => ?_⟩
  · have hfirst : Ram.Agree layout.txQueue sizeInBytes m
        (m.storeAll (matched layout idx frame).writes) := hstored.agree fun r hr => by
      obtain ⟨w, hw, rfl⟩ := List.mem_map.mp hr
      exact (htxBuffers.of_covers (hbuffer.trans (hwithin w hw))).symm
    have hsecond := hpushed.agree fun r hr => by
      rw [List.mem_singleton.mp hr]
      exact (hqueues.symm.of_covers hused).symm
    exact ((hfirst.trans hsecond).u16 (availIdx_covered hvalid.txQueue)).trans htxAvail
  · have hfits : (matched layout idx frame).Fits := fits_iff.mpr hlength
    have hwrites := NetVirtio.Matched.writes_of_fits hfits
    have hnext : (rxBuffer layout idx + 12).toNat = (rxBuffer layout idx).toNat + 12 :=
      toNat_rxBuffer_add hvalid hidx (by decide)
    have hpairs : (matched layout idx frame).writes.Pairwise StoresApart := by
      rw [hwrites]
      refine List.pairwise_pair.mpr (Or.inl ?_)
      rw [List.length_replicate]
      exact hnext.ge
    have hload := Ram.load_storeAll
      (fun w hw => hvalid.rxBuffers.sub (hbuffer.trans (hwithin w hw))) hpairs
    -- the push leaves the buffers alone
    have hkept (w) (hw : w ∈ (matched layout idx frame).writes) :=
      (hpushed.load w.1 w.2.length fun r hr => by
        rw [List.mem_singleton.mp hr]
        exact (hrxBuffers.of_covers (hbuffer.trans (hwithin w hw))).symm.of_covers hused |>.symm).trans (hload w hw)
    refine load_body hvalid'' hidx hlength ?_ ?_
    · exact hkept (rxBuffer layout idx, List.replicate 12 0) (by rw [hwrites]; exact List.mem_cons_self)
    · exact hkept (rxBuffer layout idx + 12, frame)
        (by rw [hwrites]; exact List.mem_cons_of_mem _ List.mem_cons_self)

/-! ### Putting a buffer on the receive queue -/

section Posting

variable {queue : UInt64} (hqueue : m.Holds queue Virtqueue.sizeInBytes) (hidx : idx.toNat < 16)

include hqueue hidx

theorem posting_within (desc : VirtqDesc) (availIdx : UInt16) :
    ∀ w ∈ publishing queue idx desc availIdx, Covers queue sizeInBytes w.1 w.2.length := by
  intro w hw
  rcases List.mem_append.mp hw with hw | hw
  · exact (posting_places hqueue hidx desc availIdx w hw).1
  · rw [List.mem_singleton.mp hw, length_u16ToLe]
    exact availIdx_covered hqueue

theorem frame_posting (desc : VirtqDesc) (availIdx : UInt16) :
    Ram.Frame [(queue, sizeInBytes)] m (m.storeAll (publishing queue idx desc availIdx)) := by
  refine (Ram.frame_storeAll _ _).mono fun r hr => ?_
  obtain ⟨w, hw, rfl⟩ := List.mem_map.mp hr
  exact ⟨_, List.mem_singleton_self _, posting_within hqueue hidx desc availIdx w hw⟩

theorem pairwise_posting (desc : VirtqDesc) (availIdx : UInt16) :
    (publishing queue idx desc availIdx).Pairwise StoresApart := by
  have hentry := toNat_entry hqueue hidx
  have hslot := toNat_availSlot hqueue availIdx
  have hfits : queue.toNat + 428 ≤ 2 ^ 64 := hqueue.fits
  have hend : (queue + idx.toUInt64 * 16).toNat + 16 ≤ 2 ^ 64 := by omega
  refine List.pairwise_append.mpr ⟨?_, List.pairwise_singleton _ _, fun w hw w' hw' => ?_⟩
  · refine List.pairwise_append.mpr ⟨VirtioQueue.pairwise_descFields desc hend, List.pairwise_singleton _ _,
      fun w hw w' hw' => ?_⟩
    have hin := VirtioQueue.descFields_within desc hend w hw
    rw [List.mem_singleton.mp hw']
    unfold Covers at hin
    unfold StoresApart Apart
    dsimp only at hin ⊢
    omega
  · rw [List.mem_singleton.mp hw', StoresApart, length_u16ToLe]
    exact (posting_places hqueue hidx desc availIdx w hw).2

theorem posted (desc : VirtqDesc) (availIdx lastUsedIdx : UInt16) {m' : Ram}
    (hm' : m' = m.storeAll (publishing queue idx desc availIdx)) :
    (seen queue availIdx lastUsedIdx).published m' = [idx] ∧
      (seen queue availIdx lastUsedIdx).descAt m' idx = desc := by
  have hload := Ram.load_storeAll (fun w hw => hqueue.sub (posting_within hqueue hidx desc availIdx w hw))
    (pairwise_posting hqueue hidx desc availIdx)
  rw [← hm'] at hload
  have hu16 {addr : UInt64} {val : UInt16} (hmem : (addr, u16ToLe val) ∈ publishing queue idx desc availIdx) :
      m'.u16 addr = val := by
    have hword := hload _ hmem
    rw [length_u16ToLe] at hword
    exact (congrArg u16FromLe hword).trans (u16FromLe_toLe val)
  have hnext : m'.u16 (avail queue + 2) = availIdx + 1 := hu16 (by simp)
  have hhead : m'.u16 (availSlot queue availIdx) = idx := hu16 (by simp [posting])
  refine ⟨by rw [published_one hnext, hhead], VirtioQueue.descAt_of_fields fun w hw => hload w ?_⟩
  exact List.mem_append_left _ (List.mem_append_left _ hw)

end Posting


/-- No tick and no notification of the receive queue does anything, as long as the transmit queue stays as it is. -/
structure Calm (layout : NetLayout) (fuel : Nat) (txSeen : UInt16) (b : Bus (NetVirtio HostOs.recorder) Ram) : Prop where
  atRest : ∀ m, Settled layout txSeen m → AtRest fuel { b with mem := m }
  notify : ∀ m, Settled layout txSeen m → notifyQueue fuel 0 { b with mem := m } = .ok () { b with mem := m }

theorem calm_of_runs {dev : RecordedNet} {rxUsed txUsed : UInt16} {b : Bus RecordedNet Ram}
    (hruns : Runs dev (seen layout.rxQueue rxSeen rxUsed) (seen layout.txQueue txSeen txUsed) m b)
    (hattached : dev.attached = true) (hnone : dev.tapDevice.packetReciveQueue = []) :
    Calm layout (fuel + 1) txSeen b := by
  have hmem (m' : Ram) : Runs dev (seen layout.rxQueue rxSeen rxUsed)
      (seen layout.txQueue txSeen txUsed) m' { b with mem := m' } :=
    ⟨hruns.device, hruns.queues, rfl, hruns.running, rfl, rfl⟩
  refine ⟨fun m' hsettled => hsettled.atRest (hmem m') hattached hnone, fun m' hsettled => ?_⟩
  refine notifyQueue_of_idle (hmem m').rx_eq fun _ => ?_
  rw [IdleOn, (hmem m').contextOf_eq]
  exact rx_idle (c := ⟨_, _, _, _⟩) hattached (queueHeld hsettled.rxQueue).toRingsHeld hnone

theorem recycle_of_calm (hcalm : Calm layout fuel txSeen g.bus) (hsettled : Settled layout txSeen g.bus.mem)
    (hvalid : layout.Valid g.bus.mem) (hidx : idx.toNat < 16) : ∃ g', recycle layout fuel idx g = .ok () g' ∧
      Ram.Frame [(layout.rxQueue, sizeInBytes)] g.bus.mem g'.bus.mem := by
  have hplaces := posting_places hvalid.rxQueue hidx (rxDesc layout idx) g.statics.rxAvailIdx
  have htx := availIdx_covered hvalid.txQueue
  have hapart {addr : UInt64} {n : Nat} (hin : Covers layout.rxQueue sizeInBytes addr n) :
      Apart addr n (avail layout.txQueue + 2) 2 :=
    ((hvalid.pairs.1.symm.of_covers hin).symm.of_covers htx)
  obtain ⟨g1, hpost, -, hbus⟩ := post_of_atRest (fun s => { s with rxAvailIdx := s.rxAvailIdx + 1 }) hcalm.atRest hsettled
    fun w hw => hapart (hplaces w hw).1
  have hframe : Ram.Frame [(layout.rxQueue, sizeInBytes)] g.bus.mem g1.bus.mem := by
    rw [hbus]
    exact frame_posting hvalid.rxQueue hidx _ _
  have hsettled1 : Settled layout txSeen g1.bus.mem := by
    have hagree := hframe.agree fun r hr => by
      rw [List.mem_singleton.mp hr]
      exact hvalid.pairs.1
    exact ⟨hsettled.rxQueue.frame hframe, hsettled.txQueue.frame hframe, (hagree.u16 htx).trans hsettled.txAvail⟩
  have hbus1 : g1.bus = { g.bus with mem := g1.bus.mem } := by rw [hbus]
  have hatRest : AtRest fuel g1.bus := by
    rw [hbus1]
    exact hcalm.atRest _ hsettled1
  have hnotify : MMIOTransport.write fuel VirtioMmio.queueNotify (u32ToLe 0) g1.bus = .ok () g1.bus := by
    rw [hbus1]
    exact write_queueNotify.trans (hcalm.notify _ hsettled1)
  exact ⟨g1.next g1.bus, (bind_of_ok (get_bind.trans hpost)).trans
    (access_of_atRest hatRest hnotify), hframe⟩

/-! ### Polling -/

def handed (frame : Bytes) (bufCap : UInt16) : Nat :=
  if frame.length ≤ 1512 then min (2 + frame.length) bufCap.toNat else 0

structure CallerBuffer (layout : NetLayout) (buf : UInt64) (n : Nat) (m : Ram) : Prop where
  held : m.Holds buf n
  rxQueue : Apart buf n layout.rxQueue Virtqueue.sizeInBytes
  txQueue : Apart buf n layout.txQueue Virtqueue.sizeInBytes

section Poll

variable {buf : UInt64} {bufCap : UInt16}

theorem settled_of_arrived (h : Arrived layout s idx frame m) : Settled layout s.txAvailIdx m :=
  ⟨h.valid.rxQueue, h.valid.txQueue, h.txAvail⟩

theorem takeFrame_short (buf : UInt64) (bufCap : UInt16) (hcalm : Calm layout fuel g.statics.txAvailIdx g.bus)
    (harrived : Settled layout g.statics.txAvailIdx g.bus.mem) (hvalid : layout.Valid g.bus.mem) (hidx : idx.toNat < 16) :
    ∃ g', takeFrame layout fuel buf bufCap idx 0 g = .ok 0 g' := by
  obtain ⟨g', hrecycle, -⟩ := recycle_of_calm
    (g := { g with serial := g.serial ++ ["virtio-net: short rx descriptor!\n"] }) hcalm harrived hvalid hidx
  refine ⟨g', ?_⟩
  unfold takeFrame
  rw [if_pos (by decide)]
  exact (bind_of_ok rfl).trans ((bind_of_ok hrecycle).trans rfl)

/-- A used entry of a frame that fits: the caller gets the last two bytes of the header in front of it. -/
theorem takeFrame_fits (hcalm : Calm layout fuel g.statics.txAvailIdx g.bus)
    (harrived : Arrived layout s idx frame g.bus.mem) (hstatics : s.txAvailIdx = g.statics.txAvailIdx)
    (hidx : idx.toNat < 16) (hlength : frame.length ≤ 1512) (hbuf : CallerBuffer layout buf bufCap.toNat g.bus.mem) :
    ∃ g', takeFrame layout fuel buf bufCap idx (UInt32.ofNat (12 + frame.length)) g =
      .ok (UInt16.ofNat (min (2 + frame.length) bufCap.toNat)) g' ∧
        g'.bus.mem.load buf (min (2 + frame.length) bufCap.toNat) =
          ([0, 0] ++ frame).take (min (2 + frame.length) bufCap.toNat) := by
  have hwritten : (UInt32.ofNat (12 + frame.length)).toNat = 12 + frame.length :=
    UInt32.toNat_ofNat_of_lt' (show 12 + frame.length < 2 ^ 32 by omega)
  have hcount : (UInt32.ofNat (12 + frame.length)).toNat - hdrSize = 2 + frame.length := by
    rw [hwritten, hdrSize]
    omega
  have hsettled := settled_of_arrived harrived
  rw [hstatics] at hsettled
  obtain ⟨count, hn⟩ : ∃ count, min (2 + frame.length) bufCap.toNat = count := ⟨_, rfl⟩
  have hdata : g.bus.mem.load (rxBuffer layout idx + 10) count = ([0, 0] ++ frame).take count := by
    obtain ⟨rest, hrest⟩ := Nat.exists_eq_add_of_le (show count ≤ 2 + frame.length by omega)
    have hparts := harrived.valid.flat.load_append (n := count) (k := rest) (body_held harrived.valid hidx (by omega))
    rw [← hrest, harrived.body hlength] at hparts
    rw [hparts, List.take_left' (Ram.length_load _ _ _)]
  obtain ⟨data, htaken⟩ : ∃ data, ([0, 0] ++ frame).take count = data := ⟨_, rfl⟩
  rw [htaken] at hdata
  have hsize : data.length = count := by rw [← hdata, Ram.length_load]
  have htx := availIdx_covered harrived.valid.txQueue
  have hpart : Covers buf bufCap.toNat buf count := ⟨le_rfl, by omega⟩
  have hsettled1 : Settled layout g.statics.txAvailIdx (g.bus.mem.store buf data) := hsettled.store (by
    rw [hsize]
    exact (hbuf.txQueue.symm.of_covers hpart).symm.of_covers htx)
  have hatRest : AtRest fuel g.bus := hcalm.atRest g.bus.mem hsettled
  have hload := load_of_atRest hatRest (rxBuffer layout idx + 10) count
  rw [hdata] at hload
  have hstore := store_of_atRest (g := g.next g.bus) hatRest buf data
  obtain ⟨g', hrecycle, hframe⟩ := recycle_of_calm (g := (g.next g.bus).storedAll [(buf, data)])
    ⟨hcalm.atRest, hcalm.notify⟩ hsettled1 (harrived.valid.store buf data) hidx
  refine ⟨g', ?_, ?_⟩
  · unfold takeFrame
    rw [if_neg (by rw [hwritten, hdrSize]; omega)]
    rw [hcount, hn]
    exact (bind_of_ok hload).trans ((bind_of_ok hstore).trans ((bind_of_ok hrecycle).trans rfl))
  · rw [hn, htaken]
    refine (hframe.load buf count fun r hr => ?_).trans ((hbuf.held.sub hpart).load_store hsize)
    rw [List.mem_singleton.mp hr]
    exact hbuf.rxQueue.symm.of_covers hpart

theorem virtioNetPollReceive_of_arrived (hcalm : Calm layout fuel g.statics.txAvailIdx g.bus)
    (harrived : Arrived layout g.statics idx frame g.bus.mem) (hidx : idx.toNat < 16)
    (hbuf : CallerBuffer layout buf bufCap.toNat g.bus.mem) :
    ∃ g', virtioNetPollReceive layout fuel buf bufCap g = .ok (UInt16.ofNat (handed frame bufCap)) g' ∧
      g'.bus.mem.load buf (handed frame bufCap) = ([0, 0] ++ frame).take (handed frame bufCap) := by
  have hsettled := settled_of_arrived harrived
  have hatRest : AtRest fuel g.bus := hcalm.atRest g.bus.mem hsettled
  have hnew : ¬u16FromLe (g.bus.mem.load (used layout.rxQueue + 2) 2) = g.statics.rxLastUsed := by
    show ¬g.bus.mem.u16 _ = _
    rw [harrived.usedIdx]
    exact succ_idx_ne _
  have hid : (u32FromLe (g.bus.mem.load (usedSlot layout.rxQueue g.statics.rxLastUsed) 4)).toUInt16 = idx := by
    show (g.bus.mem.u32 _).toUInt16 = _
    rw [harrived.id, UInt16.toUInt16_toUInt32]
  have hwritten : u32FromLe (g.bus.mem.load (usedSlot layout.rxQueue g.statics.rxLastUsed + 4) 4) =
      reported (matched layout idx frame) := harrived.len
  have hrun : virtioNetPollReceive layout fuel buf bufCap g =
      takeFrame layout fuel buf bufCap idx (reported (matched layout idx frame))
        { ((g.next g.bus).next g.bus).next g.bus with
          statics := { g.statics with rxLastUsed := g.statics.rxLastUsed + 1 } } := by
    unfold virtioNetPollReceive
    refine get_bind.trans ((bind_of_ok (load_of_atRest hatRest _ 2)).trans ?_)
    rw [if_neg hnew]
    refine (bind_of_ok (load_of_atRest (g := g.next g.bus) hatRest _ 4)).trans ?_
    refine (bind_of_ok (load_of_atRest (g := (g.next g.bus).next g.bus) hatRest _ 4)).trans ?_
    refine (bind_of_ok rfl).trans ?_
    show takeFrame layout fuel buf bufCap (u32FromLe (g.bus.mem.load _ 4)).toUInt16 (u32FromLe (g.bus.mem.load _ 4)) _ = _
    rw [hid, hwritten]
    rfl
  rw [hrun, handed, reported]
  by_cases hfits : (matched layout idx frame).Fits
  · have hlength := fits_iff.mp hfits
    rw [if_pos hfits, if_pos hlength]
    exact takeFrame_fits (g := { ((g.next g.bus).next g.bus).next g.bus with
      statics := { g.statics with rxLastUsed := g.statics.rxLastUsed + 1 } }) hcalm harrived rfl hidx hlength hbuf
  · rw [if_neg hfits, if_neg fun hlength => hfits (fits_iff.mpr hlength)]
    obtain ⟨g', hshort⟩ := takeFrame_short buf bufCap
      (g := { ((g.next g.bus).next g.bus).next g.bus with
        statics := { g.statics with rxLastUsed := g.statics.rxLastUsed + 1 } }) hcalm hsettled harrived.valid hidx
    exact ⟨g', hshort, List.eq_nil_of_length_eq_zero (Ram.length_load _ _ _)⟩

end Poll

/-! ### Delivery -/

/-- A frame waits at the TAP device, and the next buffer on the receive queue is one of the driver's, as
`net_rx_post_buffer` puts it there. -/
structure Awaits (layout : NetLayout) (rxSeen idx : UInt16) (frame : Bytes)
    (g : Guest NetStatics (NetVirtio HostOs.recorder)) : Prop where
  ready : Ready layout rxSeen [frame] g
  posted : ∃ rest, (Virtqueue.seen layout.rxQueue rxSeen g.statics.rxLastUsed).published g.bus.mem = idx :: rest
  idx_lt : idx.toNat < 16
  desc : (Virtqueue.seen layout.rxQueue rxSeen g.statics.rxLastUsed).descAt g.bus.mem idx = rxDesc layout idx

theorem Awaits.delivered (h : Awaits layout rxSeen idx frame g) (fuel : Nat) :
    ∃ (dev : RecordedNet) (m : Ram), dev.attached = true ∧ dev.tapDevice.packetReciveQueue = [] ∧
      Arrived layout g.statics idx frame m ∧ (∀ addr n, g.bus.mem.Holds addr n → m.Holds addr n) ∧
        ∀ b, Runs g.bus.transport.device (seen layout.rxQueue rxSeen g.statics.rxLastUsed)
            (seen layout.txQueue g.statics.txAvailIdx g.statics.txLastUsed) g.bus.mem b →
          ∃ b', MMIOTransport.tick (fuel + 2) b = .ok () b' ∧
            Runs dev (seen layout.rxQueue (rxSeen + 1) (g.statics.rxLastUsed + 1))
              (seen layout.txQueue g.statics.txAvailIdx g.statics.txLastUsed) m b' := by
  obtain ⟨hready, ⟨rest, hposted⟩, hidx, hdesc⟩ := h
  have hvalid := hready.valid
  have hrx : (seen layout.rxQueue rxSeen g.statics.rxLastUsed).QueueHeld g.bus.mem :=
    queueHeld hvalid.rxQueue
  have hbelow : (rxDesc layout idx).addr.toNat + 12 < 2 ^ 64 := by
    have hfits := (rxBuffer_held hvalid hidx).fits
    show (rxBuffer layout idx).toNat + 12 < 2 ^ 64
    omega
  obtain ⟨worked, u, htick, hdev, hqueue, hmem⟩ := rx_one fuel
    (c := ⟨g.bus.transport.device, seen layout.rxQueue rxSeen g.statics.rxLastUsed, g.bus.mem, []⟩)
    hready.attached hrx hready.frames hposted hidx (by rw [Ctx.descAt, hdesc]; exact hbelow)
  rw [Ctx.descAt, hdesc] at hmem
  have harrived := arrived (s := g.statics) frame rxSeen hvalid hready.txAvail hidx
  have hstored := Ram.frame_storeAll g.bus.mem (matched layout idx frame).writes
  have hpushed := (hrx.toRingsHeld.frame hstored).frame_pushedTo idx (reported (matched layout idx frame))
  rw [← hmem] at harrived hpushed
  have hattached : u.dev.attached = true := by
    rw [hdev]
    exact hready.attached
  refine ⟨u.dev, u.mem, hattached, by rw [hdev]; rfl, harrived,
    fun addr n hheld => (hheld.frame hstored).frame hpushed, fun b hruns => ?_⟩
  have hidle : VirtioDevice.tick (fuel + 2) 1 (⟨u.dev, _, u.mem, []⟩ : Ctx RecordedNet Ram) =
      .ok false ⟨u.dev, seen layout.txQueue g.statics.txAvailIdx g.statics.txLastUsed, u.mem, []⟩ :=
    tx_idle (c := ⟨_, _, _, _⟩) hattached (queueHeld harrived.valid.txQueue).toRingsHeld
      (published_nil harrived.txAvail)
  have hseen : u.queue = seen layout.rxQueue (rxSeen + 1) (g.statics.rxLastUsed + 1) := hqueue
  obtain ⟨b', hrun, hruns'⟩ := hruns.tick htick (by rw [hseen]; rfl) hidle rfl
  rw [hseen] at hruns'
  exact ⟨b', hrun, hruns'⟩

def tickAndPoll (layout : NetLayout) (fuel : Nat) (buf : UInt64) (bufCap : UInt16) :
    Program (Guest NetStatics (NetVirtio HostOs.recorder)) UInt16 := do
  access fuel (MMIOTransport.tick fuel)
  virtioNetPollReceive layout fuel buf bufCap

/-- **Receiving.** The caller is given the last two bytes of the header of the device in front of the frame, cut to
the room it has; a frame of more than 1512 bytes is lost. -/
theorem tickAndPoll_of_awaits (fuel : Nat) {buf : UInt64} {bufCap : UInt16} (h : Awaits layout rxSeen idx frame g)
    (hbuf : CallerBuffer layout buf bufCap.toNat g.bus.mem) :
    ∃ g', tickAndPoll layout (fuel + 2) buf bufCap g = .ok (UInt16.ofNat (handed frame bufCap)) g' ∧
      g'.bus.mem.load buf (handed frame bufCap) = ([0, 0] ++ frame).take (handed frame bufCap) := by
  obtain ⟨dev, m, hattached, hnone, harrived, hholds, htick⟩ := h.delivered fuel
  have hsettled := settled_of_arrived harrived
  -- The frame may have come with a background tick already; from then on ticks find nothing to do.
  have hflight (b : Bus RecordedNet Ram)
      (hb : Runs g.bus.transport.device (seen layout.rxQueue rxSeen g.statics.rxLastUsed)
          (seen layout.txQueue g.statics.txAvailIdx g.statics.txLastUsed) g.bus.mem b ∨
        Runs dev (seen layout.rxQueue (rxSeen + 1) (g.statics.rxLastUsed + 1))
          (seen layout.txQueue g.statics.txAvailIdx g.statics.txLastUsed) m b) :
      ∃ b', MMIOTransport.tick (fuel + 2) b = .ok () b' ∧
        Runs dev (seen layout.rxQueue (rxSeen + 1) (g.statics.rxLastUsed + 1))
          (seen layout.txQueue g.statics.txAvailIdx g.statics.txLastUsed) m b' := by
    rcases hb with hruns | hruns
    · exact htick b hruns
    · exact ⟨b, hsettled.atRest hruns hattached hnone, hruns⟩
  obtain ⟨_, b, haccess, hruns⟩ := access_of_stable (g := g) (Q := fun _ b => Runs dev _ _ m b)
    (fun b hb => (hflight b hb).imp fun _ hb' => ⟨hb'.1, .inr hb'.2⟩) (fun b hb => ⟨(), hflight b hb⟩)
    (.inl (h.ready.runs g.bus.mem))
  have hcalm : Calm layout (fuel + 2) g.statics.txAvailIdx b := calm_of_runs hruns hattached hnone
  rw [← hruns.mem] at harrived hholds
  obtain ⟨g', hpoll, hload⟩ := virtioNetPollReceive_of_arrived (g := g.next b) hcalm harrived h.idx_lt
    ⟨hholds _ _ hbuf.held, hbuf.rxQueue, hbuf.txQueue⟩
  exact ⟨g', (bind_of_ok haccess).trans hpoll, hload⟩

/-! ### Posting a buffer -/

def arriving (frames : List Bytes) (g : Guest NetStatics (NetVirtio HostOs.recorder)) :
    Guest NetStatics (NetVirtio HostOs.recorder) :=
  let dev := g.bus.transport.device
  let tapDevice := { dev.tapDevice with packetReciveQueue := dev.tapDevice.packetReciveQueue ++ frames }
  { g with
    bus := { g.bus with
      transport := { g.bus.transport with
        device := dev.setTap tapDevice } } }

/-- **Posting.** `net_rx_post_buffer` makes its buffer the one that the next frame goes to, if the receive queue has
no other. -/
theorem netRxPostBuffer_of_ready (hready : Ready layout rxSeen [] g) (hidx : idx.toNat < 16)
    (hstatics : g.statics.rxAvailIdx = rxSeen) : ∃ g', netRxPostBuffer layout (fuel + 1) idx g = .ok () g' ∧
      (∀ addr n, g.bus.mem.Holds addr n → g'.bus.mem.Holds addr n) ∧
        ∀ frame, Awaits layout rxSeen idx frame (arriving [frame] g') := by
  have hvalid := hready.valid
  have hplaces := posting_places hvalid.rxQueue hidx (rxDesc layout idx) g.statics.rxAvailIdx
  have hsettled : Settled layout g.statics.txAvailIdx g.bus.mem := ⟨hvalid.rxQueue, hvalid.txQueue, hready.txAvail⟩
  have htx := availIdx_covered hvalid.txQueue
  have hatRest (m : Ram) (hm : Settled layout g.statics.txAvailIdx m) : AtRest (fuel + 1) { g.bus with mem := m } :=
    hm.atRest (hready.runs m) hready.attached hready.frames
  obtain ⟨g', hpost, hstatics', hbus⟩ := post_of_atRest (fun s => { s with rxAvailIdx := s.rxAvailIdx + 1 }) hatRest hsettled
    fun w hw => (hvalid.pairs.1.symm.of_covers (hplaces w hw).1).symm.of_covers htx
  have hmem : g'.bus.mem = g.bus.mem.storeAll (publishing layout.rxQueue idx (rxDesc layout idx) g.statics.rxAvailIdx) := by
    rw [hbus]
  have htransport : g'.bus.transport = g.bus.transport := by rw [hbus]
  have hframe : Ram.Frame [(layout.rxQueue, sizeInBytes)] g.bus.mem g'.bus.mem := by
    rw [hmem]
    exact frame_posting hvalid.rxQueue hidx _ _
  have hvalid' : layout.Valid g'.bus.mem := by
    rw [hmem]
    exact hvalid.storeAll _
  have htxAvail : g'.bus.mem.u16 (avail layout.txQueue + 2) = g'.statics.txAvailIdx := by
    have hagree := hframe.agree fun r hr => by
      rw [List.mem_singleton.mp hr]
      exact hvalid.pairs.1
    rw [hstatics']
    exact (hagree.u16 htx).trans hready.txAvail
  obtain ⟨hpublished, hdesc⟩ := posted hvalid.rxQueue hidx (rxDesc layout idx) g.statics.rxAvailIdx
    g.statics.rxLastUsed hmem
  rw [hstatics] at hpublished hdesc
  have hlast : g'.statics.rxLastUsed = g.statics.rxLastUsed := by rw [hstatics']
  refine ⟨g', get_bind.trans hpost, fun addr n hheld => hheld.frame hframe,
    fun frame => ⟨⟨?_, ?_, ?_, ?_, hvalid', htxAvail⟩, ⟨[], ?_⟩, hidx, ?_⟩⟩
  · show g'.bus.transport.queues = _
    rw [htransport, hready.queues, arriving, hstatics']
  · show g'.bus.transport.status &&& 4 ≠ 0
    rw [htransport]
    exact hready.running
  · show g'.bus.transport.device.attached = true
    rw [htransport]
    exact hready.attached
  · show g'.bus.transport.device.tapDevice.packetReciveQueue ++ [frame] = [frame]
    rw [htransport, hready.frames]
    rfl
  · show (seen layout.rxQueue rxSeen g'.statics.rxLastUsed).published g'.bus.mem = [idx]
    rw [hlast]
    exact hpublished
  · show (seen layout.rxQueue rxSeen g'.statics.rxLastUsed).descAt g'.bus.mem idx = rxDesc layout idx
    rw [hlast]
    exact hdesc

/-! ### Frames on their way through driver and device -/

section Frames

variable {buf : UInt64} {length bufCap : UInt16}

/-- A call of `virtio_net_send` returns, and the TAP device has been given the frame and nothing else. -/
def SendsExactly (layout : NetLayout) (fuel : Nat) (buf : UInt64) (length : UInt16) (frame : Bytes)
    (g : Guest NetStatics (NetVirtio HostOs.recorder)) : Prop :=
  ∃ r g', virtioNetSend layout fuel buf length g = .ok r g' ∧
    g'.bus.transport.device.sent = g.bus.transport.device.sent ++ [frame]

/-- A call of `virtio_net_poll_receive` returns the length of the frame, with the frame in the buffer. -/
def ReceivesExactly (layout : NetLayout) (fuel : Nat) (buf : UInt64) (bufCap : UInt16) (frame : Bytes)
    (g : Guest NetStatics (NetVirtio HostOs.recorder)) : Prop :=
  ∃ frameLen g', tickAndPoll layout fuel buf bufCap g = .ok frameLen g' ∧ frameLen.toNat = frame.length ∧
    g'.bus.mem.load buf frame.length = frame

theorem take_zeros_append_iff : ([0, 0] ++ frame).take frame.length = frame ↔ ∀ byte ∈ frame, byte = 0 := by
  refine ⟨fun htake => ?_, fun hzero => ?_⟩
  · have hget (i : Nat) (hi : i < frame.length) : frame[i]? = ([0, 0] ++ frame)[i]? := by
      have htaken := List.getElem?_take_of_lt (l := [0, 0] ++ frame) hi
      rwa [htake] at htaken
    have hall (i : Nat) : ∀ byte, frame[i]? = some byte → byte = 0 := by
      induction i using Nat.strong_induction_on with
      | h i ih =>
        intro byte hbyte
        obtain ⟨hi, -⟩ := List.getElem?_eq_some_iff.mp hbyte
        rw [hget i hi] at hbyte
        match i with
        | 0 => exact (Option.some.inj hbyte).symm
        | 1 => exact (Option.some.inj hbyte).symm
        | i + 2 => exact ih i (by omega) byte hbyte
    intro byte hbyte
    obtain ⟨i, hi⟩ := List.mem_iff_getElem?.mp hbyte
    exact hall i byte hi
  · have hframe := List.eq_replicate_of_mem hzero
    rw [hframe, List.length_replicate]
    show (List.replicate (frame.length + 2) 0).take frame.length = _
    rw [List.take_replicate, Nat.min_eq_left (Nat.le_add_right _ _)]

theorem not_sendsExactly (hready : Ready layout rxSeen [] g) (hload : g.bus.mem.load buf length.toNat = frame)
    (hapart : Apart buf frame.length layout.txBuffer bufSize) (hpos : 1 ≤ frame.length) (hlength : frame.length ≤ 1514) :
    ¬SendsExactly layout (fuel + 2) buf length frame g := by
  rintro ⟨r, g', hsend, hsent⟩
  obtain ⟨g'', hsend', hsent'⟩ := virtioNetSend_of_ready fuel hready hload hapart hlength
  cases hsend.symm.trans hsend'
  have hframe := List.append_cancel_left (hsent.symm.trans hsent')
  split_ifs at hframe
  have hcount := congrArg List.length (List.cons.inj hframe).1
  rw [List.length_drop] at hcount
  omega

theorem receivesExactly_iff (h : Awaits layout rxSeen idx frame g)
    (hbuf : CallerBuffer layout buf bufCap.toNat g.bus.mem) (hpos : 1 ≤ frame.length) (hroom : frame.length ≤ bufCap.toNat) :
    ReceivesExactly layout (fuel + 2) buf bufCap frame g ↔
      frame.length ≤ 1512 ∧ bufCap.toNat = frame.length ∧ ∀ byte ∈ frame, byte = 0 := by
  obtain ⟨g', hrun, hload⟩ := tickAndPoll_of_awaits fuel h hbuf
  have hcount : (UInt16.ofNat (handed frame bufCap)).toNat = handed frame bufCap := by
    refine UInt16.toNat_ofNat_of_lt' (show handed frame bufCap < 2 ^ 16 from ?_)
    unfold handed
    split_ifs <;> omega
  refine ⟨?_, fun ⟨hfits, hexact, hzero⟩ => ?_⟩
  · rintro ⟨frameLen, g'', hrun', hlen, hframe⟩
    cases hrun.symm.trans hrun'
    rw [hcount] at hlen
    rw [hlen, hframe] at hload
    refine ⟨?_, ?_, take_zeros_append_iff.mp hload.symm⟩
    · unfold handed at hlen
      split_ifs at hlen <;> omega
    · unfold handed at hlen
      split_ifs at hlen <;> omega
  · have hlen : handed frame bufCap = frame.length := by
      rw [handed, if_pos hfits]
      omega
    rw [hlen, take_zeros_append_iff.mpr hzero] at hload
    exact ⟨_, g', hrun, hcount.trans hlen, hload⟩

end Frames

/-! ### A machine with nothing but zeros in memory -/

def netRegion : MemoryRegion where
  isNull := false
  bytes := List.replicate 32768 0
  memOffset := 0
  size_le := by
    rw [List.length_replicate]
    decide

def netLayout : NetLayout := ⟨0, 432, 1024, 25600⟩

/-- The driver after its set-up, with bytes of a caller at the end of memory and a background tick before each
access. -/
def netGuest (data : Bytes) : Guest NetStatics (NetVirtio HostOs.recorder) where
  bus := {
    transport := {
      MMIOTransport.new { NetVirtio.new ⟨[], ([] : List Bytes)⟩ with attached := true } 2 5 with
      queues := [Virtqueue.seen 0 0 0, Virtqueue.seen 432 0 0]
      status := 15 }
    irqHandler := IRQHandler.new
    mem := (⟨[netRegion]⟩ : Ram).store 28672 data
    log := [] }
  statics := ⟨0, 0, 0, 0, 0⟩
  schedule := fun _ => 1
  stores := []
  serial := []

theorem holds_netRegion {addr : UInt64} {n : Nat} (h : addr.toNat + n ≤ 32768) : Ram.Holds ⟨[netRegion]⟩ addr n := by
  have hlength : netRegion.bytes.length = 32768 := List.length_replicate
  have hoffset : netRegion.memOffset.toNat = 0 := rfl
  exact Ram.holds_of_contains rfl (by omega) ⟨by omega, by omega⟩

theorem load_netRegion (addr : UInt64) (n : Nat) : (⟨[netRegion]⟩ : Ram).load addr n = List.replicate n 0 := by
  have hlength : netRegion.bytes.length = 32768 := List.length_replicate
  by_cases hin : netRegion.Contains addr n
  · obtain ⟨hoffset, hroom⟩ := hin.offset
    rw [hoffset, hlength] at hroom
    exact (specLoad_cons_of_contains hin).trans (window_replicate hroom)
  · exact specLoad_cons_of_not hin

theorem valid_netLayout (data : Bytes) : netLayout.Valid (netGuest data).bus.mem := by
  refine NetLayout.Valid.store ⟨List.pairwise_singleton _ _, fun r hr => holds_netRegion ?_, by decide⟩ 28672 data
  revert r
  decide

theorem ready_netGuest (data : Bytes) : Ready netLayout 0 [] (netGuest data) := by
  have hrunning : (15 : UInt32) &&& 4 ≠ 0 := by decide
  refine ⟨rfl, hrunning, rfl, rfl, valid_netLayout data, ?_⟩
  refine (Ram.u16_store_of_disjoint (Or.inr ?_)).trans ?_
  · decide
  · rw [Ram.u16, load_netRegion]
    rfl

theorem callerBuffer_netGuest (data : Bytes) {n : Nat} (hn : n ≤ 4096) :
    CallerBuffer netLayout 28672 n (netGuest data).bus.mem := by
  have hplace : (28672 : UInt64).toNat = 28672 := rfl
  refine ⟨(holds_netRegion (by omega)).frame (Ram.Frame.store _ 28672 data), Or.inr ?_, Or.inr ?_⟩
  · decide
  · decide

theorem load_netGuest {data : Bytes} {length : UInt16} (hlength : length.toNat = data.length)
    (hroom : data.length ≤ 4096) : (netGuest data).bus.mem.load 28672 length.toNat = data := by
  have hplace : (28672 : UInt64).toNat = 28672 := rfl
  rw [hlength]
  exact (holds_netRegion (by omega)).load_store rfl

theorem apart_netGuest {n : Nat} : Apart 28672 n netLayout.txBuffer bufSize := Or.inr (by decide)

theorem posted_netGuest (frame : Bytes) : ∃ g, netRxPostBuffer netLayout 2 0 (netGuest []) = .ok () g ∧
    Awaits netLayout 0 0 frame (arriving [frame] g) ∧
      ∀ n ≤ 4096, CallerBuffer netLayout 28672 n (arriving [frame] g).bus.mem := by
  obtain ⟨g, hpost, hholds, hawaits⟩ : ∃ g, netRxPostBuffer netLayout 2 0 (netGuest []) = .ok () g ∧
      (∀ addr n, (netGuest []).bus.mem.Holds addr n → g.bus.mem.Holds addr n) ∧
        ∀ frame, Awaits netLayout 0 0 frame (arriving [frame] g) :=
    netRxPostBuffer_of_ready (ready_netGuest []) (by decide) rfl
  refine ⟨g, hpost, hawaits frame, fun n hn => ?_⟩
  obtain ⟨hheld, hrxQueue, htxQueue⟩ := callerBuffer_netGuest [] hn
  exact ⟨hholds _ _ hheld, hrxQueue, htxQueue⟩

/-- **Frames through the network driver.** A frame that is sent is never passed on as it is, and one that is received
is only if it has at most 1512 bytes, all of them zero, and the caller has room for no more. -/
theorem frames_survive_iff (layout : NetLayout) (fuel : Nat) (frame : Bytes) (hpos : 1 ≤ frame.length) (hlength : frame.length ≤ 1514) :
    (∀ g rxSeen buf length, Ready layout rxSeen [] g → g.bus.mem.load buf length.toNat = frame →
      Apart buf frame.length layout.txBuffer bufSize → ¬SendsExactly layout (fuel + 2) buf length frame g) ∧
      ∀ g rxSeen idx buf bufCap, Awaits layout rxSeen idx frame g → CallerBuffer layout buf bufCap.toNat g.bus.mem →
        frame.length ≤ bufCap.toNat → (ReceivesExactly layout (fuel + 2) buf bufCap frame g ↔
          frame.length ≤ 1512 ∧ bufCap.toNat = frame.length ∧ ∀ byte ∈ frame, byte = 0) := by
  refine ⟨fun g rxSeen buf length hready hload hapart => ?_, fun g rxSeen idx buf bufCap hawaits hbuf hroom => ?_⟩
  · exact not_sendsExactly hready hload hapart hpos hlength
  · exact receivesExactly_iff hawaits hbuf hpos hroom

/-- Three zeros are received as they are, by a caller that has room for three bytes, and are not sent as they are. -/
theorem three_zeros_are_received : ¬SendsExactly netLayout 2 28672 3 [0, 0, 0] (netGuest [0, 0, 0]) ∧
    ∃ g, netRxPostBuffer netLayout 2 0 (netGuest []) = .ok () g ∧
      ReceivesExactly netLayout 2 28672 3 [0, 0, 0] (arriving [[0, 0, 0]] g) := by
  obtain ⟨hsend, hreceive⟩ := frames_survive_iff netLayout 0 [0, 0, 0] (by decide) (by decide)
  obtain ⟨g, hpost, hawaits, hbuf⟩ := posted_netGuest [0, 0, 0]
  refine ⟨hsend _ 0 28672 3 (ready_netGuest _) (load_netGuest rfl (by decide)) apart_netGuest, g, hpost, ?_⟩
  exact (hreceive _ 0 0 28672 3 hawaits (hbuf 3 (by decide)) le_rfl).mpr ⟨by decide, rfl, by simp⟩

/-- A frame of four bytes loses two when it is sent and gains two when it is received. -/
theorem four_bytes_are_changed : (∃ g', virtioNetSend netLayout 2 28672 4 (netGuest [1, 2, 3, 4]) = .ok 0 g' ∧
      g'.bus.transport.device.sent = [[3, 4]]) ∧ (∃ g g', netRxPostBuffer netLayout 2 0 (netGuest []) = .ok () g ∧
        tickAndPoll netLayout 2 28672 1514 (arriving [[1, 2, 3, 4]] g) = .ok 6 g' ∧
          g'.bus.mem.load 28672 6 = [0, 0, 1, 2, 3, 4]) ∧
      ¬SendsExactly netLayout 2 28672 4 [1, 2, 3, 4] (netGuest [1, 2, 3, 4]) ∧
      ∃ g, netRxPostBuffer netLayout 2 0 (netGuest []) = .ok () g ∧
        ¬ReceivesExactly netLayout 2 28672 1514 [1, 2, 3, 4] (arriving [[1, 2, 3, 4]] g) := by
  have hload : (netGuest [1, 2, 3, 4]).bus.mem.load 28672 (4 : UInt16).toNat = [1, 2, 3, 4] :=
    load_netGuest rfl (by decide)
  obtain ⟨g, hpost, hawaits, hbuf⟩ := posted_netGuest [1, 2, 3, 4]
  have hroom : CallerBuffer netLayout 28672 (1514 : UInt16).toNat (arriving [[1, 2, 3, 4]] g).bus.mem :=
    hbuf 1514 (by decide)
  refine ⟨virtioNetSend_of_ready 0 (ready_netGuest _) hload apart_netGuest (by decide), ?_, ?_, g, hpost, ?_⟩
  · obtain ⟨g', hrun, hframe⟩ := tickAndPoll_of_awaits 0 hawaits hroom
    exact ⟨g, g', hpost, hrun, hframe⟩
  · exact not_sendsExactly (ready_netGuest _) hload apart_netGuest (by decide) (by decide)
  · rw [receivesExactly_iff hawaits hroom (by decide) (by decide)]
    rintro ⟨-, hexact, -⟩
    cases hexact

end NetDriver

end FerrumVM
