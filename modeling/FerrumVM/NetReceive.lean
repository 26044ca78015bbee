import FerrumVM.BaseSystem
import FerrumVM.ChainAccounts
import FerrumVM.HostDisk
import FerrumVM.QueueMemory

/-! Frames that come in. The network device takes the first frame of its queue and then looks for a buffer;
without one it puts the frame back. Over any run of arrivals, ticks and postings of buffers, each frame that
arrived was matched with a buffer, in order, or still waits; and a frame that was matched is in the buffer,
behind a header of zeros, unless the buffer is too short for it. -/

namespace FerrumVM

open Base Program

namespace NetVirtio

variable {H : HostOs} {c t u : Ctx (NetVirtio H) Ram} {q : VirtioQueue} {m m' : Ram}

/-- A frame and the buffer that it was matched with; `landed` tells whether guest RAM took the frame. -/
structure Matched where
  frame : Bytes
  head : UInt16
  desc : VirtqDesc
  landed : Bool

namespace Matched

def Fits (x : Matched) : Prop := x.frame.length + 12 ≤ x.desc.len.toNat

instance (x : Matched) : Decidable x.Fits := inferInstanceAs (Decidable (_ ≤ _))

def writes (x : Matched) : List (UInt64 × Bytes) :=
  if x.Fits then [(x.desc.addr, List.replicate 12 0), (x.desc.addr + 12, x.frame)] else []

def events (x : Matched) : List Event :=
  [.popped x.head, .fetch (.head x.head), .descriptor x.desc] ++
    if x.Fits then
      [.stored x.desc.addr (List.replicate 12 0) true, .stored (x.desc.addr + 12) x.frame x.landed,
        .retired x.head (UInt32.ofNat (12 + x.frame.length))]
    else [.retired x.head 0]

variable {x : Matched}

theorem writes_of_fits (h : x.Fits) :
    x.writes = [(x.desc.addr, List.replicate 12 0), (x.desc.addr + 12, x.frame)] := if_pos h

theorem writes_of_not_fits (h : ¬x.Fits) : x.writes = [] := if_neg h

theorem events_of_fits (h : x.Fits) : x.events = [.popped x.head, .fetch (.head x.head), .descriptor x.desc,
    .stored x.desc.addr (List.replicate 12 0) true, .stored (x.desc.addr + 12) x.frame x.landed,
    .retired x.head (UInt32.ofNat (12 + x.frame.length))] := by
  rw [events, if_pos h]
  rfl

theorem events_of_not_fits (h : ¬x.Fits) :
    x.events = [.popped x.head, .fetch (.head x.head), .descriptor x.desc, .retired x.head 0] := by
  rw [events, if_neg h]
  rfl

end Matched

/-- The buffers that the driver has posted lie in RAM, apart from the queue. -/
structure Posted (q : VirtioQueue) (m : Ram) : Prop where
  held : q.QueueHeld m
  head_lt : ∀ head ∈ q.published m, head.toNat < q.size.toNat
  buffer : ∀ head ∈ q.published m, m.Holds (q.descAt m head).addr (q.descAt m head).len.toNat
  clear : ∀ head ∈ q.published m, ∀ p ∈ q.parts, Apart (q.descAt m head).addr (q.descAt m head).len.toNat p.1 p.2

/-! ### Looking for a buffer -/

theorem nextRx_none (hheld : c.queue.RingsHeld c.mem)
    (hnone : c.dev.tapDevice.packetReciveQueue = [] ∨ c.queue.published c.mem = []) : nextRx c = .ok none c := by
  unfold nextRx
  cases hframes : c.dev.tapDevice.packetReciveQueue with
  | nil => exact (bind_of_ok (getNextPacket_nil hframes)).trans rfl
  | cons frame frames =>
    have hempty : c.queue.published c.mem = [] := hnone.resolve_left (by simp [hframes])
    have hpop : (Serve.popAvail : Serve (NetVirtio H) Ram _) (taken c frames) = .ok none (taken c frames) :=
      popAvail_nil hheld hempty
    rw [bind_of_ok (getNextPacket_cons hframes)]
    refine (bind_of_ok hpop).trans ?_
    -- The frame goes back to where it was.
    have hback : onTap (TAPDevice.addPacketFont frame) (taken c frames) = .ok () c := by
      refine onTap_iff.mpr ⟨c.dev.tapDevice, ?_, rfl⟩
      refine modify_eq_ok.mpr ?_
      show (⟨frame :: frames, c.dev.tapDevice.host⟩ : TAPDevice H) = c.dev.tapDevice
      rw [← hframes]
    exact (bind_of_ok hback).trans rfl

theorem nextRx_some (hheld : c.queue.RingsHeld c.mem) {frame : Bytes} {frames : List Bytes} {head : UInt16}
    {heads : List UInt16} (hframes : c.dev.tapDevice.packetReciveQueue = frame :: frames)
    (hheads : c.queue.published c.mem = head :: heads) :
    nextRx c = .ok (some (frame, head)) ((taken c frames).pop (taken c frames).dev head) := by
  have hpop : (Serve.popAvail : Serve (NetVirtio H) Ram _) (taken c frames) =
      .ok (some head) ((taken c frames).pop (taken c frames).dev head) := popAvail_cons (c := taken c frames) hheld hheads
  unfold nextRx
  rw [bind_of_ok (getNextPacket_cons hframes)]
  exact (bind_of_ok hpop).trans rfl

/-! ### Filling a buffer -/

structure Filled (x : Matched) (t u : Ctx (NetVirtio H) Ram) : Prop where
  desc : x.desc = t.descAt x.head
  dev : u.dev = t.dev
  queue : u.queue = { t.queue with lastUsedIdx := t.queue.lastUsedIdx + 1 }
  mem : ∃ len, u.mem = t.queue.pushedTo (t.mem.storeAll x.writes) x.head len
  inside : ∀ w ∈ x.writes, Covers x.desc.addr x.desc.len.toNat w.1 w.2.length
  log : u.log = t.log ++ x.events.tail

section Serve

variable {frame : Bytes} {head : UInt16} {worked : Bool}

theorem serveRx_short (hsafe : t.queue.DescSafe head) (hheld : t.queue.RingsHeld t.mem)
    (hshort : (t.descAt head).len.toNat < frame.length + 12) :
    serveRx (frame, head) t = .ok false ((t.fetched (.head head) (t.descAt head)).retire head 0) :=
  getDescriptor_bind_eq_ok.mpr ⟨hsafe, (congrFun (if_pos hshort) _).trans
    (finish_held (t := t.fetched _ _) hheld head 0 false)⟩

theorem serveRx_fits (hsafe : t.queue.DescSafe head) (hheld : t.queue.RingsHeld t.mem)
    (hbelow : (t.descAt head).addr.toNat + 12 < 2 ^ 64) (hfits : frame.length + 12 ≤ (t.descAt head).len.toNat) :
    serveRx (frame, head) t = .ok true ((((t.fetched (.head head) (t.descAt head)).writing (t.descAt head).addr
      (List.replicate 12 0)).writing ((t.descAt head).addr + 12) frame).retire head
        (UInt32.ofNat (12 + frame.length))) := by
  have hrings : t.queue.RingsHeld ((t.mem.store (t.descAt head).addr (List.replicate 12 0)).store
      ((t.descAt head).addr + 12) frame) := (hheld.frame (Ram.Frame.store _ _ _)).frame (Ram.Frame.store _ _ _)
  refine getDescriptor_bind_eq_ok.mpr ⟨hsafe, (congrFun (if_neg (Nat.not_lt.mpr hfits)) _).trans ?_⟩
  rw [write_bind, addU64_bind_eq_ok, write_bind]
  refine ⟨hbelow, finish_held ?_ head _ true⟩
  exact hrings

theorem serveRx_eq_ok (hheld : t.queue.QueueHeld t.mem)
    (hbuffer : t.mem.Holds (t.descAt head).addr (t.descAt head).len.toNat)
    (h : serveRx (frame, head) t = .ok worked u) :
    ∃ landed, (frame ≠ [] → landed = true) ∧ Filled ⟨frame, head, t.descAt head, landed⟩ t u := by
  obtain ⟨hsafe, hbelow, _⟩ := returns_serveRx_iff.mp (.of_ok h)
  by_cases hroom : frame.length + 12 ≤ (t.descAt head).len.toNat
  · have haddr : ((t.descAt head).addr + 12).toNat = (t.descAt head).addr.toNat + 12 := toNat_add_of_lt (hbelow hroom)
    have hfront : Covers (t.descAt head).addr (t.descAt head).len.toNat (t.descAt head).addr 12 := by
      unfold Covers
      omega
    have hback : Covers (t.descAt head).addr (t.descAt head).len.toNat ((t.descAt head).addr + 12) frame.length := by
      unfold Covers
      omega
    have hzeros : landsIn t.mem.regions (t.descAt head).addr (List.replicate 12 (0 : UInt8)).length = true :=
      (hbuffer.sub hfront).lands _ _ (by decide) (.refl _ _)
    have hlanded (hne : frame ≠ []) : landsIn t.mem.regions ((t.descAt head).addr + 12) frame.length = true :=
      (hbuffer.sub hback).lands _ _ (List.length_pos_of_ne_nil hne) (.refl _ _)
    have hfits (landed : Bool) : Matched.Fits ⟨frame, head, t.descAt head, landed⟩ := hroom
    cases h.symm.trans (serveRx_fits hsafe hheld.toRingsHeld (hbelow hroom) hroom)
    refine ⟨_, hlanded, rfl, rfl, rfl, ⟨UInt32.ofNat (12 + frame.length), ?_⟩, ?_, ?_⟩
    · rw [Matched.writes_of_fits (hfits _)]
      rfl
    · rw [Matched.writes_of_fits (hfits _)]
      intro w hw
      rcases List.mem_pair.mp hw with rfl | rfl
      · rw [List.length_replicate]
        exact hfront
      · exact hback
    · rw [Matched.events_of_fits (hfits _)]
      dsimp only [Ctx.retire]
      rw [Ctx.writing, landsIn_writing, Ctx.writing, fetched_mem, hzeros]
      simp only [Ctx.fetched, List.append_assoc]
      rfl
  · have hfits : ¬Matched.Fits ⟨frame, head, t.descAt head, true⟩ := hroom
    cases h.symm.trans (serveRx_short hsafe hheld.toRingsHeld (Nat.not_le.mp hroom))
    refine ⟨true, fun _ => rfl, rfl, rfl, rfl, ⟨0, ?_⟩, ?_, ?_⟩
    · rw [Matched.writes_of_not_fits hfits]
      rfl
    · rw [Matched.writes_of_not_fits hfits]
      exact fun _ hw => absurd hw List.not_mem_nil
    · rw [Matched.events_of_not_fits hfits]
      exact List.append_assoc _ _ _

end Serve

theorem Filled.frame {x : Matched} (h : Filled x t u) (hheld : t.queue.QueueHeld t.mem) :
    Ram.Frame [(t.queue.usedAddr, t.queue.usedBytes), (x.desc.addr, x.desc.len.toNat)] t.mem u.mem := by
  obtain ⟨len, hmem⟩ := h.mem
  have hstored := Ram.frame_storeAll t.mem x.writes
  have hpushed := (hheld.toRingsHeld.frame hstored).frame_pushedTo x.head len
  rw [hmem]
  refine (hstored.mono fun p hp => ?_).trans (hpushed.weaken (by simp))
  obtain ⟨w, hw, rfl⟩ := List.mem_map.mp hp
  exact ⟨_, List.mem_cons_of_mem _ (List.mem_singleton_self _), h.inside w hw⟩

theorem Posted.filled {x : Matched} (h : Posted t.queue t.mem)
    (hclear : ∀ p ∈ t.queue.parts, Apart x.desc.addr x.desc.len.toNat p.1 p.2) (hfilled : Filled x t u) :
    Posted u.queue u.mem ∧ u.queue.published u.mem = t.queue.published t.mem ∧
      ∀ head ∈ t.queue.published t.mem, u.descAt head = t.descAt head := by
  have hframe := hfilled.frame h.held
  have hapart {addr : UInt64} {n : Nat} (hused : Apart t.queue.usedAddr t.queue.usedBytes addr n)
      (hbuffer : Apart x.desc.addr x.desc.len.toNat addr n) :
      ∀ p ∈ [(t.queue.usedAddr, t.queue.usedBytes), (x.desc.addr, x.desc.len.toNat)], Apart p.1 p.2 addr n := by
    intro p hp
    rcases List.mem_pair.mp hp with rfl | rfl
    · exact hused
    · exact hbuffer
  have hpublished : t.queue.published u.mem = t.queue.published t.mem :=
    VirtioQueue.published_of_agree h.held.toRingsHeld
      (hframe.agree (hapart h.held.toRingsHeld.apart.symm (hclear _ t.queue.avail_mem)))
  have hdesc (head) (hhead : head ∈ t.queue.published t.mem) : t.queue.descAt u.mem head = t.queue.descAt t.mem head :=
    VirtioQueue.descAt_of_agree (h.held.descSafe (h.head_lt head hhead)) (h.head_lt head hhead)
      (hframe.agree (hapart h.held.table_apart.symm (hclear _ t.queue.table_mem)))
  have hposted : Posted t.queue u.mem := by
    refine ⟨h.held.frame hframe, ?_, fun head hhead => ?_, fun head hhead => ?_⟩
    · rw [hpublished]
      exact h.head_lt
    · rw [hpublished] at hhead
      rw [hdesc head hhead]
      exact (h.buffer head hhead).frame hframe
    · rw [hpublished] at hhead
      rw [hdesc head hhead]
      exact h.clear head hhead
  unfold Ctx.descAt
  rw [hfilled.queue]
  exact ⟨⟨hposted.held.moved _ _, hposted.head_lt, hposted.buffer, hposted.clear⟩, hpublished, hdesc⟩

/-! ### Rounds of the loop -/

structure Received (xs : List Matched) (c u : Ctx (NetVirtio H) Ram) : Prop where
  frames : c.dev.tapDevice.packetReciveQueue = xs.map (·.frame) ++ u.dev.tapDevice.packetReciveQueue
  log : u.log = c.log ++ xs.flatMap Matched.events
  landed : ∀ x ∈ xs, x.frame ≠ [] → x.landed = true
  posted : Posted u.queue u.mem
  attached : u.dev.attached = c.dev.attached

theorem Received.refl (h : Posted c.queue c.mem) : Received [] c c where
  frames := rfl
  log := (List.append_nil _).symm
  landed := nofun
  posted := h
  attached := rfl

theorem Received.trans {xs ys : List Matched} (h : Received xs c t) (h' : Received ys t u) :
    Received (xs ++ ys) c u := by
  refine ⟨?_, ?_, fun x hx => ?_, h'.posted, h'.attached.trans h.attached⟩
  · rw [h.frames, h'.frames, List.map_append, List.append_assoc]
  · rw [h'.log, h.log, List.flatMap_append, List.append_assoc]
  · rcases List.mem_append.mp hx with hx | hx
    · exact h.landed x hx
    · exact h'.landed x hx

section Round

variable {frame : Bytes} {frames : List Bytes} {head : UInt16} {heads : List UInt16}

def matching (c : Ctx (NetVirtio H) Ram) (frames : List Bytes) (head : UInt16) : Ctx (NetVirtio H) Ram :=
  (taken c frames).pop (taken c frames).dev head

theorem posted_matching (frames : List Bytes) (h : Posted c.queue c.mem)
    (hheads : c.queue.published c.mem = head :: heads) :
    Posted (matching c frames head).queue c.mem ∧ (matching c frames head).queue.published c.mem = heads := by
  have hpop := popAvail_cons (D := NetVirtio H) h.held.toRingsHeld hheads
  have hpublished := (published_of_pop h.held.toRingsHeld hpop).2.2
  have hrest : (matching c frames head).queue.published c.mem = heads :=
    (List.cons.inj (hpublished.symm.trans hheads)).2
  have hlater {head'} (hhead' : head' ∈ (matching c frames head).queue.published c.mem) :
      head' ∈ c.queue.published c.mem := by
    rw [hheads]
    exact List.mem_cons_of_mem _ (hrest ▸ hhead')
  exact ⟨⟨h.held.moved _ _, fun head' hhead' => h.head_lt head' (hlater hhead'),
    fun head' hhead' => h.buffer head' (hlater hhead'), fun head' hhead' => h.clear head' (hlater hhead')⟩, hrest⟩

theorem received_one (h : Posted c.queue c.mem) (hframes : c.dev.tapDevice.packetReciveQueue = frame :: frames)
    (hheads : c.queue.published c.mem = head :: heads) {worked : Bool}
    (hserve : serveRx (frame, head) (matching c frames head) = .ok worked u) :
    ∃ x, Received [x] c u ∧ u.queue.published u.mem = heads ∧ ∀ head ∈ heads, u.descAt head = c.descAt head := by
  obtain ⟨hposted, hrest⟩ := posted_matching frames h hheads
  have hhead : head ∈ c.queue.published c.mem := hheads ▸ List.mem_cons_self
  obtain ⟨landed, hlanded, hfilled⟩ := serveRx_eq_ok (t := matching c frames head) hposted.held (h.buffer head hhead) hserve
  obtain ⟨hposted', hpublished, hdesc⟩ :=
    Posted.filled (x := ⟨frame, head, c.descAt head, landed⟩) hposted (h.clear head hhead) hfilled
  refine ⟨⟨frame, head, c.descAt head, landed⟩, ⟨?_, ?_, ?_, hposted', ?_⟩, hpublished.trans hrest, ?_⟩
  · rw [hfilled.dev, hframes]
    rfl
  · rw [hfilled.log]
    show c.log ++ [.popped head] ++ _ = _
    rw [List.append_assoc, List.flatMap_singleton]
    rfl
  · intro x hx
    rw [List.mem_singleton.mp hx]
    exact hlanded
  · rw [hfilled.dev]
    rfl
  · intro head' hhead'
    exact hdesc head' (hrest.symm ▸ hhead')

end Round

theorem received_of_drain {fuel : Nat} {didWork worked : Bool} (h : Posted c.queue c.mem)
    (hrun : drainWith (fun _ => throw .outOfFuel) nextRx serveRx fuel didWork c = .ok worked u) :
    ∃ xs, Received xs c u := by
  induction fuel generalizing c didWork with
  | zero => exact absurd hrun throw_ne_ok
  | succ fuel ih =>
    have hidle (hnone : c.dev.tapDevice.packetReciveQueue = [] ∨ c.queue.published c.mem = []) :
        ∃ xs, Received xs c u := by
      rw [drainWith, bind_of_ok (nextRx_none h.held.toRingsHeld hnone)] at hrun
      obtain ⟨_, rfl⟩ := pure_eq_ok.mp hrun
      exact ⟨[], .refl h⟩
    cases hframes : c.dev.tapDevice.packetReciveQueue with
    | nil => exact hidle (Or.inl hframes)
    | cons frame frames =>
      cases hheads : c.queue.published c.mem with
      | nil => exact hidle (Or.inr hheads)
      | cons head heads =>
        rw [drainWith, bind_of_ok (nextRx_some h.held.toRingsHeld hframes hheads)] at hrun
        obtain ⟨worked', t, hserve, hrest⟩ := bind_eq_ok.mp hrun
        obtain ⟨x, hfirst, _⟩ := received_one h hframes hheads hserve
        obtain ⟨xs, hxs⟩ := ih hfirst.posted hrest
        exact ⟨x :: xs, hfirst.trans hxs⟩

def Below (c : Ctx (NetVirtio H) Ram) : Prop :=
  ∀ head ∈ c.queue.published c.mem, (c.descAt head).addr.toNat + (c.descAt head).len.toNat < 2 ^ 64

theorem returns_drain {fuel : Nat} (didWork : Bool) (h : Posted c.queue c.mem) (hbelow : Below c)
    (hfuel : c.dev.tapDevice.packetReciveQueue.length < fuel) :
    Returns (drainWith (fun _ => throw .outOfFuel) nextRx serveRx fuel didWork) c := by
  induction fuel generalizing c didWork with
  | zero => exact absurd hfuel (Nat.not_lt_zero _)
  | succ fuel ih =>
    have hidle (hnone : c.dev.tapDevice.packetReciveQueue = [] ∨ c.queue.published c.mem = []) :
        Returns (drainWith (fun _ => throw .outOfFuel) nextRx serveRx (fuel + 1) didWork) c := by
      rw [drainWith, returns_bind_of_ok (nextRx_none h.held.toRingsHeld hnone)]
      exact returns_pure _ _
    cases hframes : c.dev.tapDevice.packetReciveQueue with
    | nil => exact hidle (Or.inl hframes)
    | cons frame frames =>
      cases hheads : c.queue.published c.mem with
      | nil => exact hidle (Or.inr hheads)
      | cons head heads =>
        have hhead : head ∈ c.queue.published c.mem := hheads ▸ List.mem_cons_self
        have hsafe : RxSafe (frame, head) (matching c frames head) := by
          refine ⟨h.held.descSafe (h.head_lt head hhead), fun hfits => ?_, h.held.pushSafe⟩
          have hend := hbelow head hhead
          have hroom : frame.length + 12 ≤ (c.descAt head).len.toNat := hfits
          show (c.descAt head).addr.toNat + 12 < 2 ^ 64
          omega
        obtain ⟨worked, u, hserve⟩ := returns_serveRx_iff.mpr hsafe
        obtain ⟨x, hfirst, hpublished, hdesc⟩ := received_one h hframes hheads hserve
        rw [drainWith, returns_bind_of_ok (nextRx_some h.held.toRingsHeld hframes hheads)]
        refine (returns_bind_of_ok hserve).mpr (ih _ hfirst.posted (fun head' hhead' => ?_) ?_)
        · rw [hpublished] at hhead'
          rw [hdesc head' hhead']
          exact hbelow head' (hheads ▸ List.mem_cons_of_mem _ hhead')
        · have hlength := congrArg List.length hfirst.frames
          rw [List.length_append, List.length_map, List.length_singleton] at hlength
          omega

/-! ### Runs -/

def arrivals (tapDevice : TAPDevice H) : List Bytes :=
  match (H.tapRecv tapDevice.host).1 with
  | .ok packet => [packet.val]
  | .error _ => []

theorem update_queue (tapDevice : TAPDevice H) :
    tapDevice.update.packetReciveQueue = tapDevice.packetReciveQueue ++ arrivals tapDevice := by
  unfold TAPDevice.update arrivals
  cases hrecv : H.tapRecv tapDevice.host with
  | mk answer host =>
    cases answer with
    | ok packet => rfl
    | error kind => exact (List.append_nil _).symm

/-- The device with its receive queue, and all frames that ever arrived. -/
structure ReceiveRun (H : HostOs) where
  ctx : Ctx (NetVirtio H) Ram
  received : List Bytes

inductive ReceiveAction where
  | update
  | tick (fuel : Nat)
  /-- The driver leaves memory as given, with any further buffers posted in it. -/
  | post (mem : Ram)

/-- Frames arrive, the device ticks and the driver posts buffers, in any order. -/
def receiveSystem (H : HostOs) : System (ReceiveRun H) ReceiveAction where
  init s := s.ctx.dev.attached = true ∧ Posted s.ctx.queue s.ctx.mem ∧
    s.ctx.dev.tapDevice.packetReciveQueue = [] ∧ s.ctx.log = [] ∧ s.received = []
  step s action s' :=
    match action with
    | .update => s' =
        { ctx := { s.ctx with dev := s.ctx.dev.setTap s.ctx.dev.tapDevice.update }
          received := s.received ++ arrivals s.ctx.dev.tapDevice }
    | .tick fuel => ∃ worked u, VirtioDevice.tick fuel 0 s.ctx = .ok worked u ∧ s' = { s with ctx := u }
    | .post mem => Posted s.ctx.queue mem ∧ s' = { s with ctx := { s.ctx with mem } }

/-- Every frame that arrived was matched with a buffer or waits. -/
structure ReceiveRun.Conserves (xs : List Matched) (s : ReceiveRun H) : Prop where
  attached : s.ctx.dev.attached = true
  posted : Posted s.ctx.queue s.ctx.mem
  received : s.received = xs.map (·.frame) ++ s.ctx.dev.tapDevice.packetReciveQueue
  log : s.ctx.log = xs.flatMap Matched.events
  landed : ∀ x ∈ xs, x.frame ≠ [] → x.landed = true

theorem tick_of_attached (fuel : Nat) (h : c.dev.attached = true) :
    VirtioDevice.tick fuel 0 c = drainWith (fun _ => throw .outOfFuel) nextRx serveRx fuel false c := by
  show (if !c.dev.attached then (return false) else drain nextRx serveRx fuel : Serve (NetVirtio H) Ram Bool) c = _
  rw [if_neg (by simp [h])]
  rfl

theorem conserves_of_reachable {s : ReceiveRun H} (h : (receiveSystem H).Reachable s) : ∃ xs, s.Conserves xs := by
  refine h.invariant (I := fun s => ∃ xs, s.Conserves xs) (fun s hinit => ?_) fun s action s' hs hstep => ?_
  · obtain ⟨hattached, hposted, hqueue, hlog, hreceived⟩ := hinit
    refine ⟨[], hattached, hposted, ?_, hlog, nofun⟩
    rw [hreceived, hqueue]
    rfl
  · obtain ⟨xs, hxs⟩ := hs
    cases action with
    | update =>
      cases hstep
      refine ⟨xs, hxs.attached, hxs.posted, ?_, hxs.log, hxs.landed⟩
      calc s.received ++ arrivals s.ctx.dev.tapDevice
          = xs.map (·.frame) ++ (s.ctx.dev.tapDevice.packetReciveQueue ++ arrivals s.ctx.dev.tapDevice) := by
            rw [hxs.received, List.append_assoc]
        _ = xs.map (·.frame) ++ s.ctx.dev.tapDevice.update.packetReciveQueue := by rw [update_queue]
    | tick fuel =>
      obtain ⟨worked, u, htick, rfl⟩ := hstep
      rw [tick_of_attached fuel hxs.attached] at htick
      obtain ⟨ys, hys⟩ := received_of_drain hxs.posted htick
      refine ⟨xs ++ ys, hys.attached.trans hxs.attached, hys.posted, ?_, ?_, fun x hx => ?_⟩
      · rw [hxs.received, hys.frames, List.map_append, List.append_assoc]
      · rw [hys.log, hxs.log, List.flatMap_append]
      · rcases List.mem_append.mp hx with hx | hx
        · exact hxs.landed x hx
        · exact hys.landed x hx
    | post mem =>
      obtain ⟨hposted, rfl⟩ := hstep
      exact ⟨xs, hxs.attached, hposted, hxs.received, hxs.log, hxs.landed⟩

/-- **Frames that come in are neither reordered nor duplicated.** In every run, the frames that arrived are
those that were matched with a buffer, in the order of the matches, and then those that still wait; all that
the device has done is to serve these matches, so a frame whose buffer has room is stored behind a header of
twelve zeros and reported with both lengths, and a frame whose buffer has none is dropped. A tick returns if no
posted buffer reaches the last address, and without a posted buffer it leaves everything as it was. -/
theorem received_frames_are_conserved {s : ReceiveRun H} (h : (receiveSystem H).Reachable s) : (∃ xs : List Matched,
      s.received = xs.map (·.frame) ++ s.ctx.dev.tapDevice.packetReciveQueue ∧
        s.ctx.log = xs.flatMap Matched.events ∧ ∀ x ∈ xs, x.frame ≠ [] → x.landed = true) ∧
      (∀ fuel, s.ctx.dev.tapDevice.packetReciveQueue.length < fuel → Below s.ctx →
        Returns (VirtioDevice.tick fuel 0) s.ctx) ∧
      ∀ fuel, s.ctx.queue.published s.ctx.mem = [] → VirtioDevice.tick (fuel + 1) 0 s.ctx = .ok false s.ctx := by
  obtain ⟨xs, hxs⟩ := conserves_of_reachable h
  refine ⟨⟨xs, hxs.received, hxs.log, hxs.landed⟩, fun fuel hfuel hbelow => ?_, fun fuel hempty => ?_⟩
  · obtain ⟨worked, u, hrun⟩ := returns_drain false hxs.posted hbelow hfuel
    exact ⟨worked, u, (tick_of_attached fuel hxs.attached).trans hrun⟩
  · rw [tick_of_attached _ hxs.attached, drainWith, bind_of_ok (nextRx_none hxs.posted.held.toRingsHeld (Or.inr hempty))]
    rfl

end NetVirtio

/-! ### A frame -/

/-- A host on which a frame of four bytes has arrived, until it is received. -/
def HostOs.oneFrame : HostOs :=
  { HostOs.idle Bool Unit with
    tapRecv := fun (arrived : Bool) => (if arrived then .ok ⟨[1, 2, 3, 4], by simp⟩ else .error .wouldBlock, false) }

namespace NetVirtio

/-- A buffer of twenty bytes at address 48, posted on a queue of one: the table is at address 0, the available
ring at 16 and the used ring at 24. -/
def postedRegion : MemoryRegion where
  isNull := false
  bytes := [48, 0, 0, 0, 0, 0, 0, 0, 20, 0, 0, 0, 2, 0, 0, 0] ++ [0, 0, 1, 0] ++ List.replicate 48 0
  memOffset := 0
  size_le := by simp [isizeMax]

def postedQueue : VirtioQueue := { VirtioQueue.new with size := 1, ready := true, availAddr := 16, usedAddr := 24 }

/-- The network device with that buffer, before and after the frame was received. -/
def frameArrived (arrived : Bool) : ReceiveRun HostOs.oneFrame where
  ctx :=
    { dev := { NetVirtio.new ⟨if arrived then [[1, 2, 3, 4]] else [], !arrived⟩ with attached := true }
      queue := postedQueue
      mem := ⟨[postedRegion]⟩
      log := [] }
  received := if arrived then [[1, 2, 3, 4]] else []

theorem holds_postedRegion {addr : UInt64} {n : Nat} (h : addr.toNat + n ≤ 68) : Ram.Holds ⟨[postedRegion]⟩ addr n :=
  Ram.holds_of_contains rfl (by simp [postedRegion]) ⟨Nat.zero_le _, by simpa [postedRegion] using h⟩

theorem published_postedQueue : postedQueue.published ⟨[postedRegion]⟩ = [0] := by decide

theorem descAt_postedQueue : postedQueue.descAt ⟨[postedRegion]⟩ 0 = ⟨48, 20, 2, 0⟩ := by decide

theorem posted_postedQueue : Posted postedQueue ⟨[postedRegion]⟩ where
  held :=
    { size_ne := by decide
      avail := holds_postedRegion (by decide)
      used := holds_postedRegion (by decide)
      apart := by decide
      table := holds_postedRegion (by decide)
      table_apart := by decide }
  head_lt head hhead := by
    rw [published_postedQueue] at hhead
    rw [List.mem_singleton.mp hhead]
    decide
  buffer head hhead := by
    rw [published_postedQueue] at hhead
    rw [List.mem_singleton.mp hhead, descAt_postedQueue]
    exact holds_postedRegion (by decide)
  clear head hhead := by
    rw [published_postedQueue] at hhead
    rw [List.mem_singleton.mp hhead, descAt_postedQueue]
    decide

theorem reachable_frameArrived : (receiveSystem HostOs.oneFrame).Reachable (frameArrived true) := by
  have hinit : (receiveSystem HostOs.oneFrame).Reachable (frameArrived false) :=
    .init ⟨rfl, posted_postedQueue, rfl, rfl, rfl⟩
  exact hinit.next (e := .update) rfl

/-- The frame waits for a tick, which returns. -/
theorem waiting_frame_is_conserved : ∃ xs : List Matched,
    (frameArrived true).received = xs.map (·.frame) ++ [[1, 2, 3, 4]] ∧
      Returns (VirtioDevice.tick 2 0) (frameArrived true).ctx := by
  obtain ⟨⟨xs, hreceived, _⟩, hreturns, _⟩ := received_frames_are_conserved reachable_frameArrived
  have hbelow : Below (frameArrived true).ctx := by
    intro head hhead
    have hzero : head = 0 := List.mem_singleton.mp (published_postedQueue ▸ hhead)
    have hdesc : (frameArrived true).ctx.descAt 0 = ⟨48, 20, 2, 0⟩ := descAt_postedQueue
    rw [hzero, hdesc]
    decide
  exact ⟨xs, hreceived, hreturns 2 (by decide) hbelow⟩

end NetVirtio

end FerrumVM
