import FerrumVM.MmioTransport
import FerrumVM.QueueMemory

/-! The firmware's side of a transport. The drivers under `guest/firmware/virtio` reach their device through
RAM and through 32-bit accesses to its registers, and the machine may tick the device in the background
before any of these accesses. What a driver does is a program over the transport and its own static
variables; how many ticks come where is part of the state, so that a result for every state is one for every
interleaving. -/

namespace FerrumVM

open Base Program MMIOTransport

/-! ### The queue of a driver -/

theorem succ_idx_ne (idx : UInt16) : idx + 1 ≠ idx := by
  intro heq
  rw [← UInt16.toNat_inj, UInt16.toNat_add] at heq
  simp at heq
  omega

/-- `QUEUE_SIZE`. -/
def queueSize : UInt16 := 16

/-! The packed `Virtqueue` at an address: 16 descriptors, the available ring and the used ring, each ring with
its event index at the end. -/
namespace Virtqueue

variable (queue : UInt64)

def sizeInBytes : Nat := 428

def avail : UInt64 := queue + 256

def used : UInt64 := queue + 294

/-- The place of `avail.ring[idx % QUEUE_SIZE]`. -/
def availSlot (idx : UInt16) : UInt64 := avail queue + (4 + (idx % queueSize).toUInt64 * 2)

/-- The place of `used.ring[idx % QUEUE_SIZE]`. -/
def usedSlot (idx : UInt16) : UInt64 := used queue + (4 + (idx % queueSize).toUInt64 * 8)

/-- The queue as the device has it, once the driver has set it up. -/
def seen (lastAvailIdx lastUsedIdx : UInt16) : VirtioQueue where
  size := queueSize
  ready := true
  descAddr := queue
  availAddr := avail queue
  usedAddr := used queue
  lastAvailIdx := lastAvailIdx
  lastUsedIdx := lastUsedIdx

variable {queue} {m : Ram} {lastAvailIdx lastUsedIdx : UInt16}

section Places

variable (h : m.Holds queue sizeInBytes)

include h

theorem toNat_offset {o : UInt64} (ho : o.toNat < sizeInBytes) : (queue + o).toNat = queue.toNat + o.toNat := by
  have hfits := h.fits
  exact toNat_add_of_lt (by omega)

theorem toNat_entry {index : UInt16} (hindex : index.toNat < 16) :
    (queue + index.toUInt64 * 16).toNat = queue.toNat + 16 * index.toNat := by
  have hoff := VirtioQueue.toNat_descOffset index
  rw [toNat_offset h (by unfold sizeInBytes; omega)]
  omega

theorem toNat_avail : (avail queue).toNat = queue.toNat + 256 := toNat_offset h (by decide)

theorem toNat_used : (used queue).toNat = queue.toNat + 294 := toNat_offset h (by decide)

theorem toNat_availIdx : (avail queue + 2).toNat = queue.toNat + 258 := by
  have havail := toNat_avail h
  have hfits := h.fits
  unfold sizeInBytes at hfits
  have hsum : (avail queue + 2).toNat = (avail queue).toNat + (2 : UInt64).toNat := toNat_add_of_lt (by simp; omega)
  rw [hsum, havail]
  rfl

theorem availIdx_covered : Covers queue sizeInBytes (avail queue + 2) 2 := by
  have hplace := toNat_availIdx h
  unfold Covers sizeInBytes
  omega

theorem toNat_availSlot (idx : UInt16) : (availSlot queue idx).toNat = queue.toNat + 260 + 2 * (idx.toNat % 16) := by
  have havail := toNat_avail h
  have hfits := h.fits
  have hoff : (4 + (idx % queueSize).toUInt64 * 2).toNat = 4 + (idx.toNat % 16) * 2 :=
    VirtioQueue.toNat_availOffset (seen queue 0 0) idx
  unfold sizeInBytes at hfits
  rw [availSlot, toNat_add_of_lt (by omega)]
  omega

end Places

theorem parts_covered (h : m.Holds queue sizeInBytes) :
    ∀ p ∈ (seen queue lastAvailIdx lastUsedIdx).parts, Covers queue sizeInBytes p.1 p.2 := by
  have havail := toNat_avail h
  have hused := toNat_used h
  have hparts : (seen queue lastAvailIdx lastUsedIdx).parts = [(queue, 256), (avail queue, 36), (used queue, 132)] := rfl
  intro p hp
  rw [hparts] at hp
  simp only [List.mem_cons, List.not_mem_nil, or_false] at hp
  unfold Covers sizeInBytes
  rcases hp with rfl | rfl | rfl
  · dsimp only
    omega
  · dsimp only
    omega
  · dsimp only
    omega

theorem queueHeld (h : m.Holds queue sizeInBytes) : (seen queue lastAvailIdx lastUsedIdx).QueueHeld m := by
  have havail := toNat_avail h
  have hused := toNat_used h
  have hpart {p : UInt64 × Nat} (hp : p ∈ (seen queue lastAvailIdx lastUsedIdx).parts) : m.Holds p.1 p.2 :=
    h.sub (parts_covered h p hp)
  have hsize : queueSize ≠ 0 := by decide
  refine ⟨⟨hsize, hpart (VirtioQueue.avail_mem _), hpart (VirtioQueue.used_mem _), Or.inl ?_⟩,
    hpart (VirtioQueue.table_mem _), Or.inl ?_⟩
  · show (avail queue).toNat + 36 ≤ (used queue).toNat
    omega
  · show queue.toNat + 256 ≤ (used queue).toNat
    omega

theorem published_nil (h : m.u16 (avail queue + 2) = lastAvailIdx) :
    (seen queue lastAvailIdx lastUsedIdx).published m = [] := by
  refine List.eq_nil_of_length_eq_zero (VirtioQueue.length_published.trans ?_)
  exact VirtioQueue.pending_eq_zero_iff.mpr h.symm

theorem published_one (h : m.u16 (avail queue + 2) = lastAvailIdx + 1) :
    (seen queue lastAvailIdx lastUsedIdx).published m = [m.u16 (availSlot queue lastAvailIdx)] := by
  have hnew : lastAvailIdx ≠ m.u16 (avail queue + 2) := by
    rw [h]
    exact (succ_idx_ne lastAvailIdx).symm
  rw [VirtioQueue.published_cons hnew]
  exact congrArg _ (published_nil h)

end Virtqueue

/-! ### Accesses -/

/-- A store of the driver, with the length that the log of the device had by then. -/
structure GuestStore where
  addr : UInt64
  length : Nat
  logged : Nat

/-- A driver at work: `statics` are the static variables that are not in RAM the device looks at. -/
structure Guest (S D : Type) where
  bus : Bus D Ram
  statics : S
  /-- How many background ticks come before each of the accesses that follow. -/
  schedule : Nat → Nat
  stores : List GuestStore
  /-- What `serial_puts` was given. -/
  serial : List String

namespace Guest

variable {S D α : Type}

def next (g : Guest S D) (bus : Bus D Ram) : Guest S D :=
  { g with bus, schedule := fun n => g.schedule (n + 1) }

def serialPuts (text : String) : Program (Guest S D) Unit :=
  modify fun g => { g with serial := g.serial ++ [text] }

def setStatics (f : S → S) : Program (Guest S D) Unit := modify fun g => { g with statics := f g.statics }

variable [VirtioDevice D Ram]

def background (fuel : Nat) : Nat → Program (Bus D Ram) Unit
  | 0 => return ()
  | n + 1 => do
      MMIOTransport.tick fuel
      background fuel n

def access (fuel : Nat) (x : Program (Bus D Ram) α) : Program (Guest S D) α := fun g =>
  match (do background fuel (g.schedule 0); x : Program (Bus D Ram) α) g.bus with
  | .ok a bus => .ok a (g.next bus)
  | .error e bus => .error e (g.next bus)

def load (fuel : Nat) (addr : UInt64) (length : Nat) : Program (Guest S D) Bytes :=
  access fuel do return (← get).mem.load addr length

def store (fuel : Nat) (addr : UInt64) (data : Bytes) : Program (Guest S D) Unit := do
  access fuel (modify fun b => { b with mem := b.mem.store addr data })
  modify fun g => { g with stores := g.stores ++ [⟨addr, data.length, g.bus.log.length⟩] }

def storeEach (fuel : Nat) : List (UInt64 × Bytes) → Program (Guest S D) Unit
  | [] => return ()
  | w :: writes => do
      store fuel w.1 w.2
      storeEach fuel writes

def mmioWrite (fuel : Nat) (offset : UInt64) (val : UInt32) : Program (Guest S D) Unit :=
  access fuel (MMIOTransport.write fuel offset (u32ToLe val))

def mmioRead (fuel : Nat) (offset : UInt64) : Program (Guest S D) UInt32 :=
  access fuel do return u32FromLe (← MMIOTransport.read offset 4)

/-- `while (used.idx == last)`, for as many rounds as the fuel allows. -/
def waitUsed (fuel : Nat) (idxAddr : UInt64) (last : UInt16) : Nat → Program (Guest S D) Unit
  | 0 => throw .outOfFuel
  | rounds + 1 => do
      if u16FromLe (← load fuel idxAddr 2) = last then waitUsed fuel idxAddr last rounds
      else return ()

/-! ### Accesses and background ticks -/

variable {fuel : Nat} {g : Guest S D} {b : Bus D Ram} {x : Program (Bus D Ram) α}

theorem background_of_stable {P : Bus D Ram → Prop}
    (htick : ∀ b, P b → ∃ b', tick fuel b = .ok () b' ∧ P b') (n : Nat) (h : P b) :
    ∃ b', background fuel n b = .ok () b' ∧ P b' := by
  induction n generalizing b with
  | zero => exact ⟨b, rfl, h⟩
  | succ n ih =>
    obtain ⟨t, hfirst, ht⟩ := htick b h
    obtain ⟨b', hrest, hb'⟩ := ih ht
    exact ⟨b', (bind_of_ok hfirst).trans hrest, hb'⟩

/-- **Accesses under background ticks.** A condition that ticks keep holds when the access itself is made. -/
theorem access_of_stable {P : Bus D Ram → Prop} {Q : α → Bus D Ram → Prop}
    (htick : ∀ b, P b → ∃ b', tick fuel b = .ok () b' ∧ P b')
    (hx : ∀ b, P b → ∃ a b', x b = .ok a b' ∧ Q a b') (h : P g.bus) :
    ∃ a b', access fuel x g = .ok a (g.next b') ∧ Q a b' := by
  obtain ⟨t, hticks, ht⟩ := background_of_stable htick (g.schedule 0) h
  obtain ⟨a, b', hrun, hb'⟩ := hx t ht
  have hall : (do background fuel (g.schedule 0); x : Program (Bus D Ram) α) g.bus = .ok a b' :=
    (bind_of_ok hticks).trans hrun
  refine ⟨a, b', ?_, hb'⟩
  unfold access
  rw [hall]

theorem access_eq_ok {a : α} {g' : Guest S D} (h : access fuel x g = .ok a g') :
    ∃ t b', background fuel (g.schedule 0) g.bus = .ok () t ∧ x t = .ok a b' ∧ g' = g.next b' := by
  unfold access at h
  split at h
  · rename_i _ b' hrun
    obtain ⟨_, t, hticks, hx⟩ := bind_eq_ok.mp hrun
    cases h
    exact ⟨t, b', hticks, hx, rfl⟩
  · cases h

def AtRest (fuel : Nat) (b : Bus D Ram) : Prop := MMIOTransport.tick fuel b = .ok () b

theorem access_of_atRest {a : α} {b' : Bus D Ram} (h : AtRest fuel g.bus) (hx : x g.bus = .ok a b') :
    access fuel x g = .ok a (g.next b') := by
  obtain ⟨_, _, haccess, rfl, rfl⟩ := access_of_stable (P := fun b => b = g.bus) (Q := fun c b => c = a ∧ b = b')
    (fun b hb => ⟨b, hb ▸ h, hb⟩) (fun b hb => ⟨a, b', hb ▸ hx, rfl, rfl⟩) (rfl : g.bus = g.bus)
  exact haccess

theorem atRest_of_status (h : b.transport.status &&& 4 = 0) : AtRest fuel b := by
  show (if b.transport.status &&& 4 = 0 then (return ()) else _ : Program (Bus D Ram) Unit) b = _
  rw [if_pos h]
  rfl

theorem load_of_atRest (h : AtRest fuel g.bus) (addr : UInt64) (length : Nat) :
    load fuel addr length g = .ok (g.bus.mem.load addr length) (g.next g.bus) :=
  access_of_atRest h rfl

theorem waitUsed_of_atRest (h : AtRest fuel g.bus) {idxAddr : UInt64} {last : UInt16} (rounds : Nat)
    (hdone : g.bus.mem.u16 idxAddr ≠ last) : waitUsed fuel idxAddr last (rounds + 1) g = .ok () (g.next g.bus) := by
  rw [waitUsed, bind_of_ok (load_of_atRest h idxAddr 2)]
  exact congrFun (if_neg hdone) _

/-! ### Ticks of the transport -/

def contextOf (b : Bus D Ram) (queue : VirtioQueue) : Ctx D Ram := ⟨b.transport.device, queue, b.mem, []⟩

def served (b : Bus D Ram) (idx : Nat) (c : Ctx D Ram) : Bus D Ram :=
  { b with
    transport := { b.transport with device := c.dev, queues := b.transport.queues.set idx c.queue }
    mem := c.mem
    log := b.log ++ c.log.map (Prod.mk idx) }

section Ticks

variable {idx : Nat} {queue : VirtioQueue}

theorem tickDevice_of_tick {worked : Bool} {c : Ctx D Ram} (hqueue : b.transport.queues[idx]? = some queue)
    (htick : VirtioDevice.tick fuel idx (contextOf b queue) = .ok worked c) :
    tickDevice fuel idx b = .ok worked (served b idx c) := by
  unfold contextOf at htick
  unfold tickDevice
  rw [hqueue]
  dsimp only
  rw [htick]
  rfl

def IdleOn (fuel : Nat) (b : Bus D Ram) (idx : Nat) (queue : VirtioQueue) : Prop :=
  VirtioDevice.tick fuel idx (contextOf b queue) = .ok false (contextOf b queue)

theorem tickDevice_of_idle (hqueue : b.transport.queues[idx]? = some queue) (hidle : IdleOn fuel b idx queue) :
    tickDevice fuel idx b = .ok false b := by
  have hset : b.transport.queues.set idx queue = b.transport.queues := by
    obtain ⟨hlt, rfl⟩ := List.getElem?_eq_some_iff.mp hqueue
    exact List.set_getElem_self hlt
  rw [tickDevice_of_tick hqueue hidle, served, contextOf]
  dsimp only
  rw [hset, List.map_nil, List.append_nil]

def pendingIf (worked : Bool) (b : Bus D Ram) : Bus D Ram :=
  if worked then { b with transport := { b.transport with interruptStatus := b.transport.interruptStatus ||| 1 } } else b

omit [VirtioDevice D Ram] in
theorem setIrqLine_eq (value : Bool) (b : Bus D Ram) :
    ∃ irqHandler, (setIrqLine value : Program (Bus D Ram) Unit) b = .ok () { b with irqHandler } := by
  show ∃ irqHandler, (.ok () (if b.transport.hasIrqHandler then _ else b) : EStateM.Result Fault (Bus D Ram) Unit) = _
  split_ifs
  · exact ⟨_, rfl⟩
  · exact ⟨b.irqHandler, rfl⟩

theorem notifyQueue_of_tick {worked : Bool} {c : Ctx D Ram} (hqueue : b.transport.queues[idx]? = some queue)
    (hready : queue.ready = true) (htick : VirtioDevice.tick fuel idx (contextOf b queue) = .ok worked c) :
    ∃ irqHandler, notifyQueue fuel idx b = .ok () { pendingIf worked (served b idx c) with irqHandler } := by
  have hrun : notifyQueue fuel idx b = (do
      if worked then
        setRegs fun t => { t with interruptStatus := t.interruptStatus ||| 1 }
        setIrqLine true : Program (Bus D Ram) Unit) (served b idx c) := by
    unfold notifyQueue
    refine get_bind.trans ?_
    rw [hqueue]
    dsimp only
    rw [if_pos hready]
    exact bind_of_ok (tickDevice_of_tick hqueue htick)
  rw [hrun]
  cases worked with
  | false => exact ⟨_, rfl⟩
  | true => exact setIrqLine_eq true (pendingIf true (served b idx c))

theorem tickQueues_succ {worked : Bool} {c : Ctx D Ram} (remaining : Nat)
    (hqueue : b.transport.queues[idx]? = some queue) (hready : queue.ready = true)
    (htick : VirtioDevice.tick fuel idx (contextOf b queue) = .ok worked c) : tickQueues fuel (remaining + 1) idx b =
      tickQueues fuel remaining (idx + 1) (pendingIf worked (served b idx c)) := by
  have hindex : (lift (index b.transport.queues idx) : Program (Bus D Ram) VirtioQueue) b = .ok queue b :=
    lift_eq_ok.mpr ⟨index_eq_ok.mpr hqueue, rfl⟩
  refine (bind_of_ok hindex).trans ?_
  dsimp only
  rw [if_pos hready]
  refine (bind_of_ok (tickDevice_of_tick hqueue htick)).trans ?_
  cases worked with
  | false => rfl
  | true => rfl

theorem tick_of_tickQueues {t : Bus D Ram} (hrunning : b.transport.status &&& 4 ≠ 0)
    (hqueues : tickQueues fuel b.transport.queues.length 0 b = .ok () t) (hupdate : updateDevice t = .ok false t) :
    ∃ irqHandler, tick fuel b = .ok () { t with irqHandler } := by
  have hrun : tick fuel b = (if (t.transport.interruptStatus != 0) && !(b.transport.interruptStatus != 0)
      then setIrqLine true else return () : Program (Bus D Ram) Unit) t := by
    show (if b.transport.status &&& 4 = 0 then (return ()) else _ : Program (Bus D Ram) Unit) b = _
    rw [if_neg hrunning]
    exact (bind_of_ok hqueues).trans (bind_of_ok hupdate)
  rw [hrun]
  split_ifs
  · exact setIrqLine_eq true t
  · exact ⟨t.irqHandler, rfl⟩

theorem notifyQueue_of_idle (hqueue : b.transport.queues[idx]? = some queue)
    (hidle : queue.ready = true → IdleOn fuel b idx queue) : notifyQueue fuel idx b = .ok () b := by
  unfold notifyQueue
  refine get_bind.trans ?_
  rw [hqueue]
  dsimp only
  split_ifs with hready
  · exact bind_of_ok (tickDevice_of_idle hqueue (hidle hready))
  · rfl

section

variable (hidle : ∀ idx queue, b.transport.queues[idx]? = some queue → queue.ready = true → IdleOn fuel b idx queue)
include hidle

theorem tickQueues_of_idle (remaining idx : Nat) (hin : idx + remaining ≤ b.transport.queues.length) :
    tickQueues fuel remaining idx b = .ok () b := by
  induction remaining generalizing idx with
  | zero => rfl
  | succ remaining ih =>
    have hlt : idx < b.transport.queues.length := by omega
    have hqueue := List.getElem?_eq_getElem hlt
    have hindex : (lift (index b.transport.queues idx) : Program (Bus D Ram) VirtioQueue) b =
        .ok b.transport.queues[idx] b := lift_eq_ok.mpr ⟨index_eq_ok.mpr hqueue, rfl⟩
    refine (bind_of_ok hindex).trans ?_
    dsimp only
    split_ifs with hready
    · exact (bind_of_ok (tickDevice_of_idle hqueue (hidle idx _ hqueue hready))).trans (ih (idx + 1) (by omega))
    · exact ih (idx + 1) (by omega)

theorem atRest_of_idle (hupdate : updateDevice b = .ok false b) : AtRest fuel b := by
  show (if b.transport.status &&& 4 = 0 then (return ()) else _ : Program (Bus D Ram) Unit) b = _
  split_ifs
  · rfl
  refine (bind_of_ok (tickQueues_of_idle hidle _ 0 (by omega))).trans ((bind_of_ok hupdate).trans ?_)
  show (if (b.transport.interruptStatus != 0) && !(b.transport.interruptStatus != 0) then _ else (return ()) :
    Program (Bus D Ram) Unit) b = _
  rw [if_neg (by simp)]
  rfl

end

end Ticks

/-! ### Assignments -/

def storedAll (g : Guest S D) (writes : List (UInt64 × Bytes)) : Guest S D :=
  { g with
    bus := { g.bus with mem := g.bus.mem.storeAll writes }
    schedule := fun n => g.schedule (n + writes.length)
    stores := g.stores ++ writes.map fun w => ⟨w.1, w.2.length, g.bus.log.length⟩ }

omit [VirtioDevice D Ram] in
theorem storedAll_nil (g : Guest S D) : g.storedAll [] = g := by
  simp [storedAll, Ram.storeAll]

omit [VirtioDevice D Ram] in
theorem storedAll_storedAll (g : Guest S D) (writes writes' : List (UInt64 × Bytes)) :
    (g.storedAll writes).storedAll writes' = g.storedAll (writes ++ writes') := by
  simp [storedAll, Ram.storeAll, List.foldl_append, Nat.add_assoc, Nat.add_comm writes'.length]

theorem store_of_atRest (h : AtRest fuel g.bus) (addr : UInt64) (data : Bytes) :
    store fuel addr data g = .ok () (g.storedAll [(addr, data)]) := by
  have haccess : access fuel (modify fun b => { b with mem := b.mem.store addr data }) g =
      .ok () (g.next { g.bus with mem := g.bus.mem.store addr data }) := access_of_atRest h rfl
  exact bind_of_ok haccess

/-- **Assignments under background ticks.** As long as ticks find nothing to do, the assignments are all that
happens. -/
theorem storeEach_of_atRest {P : Ram → Prop} {writes : List (UInt64 × Bytes)}
    (hatRest : ∀ m, P m → AtRest fuel { g.bus with mem := m })
    (hkeep : ∀ w ∈ writes, ∀ m, P m → P (m.store w.1 w.2)) (h : P g.bus.mem) :
    storeEach fuel writes g = .ok () (g.storedAll writes) ∧ P (g.storedAll writes).bus.mem := by
  induction writes generalizing g with
  | nil =>
    rw [storedAll_nil]
    exact ⟨rfl, h⟩
  | cons w writes ih =>
    have hfirst := store_of_atRest (hatRest g.bus.mem h) w.1 w.2
    obtain ⟨hrest, hlast⟩ := @ih (g.storedAll [w]) hatRest (fun w' hw' => hkeep w' (List.mem_cons_of_mem _ hw'))
      (hkeep w List.mem_cons_self _ h)
    rw [storedAll_storedAll] at hrest hlast
    exact ⟨(bind_of_ok hfirst).trans hrest, hlast⟩

end Guest

end FerrumVM
