import FerrumVM.DeviceBlk
import FerrumVM.DeviceFs
import FerrumVM.DeviceGpu
import FerrumVM.DeviceNet
import FerrumVM.DeviceSimple

/-! The devices that can stand behind a transport, as one type, and what a tick of any of them does to
the queue: it retires the chains it pops, in order. -/

namespace FerrumVM

open Base Program

/-- `Box<dyn VirtioDevice>` holding one of the devices of the repository. -/
inductive Device (H : HostOs) (W : Type) where
  | blk (dev : BlkVirtio H)
  | net (dev : NetVirtio H)
  | fs (dev : FsVirtio H)
  | gpu (dev : VirtioGpu W)
  | rng (dev : RngVirtio H)
  | cnt (dev : CntVirtio)
  | console (dev : ConsoleVirtio)

def Ctx.withDev {D D' M : Type} (c : Ctx D M) (dev : D') : Ctx D' M where
  dev := dev
  queue := c.queue
  mem := c.mem
  log := c.log

/-- A program of one device as a program of a type that the device is part of. -/
def Serve.within {D D' M α : Type} (wrap : D' → D) (dev : D') (x : Serve D' M α) : Serve D M α := fun c =>
  match x (c.withDev dev) with
  | .ok a c' => .ok a (c'.withDev (wrap c'.dev))
  | .error e c' => .error e (c'.withDev (wrap c'.dev))

namespace Device

variable {H : HostOs} {W M : Type} [GuestMemory M] [DisplayBackend W]

variable (M) in
def elim {α : Type} (f : {D : Type} → [VirtioDevice D M] → (D → Device H W) → D → α) : Device H W → α
  | .blk dev => f .blk dev
  | .net dev => f .net dev
  | .fs dev => f .fs dev
  | .gpu dev => f .gpu dev
  | .rng dev => f .rng dev
  | .cnt dev => f .cnt dev
  | .console dev => f .console dev

instance : VirtioDevice (Device H W) M where
  virtioType := elim M fun {_} [_] _ dev => VirtioDevice.virtioType M dev
  features := elim M fun {_} [_] _ dev => VirtioDevice.features M dev
  negotiateFeatures d features := elim M (fun {_} [_] wrap dev =>
    wrap (VirtioDevice.negotiateFeatures M dev features)) d
  passGuestMemory := elim M fun {_} [_] wrap dev => wrap (VirtioDevice.passGuestMemory M dev)
  tick fuel queueSel c := elim M (fun {_} [_] wrap dev =>
    Serve.within wrap dev (VirtioDevice.tick fuel queueSel)) c.dev c
  readConfig d length := elim M (fun {_} [_] _ dev => VirtioDevice.readConfig M dev length) d
  writeConfig d offset data := elim M (fun {_} [_] wrap dev => do
    return wrap (← VirtioDevice.writeConfig M dev offset data)) d
  update d queues mem := elim M (fun {_} [_] wrap dev => do
    let (worked, dev, queues, mem) ← VirtioDevice.update dev queues mem
    return (worked, wrap dev, queues, mem)) d
  reset := elim M fun {_} [_] wrap dev => wrap (VirtioDevice.reset M dev)

theorem tick_console (fuel queueSel : Nat) {c : Ctx (Device H W) M} {dev : ConsoleVirtio} (h : c.dev = .console dev) :
    VirtioDevice.tick fuel queueSel c = Serve.within .console dev (ConsoleVirtio.tick queueSel) c := by
  obtain ⟨_, queue, mem, log⟩ := c
  obtain rfl : _ = _ := h
  rfl

end Device

/-- `update` of the devices works on the device alone. -/
def UpdateKeepsQueues (D M : Type) [VirtioDevice D M] : Prop :=
  ∀ (dev : D) queues (mem : M) r, VirtioDevice.update dev queues mem = .ok r → r.2.2 = (queues, mem)

theorem updateKeepsQueues_device {H : HostOs} {W M : Type} [GuestMemory M] [DisplayBackend W] :
    UpdateKeepsQueues (Device H W) M := by
  intro dev queues mem r h
  cases dev <;>
  · cases h
    rfl

/-! ### What a tick does to the queue -/

/-- Where a tick of the device returns, the chains it popped have been retired in order. -/
def ServesInOrder (D M : Type) [VirtioDevice D M] : Prop :=
  ∀ fuel queueSel (c c' : Ctx D M) worked,
    VirtioDevice.tick fuel queueSel c = .ok worked c' → ∃ heads, Served heads c c'

section Ticks

variable {H : HostOs} {W M : Type} [DisplayBackend W] {D : Type}

theorem served_of_pure {c c' : Ctx D M} {worked r : Bool} (h : (pure r : Serve D M Bool) c = .ok worked c') :
    ∃ heads, Served heads c c' := by
  obtain ⟨_, rfl⟩ := pure_eq_ok.mp h
  exact ⟨[], .refl rfl⟩

theorem servesInOrder [GuestMemory M] [VirtioDevice D M] [QueueDevice D M] : ServesInOrder D M := by
  intro fuel queueSel c c' worked h
  rw [QueueDevice.tick_eq] at h
  cases hloop : (QueueDevice.queueLoop c.dev queueSel : Option (QueueLoop D M)) with
  | none =>
    rw [hloop] at h
    exact served_of_pure h
  | some l =>
    rw [hloop] at h
    exact (QueueDevice.lawful hloop).served h

theorem servesInOrder_console : ServesInOrder ConsoleVirtio M :=
  fun _ _ _ _ _ h => served_of_pure h

theorem Serve.within_eq_ok {D' α : Type} {wrap : D' → D} {dev : D'} {x : Serve D' M α} {a : α} {c c' : Ctx D M} :
    Serve.within wrap dev x c = .ok a c' ↔ ∃ t, x (c.withDev dev) = .ok a t ∧ c' = t.withDev (wrap t.dev) := by
  unfold Serve.within
  cases x (c.withDev dev) with
  | ok b t => simp [eq_comm]
  | error e t => simp

theorem served_within {D' : Type} [VirtioDevice D' M] {wrap : D' → D} {dev : D'} (fuel queueSel : Nat)
    {c c' : Ctx D M} {worked : Bool} (hdev : ServesInOrder D' M)
    (h : Serve.within wrap dev (VirtioDevice.tick fuel queueSel) c = .ok worked c') : ∃ heads, Served heads c c' := by
  obtain ⟨t, htick, rfl⟩ := Serve.within_eq_ok.mp h
  exact hdev _ _ _ _ _ htick

/-- **Every device of the repository retires what it pops.** -/
theorem servesInOrder_device [GuestMemory M] : ServesInOrder (Device H W) M := by
  intro fuel queueSel c c' worked h
  obtain ⟨dev, queue, mem, log⟩ := c
  cases dev with
  | blk dev => exact served_within fuel queueSel servesInOrder h
  | net dev => exact served_within fuel queueSel servesInOrder h
  | fs dev => exact served_within fuel queueSel servesInOrder h
  | gpu dev => exact served_within fuel queueSel servesInOrder h
  | rng dev => exact served_within fuel queueSel servesInOrder h
  | cnt dev => exact served_within fuel queueSel servesInOrder h
  | console dev => exact served_within fuel queueSel servesInOrder_console h

end Ticks

/-! ### One chain to serve -/

abbrev BareDevice := Device HostOs.bare (FerrumSDLContext SdlCanvas.blank)

/-- Sixteen bytes that are at once a descriptor table with a writable empty buffer, an available ring
with one head and room for a used ring, all of them at address zero. -/
def oneChain : Ram :=
  ⟨[{ isNull := false, bytes := [0, 0, 1, 0, 0, 0, 0, 0, 0, 0, 0, 0, 2, 0, 0, 0], memOffset := 0,
      size_le := by decide }]⟩

def waiting (dev : BareDevice) : Ctx BareDevice Ram where
  dev := dev
  queue := { VirtioQueue.new with size := 1, ready := true }
  mem := oneChain
  log := []

def bareRng : BareDevice := .rng ⟨true, ()⟩
def bareBlk : BareDevice := .blk { BlkVirtio.new () 512 () with attached := true }

end FerrumVM
