import FerrumVM.BaseTwin
import FerrumVM.GpuInvariant
import FerrumVM.TransportMoves

/-! A reset of the graphics device. Writing zero to the status register leaves the transport as it was
right after its construction and attachment, whatever the driver had done before. A transport shows
nothing but its registers, its device and guest memory, so from then on every access is answered as by a
fresh one. -/

namespace FerrumVM

open Base Program

/-! ### Accesses and their answers -/

/-- What reaches a transport from outside. -/
inductive BusAccess (M : Type) where
  | read (addr : UInt64) (length : Nat)
  | write (addr : UInt64) (data : Bytes)
  | tick
  /-- The guest, or another device, leaves guest memory as given. -/
  | memory (mem : M)

section

variable {D M : Type}

/-! ### Two buses that show the same -/

/-- The two transports and memories are equal, and since the starts `b₀` and `b₀'` the same commands were
given to the interrupt line and the same was done on the queues. -/
structure Bus.Alike (b₀ b₀' b b' : Bus D M) : Prop where
  transport : b.transport = b'.transport
  mem : b.mem = b'.mem
  commands : ∃ issued, b.irqHandler.commands = b₀.irqHandler.commands ++ issued ∧
    b'.irqHandler.commands = b₀'.irqHandler.commands ++ issued
  log : ∃ events, b.log = b₀.log ++ events ∧ b'.log = b₀'.log ++ events

open MMIOTransport

variable {b₀ b₀' : Bus D M}

theorem Bus.Alike.start (htransport : b₀.transport = b₀'.transport) (hmem : b₀.mem = b₀'.mem) :
    Bus.Alike b₀ b₀' b₀ b₀' where
  transport := htransport
  mem := hmem
  commands := ⟨[], by simp⟩
  log := ⟨[], by simp⟩

theorem respects_setRegs (f : MMIOTransport D → MMIOTransport D) :
    Respects (Bus.Alike b₀ b₀') (setRegs f : Program (Bus D M) Unit) :=
  .modify fun _ _ h => ⟨congrArg f h.transport, h.mem, h.commands, h.log⟩

theorem respects_setIrqLine (value : Bool) :
    Respects (Bus.Alike b₀ b₀') (setIrqLine value : Program (Bus D M) Unit) := by
  refine .modify fun b b' h => ?_
  rw [← h.transport]
  split_ifs
  · obtain ⟨issued, hb, hb'⟩ := h.commands
    refine ⟨rfl, h.mem, ⟨issued ++ [⟨b.transport.irqSel, value⟩], ?_, ?_⟩, h.log⟩
    · simp [IRQHandler.triggerIrq, hb]
    · simp [IRQHandler.triggerIrq, hb']
  · exact h

theorem respects_get {β : Type} {f : Bus D M → Program (Bus D M) β}
    (hsame : ∀ b b', b.transport = b'.transport → f b = f b') (hf : ∀ b, Respects (Bus.Alike b₀ b₀') (f b)) :
    Respects (Bus.Alike b₀ b₀') (get >>= f) :=
  .get_bind (fun b b' h => hsame b b' h.transport) hf

theorem respects_selected : Respects (Bus.Alike b₀ b₀') (selected : Program (Bus D M) VirtioQueue) :=
  respects_get (fun _ _ h => by simp only [h]) fun _ => .lift _

variable [VirtioDevice D M]

def BusAccess.answer (fuel : Nat) : BusAccess M → Program (Bus D M) Bytes
  | .read addr length => MMIOTransport.read addr length
  | .write addr data => do
      MMIOTransport.write fuel addr data
      return []
  | .tick => do
      MMIOTransport.tick fuel
      return []
  | .memory mem => do
      modify fun b => { b with mem }
      return []

def answers (fuel : Nat) : List (BusAccess M) → Program (Bus D M) (List Bytes)
  | [] => return []
  | access :: rest => do
      let answer ← access.answer fuel
      return answer :: (← answers fuel rest)

theorem respects_tickDevice (fuel idx : Nat) :
    Respects (Bus.Alike b₀ b₀') (tickDevice fuel idx : Program (Bus D M) Bool) := by
  intro b b' h
  obtain ⟨events, hb, hb'⟩ := h.log
  unfold tickDevice
  rw [← h.transport, ← h.mem]
  cases b.transport.queues[idx]? with
  | none => exact ⟨rfl, h⟩
  | some queue =>
    dsimp only
    cases VirtioDevice.tick fuel idx (⟨b.transport.device, queue, b.mem, []⟩ : Ctx D M) with
    | ok worked c =>
      exact ⟨rfl, rfl, rfl, h.commands, events ++ c.log.map (Prod.mk idx), by simp [hb], by simp [hb']⟩
    | error e c =>
      exact ⟨rfl, rfl, rfl, h.commands, events ++ c.log.map (Prod.mk idx), by simp [hb], by simp [hb']⟩

theorem respects_updateDevice : Respects (Bus.Alike b₀ b₀') (updateDevice : Program (Bus D M) Bool) := by
  intro b b' h
  unfold updateDevice act
  dsimp only
  rw [← h.transport, ← h.mem]
  cases VirtioDevice.update b.transport.device b.transport.queues b.mem with
  | ok result => exact ⟨rfl, rfl, rfl, h.commands, h.log⟩
  | error e => exact ⟨rfl, h⟩

/-! ### Every access -/

theorem respects_readRegister (reg : Register) :
    Respects (Bus.Alike b₀ b₀') (readRegister reg : Program (Bus D M) UInt32) := by
  cases reg with
  | deviceId | deviceFeatures | status => exact respects_get (fun _ _ h => by simp only [h]) fun _ => .pure _
  | queueNum | queueReady => exact respects_selected.bind fun _ => .pure _
  | interruptStatus =>
    refine respects_get (fun _ _ h => by simp only [h]) fun t => .ite ?_ (.pure _)
    exact (respects_setRegs _).bind fun _ => (respects_setIrqLine false).bind fun _ => .pure _
  | _ => exact .pure _

theorem respects_read (addr : UInt64) (length : Nat) :
    Respects (Bus.Alike b₀ b₀') (MMIOTransport.read addr length : Program (Bus D M) Bytes) := by
  unfold MMIOTransport.read
  split
  · refine respects_get (fun _ _ h => by simp only [h]) fun t => (Respects.lift _).bind fun stop => ?_
    exact (Respects.lift _).bind fun _ => .lift _
  · exact (respects_readRegister _).bind fun _ => .lift _

theorem respects_notifyQueue (fuel idx : Nat) :
    Respects (Bus.Alike b₀ b₀') (notifyQueue fuel idx : Program (Bus D M) Unit) := by
  refine respects_get (fun _ _ h => by simp only [h]) fun t => ?_
  split
  · exact .pure _
  refine .ite ((respects_tickDevice fuel idx).bind fun worked => .ite ?_ (.pure _)) (.pure _)
  exact (respects_setRegs _).bind fun _ => respects_setIrqLine true

theorem respects_writeRegister (fuel : Nat) (data : Bytes) (reg : Register) :
    Respects (Bus.Alike b₀ b₀') (writeRegister fuel data reg : Program (Bus D M) Unit) := by
  have hselected (f : VirtioQueue → VirtioQueue) :
      Respects (Bus.Alike b₀ b₀') (do setSelected (f (← selected)) : Program (Bus D M) Unit) :=
    respects_selected.bind fun _ => respects_setRegs _
  cases reg with
  | queueNum => exact (Respects.lift _).bind fun lo => (Respects.lift _).bind fun hi => hselected _
  | queueReady => exact respects_selected.bind fun q => (Respects.lift _).bind fun byte => respects_setRegs _
  | queueNotify => exact (Respects.lift _).bind fun _ => respects_notifyQueue fuel _
  | interruptStatus | interruptAck =>
    refine (Respects.lift _).bind fun ack => (respects_setRegs _).bind fun _ => ?_
    exact respects_get (fun _ _ h => by simp only [h]) fun b => .ite (respects_setIrqLine false) (.pure _)
  | status =>
    refine (Respects.lift _).bind fun val => .ite ?_ (respects_setRegs _)
    refine (respects_setRegs _).bind fun _ => (respects_setIrqLine false).bind fun _ => ?_
    exact (respects_setRegs _).bind fun _ => respects_setRegs _
  | config offset =>
    refine respects_get (fun _ _ h => by simp only [h]) fun b => ?_
    exact (Respects.lift _).bind fun device => respects_setRegs _
  | deviceFeaturesSel | driverFeatures | driverFeaturesSel | shmSel | queueSel =>
    exact (Respects.lift _).bind fun val => respects_setRegs _
  | queueDescLow | queueDescHigh | queueAvailLow | queueAvailHigh | queueUsedLow | queueUsedHigh =>
    exact (Respects.lift _).bind fun val => hselected _
  | _ => exact .pure _

theorem respects_tickQueues (fuel remaining idx : Nat) :
    Respects (Bus.Alike b₀ b₀') (tickQueues fuel remaining idx : Program (Bus D M) Unit) := by
  induction remaining generalizing idx with
  | zero => exact .pure _
  | succ remaining ih =>
    refine respects_get (fun _ _ h => by simp only [h]) fun t => (Respects.lift _).bind fun queue => .ite ?_ (ih _)
    refine (respects_tickDevice fuel idx).bind fun worked => .ite ?_ (ih _)
    exact (respects_setRegs _).bind fun _ => ih _

theorem respects_tick (fuel : Nat) :
    Respects (Bus.Alike b₀ b₀') (MMIOTransport.tick fuel : Program (Bus D M) Unit) := by
  refine respects_get (fun _ _ h => by simp only [h]) fun b => .ite (.pure _) ?_
  refine (respects_tickQueues _ _ _).bind fun _ => respects_updateDevice.bind fun worked => ?_
  have hraise (wasPending : Bool) : Respects (Bus.Alike b₀ b₀') (do
      let nowPending := (← get).transport.interruptStatus != 0
      if nowPending && !wasPending then setIrqLine true : Program (Bus D M) Unit) :=
    respects_get (fun _ _ h => by simp only [h]) fun t => .ite (respects_setIrqLine true) (.pure _)
  exact .ite ((respects_setRegs _).bind fun _ => hraise _) (hraise _)

theorem respects_answers (fuel : Nat) (accesses : List (BusAccess M)) :
    Respects (Bus.Alike b₀ b₀') (answers fuel accesses : Program (Bus D M) (List Bytes)) := by
  induction accesses with
  | nil => exact .pure _
  | cons access rest ih =>
    refine Respects.bind ?_ fun answer => ih.bind fun _ => .pure _
    cases access with
    | read addr length => exact respects_read addr length
    | write addr data => exact (respects_writeRegister fuel data _).bind fun _ => .pure _
    | tick => exact (respects_tick fuel).bind fun _ => .pure _
    | memory mem =>
      exact (Respects.modify fun _ _ h => ⟨h.transport, rfl, h.commands, h.log⟩).bind fun _ => .pure _

end

/-! ### What the graphics device never changes -/

namespace VirtioGpu

variable {W M : Type} [GuestMemory M]

theorem keepsDev_command_of_tables [DisplayBackend W] {I : VirtioGpu W → Prop}
    (hI : ∀ s resources scanouts window, I s → I { s with resources, scanouts, window }) (cmd : GpuCommand)
    (bytes : Bytes) : KeepsDev I (command cmd bytes : Serve (VirtioGpu W) M GpuResponse) := by
  refine keepsDev_command cmd bytes (fun s hs => ?_) (fun s window hs => hI s _ _ window hs)
    fun _ s _ _ _ _ _ _ hs => hI s _ _ _ hs
  cases cmd with
  | resourceCreate2d =>
    show I (s.resourceCreate2d bytes).2
    unfold resourceCreate2d
    split
    · exact hs
    split_ifs
    · exact hs
    · exact hs
    split
    · exact hs
    · exact hI s _ _ _ hs
  | resourceUnref =>
    show I (s.resourceUnref bytes).2
    unfold resourceUnref
    split
    · exact hs
    · exact hI s _ _ _ hs
  | setScanout =>
    show I (s.setScanout bytes).2
    unfold VirtioGpu.setScanout
    split
    · exact hs
    split_ifs
    · exact hs
    · exact hs
    · exact hI s _ _ _ hs
    · exact hI s _ _ _ hs
  | resourceAttachBacking =>
    show I (s.resourceAttachBacking bytes).2
    unfold resourceAttachBacking
    split
    · exact hs
    split
    · exact hs
    · exact hI s _ _ _ hs
  | resourceDetachBacking =>
    show I (s.resourceDetachBacking bytes).2
    unfold resourceDetachBacking
    split
    · exact hs
    split
    · exact hs
    · exact hI s _ _ _ hs
  | _ => exact hs

end VirtioGpu

theorem VirtioGpuConfig.writeField_eq_ok {config config' : VirtioGpuConfig} {offset : Nat} {data : Bytes}
    (h : config.writeField offset data = .ok config') : ∃ eventsClear, config' = { config with eventsClear } := by
  rw [VirtioGpuConfig.writeField_eq] at h
  split_ifs at h
  · cases h
    exact ⟨_, rfl⟩
  · cases h
    exact ⟨_, rfl⟩

section

variable {W M : Type} [DisplayBackend W] [GuestMemory M] {queueNum : Nat} {irqSel : UInt32} {hasIrqHandler : Bool}

/-- A transport around a new graphics device, attached to guest memory. -/
def Machine.gpu (window : W) (queueNum : Nat) (irqSel : UInt32) (hasIrqHandler : Bool) (mem : M) :
    Machine (VirtioGpu W) M :=
  let m := Machine.new (VirtioGpu.new window) queueNum irqSel hasIrqHandler mem
  { m with bus := MMIOTransport.passGuestMemory m.bus }

structure Bus.Made (queueNum : Nat) (irqSel : UInt32) (hasIrqHandler : Bool) (b : Bus (VirtioGpu W) M) : Prop where
  queues : b.transport.queues.length = queueNum
  irqSel : b.transport.irqSel = irqSel
  hasIrqHandler : b.transport.hasIrqHandler = hasIrqHandler
  attached : b.transport.device.attached = true
  numScanouts : b.transport.device.config.numScanouts = 1
  numCapsets : b.transport.device.config.numCapsets = 0

theorem Bus.Made.move {k : MoveKind} {b b' : Bus (VirtioGpu W) M} (hmove : Move k b b')
    (h : b.Made queueNum irqSel hasIrqHandler) : b'.Made queueNum irqSel hasIrqHandler := by
  cases hmove with
  | irq | regs | pending | select => exact { h with }
  | device _ hcall =>
    cases hcall with
    | negotiate | reset => exact { h with }
    | config offset data hwrite =>
      obtain ⟨config, hfield, heq⟩ := Exec.bind_eq_ok.mp hwrite
      obtain ⟨eventsClear, rfl⟩ := VirtioGpuConfig.writeField_eq_ok hfield
      cases heq
      exact { h with }
  | queue => exact { h with queues := List.length_set.trans h.queues }
  | clear => exact { h with queues := (List.length_map _).trans h.queues }
  | tick _ hqueue htick =>
    have hcommand (cmd : GpuCommand) (bytes : Bytes) :=
      VirtioGpu.keepsDev_command_of_tables (M := M) (W := W)
        (I := fun s => s.attached = true ∧ s.config.numScanouts = 1 ∧ s.config.numCapsets = 0)
        (fun _ _ _ _ hs => hs) cmd bytes
    obtain ⟨hattached, hscanouts, hcapsets⟩ :=
      VirtioGpu.dev_of_tick hcommand htick ⟨h.attached, h.numScanouts, h.numCapsets⟩
    refine ⟨?_, h.irqSel, h.hasIrqHandler, hattached, hscanouts, hcapsets⟩
    exact List.length_set.trans h.queues
  | update _ hupdate =>
    cases hupdate
    exact { h with }

def gpuMachineSystem (W M : Type) [DisplayBackend W] [GuestMemory M] (queueNum : Nat) (irqSel : UInt32)
    (hasIrqHandler : Bool) : System (Machine (VirtioGpu W) M) (MachineEvent M) where
  init m := ∃ window mem, m = Machine.gpu window queueNum irqSel hasIrqHandler mem
  step := Machine.Step

theorem made_of_reachable {m : Machine (VirtioGpu W) M}
    (h : (gpuMachineSystem W M queueNum irqSel hasIrqHandler).Reachable m) :
    m.bus.Made queueNum irqSel hasIrqHandler := by
  refine h.invariant (I := fun m => m.bus.Made queueNum irqSel hasIrqHandler) ?_ fun m e m' hm hstep => ?_
  · rintro m ⟨window, mem, rfl⟩
    exact ⟨List.length_replicate, rfl, rfl, rfl, rfl, rfl⟩
  · exact Machine.Step.preserves (fun _ _ _ => Bus.Made.move) (fun _ h => { h with attached := rfl })
      (fun _ _ h => { h with }) (fun _ _ h => { h with }) hstep hm

omit [DisplayBackend W] in
theorem VirtioGpu.reset_eq_new {s : VirtioGpu W} (hattached : s.attached = true)
    (hscanouts : s.config.numScanouts = 1) (hcapsets : s.config.numCapsets = 0) :
    s.reset = { VirtioGpu.new s.window with attached := true } := by
  cases s
  simp_all [VirtioGpu.reset, VirtioGpu.new, VirtioGpuConfig.reset]

theorem write_status_zero {b : Bus (VirtioGpu W) M} (h : b.Made queueNum irqSel hasIrqHandler) (fuel : Nat)
    {data : Bytes} (hdata : readU32FromData data = .ok 0) :
    ∃ b', MMIOTransport.write fuel 0x070 data b = .ok () b' ∧ b'.mem = b.mem ∧ b'.transport =
      (Machine.gpu b.transport.device.window queueNum irqSel hasIrqHandler b.mem).bus.transport := by
  obtain ⟨b', hwrite, hmem, _, htransport⟩ := MMIOTransport.write_reset fuel hdata b
  have hqueues : b.transport.queues.map (fun _ => VirtioQueue.new) = List.replicate queueNum VirtioQueue.new := by
    rw [List.map_const', h.queues]
  have hdevice : VirtioDevice.reset M b.transport.device = b.transport.device.reset := rfl
  refine ⟨b', hwrite, hmem, ?_⟩
  rw [htransport, hdevice, MMIOTransport.cleared, hqueues, VirtioGpu.reset_eq_new h.attached h.numScanouts h.numCapsets,
    h.irqSel, h.hasIrqHandler]
  rfl

/-- **A reset is a fresh start.** In every state that a run reaches, a write of zero to the status register
returns, and leaves the transport and the device as they were right after construction and attachment. Any
accesses that follow are answered as by that fresh transport on the same guest memory, and they have the
same effects. -/
theorem reset_is_fresh {m : Machine (VirtioGpu W) M}
    (h : (gpuMachineSystem W M queueNum irqSel hasIrqHandler).Reachable m) (fuel : Nat) {data : Bytes}
    (hdata : readU32FromData data = .ok 0) :
    ∃ b fresh : Bus (VirtioGpu W) M, MMIOTransport.write fuel 0x070 data m.bus = .ok () b ∧
      fresh = (Machine.gpu m.bus.transport.device.window queueNum irqSel hasIrqHandler m.bus.mem).bus ∧
      b.transport = fresh.transport ∧ b.mem = fresh.mem ∧
      ∀ fuel accesses, Same (Bus.Alike b fresh) (answers fuel accesses b) (answers fuel accesses fresh) := by
  obtain ⟨b, hwrite, hmem, htransport⟩ := write_status_zero (made_of_reachable h) fuel hdata
  refine ⟨b, _, hwrite, rfl, htransport, hmem, fun fuel accesses => ?_⟩
  exact respects_answers fuel accesses _ _ (.start htransport hmem)

end

def eventCleared : Machine (VirtioGpu (FerrumSDLContext SdlCanvas.blank)) Ram :=
  (Machine.gpu ⟨(), 640, 480⟩ 2 5 true ⟨[]⟩).after (MMIOTransport.write 0 0x104 [1])

def secondSelected : Machine (VirtioGpu (FerrumSDLContext SdlCanvas.blank)) Ram :=
  eventCleared.after (MMIOTransport.write 0 0x030 [1, 0, 0, 0])

theorem reset_is_fresh_used :
    secondSelected.bus.transport.queueSel = 1 ∧ secondSelected.bus.transport.device.config.eventsClear = 1 ∧
    ∃ b fresh : Bus (VirtioGpu (FerrumSDLContext SdlCanvas.blank)) Ram,
      MMIOTransport.write 0 0x070 [0, 0, 0, 0] secondSelected.bus = .ok () b ∧
      fresh = (Machine.gpu secondSelected.bus.transport.device.window 2 5 true secondSelected.bus.mem).bus ∧
      b.transport = fresh.transport ∧ b.mem = fresh.mem ∧
      ∀ fuel accesses, Same (Bus.Alike b fresh) (answers fuel accesses b) (answers fuel accesses fresh) := by
  have hevent : (gpuMachineSystem (FerrumSDLContext SdlCanvas.blank) Ram 2 5 true).Reachable eventCleared :=
    System.Reachable.next (System.Reachable.init ⟨⟨(), 640, 480⟩, ⟨[]⟩, rfl⟩)
      (.write 0 (Machine.performs_after (by decide)))
  have hsecond : (gpuMachineSystem (FerrumSDLContext SdlCanvas.blank) Ram 2 5 true).Reachable secondSelected :=
    hevent.next (.write 0 (Machine.performs_after (by decide)))
  exact ⟨by decide, by decide, reset_is_fresh hsecond 0 (MMIOTransport.readU32FromData_toLe 0)⟩

end FerrumVM
