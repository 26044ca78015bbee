import FerrumVM.PanicFreedom
import FerrumVM.TransportMoves

/-! Which accesses of the register window return. The selected queue always exists, so a read of a register
returns; a read of the configuration space returns what the device has there, which for two devices is
nothing. A write returns when its data has the bytes that the register takes, and a notification when the
tick that it starts does. -/

namespace FerrumVM

open Base Program MMIOTransport VirtioDevice

variable {H : HostOs} {S : SdlCanvas} {device : Device H (FerrumSDLContext S)}

/-! ### What holds on every run -/

/-- What is known of a device: the tables of a display device are in order. -/
def Device.Sound : Device H (FerrumSDLContext S) → Prop
  | .gpu dev => dev.Invariant
  | _ => True

/-- The selected queue exists, and the device is sound. -/
structure WindowReady (b : Bus (Device H (FerrumSDLContext S)) Ram) : Prop where
  selected : b.transport.queueSel < b.transport.queues.length
  sound : b.transport.device.Sound

theorem Device.sound_tick {fuel queueSel : Nat} {c c' : Ctx (Device H (FerrumSDLContext S)) Ram} {worked : Bool}
    (h : tick fuel queueSel c = .ok worked c') (hc : c.dev.Sound) : c'.dev.Sound := by
  obtain ⟨dev, queue, mem, log⟩ := c
  cases dev with
  | gpu dev =>
    obtain ⟨t, htick, rfl⟩ := Serve.within_eq_ok.mp h
    exact VirtioGpu.dev_of_tick VirtioGpu.keeps_command htick hc
  | blk dev | net dev | fs dev | rng dev | cnt dev =>
    obtain ⟨t, _, rfl⟩ := Serve.within_eq_ok.mp h
    trivial
  | console dev =>
    rw [Device.tick_console fuel queueSel rfl] at h
    obtain ⟨t, _, rfl⟩ := Serve.within_eq_ok.mp h
    trivial

theorem Device.sound_called {device' : Device H (FerrumSDLContext S)} (h : Called Ram device device')
    (hsound : device.Sound) : device'.Sound := by
  cases h with
  | negotiate features =>
    cases device with
    | gpu dev => exact hsound
    | _ => trivial
  | config offset data hwrite =>
    cases device with
    | gpu dev =>
      obtain ⟨dev', hdev, heq⟩ := Exec.bind_eq_ok.mp hwrite
      obtain ⟨config, _, heq'⟩ := Exec.bind_eq_ok.mp hdev
      cases heq'
      cases heq
      exact VirtioGpu.Invariant.setConfig hsound config
    | _ =>
      cases hwrite
      trivial
  | reset =>
    cases device with
    | gpu dev => exact VirtioGpu.invariant_reset dev
    | _ => trivial

theorem Device.sound_update {device' : Device H (FerrumSDLContext S)} {queues queues' : List VirtioQueue}
    {mem mem' : Ram} {worked : Bool} (h : update device queues mem = .ok (worked, device', queues', mem'))
    (hsound : device.Sound) : device'.Sound := by
  cases device with
  | gpu dev =>
    cases h
    exact hsound
  | _ =>
    cases h
    trivial

theorem windowReady_move {k : MoveKind} {b b' : Bus (Device H (FerrumSDLContext S)) Ram} (h : Move k b b')
    (hb : WindowReady b) : WindowReady b' := by
  cases h with
  | irq => exact ⟨hb.selected, hb.sound⟩
  | regs => exact ⟨hb.selected, hb.sound⟩
  | pending => exact ⟨hb.selected, hb.sound⟩
  | device _ hcall => exact ⟨hb.selected, Device.sound_called hcall hb.sound⟩
  | select _ hlt => exact ⟨hlt, hb.sound⟩
  | queue => exact ⟨by simpa using hb.selected, hb.sound⟩
  | clear =>
    refine ⟨?_, hb.sound⟩
    have hpos := Nat.zero_lt_of_lt hb.selected
    simpa [cleared] using hpos
  | tick _ hqueue htick =>
    refine ⟨?_, Device.sound_tick htick hb.sound⟩
    simpa using hb.selected
  | update _ hupdate =>
    have hqueues := congrArg (fun r => r.1.length) (updateKeepsQueues_device _ _ _ _ hupdate)
    exact ⟨hb.selected.trans_eq hqueues.symm, Device.sound_update hupdate hb.sound⟩

/-- A device as the machine is built with it: a display device is new. -/
def Device.Built (device : Device H (FerrumSDLContext S)) : Prop := ∀ dev, device = .gpu dev → ∃ window, dev = .new window

/-- The runs of a transport with at least one queue around a shipped device. -/
def windowSystem (H : HostOs) (S : SdlCanvas) :
    System (Machine (Device H (FerrumSDLContext S)) Ram) (MachineEvent Ram) where
  init m := ∃ device queueNum irqSel hasIrqHandler mem, device.Built ∧ 0 < queueNum ∧
    m = Machine.new device queueNum irqSel hasIrqHandler mem
  step := Machine.Step

theorem windowReady_of_reachable {m : Machine (Device H (FerrumSDLContext S)) Ram}
    (h : (windowSystem H S).Reachable m) : WindowReady m.bus := by
  refine h.invariant (I := fun m => WindowReady m.bus) ?_ fun m e m' hm hstep => ?_
  · rintro m ⟨device, queueNum, irqSel, hasIrqHandler, mem, hbuilt, hpos, rfl⟩
    refine ⟨by simpa [Machine.new, MMIOTransport.new] using hpos, ?_⟩
    cases device with
    | gpu dev =>
      obtain ⟨window, rfl⟩ := hbuilt dev rfl
      exact VirtioGpu.invariant_new window
    | _ => trivial
  · refine Machine.Step.preserves (fun k b b' => windowReady_move) (fun b hb => ?_)
      (fun b mem hb => ⟨hb.selected, hb.sound⟩) (fun b irqHandler hb => ⟨hb.selected, hb.sound⟩) hstep hm
    refine ⟨hb.selected, ?_⟩
    have hsound := hb.sound
    show Device.Sound (passGuestMemory Ram b.transport.device)
    cases hdevice : b.transport.device with
    | gpu dev =>
      rw [hdevice] at hsound
      exact VirtioGpu.Invariant.attach hsound true
    | _ => trivial

/-! ### Reads -/

def Device.HasConfig : Device H (FerrumSDLContext S) → Prop
  | .rng _ | .cnt _ => False
  | _ => True

section Accesses

variable {b : Bus (Device H (FerrumSDLContext S)) Ram} {addr : UInt64} {width : Nat} {data : Bytes}

theorem selected_returns (hb : WindowReady b) : ∃ q, selected b = .ok q b := by
  obtain ⟨q, hq⟩ : ∃ q, b.transport.queues[b.transport.queueSel]? = some q := ⟨_, List.getElem?_eq_getElem hb.selected⟩
  refine ⟨q, ?_⟩
  rw [selected, get_bind]
  exact lift_eq_ok.mpr ⟨index_eq_ok.mpr hq, rfl⟩

theorem returns_readRegister (hb : WindowReady b) (reg : Register) : Returns (readRegister reg) b := by
  obtain ⟨q, hselected⟩ := selected_returns hb
  cases reg with
  | queueNum | queueReady => exact (returns_bind_of_ok hselected).mpr (returns_pure _ _)
  | interruptStatus =>
    rw [readRegister, returns_get_bind]
    dsimp only
    split_ifs
    · exact .of_ok rfl
    · exact returns_pure _ _
  | deviceId | deviceFeatures | status => exact .of_ok rfl
  | _ => exact returns_pure _ _

theorem readConfig_eq_ok_iff {stop : Nat} (hstop : stop ≤ isizeMax) (hpos : 0 < stop) :
    (∃ bytes, readConfig Ram device stop = .ok bytes ∧ stop ≤ bytes.length) ↔ device.HasConfig := by
  have hresize (xs : List UInt8) : ∃ bytes, resize xs stop = .ok bytes ∧ stop ≤ bytes.length := by
    refine ⟨_, if_pos hstop, ?_⟩
    simp
    omega
  cases device with
  | rng dev | cnt dev =>
    refine iff_of_false ?_ id
    rintro ⟨bytes, hread, hlen⟩
    cases hread
    exact absurd hlen (Nat.not_le.mpr hpos)
  | console dev => exact iff_of_true ⟨_, if_pos hstop, by simp⟩ trivial
  | _ => exact iff_of_true (hresize _) trivial

theorem ofAddr_of_lt (h : ¬0x100 ≤ addr) (offset : Nat) : Register.ofAddr addr ≠ .config offset := by
  unfold Register.ofAddr
  rw [if_neg h]
  split <;> nofun

theorem read_of_lt (h : ¬0x100 ≤ addr) :
    (MMIOTransport.read addr width : Program (Bus (Device H (FerrumSDLContext S)) Ram) Bytes) =
      readRegister (Register.ofAddr addr) >>= fun value => lift (slice (u64ToLe value.toUInt64) 0 width) := by
  unfold MMIOTransport.read
  split
  · next offset hreg => exact absurd hreg (ofAddr_of_lt h offset)
  · rfl

theorem readConfig_returns_iff {offset : Nat} {b' : Bus (Device H (FerrumSDLContext S)) Ram}
    (hstop : offset + width < 2 ^ 64) : readConfig offset width b = .ok data b' ↔ b' = b ∧
      ∃ bytes, readConfig Ram b.transport.device (offset + width) = .ok bytes ∧
        offset + width ≤ bytes.length ∧ data = (bytes.drop offset).take width := by
  have husize : usize (offset + width) = .ok (offset + width) := if_pos hstop
  unfold MMIOTransport.readConfig
  rw [get_bind, bind_of_ok (lift_eq_ok.mpr ⟨husize, rfl⟩)]
  constructor
  · intro h
    obtain ⟨bytes, t, hbytes, hrest⟩ := bind_eq_ok.mp h
    obtain ⟨hconfig, rfl⟩ := lift_eq_ok.mp hbytes
    obtain ⟨hslice, rfl⟩ := lift_eq_ok.mp hrest
    obtain ⟨_, hlen, rfl⟩ := slice_eq_ok.mp hslice
    exact ⟨rfl, bytes, hconfig, hlen, by rw [Nat.add_sub_cancel_left]⟩
  · rintro ⟨rfl, bytes, hconfig, hlen, rfl⟩
    rw [bind_of_ok (lift_eq_ok.mpr ⟨hconfig, rfl⟩)]
    refine lift_eq_ok.mpr ⟨slice_eq_ok.mpr ⟨by omega, hlen, ?_⟩, rfl⟩
    rw [Nat.add_sub_cancel_left]

theorem read_returns_iff (hb : WindowReady b) (haddr : addr.toNat ≤ 0xFFF) (hpos : 1 ≤ width) (hwidth : width ≤ 8) :
    (∃ data b', MMIOTransport.read addr width b = .ok data b' ∧ data.length = width) ↔
      (0x100 ≤ addr → b.transport.device.HasConfig) := by
  by_cases hconfig : 0x100 ≤ addr
  · have hstop : addr.toNat - 0x100 + width < 2 ^ 64 := by omega
    have hsize : addr.toNat - 0x100 + width ≤ isizeMax := by
      have hmax : 4096 ≤ isizeMax := by decide
      omega
    have hread : (MMIOTransport.read addr width : Program (Bus (Device H (FerrumSDLContext S)) Ram) Bytes) =
        readConfig (addr.toNat - 0x100) width := by
      rw [MMIOTransport.read, show Register.ofAddr addr = .config (addr.toNat - 0x100) from if_pos hconfig]
    rw [forall_prop_of_true hconfig, ← readConfig_eq_ok_iff hsize (by omega), hread]
    simp only [readConfig_returns_iff hstop]
    constructor
    · rintro ⟨data, b', ⟨_, bytes, hbytes, hlen, _⟩, _⟩
      exact ⟨bytes, hbytes, hlen⟩
    · rintro ⟨bytes, hbytes, hlen⟩
      refine ⟨_, b, ⟨rfl, bytes, hbytes, hlen, rfl⟩, ?_⟩
      rw [List.length_take, List.length_drop]
      omega
  · refine iff_of_true ?_ fun h => absurd h hconfig
    obtain ⟨value, t, hvalue⟩ := returns_readRegister hb (Register.ofAddr addr)
    refine ⟨(u64ToLe value.toUInt64).take width, t, ?_, by simp [hwidth]⟩
    rw [read_of_lt hconfig, bind_of_ok hvalue]
    exact lift_eq_ok.mpr ⟨slice_eq_ok.mpr ⟨Nat.zero_le _, by simpa using hwidth, by simp⟩, rfl⟩

/-! ### Writes -/

/-- The tick that a notification starts comes to its end. -/
def NotifySafe (data : Bytes) (b : Bus (Device H (FerrumSDLContext S)) Ram) : Prop :=
  ∀ val queue, readU32FromData data = .ok val → b.transport.queues[val.toNat]? = some queue → queue.ready = true →
    Device.TickSafe val.toNat ⟨b.transport.device, queue, b.mem, []⟩

/-- The data has the bytes that the register takes. -/
def Register.WriteSafe (data : Bytes) (b : Bus (Device H (FerrumSDLContext S)) Ram) : Register → Prop
  | .queueNum => 2 ≤ data.length
  | .queueReady => 1 ≤ data.length
  | .queueNotify => data.length ≤ 4 ∧ NotifySafe data b
  | .deviceFeaturesSel | .driverFeatures | .driverFeaturesSel | .shmSel | .queueSel
  | .interruptStatus | .interruptAck | .status
  | .queueDescLow | .queueDescHigh | .queueAvailLow | .queueAvailHigh | .queueUsedLow | .queueUsedHigh =>
    data.length ≤ 4
  | _ => True

theorem readU32FromData_returns : (∃ val, readU32FromData data = .ok val) ↔ data.length ≤ 4 := by
  unfold readU32FromData copySlice
  by_cases h : data.length ≤ 4
  · exact iff_of_true ⟨_, by rw [if_pos (by simpa using h)]; rfl⟩ h
  · refine iff_of_false ?_ h
    rintro ⟨val, hval⟩
    rw [if_neg (by simp; omega)] at hval
    cases hval

theorem returns_u32_bind {α σ : Type} {f : UInt32 → Program σ α} {s : σ} :
    Returns (lift (readU32FromData data) >>= f) s ↔
      data.length ≤ 4 ∧ ∀ val, readU32FromData data = .ok val → Returns (f val) s := by
  rw [returns_lift_bind, ← readU32FromData_returns]
  constructor
  · rintro ⟨val, hval, hf⟩
    refine ⟨⟨val, hval⟩, fun val' hval' => ?_⟩
    rw [hval] at hval'
    cases hval'
    exact hf
  · rintro ⟨⟨val, hval⟩, hf⟩
    exact ⟨val, hval, hf val hval⟩

theorem returns_setRegs {D M : Type} (f : MMIOTransport D → MMIOTransport D) (b : Bus D M) : Returns (setRegs f) b :=
  .of_ok rfl

theorem returns_setIrqLine {D M : Type} (value : Bool) (b : Bus D M) : Returns (setIrqLine value) b := .of_ok rfl

theorem returns_writeReg {D M : Type} {f : MMIOTransport D → UInt32 → MMIOTransport D} {b : Bus D M} :
    Returns (writeReg data f) b ↔ data.length ≤ 4 := by
  unfold writeReg
  rw [returns_u32_bind]
  exact and_iff_left fun val _ => returns_setRegs _ b

theorem returns_writeQueueAddr (hb : WindowReady b) {f : VirtioQueue → UInt32 → VirtioQueue} :
    Returns (writeQueueAddr data f) b ↔ data.length ≤ 4 := by
  obtain ⟨q, hselected⟩ := selected_returns hb
  unfold writeQueueAddr
  rw [returns_u32_bind]
  exact and_iff_left fun val _ => (returns_bind_of_ok hselected).mpr (returns_setRegs _ b)

theorem returns_ackInterrupt {D M : Type} (ack : UInt32) (b : Bus D M) : Returns (ackInterrupt ack) b := by
  unfold ackInterrupt
  rw [returns_bind_of_ok (a := ()) (setRegs_eq_ok.mpr rfl), returns_get_bind]
  dsimp only
  split_ifs
  · exact returns_setIrqLine false _
  · exact returns_pure _ _

theorem returns_writeStatus (val : UInt32) (b : Bus (Device H (FerrumSDLContext S)) Ram) :
    Returns (writeStatus Ram val) b := by
  unfold writeStatus
  split_ifs
  · exact .of_ok rfl
  · exact .of_ok rfl

theorem returns_writeQueueNum (hb : WindowReady b) {fuel : Nat} :
    Returns (writeRegister fuel data .queueNum) b ↔ 2 ≤ data.length := by
  obtain ⟨q, hselected⟩ := selected_returns hb
  show Returns (lift (index data 0) >>= fun lo => lift (index data 1) >>= fun hi => selected >>= fun q => _) b ↔ _
  simp only [returns_lift_bind, index_eq_ok, returns_bind_of_ok hselected]
  constructor
  · rintro ⟨lo, _, hi, hhi, _⟩
    exact (List.getElem?_eq_some_iff.mp hhi).1
  · intro hlen
    exact ⟨_, List.getElem?_eq_getElem (by omega), _, List.getElem?_eq_getElem (by omega), returns_setRegs _ b⟩

theorem returns_writeQueueReady (hb : WindowReady b) {fuel : Nat} :
    Returns (writeRegister fuel data .queueReady) b ↔ 1 ≤ data.length := by
  obtain ⟨q, hselected⟩ := selected_returns hb
  show Returns (selected >>= fun q => lift (index data 0) >>= fun byte => _) b ↔ _
  simp only [returns_bind_of_ok hselected, returns_lift_bind, index_eq_ok]
  constructor
  · rintro ⟨byte, hbyte, _⟩
    exact (List.getElem?_eq_some_iff.mp hbyte).1
  · intro hlen
    exact ⟨_, List.getElem?_eq_getElem (by omega), returns_setRegs _ b⟩

theorem returns_tickDevice {D M : Type} [VirtioDevice D M] {fuel idx : Nat} {b : Bus D M} {queue : VirtioQueue}
    (hqueue : b.transport.queues[idx]? = some queue) :
    Returns (tickDevice fuel idx) b ↔ Returns (tick fuel idx) ⟨b.transport.device, queue, b.mem, []⟩ := by
  unfold Returns tickDevice
  rw [hqueue]
  dsimp only
  cases tick fuel idx ⟨b.transport.device, queue, b.mem, []⟩ with
  | ok worked c => exact iff_of_true ⟨_, _, rfl⟩ ⟨_, _, rfl⟩
  | error e c => exact iff_of_false (by rintro ⟨_, _, h⟩; cases h) (by rintro ⟨_, _, h⟩; cases h)

theorem returns_notifyQueue {D M : Type} [VirtioDevice D M] {fuel idx : Nat} {b : Bus D M} :
    Returns (notifyQueue fuel idx) b ↔ ∀ queue, b.transport.queues[idx]? = some queue → queue.ready = true →
      Returns (tick fuel idx) ⟨b.transport.device, queue, b.mem, []⟩ := by
  unfold notifyQueue
  rw [returns_get_bind]
  cases hqueue : b.transport.queues[idx]? with
  | none => exact iff_of_true (returns_pure _ _) nofun
  | some queue =>
    dsimp only
    simp only [Option.some.injEq, forall_eq']
    rw [returns_ite, and_iff_left (fun _ => returns_pure _ _)]
    refine imp_congr_right fun _ => ?_
    rw [← returns_tickDevice hqueue, returns_bind]
    constructor
    · rintro ⟨worked, t, htick, _⟩
      exact .of_ok htick
    · rintro ⟨worked, t, htick⟩
      refine ⟨worked, t, htick, ?_⟩
      split_ifs
      · exact .of_ok rfl
      · exact returns_pure _ _

theorem returns_writeConfig {offset : Nat} (fuel : Nat) : Returns (writeRegister fuel data (.config offset)) b := by
  have hwrite : ∃ device, writeConfig Ram b.transport.device offset data = .ok device := by
    cases b.transport.device with
    | gpu dev =>
      have hconfig := dev.config.writeField_eq offset data
      exact ⟨_, Exec.bind_eq_ok.mpr ⟨_, Exec.bind_eq_ok.mpr ⟨_, hconfig, rfl⟩, rfl⟩⟩
    | _ => exact ⟨_, rfl⟩
  obtain ⟨device, hdevice⟩ := hwrite
  show Returns (get >>= fun b => lift (writeConfig Ram b.transport.device offset data) >>= fun device => _) b
  rw [returns_get_bind, returns_bind_of_ok (lift_eq_ok.mpr ⟨hdevice, rfl⟩)]
  exact returns_setRegs _ b

theorem returns_writeQueueNotify (hb : WindowReady b) :
    (∃ fuel, Returns (writeRegister fuel data .queueNotify) b) ↔ data.length ≤ 4 ∧ NotifySafe data b := by
  have hrun (fuel : Nat) : Returns (writeRegister fuel data .queueNotify) b ↔
      data.length ≤ 4 ∧ ∀ val, readU32FromData data = .ok val → Returns (notifyQueue fuel val.toNat) b :=
    returns_u32_bind
  have htick (val : UInt32) (queue : VirtioQueue) :
      (∃ fuel, Returns (tick fuel val.toNat) ⟨b.transport.device, queue, b.mem, []⟩) ↔
        Device.TickSafe val.toNat ⟨b.transport.device, queue, b.mem, []⟩ := by
    refine Device.returns_tick fun dev hdev => ?_
    have hsound := hb.sound
    rw [show b.transport.device = .gpu dev from hdev] at hsound
    exact hsound
  simp only [hrun, returns_notifyQueue]
  constructor
  · rintro ⟨fuel, hlen, hreturns⟩
    exact ⟨hlen, fun val queue hval hqueue hready => (htick val queue).mp ⟨fuel, hreturns val hval queue hqueue hready⟩⟩
  · rintro ⟨hlen, hsafe⟩
    obtain ⟨val, hval⟩ := readU32FromData_returns.mpr hlen
    -- At most one queue is ticked, and its tick says how much fuel is enough.
    by_cases hticks : ∃ queue, b.transport.queues[val.toNat]? = some queue ∧ queue.ready = true
    · obtain ⟨queue, hqueue, hready⟩ := hticks
      obtain ⟨fuel, hfuel⟩ := (htick val queue).mpr (hsafe val queue hval hqueue hready)
      refine ⟨fuel, hlen, fun val' hval' queue' hqueue' _ => ?_⟩
      obtain rfl : val = val' := Except.ok.inj (hval.symm.trans hval')
      obtain rfl : queue = queue' := Option.some.inj (hqueue.symm.trans hqueue')
      exact hfuel
    · refine ⟨0, hlen, fun val' hval' queue' hqueue' hready => ?_⟩
      obtain rfl : val = val' := Except.ok.inj (hval.symm.trans hval')
      exact absurd ⟨queue', hqueue', hready⟩ hticks

theorem writeRegister_returns_iff (hb : WindowReady b) (reg : Register) :
    (∃ fuel, Returns (writeRegister fuel data reg) b) ↔ reg.WriteSafe data b := by
  cases reg with
  | queueNum => exact (exists_congr fun _ => returns_writeQueueNum hb).trans (exists_const Nat)
  | queueReady => exact (exists_congr fun _ => returns_writeQueueReady hb).trans (exists_const Nat)
  | queueNotify => exact returns_writeQueueNotify hb
  | deviceFeaturesSel | driverFeatures | driverFeaturesSel | shmSel | queueSel =>
    exact (exists_congr fun _ => returns_writeReg).trans (exists_const Nat)
  | queueDescLow | queueDescHigh | queueAvailLow | queueAvailHigh | queueUsedLow | queueUsedHigh =>
    exact (exists_congr fun _ => returns_writeQueueAddr hb).trans (exists_const Nat)
  | interruptStatus | interruptAck =>
    refine (exists_const Nat).trans (returns_u32_bind.trans ?_)
    exact and_iff_left fun val _ => returns_ackInterrupt val b
  | status =>
    refine (exists_const Nat).trans (returns_u32_bind.trans ?_)
    exact and_iff_left fun val _ => returns_writeStatus val b
  | config offset => exact iff_of_true ⟨0, returns_writeConfig 0⟩ trivial
  | _ => exact iff_of_true ⟨0, returns_pure _ _⟩ trivial

end Accesses

def freshRng : Machine BareDevice Ram := Machine.new bareRng 1 5 true oneChain

theorem freshRng_reachable : (windowSystem HostOs.bare SdlCanvas.blank).Reachable freshRng :=
  .init ⟨bareRng, 1, 5, true, oneChain, nofun, by decide, rfl⟩

end FerrumVM
