import FerrumVM.TransportSystem
import Mathlib.Logic.Relation

/-! What the operations of a transport are made of. Each is a sequence of a few kinds of moves: a
command to the interrupt line, a change of plain registers, a tick of the device on a queue. What every
move of the kinds that an operation uses preserves, the operation preserves. -/

namespace FerrumVM

open Base Program Relation

inductive MoveKind where
  /-- A command to the interrupt line. -/
  | irq
  /-- The status, the feature selectors, the features and the region selector. -/
  | regs
  /-- The pending interrupts. -/
  | pending
  /-- The device, by a call that is not a tick. -/
  | device
  | select
  /-- A register of the selected queue. -/
  | queue
  /-- The registers are cleared for a reset. -/
  | clear
  | tick
  | update
  deriving DecidableEq

section

variable {D M α β : Type} [VirtioDevice D M]

/-- Where a call of the device other than a tick can leave it. -/
inductive Called (M : Type) [VirtioDevice D M] (device : D) : D → Prop
  | negotiate (features : UInt64) : Called M device (VirtioDevice.negotiateFeatures M device features)
  | config {device' : D} (offset : Nat) (data : Bytes)
      (h : VirtioDevice.writeConfig M device offset data = .ok device') : Called M device device'
  | reset : Called M device (VirtioDevice.reset M device)

inductive Move : MoveKind → Bus D M → Bus D M → Prop
  | irq (b : Bus D M) (value : Bool) :
      Move .irq b { b with irqHandler := b.irqHandler.triggerIrq ⟨b.transport.irqSel, value⟩ }
  | regs (b : Bus D M) (status deviceFeaturesSel driverFeaturesSel : UInt32) (driverFeatures : UInt64)
      (shmSel : UInt32) :
      Move .regs b { b with transport := { b.transport with
        status, deviceFeaturesSel, driverFeaturesSel, driverFeatures, shmSel } }
  | pending (b : Bus D M) (interruptStatus : UInt32) :
      Move .pending b { b with transport := { b.transport with interruptStatus } }
  | device (b : Bus D M) {device : D} (h : Called M b.transport.device device) :
      Move .device b { b with transport := { b.transport with device } }
  | select (b : Bus D M) {sel : Nat} (h : sel < b.transport.queues.length) :
      Move .select b { b with transport := { b.transport with queueSel := sel } }
  | queue (b : Bus D M) {q q' : VirtioQueue} (hq : b.transport.queues[b.transport.queueSel]? = some q)
      (hused : q'.lastUsedIdx = q.lastUsedIdx)
      (havail : q'.lastAvailIdx = q.lastAvailIdx ∨ (q.ready = false ∧ q'.ready = true)) :
      Move .queue b { b with transport := { b.transport with
        queues := b.transport.queues.set b.transport.queueSel q' } }
  | clear (b : Bus D M) : Move .clear b { b with transport := b.transport.cleared }
  | tick (b : Bus D M) {fuel idx : Nat} {queue : VirtioQueue} {c : Ctx D M} {worked : Bool}
      (hqueue : b.transport.queues[idx]? = some queue)
      (h : VirtioDevice.tick fuel idx { dev := b.transport.device, queue, mem := b.mem, log := [] } =
        .ok worked c) :
      Move .tick b { b with
        transport := { b.transport with device := c.dev, queues := b.transport.queues.set idx c.queue }
        mem := c.mem
        log := b.log ++ c.log.map (Prod.mk idx) }
  | update (b : Bus D M) {worked : Bool} {device : D} {queues : List VirtioQueue} {mem : M}
      (h : VirtioDevice.update b.transport.device b.transport.queues b.mem = .ok (worked, device, queues, mem)) :
      Move .update b { b with transport := { b.transport with device, queues }, mem }

/-- The program returns after moves of the given kinds. -/
def Moves (kinds : List MoveKind) (x : Program (Bus D M) α) : Prop :=
  ∀ b a b', x b = .ok a b' → ReflTransGen (fun b b' => ∃ k ∈ kinds, Move k b b') b b'

namespace Moves

variable {kinds : List MoveKind} {x : Program (Bus D M) α}

theorem pure (a : α) : Moves kinds (pure a : Program (Bus D M) α) := by
  intro b a' b' h
  obtain ⟨_, rfl⟩ := pure_eq_ok.mp h
  exact .refl

theorem bind {f : α → Program (Bus D M) β} (hx : Moves kinds x)
    (hf : ∀ a, Moves kinds (f a)) : Moves kinds (x >>= f) := by
  intro b r b' h
  obtain ⟨a, t, hxs, hfs⟩ := bind_eq_ok.mp h
  exact (hx b a t hxs).trans (hf a t r b' hfs)

theorem lift (x : Exec α) : Moves kinds (lift x : Program (Bus D M) α) := by
  intro b a b' h
  obtain ⟨_, rfl⟩ := lift_eq_ok.mp h
  exact .refl

theorem get : Moves kinds (get : Program (Bus D M) (Bus D M)) := by
  intro b a b' h
  obtain ⟨_, rfl⟩ := get_eq_ok.mp h
  exact .refl

theorem ite {p : Prop} [Decidable p] {y : Program (Bus D M) α} (hx : Moves kinds x) (hy : Moves kinds y) :
    Moves kinds (if p then x else y) := by
  split_ifs
  · exact hx
  · exact hy

theorem setRegs {k : MoveKind} (hk : k ∈ kinds) {f : MMIOTransport D → MMIOTransport D}
    (hf : ∀ b : Bus D M, Move k b { b with transport := f b.transport }) :
    Moves kinds (MMIOTransport.setRegs f : Program (Bus D M) Unit) := by
  intro b u b' h
  obtain rfl := MMIOTransport.setRegs_eq_ok.mp h
  exact .single ⟨k, hk, hf b⟩

theorem setIrqLine (hk : .irq ∈ kinds) (value : Bool) :
    Moves kinds (MMIOTransport.setIrqLine value : Program (Bus D M) Unit) := by
  intro b u b' h
  obtain rfl := modify_eq_ok.mp h
  split_ifs
  · exact .single ⟨_, hk, .irq b value⟩
  · exact .refl

theorem preserves (h : Moves kinds x) {I : Bus D M → Prop}
    (hmove : ∀ k ∈ kinds, ∀ b b', Move k b b' → I b → I b') : Preserves I x := by
  intro b a b' hb hx
  have hmoves := h b a b' hx
  clear hx
  induction hmoves with
  | refl => exact hb
  | tail _ hstep ih =>
    obtain ⟨k, hk, hmove'⟩ := hstep
    exact hmove k hk _ _ hmove' ih

theorem keeps {τ : Type} {view : Bus D M → τ} (h : Moves kinds x)
    (hmove : ∀ k ∈ kinds, ∀ b b', Move k b b' → view b' = view b) : Keeps view x := by
  intro b a b' hx
  exact h.preserves (I := fun t => view t = view b) (fun k hk t t' hstep ht => (hmove k hk t t' hstep).trans ht)
    b a b' rfl hx

end Moves

/-! ### The operations -/

open MMIOTransport

variable {kinds : List MoveKind}

theorem moves_selected : Moves kinds (selected : Program (Bus D M) VirtioQueue) :=
  Moves.get.bind fun _ => .lift _

theorem moves_writeReg (hk : .regs ∈ kinds) {data : Bytes} {f : MMIOTransport D → UInt32 → MMIOTransport D}
    (hf : ∀ (b : Bus D M) val, Move .regs b { b with transport := f b.transport val }) :
    Moves kinds (writeReg data f : Program (Bus D M) Unit) :=
  (Moves.lift _).bind fun val => .setRegs hk fun b => hf b val

theorem moves_tickDevice (hk : .tick ∈ kinds) (fuel idx : Nat) :
    Moves kinds (tickDevice fuel idx : Program (Bus D M) Bool) := by
  intro b worked b' h
  obtain ⟨queue, c, hqueue, htick, rfl⟩ := tickDevice_eq_ok h
  exact .single ⟨_, hk, .tick b hqueue htick⟩

theorem moves_updateDevice (hk : .update ∈ kinds) : Moves kinds (updateDevice : Program (Bus D M) Bool) := by
  intro b worked b' h
  obtain ⟨⟨worked', device, queues, mem⟩, hdev, heq⟩ := Exec.bind_eq_ok.mp (act_eq_ok.mp h)
  cases heq
  exact .single ⟨_, hk, .update b hdev⟩

theorem moves_pending (hk : .pending ∈ kinds) (f : UInt32 → UInt32) :
    Moves kinds (setRegs fun t => { t with interruptStatus := f t.interruptStatus } : Program (Bus D M) Unit) :=
  .setRegs hk fun b => .pending b (f b.transport.interruptStatus)

theorem moves_read (addr : UInt64) (length : Nat) :
    Moves [.irq, .pending] (MMIOTransport.read addr length : Program (Bus D M) Bytes) := by
  have hregister (reg : Register) : Moves [.irq, .pending] (readRegister reg : Program (Bus D M) UInt32) := by
    cases reg with
    | deviceId | deviceFeatures | status => exact Moves.get.bind fun _ => .pure _
    | queueNum | queueReady => exact moves_selected.bind fun _ => .pure _
    | interruptStatus =>
      refine Moves.get.bind fun b => .ite ?_ (.pure _)
      refine (moves_pending (by decide) fun _ => 0).bind fun _ => ?_
      exact (Moves.setIrqLine (by decide) false).bind fun _ => .pure _
    | _ => exact .pure _
  unfold MMIOTransport.read
  split
  · refine Moves.get.bind fun b => (Moves.lift _).bind fun stop => ?_
    exact (Moves.lift _).bind fun _ => .lift _
  · exact (hregister _).bind fun _ => .lift _

theorem moves_notifyQueue (fuel idx : Nat) :
    Moves [.tick, .pending, .irq] (notifyQueue fuel idx : Program (Bus D M) Unit) := by
  refine Moves.get.bind fun b => ?_
  split
  · exact .pure _
  · refine .ite ((moves_tickDevice (by decide) fuel idx).bind fun worked => .ite ?_ (.pure _)) (.pure _)
    exact (moves_pending (by decide) fun status => status ||| 1).bind fun _ => .setIrqLine (by decide) true

theorem moves_ackInterrupt (ack : UInt32) : Moves [.pending, .irq] (ackInterrupt ack : Program (Bus D M) Unit) := by
  refine (moves_pending (by decide) fun status => status &&& ~~~ack).bind fun _ => Moves.get.bind fun b => ?_
  exact .ite (.setIrqLine (by decide) false) (.pure _)

theorem moves_setStatus (hk : .regs ∈ kinds) (val : UInt32) :
    Moves kinds (setRegs fun t => { t with status := val } : Program (Bus D M) Unit) :=
  .setRegs hk fun b => .regs b val _ _ _ _

theorem moves_resetDevice (hk : .device ∈ kinds) :
    Moves kinds (setRegs fun t => { t with device := VirtioDevice.reset M t.device } : Program (Bus D M) Unit) :=
  .setRegs hk fun b => .device b .reset

theorem moves_writeStatus (val : UInt32) :
    Moves [.clear, .irq, .device, .regs] (writeStatus M val : Program (Bus D M) Unit) := by
  refine .ite ?_ (moves_setStatus (by decide) val)
  refine Moves.bind (.setRegs (k := .clear) (by decide) fun b => .clear b) fun _ => ?_
  refine (Moves.setIrqLine (by decide) false).bind fun _ => ?_
  exact (moves_resetDevice (by decide)).bind fun _ => moves_setStatus (by decide) val

theorem moves_tick (fuel : Nat) :
    Moves [.tick, .update, .pending, .irq] (MMIOTransport.tick fuel : Program (Bus D M) Unit) := by
  have hnote : Moves [.tick, .update, .pending, .irq]
      (setRegs fun t => { t with interruptStatus := t.interruptStatus ||| 1 } : Program (Bus D M) Unit) :=
    moves_pending (by decide) fun status => status ||| 1
  have hqueues (remaining idx : Nat) :
      Moves [.tick, .update, .pending, .irq] (tickQueues fuel remaining idx : Program (Bus D M) Unit) := by
    induction remaining generalizing idx with
    | zero => exact .pure _
    | succ remaining ih =>
      refine Moves.get.bind fun b => (Moves.lift _).bind fun queue => .ite ?_ (ih _)
      exact (moves_tickDevice (by decide) fuel idx).bind fun worked => .ite (hnote.bind fun _ => ih _) (ih _)
  refine Moves.get.bind fun b => .ite (.pure _) ?_
  refine (hqueues _ _).bind fun _ => (moves_updateDevice (by decide)).bind fun worked => ?_
  have hraise : Moves [.tick, .update, .pending, .irq] (do
      let nowPending := (← get).transport.interruptStatus != 0
      if nowPending && !(b.transport.interruptStatus != 0) then setIrqLine true : Program (Bus D M) Unit) :=
    Moves.get.bind fun _ => .ite (.setIrqLine (by decide) true) (.pure _)
  exact .ite (hnote.bind fun _ => hraise) hraise

def Register.moveKinds : Register → List MoveKind
  | .deviceFeaturesSel | .driverFeaturesSel | .shmSel => [.regs]
  | .driverFeatures => [.regs, .device]
  | .queueSel => [.select]
  | .queueNum | .queueReady | .queueDescLow | .queueDescHigh | .queueAvailLow | .queueAvailHigh
  | .queueUsedLow | .queueUsedHigh => [.queue]
  | .queueNotify => [.tick, .pending, .irq]
  | .interruptStatus | .interruptAck => [.pending, .irq]
  | .status => [.clear, .irq, .device, .regs]
  | .config _ => [.device]
  | _ => []

theorem moves_setSelected {f : VirtioQueue → VirtioQueue} (hused : ∀ q, (f q).lastUsedIdx = q.lastUsedIdx)
    (havail : ∀ q, (f q).lastAvailIdx = q.lastAvailIdx ∨ (q.ready = false ∧ (f q).ready = true)) :
    Moves [.queue] (do setSelected (f (← selected)) : Program (Bus D M) Unit) := by
  intro b u b' h
  obtain ⟨q, t, hsel, hset⟩ := bind_eq_ok.mp h
  obtain ⟨rfl, hq⟩ := selected_eq_ok hsel
  obtain rfl := setRegs_eq_ok.mp hset
  exact .single ⟨.queue, by decide, .queue t hq (hused q) (havail q)⟩

theorem enable_cases (q : VirtioQueue) (ready : Bool) : (enable q ready).lastUsedIdx = q.lastUsedIdx ∧
      ((enable q ready).lastAvailIdx = q.lastAvailIdx ∨ (q.ready = false ∧ (enable q ready).ready = true)) := by
  unfold enable
  cases hq : q.ready <;> cases ready <;> simp

theorem moves_writeRegister (fuel : Nat) (data : Bytes) (reg : Register) :
    Moves reg.moveKinds (writeRegister fuel data reg : Program (Bus D M) Unit) := by
  have haddr {f : VirtioQueue → UInt32 → VirtioQueue}
      (hf : ∀ q val, (f q val).lastUsedIdx = q.lastUsedIdx ∧ (f q val).lastAvailIdx = q.lastAvailIdx) :
      Moves [.queue] (writeQueueAddr data f : Program (Bus D M) Unit) :=
    (Moves.lift _).bind fun val => moves_setSelected (fun q => (hf q val).1) fun q => Or.inl (hf q val).2
  cases reg with
  | deviceFeaturesSel => exact moves_writeReg (by decide) fun b val => .regs b _ val _ _ _
  | driverFeaturesSel => exact moves_writeReg (by decide) fun b val => .regs b _ _ val _ _
  | shmSel => exact moves_writeReg (by decide) fun b val => .regs b _ _ _ _ val
  | driverFeatures =>
    refine (Moves.lift _).bind fun val b u b' h => ?_
    obtain rfl := setRegs_eq_ok.mp h
    -- The features are kept and then handed to the device.
    have hregs := Move.regs b b.transport.status b.transport.deviceFeaturesSel b.transport.driverFeaturesSel
      (withDriverFeatures M b.transport val).driverFeatures b.transport.shmSel
    exact .head ⟨.regs, by decide, hregs⟩ (.single ⟨.device, by decide, .device _ (.negotiate _)⟩)
  | queueSel =>
    refine (Moves.lift _).bind fun val b u b' h => ?_
    obtain rfl := setRegs_eq_ok.mp h
    by_cases hlt : val.toNat < b.transport.queues.length
    · simp only [if_pos hlt]
      exact .single ⟨.select, by decide, .select b hlt⟩
    · simp only [if_neg hlt]
      exact .refl
  | queueNum =>
    refine (Moves.lift _).bind fun lo => (Moves.lift _).bind fun hi => ?_
    exact moves_setSelected (fun _ => rfl) fun _ => Or.inl rfl
  | queueReady =>
    intro b u b' h
    obtain ⟨q, t, hsel, hrest⟩ := bind_eq_ok.mp h
    obtain ⟨rfl, hq⟩ := selected_eq_ok hsel
    obtain ⟨byte, t', hbyte, hset⟩ := bind_eq_ok.mp hrest
    obtain ⟨_, rfl⟩ := lift_eq_ok.mp hbyte
    obtain rfl := setRegs_eq_ok.mp hset
    obtain ⟨hused, havail⟩ := enable_cases q (byte != 0)
    exact .single ⟨.queue, by decide, .queue _ hq hused havail⟩
  | queueNotify => exact (Moves.lift _).bind fun _ => moves_notifyQueue fuel _
  | interruptStatus | interruptAck => exact (Moves.lift _).bind fun _ => moves_ackInterrupt _
  | status => exact (Moves.lift _).bind fun _ => moves_writeStatus _
  | queueDescLow | queueDescHigh | queueAvailLow | queueAvailHigh | queueUsedLow | queueUsedHigh =>
    exact haddr fun _ _ => ⟨rfl, rfl⟩
  | config offset =>
    intro b u b' h
    obtain ⟨b0, t, hget, hrest⟩ := bind_eq_ok.mp h
    obtain ⟨rfl, rfl⟩ := get_eq_ok.mp hget
    obtain ⟨device, t', hlift, hset⟩ := bind_eq_ok.mp hrest
    obtain ⟨hdevice, rfl⟩ := lift_eq_ok.mp hlift
    obtain rfl := setRegs_eq_ok.mp hset
    exact .single ⟨.device, List.mem_singleton_self _, .device _ (.config offset data hdevice)⟩
  | _ => exact .pure _

/-- What every move keeps, and what the rest of the machine keeps, a step keeps. -/
theorem Machine.Step.preserves {I : Bus D M → Prop} (hmove : ∀ k b b', Move k b b' → I b → I b')
    (hattach : ∀ b, I b → I (MMIOTransport.passGuestMemory b)) (hmem : ∀ b mem, I b → I { b with mem })
    (hirq : ∀ b irqHandler, I b → I { b with irqHandler }) {m m' : Machine D M} {e : MachineEvent M}
    (h : Machine.Step m e m') (hm : I m.bus) : I m'.bus := by
  cases h with
  | read h =>
    obtain ⟨a, hread, _⟩ := h
    exact (moves_read _ _).preserves (fun k _ => hmove k) _ _ _ hm hread
  | write fuel h =>
    obtain ⟨a, hwrite, _⟩ := h
    exact (moves_writeRegister _ _ _).preserves (fun k _ => hmove k) _ _ _ hm hwrite
  | tick fuel h =>
    obtain ⟨a, htick, _⟩ := h
    exact (moves_tick _).preserves (fun k _ => hmove k) _ _ _ hm htick
  | passGuestMemory => exact hattach _ hm
  | memory mem => exact hmem _ mem hm
  | otherIrq irq _ => exact hirq _ _ hm
  | handleIrqs => exact hirq _ _ hm

end

end FerrumVM
