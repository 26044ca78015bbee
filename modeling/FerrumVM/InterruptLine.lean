import FerrumVM.Shipped
import FerrumVM.TransportMoves

/-! The interrupt line of a transport. The line is commanded in five places, in some of them only on a
change; after every operation the level last commanded is high exactly while an interrupt is pending. -/

namespace FerrumVM

open Base Program MMIOTransport

/-- The level last commanded on a line, low if it was never commanded. -/
def lineLevel (line : UInt32) (commands : List IRQCommand) : Bool :=
  commands.foldl (fun level irq => if irq.irqLine = line then irq.value else level) false

theorem lineLevel_snoc (line : UInt32) (commands : List IRQCommand) (irq : IRQCommand) :
    lineLevel line (commands ++ [irq]) = if irq.irqLine = line then irq.value else lineLevel line commands := by
  rw [lineLevel, List.foldl_append]
  rfl

section

variable {D M α : Type} {x : Program (Bus D M) α}

/-- What the line depends on, apart from the pending interrupts. -/
def Bus.line (b : Bus D M) : Bool × UInt32 × List IRQCommand :=
  (b.transport.hasIrqHandler, b.transport.irqSel, b.irqHandler.commands)

theorem line_eq_iff {b b' : Bus D M} : b'.line = b.line ↔ b'.transport.hasIrqHandler = b.transport.hasIrqHandler ∧
      b'.transport.irqSel = b.transport.irqSel ∧ b'.irqHandler.commands = b.irqHandler.commands := by
  simp only [Bus.line, Prod.mk.injEq]

/-- With a handler attached, the line is high exactly while an interrupt is pending. -/
def LineSettled (delivered : List IRQCommand) (b : Bus D M) : Prop :=
  b.transport.hasIrqHandler = true →
    (lineLevel b.transport.irqSel (delivered ++ b.irqHandler.commands) = true ↔ b.transport.interruptStatus ≠ 0)

variable {delivered : List IRQCommand}

/-! ### Operations that neither command the line nor touch the pending interrupts -/

def Bus.pending (b : Bus D M) : (Bool × UInt32 × List IRQCommand) × UInt32 := (b.line, b.transport.interruptStatus)

theorem pending_eq_iff {b b' : Bus D M} :
    b'.pending = b.pending ↔ b'.line = b.line ∧ b'.transport.interruptStatus = b.transport.interruptStatus := by
  simp only [Bus.pending, Prod.mk.injEq]

theorem LineSettled.of_pending {b b' : Bus D M} (h : b'.pending = b.pending) (hb : LineSettled delivered b) :
    LineSettled delivered b' := by
  obtain ⟨hline, hstatus⟩ := pending_eq_iff.mp h
  obtain ⟨hhas, hsel, hcommands⟩ := line_eq_iff.mp hline
  rwa [LineSettled, hhas, hsel, hcommands, hstatus]

theorem or_one_ne_zero (status : UInt32) : status ||| 1 ≠ 0 := by
  intro h
  have hbit := congrArg (fun n : UInt32 => n.toNat.testBit 0) h
  simp at hbit

/-- The line was not commanded, and pending interrupts were only added. -/
def Rises (b b' : Bus D M) : Prop :=
  b'.line = b.line ∧ (b'.transport.interruptStatus = b.transport.interruptStatus ∨ b'.transport.interruptStatus ≠ 0)

theorem rises_of_pending {b b' : Bus D M} (h : b'.pending = b.pending) : Rises b b' :=
  ⟨(pending_eq_iff.mp h).1, Or.inl (pending_eq_iff.mp h).2⟩

theorem Rises.trans {b1 b2 b3 : Bus D M} (h : Rises b1 b2) (h' : Rises b2 b3) : Rises b1 b3 := by
  refine ⟨h'.1.trans h.1, ?_⟩
  rcases h'.2 with heq | hne
  · rw [heq]
    exact h.2
  · exact Or.inr hne

/-- Where the program returns, pending interrupts were only added. -/
def Raises (x : Program (Bus D M) α) : Prop := ∀ b a b', x b = .ok a b' → Rises b b'

theorem raises_of_keeps (h : Keeps Bus.pending x) : Raises x :=
  fun b a b' hx => rises_of_pending (h b a b' hx)

theorem Raises.bind {β : Type} {f : α → Program (Bus D M) β} (hx : Raises x)
    (hf : ∀ a, Raises (f a)) : Raises (x >>= f) := by
  intro b r b' h
  obtain ⟨a, t, hxs, hfs⟩ := bind_eq_ok.mp h
  exact (hx b a t hxs).trans (hf a t r b' hfs)

theorem Raises.ite {p : Prop} [Decidable p] {y : Program (Bus D M) α} (hx : Raises x) (hy : Raises y) :
    Raises (if p then x else y) := by
  split_ifs
  · exact hx
  · exact hy

/-- `self.interrupt_status |= 1`. -/
theorem raises_note :
    Raises (setRegs fun t => { t with interruptStatus := t.interruptStatus ||| 1 } : Program (Bus D M) Unit) := by
  intro b u b' h
  obtain rfl := setRegs_eq_ok.mp h
  exact ⟨rfl, Or.inr (or_one_ne_zero _)⟩

variable [VirtioDevice D M]

section

variable {kinds : List MoveKind} (hx : Moves kinds x) (hkinds : ∀ k ∈ kinds, k ∉ [.irq, .pending, .clear])
include hx hkinds

theorem keeps_of_moves : Keeps Bus.pending x := by
  refine hx.keeps fun k hk b b' hmove => ?_
  cases hmove with
  | irq | pending | clear => exact absurd (by simp) (hkinds _ hk)
  | _ => rfl

theorem settled_of_moves : Preserves (LineSettled delivered) x :=
  (keeps_of_moves hx hkinds).preserves fun _ _ hview hb => hb.of_pending hview

end

theorem keeps_tickDevice (fuel idx : Nat) : Keeps Bus.pending (tickDevice fuel idx : Program (Bus D M) Bool) :=
  keeps_of_moves (moves_tickDevice (List.mem_singleton_self _) fuel idx) (by decide)

/-! ### Commanding the line -/

omit [VirtioDevice D M] in
/-- A command that agrees with the pending interrupts settles the line, whatever it was before. -/
theorem settled_setIrqLine {value : Bool} {b b' : Bus D M} {u : Unit} (h : setIrqLine value b = .ok u b')
    (hvalue : value = true ↔ b.transport.interruptStatus ≠ 0) : LineSettled delivered b' := by
  obtain rfl := modify_eq_ok.mp h
  intro hhas
  split_ifs at hhas ⊢ with hb
  · show lineLevel _ (delivered ++ (b.irqHandler.commands ++ [_])) = true ↔ _
    rw [← List.append_assoc, lineLevel_snoc, if_pos rfl]
    exact hvalue
  · exact absurd hhas hb

/-! ### Reads -/

theorem settled_readRegister (reg : Register) :
    Preserves (LineSettled delivered) (readRegister reg : Program (Bus D M) UInt32) := by
  cases reg with
  | deviceId | deviceFeatures | status => exact Preserves.get.bind fun _ => .pure _
  | queueNum | queueReady => exact (Preserves.get.bind fun _ => .lift _).bind fun _ => .pure _
  | interruptStatus =>
    refine .get_bind fun b val b' hb h => ?_
    by_cases hpending : b.transport.interruptStatus ≠ 0
    · rw [if_pos hpending] at h
      obtain ⟨_, t, hclear, hrest⟩ := bind_eq_ok.mp h
      obtain ⟨_, t', hline, hval⟩ := bind_eq_ok.mp hrest
      have ht := setRegs_eq_ok.mp hclear
      rw [← (pure_eq_ok.mp hval).2]
      exact settled_setIrqLine hline (by simp [ht])
    · rw [if_neg hpending] at h
      obtain ⟨_, rfl⟩ := pure_eq_ok.mp h
      exact hb
  | _ => exact .pure _

theorem settled_read (addr : UInt64) (length : Nat) :
    Preserves (LineSettled delivered) (MMIOTransport.read addr length : Program (Bus D M) Bytes) := by
  unfold MMIOTransport.read
  split
  · refine Preserves.get.bind fun b => (Preserves.lift _).bind fun stop => ?_
    exact (Preserves.lift _).bind fun _ => .lift _
  · exact (settled_readRegister _).bind fun _ => .lift _

/-! ### Writes -/

theorem settled_notifyQueue (fuel idx : Nat) :
    Preserves (LineSettled delivered) (notifyQueue fuel idx : Program (Bus D M) Unit) := by
  refine Preserves.get.bind fun b => ?_
  split
  · exact .pure _
  · refine .ite (.bind (settled_of_moves (moves_tickDevice (List.mem_singleton_self _) fuel idx) (by decide)) fun worked =>
      .ite ?_ (.pure _)) (.pure _)
    intro b u b' _ h
    obtain ⟨_, t, hraise, hline⟩ := bind_eq_ok.mp h
    refine settled_setIrqLine hline (iff_of_true rfl ?_)
    rw [setRegs_eq_ok.mp hraise]
    exact or_one_ne_zero _

omit [VirtioDevice D M] in
theorem settled_ackInterrupt (ack : UInt32) :
    Preserves (LineSettled delivered) (ackInterrupt ack : Program (Bus D M) Unit) := by
  intro b u b' hb h
  obtain ⟨_, t, hclear, hrest⟩ := bind_eq_ok.mp h
  obtain ⟨t', t'', hget, hdrop⟩ := bind_eq_ok.mp hrest
  obtain ⟨rfl, rfl⟩ := get_eq_ok.mp hget
  obtain rfl := setRegs_eq_ok.mp hclear
  by_cases hnone : b.transport.interruptStatus &&& ~~~ack = 0
  · rw [if_pos hnone] at hdrop
    exact settled_setIrqLine hdrop (by simp [hnone])
  · rw [if_neg hnone] at hdrop
    rw [← (pure_eq_ok.mp hdrop).2]
    -- Some interrupt is left, so there was one before and the line is high already.
    have hsome : b.transport.interruptStatus ≠ 0 := by
      intro hzero
      rw [hzero] at hnone
      exact hnone (by simp)
    exact fun hhas => iff_of_true ((hb hhas).mpr hsome) hnone

theorem settled_writeStatus (val : UInt32) :
    Preserves (LineSettled delivered) (writeStatus M val : Program (Bus D M) Unit) := by
  have hstatus := moves_setStatus (D := D) (M := M) (by decide : _ ∈ [MoveKind.device, .regs]) val
  refine .ite ?_ (settled_of_moves hstatus (by decide))
  intro b u b' _ h
  obtain ⟨_, t, hclear, hrest⟩ := bind_eq_ok.mp h
  obtain ⟨_, t', hline, hreset⟩ := bind_eq_ok.mp hrest
  have ht := setRegs_eq_ok.mp hclear
  have hsettled : LineSettled delivered t' := settled_setIrqLine hline (by simp [ht, cleared])
  have hmoves := (moves_resetDevice (by decide)).bind fun _ => hstatus
  exact settled_of_moves hmoves (by decide) t' u b' hsettled hreset

theorem settled_writeRegister (fuel : Nat) (data : Bytes) (reg : Register) :
    Preserves (LineSettled delivered) (writeRegister fuel data reg : Program (Bus D M) Unit) := by
  cases reg with
  | queueNotify => exact (Preserves.lift _).bind fun _ => settled_notifyQueue fuel _
  | interruptStatus | interruptAck => exact (Preserves.lift _).bind fun _ => settled_ackInterrupt _
  | status => exact (Preserves.lift _).bind fun _ => settled_writeStatus _
  | _ => exact settled_of_moves (moves_writeRegister fuel data _) (by simp [Register.moveKinds])

/-! ### The background tick -/

theorem raises_tickQueues (fuel remaining idx : Nat) :
    Raises (tickQueues fuel remaining idx : Program (Bus D M) Unit) := by
  induction remaining generalizing idx with
  | zero => exact raises_of_keeps (.pure _)
  | succ remaining ih =>
    refine (raises_of_keeps .get).bind fun b => (raises_of_keeps (.lift _)).bind fun queue => .ite ?_ (ih _)
    refine (raises_of_keeps (keeps_tickDevice fuel idx)).bind fun worked => .ite ?_ (ih _)
    exact raises_note.bind fun _ => ih _

theorem settled_tick (fuel : Nat) :
    Preserves (LineSettled delivered) (MMIOTransport.tick fuel : Program (Bus D M) Unit) := by
  refine .get_bind fun b u b' hb h => ?_
  by_cases hoff : b.transport.status &&& 4 = 0
  · rw [if_pos hoff] at h
    rwa [← (pure_eq_ok.mp h).2]
  · rw [if_neg hoff] at h
    have hedge (t : Bus D M) (ht : Rises b t) (hraise : (do
        let nowPending := (← get).transport.interruptStatus != 0
        if nowPending && !(b.transport.interruptStatus != 0) then setIrqLine true : Program (Bus D M) Unit) t =
          .ok u b') : LineSettled delivered b' := by
      obtain ⟨t', t'', hget, hline⟩ := bind_eq_ok.mp hraise
      obtain ⟨rfl, rfl⟩ := get_eq_ok.mp hget
      by_cases hnew : (t.transport.interruptStatus != 0 && !(b.transport.interruptStatus != 0)) = true
      · rw [if_pos hnew] at hline
        refine settled_setIrqLine hline (iff_of_true rfl ?_)
        simp only [Bool.and_eq_true, bne_iff_ne] at hnew
        exact hnew.1
      · rw [if_neg hnew] at hline
        rw [← (pure_eq_ok.mp hline).2]
        obtain ⟨hhas, hsel, hcommands⟩ := line_eq_iff.mp ht.1
        rw [LineSettled, hhas, hsel, hcommands]
        refine fun hattached => (hb hattached).trans ?_
        rcases ht.2 with heq | hne
        · rw [heq]
        · simp [hne] at hnew
          exact iff_of_true hnew hne
    obtain ⟨_, t, hqueues, hrest⟩ := bind_eq_ok.mp h
    obtain ⟨worked, t', hupdate, hrest'⟩ := bind_eq_ok.mp hrest
    have hticked := raises_tickQueues _ _ _ b _ t hqueues
    have hupdated := hticked.trans (rises_of_pending (keeps_of_moves (moves_updateDevice (List.mem_singleton_self _)) (by decide)
      t worked t' hupdate))
    by_cases hworked : worked = true
    · rw [if_pos hworked] at hrest'
      obtain ⟨_, t'', hnote, hraise⟩ := bind_eq_ok.mp hrest'
      exact hedge t'' (hupdated.trans (raises_note t' _ t'' hnote)) hraise
    · rw [if_neg hworked] at hrest'
      exact hedge t' hupdated hrest'

/-! ### Runs -/

omit [VirtioDevice D M] in
/-- The level last commanded on the transport's line. -/
def Machine.lineLevel (m : Machine D M) : Bool :=
  FerrumVM.lineLevel m.bus.transport.irqSel (m.delivered ++ m.bus.irqHandler.commands)

theorem settled_step {m m' : Machine D M} {e : MachineEvent M} (hm : LineSettled m.delivered m.bus)
    (h : Machine.Step m e m') : LineSettled m'.delivered m'.bus := by
  cases h with
  | read h =>
    obtain ⟨_, hx, hdelivered⟩ := h
    exact hdelivered ▸ settled_read _ _ m.bus _ m'.bus hm hx
  | write fuel h =>
    obtain ⟨_, hx, hdelivered⟩ := h
    exact hdelivered ▸ settled_writeRegister fuel _ _ m.bus _ m'.bus hm hx
  | tick fuel h =>
    obtain ⟨_, hx, hdelivered⟩ := h
    exact hdelivered ▸ settled_tick fuel m.bus _ m'.bus hm hx
  | passGuestMemory => exact hm
  | memory mem => exact hm
  | otherIrq irq hother =>
    intro hhas
    show FerrumVM.lineLevel _ (m.delivered ++ (m.bus.irqHandler.commands ++ [irq])) = true ↔ _
    rw [← List.append_assoc, lineLevel_snoc, if_neg hother]
    exact hm hhas
  | handleIrqs =>
    intro hhas
    show FerrumVM.lineLevel _ (m.delivered ++ m.bus.irqHandler.commands ++ []) = true ↔ _
    rw [List.append_nil]
    exact hm hhas

/-- **The interrupt line.** In every state that a run reaches, the line of a transport with a handler is
high if and only if an interrupt is pending. -/
theorem line_high_iff_pending {m : Machine D M} (h : (machineSystem D M).Reachable m)
    (hhandler : m.bus.transport.hasIrqHandler = true) : m.lineLevel = true ↔ m.bus.transport.interruptStatus ≠ 0 := by
  refine (h.invariant (I := fun m => LineSettled m.delivered m.bus) ?_ fun _ _ _ hm hstep => settled_step hm hstep)
    hhandler
  rintro _ ⟨device, queueNum, irqSel, hasIrqHandler, mem, rfl⟩
  intro _
  simp [Machine.new, IRQHandler.new, MMIOTransport.new, FerrumVM.lineLevel]

end

/-- An entropy device with a handler and one chain on its queue, up to the notification. -/
def lineLow : Machine BareDevice Ram := Machine.new bareRng 1 5 true oneChain
def lineSized := lineLow.after (MMIOTransport.write 2 0x038 [1, 0])
def lineEnabled := lineSized.after (MMIOTransport.write 2 0x044 [1])
def lineNotified := lineEnabled.after (MMIOTransport.write 2 0x050 [0])

theorem lineNotified_reachable : (machineSystem BareDevice Ram).Reachable lineNotified := by
  have hnew : (machineSystem _ _).Reachable lineLow := .init ⟨_, _, _, _, _, rfl⟩
  have hsized : (machineSystem _ _).Reachable lineSized :=
    hnew.next (Machine.Step.write 2 (Machine.performs_after (by decide)))
  have henabled : (machineSystem _ _).Reachable lineEnabled :=
    hsized.next (Machine.Step.write 2 (Machine.performs_after (by decide)))
  exact henabled.next (Machine.Step.write 2 (Machine.performs_after (by decide)))

theorem line_high_after_notify : lineNotified.bus.transport.interruptStatus = 1 ∧
      (lineNotified.lineLevel = true ↔ lineNotified.bus.transport.interruptStatus ≠ 0) :=
  ⟨by decide, line_high_iff_pending lineNotified_reachable (by decide)⟩

end FerrumVM
