import FerrumVM.InterruptLine

/-! The machine of `vm/builder.rs` and `vm/tick.rs`: transports and devices at I/O ports that share guest memory and
one interrupt handler, and the tick thread, which takes the commands of the handler and gives them to KVM one by one.
The vCPUs, the tick thread and the guest interleave between the operations of the devices. -/

namespace FerrumVM

open Base Program

structure VirtualMachine (D M : Type) where
  /-- The transports, each with the log of what its device did. -/
  mmioMap : List (MMIOTransport D × List (Nat × Event))
  irqHandler : IRQHandler
  mem : M
  /-- The commands that the tick thread has taken and not handed on yet. -/
  irqs : List IRQCommand
  /-- The commands that KVM was given. -/
  delivered : List IRQCommand

namespace VirtualMachine

variable {D M : Type}

/-- A transport with what it shares. -/
def bus (v : VirtualMachine D M) (i : Nat) : Option (Bus D M) :=
  v.mmioMap[i]?.map fun r => ⟨r.1, v.irqHandler, v.mem, r.2⟩

def putBus (i : Nat) (v : VirtualMachine D M) (b : Bus D M) : VirtualMachine D M :=
  { v with mmioMap := v.mmioMap.modify i fun _ => (b.transport, b.log), irqHandler := b.irqHandler, mem := b.mem }

/-- The commands given so far, in order: those that KVM has, those in flight and those that wait. -/
def history (v : VirtualMachine D M) : List IRQCommand := v.delivered ++ v.irqs ++ v.irqHandler.commands

/-- The lines of the transports. -/
def sels (v : VirtualMachine D M) : List UInt32 := v.mmioMap.map fun r => r.1.irqSel

/-- No other device commands the line of the transport; `ports` are the lines of the devices at I/O ports. -/
def Owns (ports : UInt32 → Prop) (v : VirtualMachine D M) (i : Nat) : Prop :=
  ∃ sel, v.sels[i]? = some sel ∧ ¬ports sel ∧ ∀ j ≠ i, v.sels[j]? ≠ some sel

/-- Commands were added, on the given lines. -/
def Adds (lines : UInt32 → Prop) (s s' : IRQHandler) : Prop :=
  ∃ irqs, s'.commands = s.commands ++ irqs ∧ ∀ irq ∈ irqs, lines irq.irqLine

variable [VirtioDevice D M]

/-- An operation of a transport that returned. -/
inductive BusCall (b b' : Bus D M) : Prop
  | read (addr : UInt64) (length : Nat) {data : Bytes} (h : MMIOTransport.read addr length b = .ok data b')
  | write (fuel : Nat) (addr : UInt64) (data : Bytes) (h : MMIOTransport.write fuel addr data b = .ok () b')
  | tick (fuel : Nat) (h : MMIOTransport.tick fuel b = .ok () b')

/-- One operation: of a transport, for an exit or for the tick thread; of a device at the ports; of the guest on its
memory; or the tick thread taking the commands and handing one to KVM. -/
inductive Step (ports : UInt32 → Prop) (v : VirtualMachine D M) : Unit → VirtualMachine D M → Prop
  | mmio (i : Nat) {b b' : Bus D M} (hb : v.bus i = some b) (h : BusCall b b') : Step ports v () (v.putBus i b')
  | io {irqHandler : IRQHandler} (h : Adds ports v.irqHandler irqHandler) : Step ports v () { v with irqHandler }
  | memory (mem : M) : Step ports v () { v with mem }
  | handleIrqs (h : v.irqs = []) :
      Step ports v () { v with irqs := v.irqHandler.handleIrqs.1, irqHandler := v.irqHandler.handleIrqs.2 }
  | setIrqLine {irq : IRQCommand} {rest : List IRQCommand} (h : v.irqs = irq :: rest) :
      Step ports v () { v with irqs := rest, delivered := v.delivered ++ [irq] }

/-- A transport as `VirtualMachine::new` registers it. -/
def Registered (M : Type) [VirtioDevice D M] (t : MMIOTransport D) : Prop :=
  ∃ device queueNum irqSel, t = { MMIOTransport.new (VirtioDevice.passGuestMemory M device) queueNum irqSel with
    hasIrqHandler := true }

def system (D M : Type) [VirtioDevice D M] (ports : UInt32 → Prop) : System (VirtualMachine D M) Unit where
  init v := (∀ r ∈ v.mmioMap, Registered M r.1 ∧ r.2 = []) ∧ v.irqHandler = .new ∧ v.irqs = [] ∧ v.delivered = []
  step v e v' := Step ports v e v'

variable {v v' : VirtualMachine D M} {i j : Nat} {b b' : Bus D M} {ports lines lines' : UInt32 → Prop}
  {s s' : IRQHandler}

/-! ### The commands -/

omit [VirtioDevice D M] in
theorem Adds.mono (h : Adds lines s s') (hlines : ∀ line, lines line → lines' line) : Adds lines' s s' := by
  obtain ⟨irqs, heq, hmem⟩ := h
  exact ⟨irqs, heq, fun irq hirq => hlines _ (hmem irq hirq)⟩

theorem Adds.grows (h : Adds lines s s') (front : List IRQCommand) : front ++ s.commands <+: front ++ s'.commands := by
  obtain ⟨irqs, heq, _⟩ := h
  rw [heq, ← List.append_assoc]
  exact List.prefix_append _ _

/-- A transport stays wired as it was and commands only its line. -/
def Wired (b b' : Bus D M) : Prop :=
  b'.transport.hasIrqHandler = b.transport.hasIrqHandler ∧ b'.transport.irqSel = b.transport.irqSel ∧
    Adds (· = b.transport.irqSel) b.irqHandler b'.irqHandler

theorem wired_of_moves {α : Type} {kinds : List MoveKind} {x : Program (Bus D M) α} {a : α} (hx : Moves kinds x)
    (h : x b = .ok a b') : Wired b b' := by
  refine hx.preserves (I := Wired b) ?_ b a b' ⟨rfl, rfl, [], by simp⟩ h
  rintro k _ t t' hmove ⟨hhandler, hsel, irqs, hirqs, hlines⟩
  cases hmove with
  | irq t value =>
    refine ⟨hhandler, hsel, irqs ++ [⟨t.transport.irqSel, value⟩], ?_, ?_⟩
    · rw [← List.append_assoc, ← hirqs]
      rfl
    · simpa [or_imp, forall_and, hsel] using hlines
  | _ => exact ⟨hhandler, hsel, irqs, hirqs, hlines⟩

theorem BusCall.wired (h : BusCall b b') : Wired b b' := by
  cases h with
  | read addr length h => exact wired_of_moves (moves_read _ _) h
  | write fuel addr data h => exact wired_of_moves (moves_writeRegister _ _ _) h
  | tick fuel h => exact wired_of_moves (moves_tick _) h

theorem history_step (h : Step ports v () v') : v.history <+: v'.history := by
  cases h with
  | mmio i hb hcall =>
    obtain ⟨r, _, rfl⟩ := Option.map_eq_some_iff.mp hb
    exact hcall.wired.2.2.grows _
  | io hadds => exact hadds.grows _
  | memory mem => exact List.prefix_refl _
  | handleIrqs hnone => simp [history, hnone, IRQHandler.handleIrqs, IRQHandler.new]
  | setIrqLine hsome => simp [history, hsome]

/-! ### A transport on a line of its own -/

/-- The transport has its handler and is in a state that it reaches by itself. -/
def Alone (v : VirtualMachine D M) (i : Nat) : Prop :=
  ∃ b, v.bus i = some b ∧ b.transport.hasIrqHandler = true ∧ (machineSystem D M).Reachable ⟨b, v.delivered ++ v.irqs⟩

section

omit [VirtioDevice D M]

variable (hb : v.bus i = some b)
include hb

theorem sels_of_bus : v.sels[i]? = some b.transport.irqSel := by
  obtain ⟨r, hr, rfl⟩ := Option.map_eq_some_iff.mp hb
  simp [sels, hr]

theorem irqHandler_of_bus : b.irqHandler = v.irqHandler := by
  obtain ⟨r, _, rfl⟩ := Option.map_eq_some_iff.mp hb
  rfl

theorem sels_putBus (hsel : b'.transport.irqSel = b.transport.irqSel) : (v.putBus i b').sels = v.sels := by
  obtain ⟨r, hr, rfl⟩ := Option.map_eq_some_iff.mp hb
  refine List.ext_getElem? fun j => ?_
  by_cases hj : i = j
  · subst hj
    simp [sels, putBus, hr, hsel]
  · simp [sels, putBus, hj]

theorem bus_putBus_self : (v.putBus i b').bus i = some b' := by
  obtain ⟨r, hr, _⟩ := Option.map_eq_some_iff.mp hb
  simp [bus, putBus, hr]

theorem bus_putBus_of_ne (hj : j ≠ i) :
    (v.putBus j b').bus i = some { b with irqHandler := b'.irqHandler, mem := b'.mem } := by
  obtain ⟨r, hr, rfl⟩ := Option.map_eq_some_iff.mp hb
  simp [bus, putBus, hj, hr]

end

/-- Other devices command their lines and write memory meanwhile. -/
theorem reachable_disturbed {delivered : List IRQCommand} (h : (machineSystem D M).Reachable ⟨b, delivered⟩)
    (hs : Adds (· ≠ b.transport.irqSel) b.irqHandler s) (mem : M) :
    (machineSystem D M).Reachable ⟨{ b with irqHandler := s, mem }, delivered⟩ := by
  obtain ⟨irqs, heq, hlines⟩ := hs
  induction irqs generalizing b with
  | nil =>
    obtain rfl : s = b.irqHandler := congrArg IRQHandler.mk (heq.trans (List.append_nil _))
    exact h.next (.memory _ mem)
  | cons irq irqs ih =>
    have hnext := h.next (.otherIrq _ irq (hlines irq List.mem_cons_self))
    refine ih (b := { b with irqHandler := b.irqHandler.triggerIrq irq }) hnext ?_ fun other hother =>
      hlines other (List.mem_cons_of_mem _ hother)
    simpa [IRQHandler.triggerIrq] using heq

theorem alone_mmio (hj : v.bus j = some b) (hcall : BusCall b b') (hown : Owns ports v i) (h : Alone v i) :
    Alone (v.putBus j b') i := by
  obtain ⟨hhandler, _, hadds⟩ := hcall.wired
  obtain ⟨bi, hbi, hhas, hreach⟩ := h
  by_cases hij : j = i
  · subst hij
    cases hj.symm.trans hbi
    refine ⟨_, bus_putBus_self hj, hhandler.trans hhas, ?_⟩
    cases hcall with
    | read addr length h => exact hreach.next (.read ⟨_, h, rfl⟩)
    | write fuel addr data h => exact hreach.next (.write fuel ⟨_, h, rfl⟩)
    | tick fuel h => exact hreach.next (.tick fuel ⟨_, h, rfl⟩)
  · obtain ⟨sel, hsel, _, hothers⟩ := hown
    cases hsel.symm.trans (sels_of_bus hbi)
    rw [irqHandler_of_bus hj, ← irqHandler_of_bus hbi] at hadds
    refine ⟨_, bus_putBus_of_ne hbi hij, hhas, reachable_disturbed hreach (hadds.mono ?_) _⟩
    rintro _ rfl hsame
    exact hothers j hij (hsame ▸ sels_of_bus hj)

theorem alone_step (h : Step ports v () v') (hown : Owns ports v' i) (hv : Owns ports v i → Alone v i) : Alone v' i := by
  cases h with
  | mmio j hj hcall =>
    rw [Owns, sels_putBus hj hcall.wired.2.1] at hown
    exact alone_mmio hj hcall hown (hv hown)
  | io hadds =>
    change Owns ports v i at hown
    obtain ⟨b, hb, hhas, hreach⟩ := hv hown
    obtain ⟨sel, hsel, hports, _⟩ := hown
    cases hsel.symm.trans (sels_of_bus hb)
    obtain ⟨r, hr, rfl⟩ := Option.map_eq_some_iff.mp hb
    exact ⟨_, Option.map_eq_some_iff.mpr ⟨r, hr, rfl⟩, hhas,
      reachable_disturbed hreach (hadds.mono fun line hline hsame => hports (hsame ▸ hline)) v.mem⟩
  | memory mem =>
    obtain ⟨b, hb, hhas, hreach⟩ := hv hown
    obtain ⟨r, hr, rfl⟩ := Option.map_eq_some_iff.mp hb
    exact ⟨_, Option.map_eq_some_iff.mpr ⟨r, hr, rfl⟩, hhas, hreach.next (.memory _ mem)⟩
  | handleIrqs hnone =>
    obtain ⟨b, hb, hhas, hreach⟩ := hv hown
    obtain ⟨r, hr, rfl⟩ := Option.map_eq_some_iff.mp hb
    rw [hnone, List.append_nil] at hreach
    exact ⟨_, Option.map_eq_some_iff.mpr ⟨r, hr, rfl⟩, hhas, hreach.next (.handleIrqs _)⟩
  | setIrqLine hsome =>
    obtain ⟨b, hb, hhas, hreach⟩ := hv hown
    rw [hsome] at hreach
    exact ⟨b, hb, hhas, by simpa using hreach⟩

theorem alone_init (h : (system D M ports).init v) (hown : Owns ports v i) : Alone v i := by
  obtain ⟨hnew, hirq, hirqs, hdelivered⟩ := h
  obtain ⟨sel, hsel, _⟩ := hown
  rw [sels, List.getElem?_map] at hsel
  obtain ⟨r, hr, _⟩ := Option.map_eq_some_iff.mp hsel
  obtain ⟨⟨device, queueNum, irqSel, ht⟩, hlog⟩ := hnew r (List.mem_of_getElem? hr)
  refine ⟨_, Option.map_eq_some_iff.mpr ⟨r, hr, rfl⟩, by rw [ht], ?_⟩
  rw [ht, hlog, hirq, hirqs, hdelivered]
  have hinit : (machineSystem D M).Reachable (.new device queueNum irqSel true v.mem) := .init ⟨_, _, _, _, _, rfl⟩
  exact hinit.next (.passGuestMemory _)

theorem alone_of_reachable (h : (system D M ports).Reachable v) (hown : Owns ports v i) : Alone v i :=
  h.invariant (I := fun v => Owns ports v i → Alone v i) (fun _ => alone_init)
    (fun _ _ _ hs hstep hown => alone_step hstep hown hs) hown

/-- The tick thread hands over what it has taken. -/
theorem steps_setIrqLine (ports : UInt32 → Prop) (v : VirtualMachine D M) : Relation.ReflTransGen (Step ports · () ·) v
      { v with irqs := [], delivered := v.delivered ++ v.irqs } := by
  obtain ⟨mmioMap, irqHandler, mem, irqs, delivered⟩ := v
  induction irqs generalizing delivered with
  | nil => simpa using Relation.ReflTransGen.refl
  | cons irq rest ih => exact .head (.setIrqLine rfl) (by simpa using ih (delivered ++ [irq]))

theorem steps_delivered (ports : UInt32 → Prop) (v : VirtualMachine D M) :
    Relation.ReflTransGen (Step ports · () ·) v { v with irqs := [], irqHandler := .new, delivered := v.history } := by
  have htaken := steps_setIrqLine ports
    { v with delivered := v.delivered ++ v.irqs, irqs := v.irqHandler.commands, irqHandler := .new }
  exact (steps_setIrqLine ports v).trans (.head (.handleIrqs rfl) htaken)

/-! ### Results -/

/-- Two entropy devices, on the lines 5 and 6; the guest brings the first one up and notifies its queue. -/
def board : VirtualMachine BareDevice Ram :=
  ⟨[(lineLow.bus.transport, []), ({ lineLow.bus.transport with irqSel := 6 }, [])], .new, oneChain, [], []⟩
def sized := board.putBus 0 lineSized.bus
def enabled := sized.putBus 0 lineEnabled.bus
def notified := enabled.putBus 0 lineNotified.bus

theorem steps_notified : Relation.ReflTransGen (Step (· = 4) · () ·) board notified := by
  have hwrite {m : Machine BareDevice Ram} {w : VirtualMachine BareDevice Ram} (addr : UInt64) (data : Bytes)
      (hw : w.bus 0 = some m.bus) (h : (MMIOTransport.write 2 addr data).ends m.bus (fun _ _ => true) = true) :
      Step (· = 4) w () (w.putBus 0 (m.after (MMIOTransport.write 2 addr data)).bus) := by
    obtain ⟨_, hrun, _⟩ := Machine.performs_after h
    exact .mmio 0 hw (.write 2 addr data hrun)
  have hsized : Step (· = 4) board () sized := hwrite (m := lineLow) 0x038 [1, 0] rfl (by decide)
  have henabled : Step (· = 4) sized () enabled := hwrite (m := lineSized) 0x044 [1] rfl (by decide)
  have hnotified : Step (· = 4) enabled () notified := hwrite (m := lineEnabled) 0x050 [0] rfl (by decide)
  exact .tail (.tail (.single hsized) henabled) hnotified

theorem notified_reachable : (system BareDevice Ram (· = 4)).Reachable notified := by
  have hinit : (system BareDevice Ram (· = 4)).Reachable board := by
    refine .init ⟨fun r hr => ?_, rfl, rfl, rfl⟩
    obtain rfl | hr := List.mem_cons.mp hr
    · exact ⟨⟨bareRng, 1, 5, rfl⟩, rfl⟩
    · obtain rfl := List.mem_singleton.mp hr
      exact ⟨⟨bareRng, 1, 6, rfl⟩, rfl⟩
  have hsteps {w : VirtualMachine BareDevice Ram} (h : Relation.ReflTransGen (Step (· = 4) · () ·) board w) :
      (system BareDevice Ram (· = 4)).Reachable w := by
    induction h with
    | refl => exact hinit
    | tail _ hstep ih => exact ih.next hstep
  exact hsteps steps_notified

theorem notified_owns : Owns (· = 4) notified 0 := by
  refine ⟨5, rfl, by decide, fun j hj => ?_⟩
  match j with
  | 1 => decide
  | j + 2 => exact nofun

/-- **A transport on its own line runs alone.** Whatever the vCPUs, the tick thread and the other devices do in
between, a transport whose line no other device commands is in a state that it reaches by itself. -/
theorem transport_runs_alone (h : (system D M ports).Reachable v) (hown : Owns ports v i) :
    ∃ b, v.bus i = some b ∧ (machineSystem D M).Reachable ⟨b, v.delivered ++ v.irqs⟩ := by
  obtain ⟨b, hb, _, hreach⟩ := alone_of_reachable h hown
  exact ⟨b, hb, hreach⟩

theorem notified_runs_alone :
    ∃ b, notified.bus 0 = some b ∧ (machineSystem BareDevice Ram).Reachable ⟨b, notified.delivered ++ notified.irqs⟩ :=
  transport_runs_alone notified_reachable notified_owns

/-- **The line in KVM.** The last command given for the line of such a transport is high exactly while an interrupt
is pending, and once no command is under way KVM holds the line at that level. -/
theorem kvm_line_is_pending (h : (system D M ports).Reachable v) (hown : Owns ports v i) (hb : v.bus i = some b) :
    (lineLevel b.transport.irqSel v.history = true ↔ b.transport.interruptStatus ≠ 0) ∧
      (v.irqs = [] → v.irqHandler.commands = [] →
        (lineLevel b.transport.irqSel v.delivered = true ↔ b.transport.interruptStatus ≠ 0)) := by
  obtain ⟨b', hb', hhas, hreach⟩ := alone_of_reachable h hown
  cases hb.symm.trans hb'
  have hsettled : LineSettled (v.delivered ++ v.irqs) b := by
    refine hreach.invariant (I := fun m => LineSettled m.delivered m.bus) ?_ fun _ _ _ hm hstep => settled_step hm hstep
    rintro _ ⟨device, queueNum, irqSel, hasIrqHandler, mem, rfl⟩ _
    simp [Machine.new, IRQHandler.new, MMIOTransport.new, lineLevel]
  have hline := hsettled hhas
  rw [irqHandler_of_bus hb] at hline
  refine ⟨hline, fun hirqs hcommands => ?_⟩
  rwa [hirqs, hcommands, List.append_nil, List.append_nil] at hline

theorem notified_line_is_pending : lineNotified.bus.transport.interruptStatus = 1 ∧
      (lineLevel 5 notified.history = true ↔ lineNotified.bus.transport.interruptStatus ≠ 0) :=
  ⟨by decide, (kvm_line_is_pending notified_reachable notified_owns rfl).1⟩

end VirtualMachine

end FerrumVM
