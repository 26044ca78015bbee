import FerrumVM.MmioTransport

/-! A transport in its machine. The guest reads and writes its registers, the machine ticks it in the
background and hands its interrupt commands to the hypervisor, and meanwhile the rest of the machine
changes guest memory and commands other lines. A step is an operation that came to its end. -/

namespace FerrumVM

open Base Program

structure Machine (D M : Type) where
  bus : Bus D M
  /-- The commands that the hypervisor has been given. -/
  delivered : List IRQCommand

inductive MachineEvent (M : Type) where
  | read (addr : UInt64) (length : Nat)
  | write (addr : UInt64) (data : Bytes)
  | tick
  | passGuestMemory
  /-- The guest, or another device, leaves guest memory as given. -/
  | memory (mem : M)
  /-- Another device commands its own line. -/
  | otherIrq (irq : IRQCommand)
  | handleIrqs

namespace Machine

variable {D M : Type}

/-- A transport as `MMIOTransport::new` makes it, with or without an interrupt handler. -/
def new (device : D) (queueNum : Nat) (irqSel : UInt32) (hasIrqHandler : Bool) (mem : M) : Machine D M where
  bus := {
    transport := { MMIOTransport.new device queueNum irqSel with hasIrqHandler }
    irqHandler := IRQHandler.new
    mem := mem
    log := [] }
  delivered := []

variable [VirtioDevice D M]

/-- An operation of the transport that returned. -/
def Performs (m : Machine D M) (m' : Machine D M) {α : Type} (x : Program (Bus D M) α) : Prop :=
  ∃ a, x m.bus = .ok a m'.bus ∧ m'.delivered = m.delivered

inductive Step : Machine D M → MachineEvent M → Machine D M → Prop
  | read {m m' : Machine D M} {addr : UInt64} {length : Nat}
      (h : m.Performs m' (MMIOTransport.read addr length)) : Step m (.read addr length) m'
  | write {m m' : Machine D M} {addr : UInt64} {data : Bytes} (fuel : Nat)
      (h : m.Performs m' (MMIOTransport.write fuel addr data)) : Step m (.write addr data) m'
  | tick {m m' : Machine D M} (fuel : Nat) (h : m.Performs m' (MMIOTransport.tick fuel)) : Step m .tick m'
  | passGuestMemory (m : Machine D M) :
      Step m .passGuestMemory { m with bus := MMIOTransport.passGuestMemory m.bus }
  | memory (m : Machine D M) (mem : M) : Step m (.memory mem) { m with bus := { m.bus with mem } }
  | otherIrq (m : Machine D M) (irq : IRQCommand) (h : irq.irqLine ≠ m.bus.transport.irqSel) :
      Step m (.otherIrq irq)
        { m with bus := { m.bus with irqHandler := m.bus.irqHandler.triggerIrq irq } }
  | handleIrqs (m : Machine D M) :
      Step m .handleIrqs
        { bus := { m.bus with irqHandler := m.bus.irqHandler.handleIrqs.2 }
          delivered := m.delivered ++ m.bus.irqHandler.handleIrqs.1 }

def after {α : Type} (m : Machine D M) (x : Program (Bus D M) α) : Machine D M :=
  { m with bus := x.finalState m.bus }

omit [VirtioDevice D M] in
theorem performs_after {α : Type} {m : Machine D M} {x : Program (Bus D M) α}
    (h : x.ends m.bus (fun _ _ => true) = true) : m.Performs (m.after x) x := by
  obtain ⟨a, hx, _⟩ := eq_ok_of_ends h
  exact ⟨a, hx, rfl⟩

end Machine

def machineSystem (D M : Type) [VirtioDevice D M] : System (Machine D M) (MachineEvent M) where
  init m := ∃ device queueNum irqSel hasIrqHandler mem,
    m = Machine.new device queueNum irqSel hasIrqHandler mem
  step := Machine.Step

end FerrumVM
