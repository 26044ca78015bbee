import FerrumVM.Shipped
import FerrumVM.TransportMoves

/-! The two indices of a queue. A device retires what it pops, so between operations the used index of
a queue stands where its available index stands. Only one operation can part them: a write to
`QueueReady` that enables a queue sets the available index back to zero and leaves the used index. -/

namespace FerrumVM

open Base Program MMIOTransport

section

variable {D M : Type}

/-- Both indices of every queue stand at the same place. -/
def InLockstep (queues : List VirtioQueue) : Prop := ∀ q ∈ queues, q.lastUsedIdx = q.lastAvailIdx

def eventsOf (idx : Nat) (log : List (Nat × Event)) : List Event :=
  log.filterMap fun e => if e.1 = idx then some e.2 else none

/-- On every queue the heads that were popped are the heads that were retired, in order. -/
def AllRetired (log : List (Nat × Event)) : Prop :=
  ∀ idx, poppedHeads (eventsOf idx log) = retiredHeads (eventsOf idx log)

theorem eventsOf_append (idx : Nat) (log log' : List (Nat × Event)) :
    eventsOf idx (log ++ log') = eventsOf idx log ++ eventsOf idx log' := List.filterMap_append

theorem eventsOf_same (idx : Nat) (events : List Event) : eventsOf idx (events.map (Prod.mk idx)) = events := by
  simp [eventsOf, List.filterMap_map]

theorem eventsOf_other {idx other : Nat} (h : other ≠ idx) (events : List Event) :
    eventsOf idx (events.map (Prod.mk other)) = [] := by
  simp [eventsOf, List.filterMap_map, h]

theorem inLockstep_set {queues : List VirtioQueue} {q : VirtioQueue} (idx : Nat) (h : InLockstep queues)
    (hq : q.lastUsedIdx = q.lastAvailIdx) : InLockstep (queues.set idx q) := by
  intro q' hmem
  rcases List.mem_or_eq_of_mem_set hmem with hold | rfl
  · exact h q' hold
  · exact hq

theorem inLockstep_new (n : Nat) : InLockstep (List.replicate n VirtioQueue.new) := by
  intro q hmem
  rw [List.eq_of_mem_replicate hmem]
  rfl

/-- The state of the queues between operations. -/
structure Retired (b : Bus D M) : Prop where
  lockstep : InLockstep b.transport.queues
  retired : AllRetired b.log

theorem Retired.of_eq {b b' : Bus D M} (h : Retired b) (hqueues : b'.transport.queues = b.transport.queues)
    (hlog : b'.log = b.log) : Retired b' :=
  ⟨hqueues ▸ h.lockstep, hlog ▸ h.retired⟩

/-! ### Moves of the transport -/

variable [VirtioDevice D M]

theorem allRetired_append {idx : Nat} {log : List (Nat × Event)} {events : List Event} {heads : List UInt16}
    (h : AllRetired log) (hpop : poppedHeads events = heads) (hret : retiredHeads events = heads) :
    AllRetired (log ++ events.map (Prod.mk idx)) := by
  intro i
  rw [eventsOf_append, poppedHeads_append, retiredHeads_append, h i]
  by_cases hi : idx = i
  · subst hi
    rw [eventsOf_same, hpop, hret]
  · rw [eventsOf_other hi]
    rfl

theorem retired_move (hD : ServesInOrder D M) (hupdate : UpdateKeepsQueues D M) {k : MoveKind} {b b' : Bus D M}
    (h : Move k b b') (hk : k ≠ .queue) (hb : Retired b) : Retired b' := by
  cases h with
  | irq | regs | pending | device | select => exact hb.of_eq rfl rfl
  | queue => exact absurd rfl hk
  | clear =>
    refine ⟨fun q hq => ?_, hb.retired⟩
    obtain ⟨_, _, rfl⟩ := List.mem_map.mp hq
    rfl
  | @tick _ fuel idx queue c worked hqueue htick =>
    obtain ⟨heads, hserved⟩ := hD _ _ _ _ _ htick
    obtain ⟨hq, hp, hr⟩ := ring_eq_iff.mp hserved
    have hlock := hb.lockstep queue (List.mem_of_getElem? hqueue)
    refine ⟨inLockstep_set idx hb.lockstep ?_, allRetired_append hb.retired hp hr⟩
    rw [hq]
    show queue.lastUsedIdx + _ = queue.lastAvailIdx + _
    rw [hlock]
  | update _ hdev =>
    cases hupdate _ _ _ _ hdev
    exact hb.of_eq rfl rfl

theorem retired_of_moves {α : Type} (hD : ServesInOrder D M) (hupdate : UpdateKeepsQueues D M)
    {kinds : List MoveKind} {x : Program (Bus D M) α} (hx : Moves kinds x) (hkinds : .queue ∉ kinds) :
    Preserves Retired x :=
  hx.preserves fun _ hk _ _ hmove => retired_move hD hupdate hmove fun h => hkinds (h ▸ hk)

omit [VirtioDevice D M] in
theorem retired_setSelected {f : VirtioQueue → VirtioQueue}
    (hf : ∀ q, q.lastUsedIdx = q.lastAvailIdx → (f q).lastUsedIdx = (f q).lastAvailIdx) :
    Preserves Retired (do setSelected (f (← selected)) : Program (Bus D M) Unit) := by
  intro b _ b' hb h
  obtain ⟨q, t, hsel, hset⟩ := bind_eq_ok.mp h
  obtain ⟨rfl, hq⟩ := selected_eq_ok hsel
  obtain rfl := modify_eq_ok.mp hset
  exact ⟨inLockstep_set _ hb.lockstep (hf q (hb.lockstep q (List.mem_of_getElem? hq))), hb.retired⟩

/-- Every write but one to `QueueReady`. -/
theorem retired_writeRegister (hD : ServesInOrder D M) (hupdate : UpdateKeepsQueues D M) (fuel : Nat) (data : Bytes)
    {reg : Register} (hreg : reg ≠ .queueReady) :
    Preserves Retired (writeRegister fuel data reg : Program (Bus D M) Unit) := by
  cases reg with
  | queueReady => exact absurd rfl hreg
  | queueNum =>
    refine (Preserves.lift _).bind fun lo => (Preserves.lift _).bind fun hi => ?_
    exact retired_setSelected fun _ h => h
  | queueDescLow | queueDescHigh | queueAvailLow | queueAvailHigh | queueUsedLow | queueUsedHigh =>
    exact (Preserves.lift _).bind fun val => retired_setSelected fun _ h => h
  | _ => exact retired_of_moves hD hupdate (moves_writeRegister fuel data _) (by simp [Register.moveKinds])

/-! ### Enabling a queue -/

/-- The event does not enable a queue, or the used index of the queue it enables is zero. -/
def EnablesAtZero (m : Machine D M) : MachineEvent M → Prop
  | .write addr data => Register.ofAddr addr = .queueReady →
      ∀ q byte, m.bus.transport.queues[m.bus.transport.queueSel]? = some q → q.ready = false →
        data[0]? = some byte → byte ≠ 0 → q.lastUsedIdx = 0
  | _ => True

omit [VirtioDevice D M] in
theorem enable_lockstep {q : VirtioQueue} {ready : Bool} (h : q.lastUsedIdx = q.lastAvailIdx) :
    (enable q ready).lastUsedIdx = (enable q ready).lastAvailIdx ↔
      (q.ready = false → ready = true → q.lastUsedIdx = 0) := by
  unfold enable
  cases hq : q.ready <;> cases ready <;> simp [h]

omit [VirtioDevice D M] in
theorem inLockstep_set_iff {queues : List VirtioQueue} {q : VirtioQueue} {idx : Nat} (h : InLockstep queues)
    (hidx : idx < queues.length) : InLockstep (queues.set idx q) ↔ q.lastUsedIdx = q.lastAvailIdx :=
  ⟨fun hset => hset q (List.mem_set hidx q), inLockstep_set idx h⟩

theorem enables_iff {m m' : Machine D M} {addr : UInt64} {data : Bytes} {fuel : Nat} (hm : Retired m.bus)
    (hreg : Register.ofAddr addr = .queueReady) (h : m.Performs m' (MMIOTransport.write fuel addr data)) :
    AllRetired m'.bus.log ∧ (InLockstep m'.bus.transport.queues ↔ EnablesAtZero m (.write addr data)) := by
  obtain ⟨_, hwrite, _⟩ := h
  rw [MMIOTransport.write, hreg] at hwrite
  obtain ⟨q, b, hsel, hwrite⟩ := bind_eq_ok.mp hwrite
  obtain ⟨rfl, hq⟩ := selected_eq_ok hsel
  obtain ⟨byte, b, hbyte, hset⟩ := bind_eq_ok.mp hwrite
  obtain ⟨hindex, rfl⟩ := lift_eq_ok.mp hbyte
  have hdata := index_eq_ok.mp hindex
  have hbus := modify_eq_ok.mp hset
  rw [← hbus]
  refine ⟨hm.retired, ?_⟩
  have hlt := (List.getElem?_eq_some_iff.mp hq).1
  refine (inLockstep_set_iff hm.lockstep hlt).trans
    ((enable_lockstep (hm.lockstep q (List.mem_of_getElem? hq))).trans ⟨?_, ?_⟩)
  · intro hzero _ q' byte' hq' hready hdata' hbyte'
    rw [hq] at hq'
    rw [hdata] at hdata'
    cases hq'
    cases hdata'
    exact hzero hready (bne_iff_ne.mpr hbyte')
  · intro hall hready hbyte
    exact hall hreg q byte hq hready hdata (bne_iff_ne.mp hbyte)

theorem retired_step (hD : ServesInOrder D M) (hupdate : UpdateKeepsQueues D M) {m m' : Machine D M}
    {e : MachineEvent M} (hm : Retired m.bus) (h : Machine.Step m e m') :
    AllRetired m'.bus.log ∧ (InLockstep m'.bus.transport.queues ↔ EnablesAtZero m e) := by
  have hdone (h' : Retired m'.bus) (he : EnablesAtZero m e) :
      AllRetired m'.bus.log ∧ (InLockstep m'.bus.transport.queues ↔ EnablesAtZero m e) :=
    ⟨h'.retired, iff_of_true h'.lockstep he⟩
  cases h with
  | read h =>
    obtain ⟨_, hread, _⟩ := h
    exact hdone (retired_of_moves hD hupdate (moves_read _ _) (by decide) _ _ _ hm hread) trivial
  | @write _ addr data fuel h =>
    by_cases hreg : Register.ofAddr addr = .queueReady
    · exact enables_iff hm hreg h
    · obtain ⟨_, hwrite, _⟩ := h
      exact hdone (retired_writeRegister hD hupdate fuel data hreg _ _ _ hm hwrite) fun h => absurd h hreg
  | tick fuel h =>
    obtain ⟨_, htick, _⟩ := h
    exact hdone (retired_of_moves hD hupdate (moves_tick fuel) (by decide) _ _ _ hm htick) trivial
  | passGuestMemory => exact hdone (hm.of_eq rfl rfl) trivial
  | memory mem => exact hdone (hm.of_eq rfl rfl) trivial
  | otherIrq irq _ => exact hdone (hm.of_eq rfl rfl) trivial
  | handleIrqs => exact hdone (hm.of_eq rfl rfl) trivial

theorem retired_of_reached (hD : ServesInOrder D M) (hupdate : UpdateKeepsQueues D M) {m : Machine D M}
    (h : (machineSystem D M).ReachedBy EnablesAtZero m) : Retired m.bus := by
  refine System.ReachedBy.invariant (I := fun m => Retired m.bus) ?_ ?_ h
  · rintro m ⟨device, queueNum, irqSel, hasIrqHandler, mem, rfl⟩
    exact ⟨inLockstep_new queueNum, fun _ => rfl⟩
  · intro m e m' hm he hstep
    obtain ⟨hretired, hlock⟩ := retired_step hD hupdate hm hstep
    exact ⟨hlock.mpr he, hretired⟩

end

def rngMachine : Machine BareDevice Ram :=
  Machine.new (.rng ⟨false, ()⟩) 1 5 false oneChain

def rngAttached : Machine BareDevice Ram :=
  { rngMachine with bus := MMIOTransport.passGuestMemory rngMachine.bus }

def rngSized := rngAttached.after (MMIOTransport.write 2 0x038 [1, 0])
def rngEnabled := rngSized.after (MMIOTransport.write 2 0x044 [1])
def rngServed := rngEnabled.after (MMIOTransport.write 2 0x050 [0])
def rngDisabled := rngServed.after (MMIOTransport.write 2 0x044 [0])
def rngEnabledAgain := rngDisabled.after (MMIOTransport.write 2 0x044 [1])

theorem rngServed_reached : (machineSystem BareDevice Ram).ReachedBy EnablesAtZero rngServed := by
  have hnew : (machineSystem _ _).ReachedBy EnablesAtZero rngMachine := .init ⟨_, _, _, _, _, rfl⟩
  have hattached : (machineSystem _ _).ReachedBy EnablesAtZero rngAttached := by
    refine .step hnew ?_ (Machine.Step.passGuestMemory _)
    trivial
  have hsized : (machineSystem _ _).ReachedBy EnablesAtZero rngSized := by
    refine .step hattached ?_ (Machine.Step.write 2 (Machine.performs_after (by decide)))
    exact fun h => absurd h (by decide)
  have henabled : (machineSystem _ _).ReachedBy EnablesAtZero rngEnabled := by
    refine .step hsized ?_ (Machine.Step.write 2 (Machine.performs_after (by decide)))
    intro _ q byte hq _ _ _
    have hqueue : rngSized.bus.transport.queues[rngSized.bus.transport.queueSel]? =
        some { VirtioQueue.new with size := 1 } := rfl
    rw [hqueue] at hq
    cases hq
    rfl
  refine .step henabled ?_ (Machine.Step.write 2 (Machine.performs_after (by decide)))
  exact fun h => absurd h (by decide)

end FerrumVM
