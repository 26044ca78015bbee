import FerrumVM.Lockstep

/-! The queue registers as a file of registers, one set for each queue. The driver selects a queue and
then writes its registers; what a queue ends up with should be what was last written while it was
selected. A selection that names no queue is ignored, though, and the writes that follow it go to the
queue that was selected before. -/

namespace FerrumVM

open Base Program MMIOTransport VirtioQueue

variable {f : RegisterFile} {reg : Register}

/-! ### Registers of 64 bits in two halves -/

def ofHalves (low high : UInt32) : UInt64 := (high.toUInt64 <<< 32) ||| low.toUInt64

theorem toNat_high (high : UInt32) : (high.toUInt64 <<< 32).toNat = high.toNat <<< 32 := by
  have hlt := high.toNat_lt
  rw [UInt64.toNat_shiftLeft, UInt32.toNat_toUInt64, show (32 : UInt64).toNat % 64 = 32 from rfl,
    Nat.mod_eq_of_lt]
  rw [Nat.shiftLeft_eq]
  omega

theorem testBit_half {half : UInt32} {i : Nat} (h : 32 ≤ i) : half.toNat.testBit i = false :=
  Nat.testBit_lt_two_pow (Nat.lt_of_lt_of_le half.toNat_lt (Nat.pow_le_pow_right (by decide) h))

theorem setLow_ofHalves (low high val : UInt32) : setLow (ofHalves low high) val = ofHalves val high := by
  apply UInt64.toNat_inj.mp
  have hmask : (0xFFFFFFFF00000000 : UInt64).toNat = (2 ^ 32 - 1) <<< 32 := rfl
  simp only [setLow, ofHalves, UInt64.toNat_or, UInt64.toNat_and, hmask, toNat_high, UInt32.toNat_toUInt64]
  apply Nat.eq_of_testBit_eq
  intro i
  simp only [Nat.testBit_or, Nat.testBit_and, Nat.testBit_shiftLeft, Nat.testBit_two_pow_sub_one]
  by_cases hlow : 32 ≤ i
  · by_cases hhigh : i - 32 < 32
    · simp [hlow, hhigh, testBit_half hlow]
    · simp [testBit_half hlow, testBit_half (Nat.le_of_not_lt hhigh)]
  · simp [hlow]

theorem setHigh_ofHalves (low high val : UInt32) : setHigh (ofHalves low high) val = ofHalves low val := by
  apply UInt64.toNat_inj.mp
  have hmask : (0x00000000FFFFFFFF : UInt64).toNat = 2 ^ 32 - 1 := rfl
  simp only [setHigh, ofHalves, UInt64.toNat_or, UInt64.toNat_and, hmask, toNat_high, UInt32.toNat_toUInt64]
  apply Nat.eq_of_testBit_eq
  intro i
  simp only [Nat.testBit_or, Nat.testBit_and, Nat.testBit_shiftLeft, Nat.testBit_two_pow_sub_one]
  by_cases hlow : i < 32
  · simp [hlow, Nat.not_le.mpr hlow]
  · simp [hlow, testBit_half (Nat.le_of_not_lt hlow)]

/-! ### What the driver wrote -/

def Register.ofQueue : Register → Bool
  | .queueNum | .queueReady | .queueDescLow | .queueDescHigh | .queueAvailLow | .queueAvailHigh
  | .queueUsedLow | .queueUsedHigh => true
  | _ => false

/-- The queue that the driver selected last, and the last value it wrote to each register of each queue
while that queue was selected, since the last reset. -/
structure RegisterFile where
  sel : Nat
  last : Nat → Register → Option UInt32

namespace RegisterFile

def empty : RegisterFile := ⟨0, fun _ _ => none⟩

def write (f : RegisterFile) (reg : Register) (val : UInt32) : RegisterFile :=
  if reg = .status ∧ val = 0 then empty
  else if reg = .queueSel then { f with sel := val.toNat }
  else if reg.ofQueue then
    { f with last := fun i r => if i = f.sel ∧ r = reg then some val else f.last i r }
  else f

def value (f : RegisterFile) (i : Nat) (reg : Register) : UInt32 := (f.last i reg).getD 0

structure Describes (f : RegisterFile) (i : Nat) (q : VirtioQueue) : Prop where
  size : q.size = (f.value i .queueNum).toUInt16
  ready : q.ready = ((f.value i .queueReady).toUInt8 != 0)
  desc : q.descAddr = ofHalves (f.value i .queueDescLow) (f.value i .queueDescHigh)
  avail : q.availAddr = ofHalves (f.value i .queueAvailLow) (f.value i .queueAvailHigh)
  used : q.usedAddr = ofHalves (f.value i .queueUsedLow) (f.value i .queueUsedHigh)

theorem describes_new (f : RegisterFile) (i : Nat) (h : f.last i = fun _ => none) : f.Describes i new := by
  have hvalue (reg : Register) : f.value i reg = 0 := by rw [value, h]; rfl
  constructor <;> rw [hvalue] <;> try rw [hvalue]
  all_goals decide

end RegisterFile

def VirtioQueue.written (q : VirtioQueue) (val : UInt32) : Register → VirtioQueue
  | .queueNum => { q with size := val.toUInt16 }
  | .queueReady => enable q (val.toUInt8 != 0)
  | .queueDescLow => { q with descAddr := setLow q.descAddr val }
  | .queueDescHigh => { q with descAddr := setHigh q.descAddr val }
  | .queueAvailLow => { q with availAddr := setLow q.availAddr val }
  | .queueAvailHigh => { q with availAddr := setHigh q.availAddr val }
  | .queueUsedLow => { q with usedAddr := setLow q.usedAddr val }
  | .queueUsedHigh => { q with usedAddr := setHigh q.usedAddr val }
  | _ => q

def VirtioQueue.regs (q : VirtioQueue) : UInt16 × Bool × UInt64 × UInt64 × UInt64 :=
  (q.size, q.ready, q.descAddr, q.availAddr, q.usedAddr)

theorem RegisterFile.Describes.of_regs {i : Nat} {q q' : VirtioQueue} (h : f.Describes i q)
    (hregs : q'.regs = q.regs) : f.Describes i q' := by
  simp only [regs, Prod.mk.injEq] at hregs
  obtain ⟨hsize, hready, hdesc, havail, hused⟩ := hregs
  exact ⟨hsize ▸ h.size, hready ▸ h.ready, hdesc ▸ h.desc, havail ▸ h.avail, hused ▸ h.used⟩

theorem write_eq_last (hreg : reg.ofQueue = true) (val : UInt32) :
    f.write reg val = { f with last := fun i r => if i = f.sel ∧ r = reg then some val else f.last i r } := by
  rw [RegisterFile.write, if_neg, if_neg, if_pos hreg]
  · rintro rfl
    cases hreg
  · rintro ⟨rfl, _⟩
    cases hreg

theorem describes_written {q : VirtioQueue} (h : f.Describes f.sel q)
    (hreg : reg.ofQueue = true) (val : UInt32) : (f.write reg val).Describes f.sel (q.written val reg) := by
  have hwrite := write_eq_last (f := f) hreg val
  have hsame : (f.write reg val).value f.sel reg = val := by
    simp [hwrite, RegisterFile.value]
  have hother (r : Register) (hr : r ≠ reg) : (f.write reg val).value f.sel r = f.value f.sel r := by
    simp [hwrite, RegisterFile.value, hr]
  have henable (ready : Bool) : (enable q ready).regs = { q with ready }.regs := by
    unfold enable
    split_ifs <;> rfl
  obtain ⟨hsize, hready, hdesc, havail, hused⟩ := h
  -- One register has the value just written, the others are as they were noted before.
  cases reg with
  | queueReady =>
    refine RegisterFile.Describes.of_regs (q := { q with ready := val.toUInt8 != 0 }) ?_ (henable _)
    constructor <;> simp only [hsame, hother, ne_eq, reduceCtorEq, not_false_eq_true] <;> assumption
  | queueNum | queueDescLow | queueDescHigh | queueAvailLow | queueAvailHigh | queueUsedLow | queueUsedHigh =>
    constructor <;>
      simp only [written, hsame, hother, ne_eq, reduceCtorEq, not_false_eq_true, hdesc, havail, hused,
        setLow_ofHalves, setHigh_ofHalves] <;>
      assumption
  | _ => cases hreg

section

variable {D M α : Type} {val : UInt32}

/-! ### Writes to the registers of a queue -/

theorem index_toLe_zero (val : UInt32) : index (u32ToLe val) 0 = .ok val.toUInt8 := by
  have hbyte : UInt8.ofNat val.toNat = val.toUInt8 := rfl
  rw [u32ToLe, leBytes, hbyte]
  rfl

/-- `u16::from_le_bytes([data[0], data[1]])`. -/
theorem u16FromLe_toLe_low (val : UInt32) :
    u16FromLe [val.toUInt8, UInt8.ofNat (val.toNat / 256)] = val.toUInt16 := by
  apply UInt16.toNat_inj.mp
  simp only [u16FromLe, List.take, leNat, UInt32.toNat_toUInt8, UInt32.toNat_toUInt16, UInt8.toNat_ofNat',
    UInt16.toNat_ofNat']
  omega

theorem index_toLe_one (val : UInt32) : index (u32ToLe val) 1 = .ok (UInt8.ofNat (val.toNat / 256)) := rfl

variable [VirtioDevice D M]

theorem writeRegister_queue {fuel : Nat} (hreg : reg.ofQueue = true)
    {b b' : Bus D M} {u : Unit} (h : writeRegister fuel (u32ToLe val) reg b = .ok u b') :
    ∃ q, b.transport.queues[b.transport.queueSel]? = some q ∧ b' = { b with transport := { b.transport with
        queues := b.transport.queues.set b.transport.queueSel (q.written val reg) } } := by
  have haddr {f : VirtioQueue → UInt32 → VirtioQueue} (h : writeQueueAddr (u32ToLe val) f b = .ok u b') :
      ∃ q, b.transport.queues[b.transport.queueSel]? = some q ∧
        b' = { b with transport := { b.transport with
          queues := b.transport.queues.set b.transport.queueSel (f q val) } } := by
    obtain ⟨val', t, hval, hrest⟩ := bind_eq_ok.mp h
    obtain ⟨hval, rfl⟩ := lift_eq_ok.mp hval
    rw [readU32FromData_toLe] at hval
    cases hval
    obtain ⟨q, t', hsel, hset⟩ := bind_eq_ok.mp hrest
    obtain ⟨rfl, hq⟩ := selected_eq_ok hsel
    exact ⟨q, hq, setRegs_eq_ok.mp hset⟩
  cases reg with
  | queueNum =>
    obtain ⟨lo, t, hlo, hrest⟩ := bind_eq_ok.mp h
    obtain ⟨hi, t', hhi, hrest'⟩ := bind_eq_ok.mp hrest
    obtain ⟨q, t'', hsel, hset⟩ := bind_eq_ok.mp hrest'
    obtain ⟨hlo, rfl⟩ := lift_eq_ok.mp hlo
    obtain ⟨hhi, rfl⟩ := lift_eq_ok.mp hhi
    rw [index_toLe_zero] at hlo
    rw [index_toLe_one] at hhi
    cases hlo
    cases hhi
    obtain ⟨rfl, hq⟩ := selected_eq_ok hsel
    refine ⟨q, hq, ?_⟩
    rw [setRegs_eq_ok.mp hset, u16FromLe_toLe_low]
    rfl
  | queueReady =>
    obtain ⟨q, t, hsel, hrest⟩ := bind_eq_ok.mp h
    obtain ⟨rfl, hq⟩ := selected_eq_ok hsel
    obtain ⟨byte, t', hbyte, hset⟩ := bind_eq_ok.mp hrest
    obtain ⟨hbyte, rfl⟩ := lift_eq_ok.mp hbyte
    rw [index_toLe_zero] at hbyte
    cases hbyte
    exact ⟨q, hq, setRegs_eq_ok.mp hset⟩
  | queueDescLow | queueDescHigh | queueAvailLow | queueAvailHigh | queueUsedLow | queueUsedHigh => exact haddr h
  | _ => cases hreg

/-! ### Everything else -/

omit [VirtioDevice D M] in
def Bus.queueRegs (b : Bus D M) : List (UInt16 × Bool × UInt64 × UInt64 × UInt64) × Nat :=
  (b.transport.queues.map VirtioQueue.regs, b.transport.queueSel)

section Moves

variable (hD : ServesInOrder D M) (hupdate : UpdateKeepsQueues D M)
include hD hupdate

theorem keepsRegs_move {k : MoveKind} {b b' : Bus D M} (h : Move k b b') (hk : k ∉ [.select, .queue, .clear]) :
    b'.queueRegs = b.queueRegs := by
  cases h with
  | irq | regs | pending | device => rfl
  | select | queue | clear => exact absurd (by simp) hk
  | @tick _ fuel idx queue c worked hqueue htick =>
    obtain ⟨heads, hserved⟩ := hD _ _ _ _ _ htick
    obtain ⟨hq, _, _⟩ := ring_eq_iff.mp hserved
    -- The device moves the places in the rings on, which are no registers.
    have hregs : c.queue.regs = queue.regs := by
      rw [hq]
      rfl
    refine Prod.ext ?_ rfl
    show (b.transport.queues.set idx c.queue).map regs = _
    have hsame : (b.transport.queues.map regs)[idx]? = some queue.regs := by
      rw [List.getElem?_map, hqueue]
      rfl
    obtain ⟨hlt, hget⟩ := List.getElem?_eq_some_iff.mp hsame
    rw [List.map_set, hregs, ← hget]
    exact List.set_getElem_self hlt
  | update _ hdev =>
    cases hupdate _ _ _ _ hdev
    rfl

theorem keepsRegs_of_moves {kinds : List MoveKind} {x : Program (Bus D M) α} (hx : Moves kinds x)
    (hkinds : ∀ k ∈ kinds, k ∉ [.select, .queue, .clear]) : Keeps Bus.queueRegs x :=
  hx.keeps fun k hk _ _ hmove => keepsRegs_move hD hupdate hmove (hkinds k hk)

theorem keepsRegs_writeRegister (fuel : Nat) (data : Bytes) (hqueue : reg.ofQueue = false)
    (hsel : reg ≠ .queueSel) (hstatus : reg ≠ .status) :
    Keeps Bus.queueRegs (writeRegister fuel data reg : Program (Bus D M) Unit) := by
  refine keepsRegs_of_moves hD hupdate (moves_writeRegister fuel data reg) ?_
  cases reg <;> simp_all [Register.moveKinds, Register.ofQueue]

end Moves

/-! ### Runs -/

omit [VirtioDevice D M] in
/-- Every queue has the values that were written for it, and the queue that the driver selected is the
one that the transport has selected, if there is such a queue. -/
structure Described (f : RegisterFile) (b : Bus D M) : Prop where
  queues : ∀ i q, b.transport.queues[i]? = some q → f.Describes i q
  sel : f.sel < b.transport.queues.length → b.transport.queueSel = f.sel

omit [VirtioDevice D M] in
theorem Described.of_regs {b b' : Bus D M} (h : Described f b)
    (hregs : b'.queueRegs = b.queueRegs) : Described f b' := by
  obtain ⟨hqueues, hsel⟩ := Prod.mk.inj hregs
  have hlength : b'.transport.queues.length = b.transport.queues.length := by
    simpa using congrArg List.length hqueues
  refine ⟨fun i q' hq' => ?_, fun hlt => hsel.trans (h.sel (hlength ▸ hlt))⟩
  have hget : (b.transport.queues.map regs)[i]? = some q'.regs := by
    rw [← hqueues, List.getElem?_map, hq']
    rfl
  rw [List.getElem?_map, Option.map_eq_some_iff] at hget
  obtain ⟨q, hq, hsame⟩ := hget
  exact (h.queues i q hq).of_regs hsame.symm

omit [VirtioDevice D M] in
/-- The write is to a register of a queue that exists, or changes nothing where it goes. -/
def Addressed (b : Bus D M) (f : RegisterFile) (reg : Register) (val : UInt32) : Prop :=
  f.sel < b.transport.queues.length ∨
    ∀ q, b.transport.queues[b.transport.queueSel]? = some q → q.written val reg = q

theorem describes_other {i : Nat} {q : VirtioQueue} (h : f.Describes i q)
    (hreg : reg.ofQueue = true) (val : UInt32) (hi : i ≠ f.sel) : (f.write reg val).Describes i q := by
  have hvalue (r : Register) : (f.write reg val).value i r = f.value i r := by
    rw [write_eq_last hreg, RegisterFile.value, RegisterFile.value]
    simp [hi]
  obtain ⟨hsize, hready, hdesc, havail, hused⟩ := h
  constructor <;> simp only [hvalue] <;> assumption

section QueueWrite

variable {f : RegisterFile} {b b' : Bus D M} (hb : Described f b) {reg : Register} (hreg : reg.ofQueue = true)
  {val : UInt32} {fuel : Nat} {u : Unit} (h : writeRegister fuel (u32ToLe val) reg b = .ok u b')
include hb hreg h

theorem only_selected_iff :
    (∀ i, i ≠ f.sel → b'.transport.queues[i]? = b.transport.queues[i]?) ↔ Addressed b f reg val := by
  obtain ⟨q, hq, rfl⟩ := writeRegister_queue hreg h
  obtain ⟨hlt, hget⟩ := List.getElem?_eq_some_iff.mp hq
  show (∀ i, i ≠ f.sel → (b.transport.queues.set b.transport.queueSel (q.written val reg))[i]? = _) ↔ _
  by_cases hsel : f.sel < b.transport.queues.length
  · refine iff_of_true (fun i hi => ?_) (Or.inl hsel)
    rw [List.getElem?_set_ne (hb.sel hsel ▸ hi.symm)]
  · constructor
    · intro hsame
      refine Or.inr fun q' hq' => ?_
      have hne : b.transport.queueSel ≠ f.sel := fun heq => hsel (heq ▸ hlt)
      have hwritten := hsame _ hne
      rw [List.getElem?_set_self hlt, hq'] at hwritten
      rw [hq] at hq'
      cases hq'
      exact Option.some.inj hwritten
    · rintro (hexists | hnothing) i _
      · exact absurd hexists hsel
      · rw [hnothing q hq, ← hget, List.set_getElem_self hlt]

theorem described_queueWrite (haddressed : Addressed b f reg val) : Described (f.write reg val) b' := by
  have hothers := (only_selected_iff hb hreg h).mpr haddressed
  obtain ⟨q, hq, rfl⟩ := writeRegister_queue hreg h
  have hsame : (f.write reg val).sel = f.sel := by rw [write_eq_last hreg]
  refine ⟨fun i q' hq' => ?_, fun hlt => ?_⟩
  · by_cases hi : i = f.sel
    · subst hi
      obtain ⟨hlt, _⟩ := List.getElem?_eq_some_iff.mp hq'
      have hsel := hb.sel (by simpa using hlt)
      rw [hsel] at hq
      have hself : (b.transport.queues.set b.transport.queueSel (q.written val reg))[f.sel]? = some q' := hq'
      rw [hsel, List.getElem?_set_self (by simpa using hlt)] at hself
      cases hself
      exact describes_written (hb.queues _ _ hq) hreg val
    · rw [hothers i hi] at hq'
      exact describes_other (hb.queues i q' hq') hreg val hi
  · rw [hsame] at hlt ⊢
    exact hb.sel (by simpa using hlt)

end QueueWrite

theorem described_select {b b' : Bus D M} (hb : Described f b) {fuel : Nat}
    {u : Unit} (h : writeRegister fuel (u32ToLe val) .queueSel b = .ok u b') :
    Described (f.write .queueSel val) b' := by
  obtain ⟨val', t, hval, hset⟩ := bind_eq_ok.mp h
  obtain ⟨hval, rfl⟩ := lift_eq_ok.mp hval
  rw [readU32FromData_toLe] at hval
  cases hval
  show Described { f with sel := val.toNat } b'
  obtain rfl := setRegs_eq_ok.mp hset
  have hqueues (i : Nat) (q : VirtioQueue) (hq : b.transport.queues[i]? = some q) :
      { f with sel := val.toNat }.Describes i q := by
    obtain ⟨hsize, hready, hdesc, havail, hused⟩ := hb.queues i q hq
    exact ⟨hsize, hready, hdesc, havail, hused⟩
  by_cases hlt : val.toNat < b.transport.queues.length
  · simp only [if_pos hlt]
    exact ⟨hqueues, fun _ => rfl⟩
  · simp only [if_neg hlt]
    exact ⟨hqueues, fun hexists => absurd hexists hlt⟩

theorem described_status (hD : ServesInOrder D M) (hupdate : UpdateKeepsQueues D M)
    {b b' : Bus D M} (hb : Described f b) {fuel : Nat} {u : Unit}
    (h : writeRegister fuel (u32ToLe val) .status b = .ok u b') : Described (f.write .status val) b' := by
  have hstatus := moves_setStatus (D := D) (M := M) (by decide : _ ∈ [MoveKind.irq, .device, .regs]) val
  obtain ⟨val', t, hval, hset⟩ := bind_eq_ok.mp h
  obtain ⟨hval, rfl⟩ := lift_eq_ok.mp hval
  rw [readU32FromData_toLe] at hval
  cases hval
  unfold writeStatus at hset
  by_cases hzero : val = 0
  · have hnoted : f.write .status val = .empty := if_pos ⟨rfl, hzero⟩
    rw [hnoted]
    rw [if_pos hzero] at hset
    obtain ⟨_, t1, hclear, hrest⟩ := bind_eq_ok.mp hset
    have hcleared : Described .empty t1 := by
      rw [setRegs_eq_ok.mp hclear]
      refine ⟨fun i q hq => ?_, fun _ => rfl⟩
      have hmap : (b.transport.queues.map fun _ => VirtioQueue.new)[i]? = some q := hq
      rw [List.getElem?_map, Option.map_eq_some_iff] at hmap
      obtain ⟨_, _, rfl⟩ := hmap
      exact RegisterFile.describes_new _ _ rfl
    have hmoves := (Moves.setIrqLine (by decide) false).bind fun _ =>
      (moves_resetDevice (by decide)).bind fun _ => hstatus
    exact hcleared.of_regs (keepsRegs_of_moves hD hupdate hmoves (by decide) t1 _ b' hrest)
  · have hnoted : f.write .status val = f := by
      rw [RegisterFile.write, if_neg fun hboth => hzero hboth.2, if_neg (by decide), if_neg (by decide)]
    rw [hnoted]
    rw [if_neg hzero] at hset
    exact hb.of_regs (keepsRegs_of_moves hD hupdate hstatus (by decide) b _ b' hset)

theorem described_write (hD : ServesInOrder D M) (hupdate : UpdateKeepsQueues D M)
    {b b' : Bus D M} (hb : Described f b) {fuel : Nat} {u : Unit}
    (h : writeRegister fuel (u32ToLe val) reg b = .ok u b')
    (haddressed : reg.ofQueue = true → Addressed b f reg val) : Described (f.write reg val) b' := by
  cases hqueue : reg.ofQueue with
  | true => exact described_queueWrite hb hqueue h (haddressed hqueue)
  | false =>
    by_cases hsel : reg = .queueSel
    · subst hsel
      exact described_select hb h
    by_cases hstatus : reg = .status
    · subst hstatus
      exact described_status hD hupdate hb h
    have hnoted : f.write reg val = f := by
      rw [RegisterFile.write, if_neg fun hboth => hstatus hboth.1, if_neg hsel, if_neg (by rw [hqueue]; decide)]
    rw [hnoted]
    exact hb.of_regs (keepsRegs_writeRegister hD hupdate fuel _ hqueue hsel hstatus b _ b' h)

end

def RegisterFile.note {M : Type} (f : RegisterFile) : MachineEvent M → RegisterFile
  | .write addr data => f.write (Register.ofAddr addr) (u32FromLe data)
  | _ => f

def FourBytes {M : Type} : MachineEvent M → Prop
  | .write _ data => data.length = 4
  | _ => True

/-- A machine beside what its driver wrote, from creation on. -/
def registerSystem (D M : Type) [VirtioDevice D M] : System (Machine D M × RegisterFile) (MachineEvent M) where
  init s := (machineSystem D M).init s.1 ∧ s.2 = .empty
  step s e s' := Machine.Step s.1 e s'.1 ∧ FourBytes e ∧ s'.2 = s.2.note e

def WritesAddressed {D M : Type} (s : Machine D M × RegisterFile) : MachineEvent M → Prop
  | .write addr data => (Register.ofAddr addr).ofQueue = true →
      Addressed s.1.bus s.2 (Register.ofAddr addr) (u32FromLe data)
  | _ => True

section

variable {D M : Type} [VirtioDevice D M]

theorem described_step (hD : ServesInOrder D M) (hupdate : UpdateKeepsQueues D M)
    {s s' : Machine D M × RegisterFile} {e : MachineEvent M} (hs : Described s.2 s.1.bus)
    (hwrites : WritesAddressed s e) (h : (registerSystem D M).step s e s') : Described s'.2 s'.1.bus := by
  obtain ⟨m, f⟩ := s
  obtain ⟨m', f'⟩ := s'
  obtain ⟨hstep, hwidth, rfl⟩ := h
  cases hstep with
  | read h =>
    obtain ⟨_, hx, _⟩ := h
    exact hs.of_regs (keepsRegs_of_moves hD hupdate (moves_read _ _) (by decide) m.bus _ m'.bus hx)
  | @write _ addr data fuel h =>
    obtain ⟨_, hx, _⟩ := h
    rw [← u32ToLe_fromLe hwidth] at hx
    exact described_write hD hupdate hs hx hwrites
  | tick fuel h =>
    obtain ⟨_, hx, _⟩ := h
    exact hs.of_regs (keepsRegs_of_moves hD hupdate (moves_tick fuel) (by decide) m.bus _ m'.bus hx)
  | passGuestMemory => exact hs.of_regs rfl
  | memory mem => exact hs.of_regs rfl
  | otherIrq irq _ => exact hs.of_regs rfl
  | handleIrqs => exact hs.of_regs rfl

theorem described_of_reached (hD : ServesInOrder D M) (hupdate : UpdateKeepsQueues D M)
    {s : Machine D M × RegisterFile} (h : (registerSystem D M).ReachedBy WritesAddressed s) :
    Described s.2 s.1.bus := by
  refine h.invariant (I := fun s => Described s.2 s.1.bus) ?_
    fun _ _ _ hs hwrites hstep => described_step hD hupdate hs hwrites hstep
  rintro ⟨m, f⟩ ⟨⟨device, queueNum, irqSel, hasIrqHandler, mem, rfl⟩, rfl⟩
  refine ⟨fun i q hq => ?_, fun _ => rfl⟩
  rw [List.eq_of_mem_replicate (List.mem_of_getElem? hq)]
  exact RegisterFile.describes_new _ _ rfl

end

/-- **The queue registers are a register file.** In a run whose writes to the registers of a queue come
while a queue is selected that exists, or change nothing, every queue holds what was last written for it;
and the next such write leaves all queues but the selected one alone if and only if it is of that kind. -/
theorem queue_registers_iff {H : HostOs} {W M : Type} [GuestMemory M] [DisplayBackend W]
    {m : Machine (Device H W) M} {f : RegisterFile}
    (h : (registerSystem (Device H W) M).ReachedBy WritesAddressed (m, f)) :
    (∀ i q, m.bus.transport.queues[i]? = some q → f.Describes i q) ∧
      ∀ addr val m', (Register.ofAddr addr).ofQueue = true → Machine.Step m (.write addr (u32ToLe val)) m' →
        ((∀ i, i ≠ f.sel → m'.bus.transport.queues[i]? = m.bus.transport.queues[i]?) ↔
          Addressed m.bus f (Register.ofAddr addr) val) := by
  have hdescribed := described_of_reached servesInOrder_device updateKeepsQueues_device h
  refine ⟨hdescribed.queues, fun addr val m' hreg hstep => ?_⟩
  cases hstep with
  | write fuel hwrite =>
    obtain ⟨_, hx, _⟩ := hwrite
    exact only_selected_iff hdescribed hreg hx

/-- A machine with one queue on which queue 0 is sized, up to the selection of queue 1. -/
def sizedOne : Machine BareDevice Ram := Machine.new bareRng 1 5 false oneChain
def sizedTwo := sizedOne.after (MMIOTransport.write 0 0x038 (u32ToLe 16))
def sizedThree := sizedTwo.after (MMIOTransport.write 0 0x030 (u32ToLe 1))
def sizedFour := sizedThree.after (MMIOTransport.write 0 0x038 (u32ToLe 4))

theorem sizedTwo_reached :
    (registerSystem BareDevice Ram).ReachedBy WritesAddressed (sizedTwo, RegisterFile.empty.write .queueNum 16) := by
  have hnew : (registerSystem BareDevice Ram).ReachedBy WritesAddressed (sizedOne, .empty) :=
    .init ⟨⟨_, _, _, _, _, rfl⟩, rfl⟩
  refine .step (e := .write 0x038 (u32ToLe 16)) hnew ?_
    ⟨Machine.Step.write 0 (Machine.performs_after (by decide)), rfl, rfl⟩
  intro _
  exact Or.inl (by decide)

theorem queue_registers_sized :
    (∀ i q, sizedTwo.bus.transport.queues[i]? = some q → (RegisterFile.empty.write .queueNum 16).Describes i q) ∧
      ∀ addr val m', (Register.ofAddr addr).ofQueue = true → Machine.Step sizedTwo (.write addr (u32ToLe val)) m' →
        ((∀ i, i ≠ (RegisterFile.empty.write .queueNum 16).sel →
            m'.bus.transport.queues[i]? = sizedTwo.bus.transport.queues[i]?) ↔
          Addressed sizedTwo.bus (RegisterFile.empty.write .queueNum 16) (Register.ofAddr addr) val) :=
  queue_registers_iff sizedTwo_reached

/-- What the driver wrote up to then, and in the next write. -/
def wroteThree : RegisterFile := (RegisterFile.empty.write .queueNum 16).write .queueSel 1
def wroteFour : RegisterFile := wroteThree.write .queueNum 4

/-- With queue 1 selected, which does not exist, a write to `QueueNum` changes the size of queue 0, for
which 16 was written. -/
theorem write_to_missing_queue_lands :
    (registerSystem BareDevice Ram).Reachable (sizedFour, wroteFour) ∧ wroteThree.sel = 1 ∧
      sizedThree.bus.transport.queues.map (·.size) = [16] ∧ sizedFour.bus.transport.queues.map (·.size) = [4] ∧
      wroteFour.value 0 .queueNum = 16 ∧
      ¬∀ i q, sizedFour.bus.transport.queues[i]? = some q → wroteFour.Describes i q := by
  have htwo : (registerSystem BareDevice Ram).Reachable (sizedTwo, RegisterFile.empty.write .queueNum 16) :=
    System.ReachedBy.mono (fun _ _ _ => trivial) sizedTwo_reached
  have hthree : (registerSystem BareDevice Ram).Reachable (sizedThree, wroteThree) :=
    htwo.next (e := .write 0x030 (u32ToLe 1))
      ⟨Machine.Step.write 0 (Machine.performs_after (by decide)), rfl, rfl⟩
  have hsizes : sizedFour.bus.transport.queues.map (·.size) = [4] := by decide
  refine ⟨?_, rfl, by decide, hsizes, rfl, fun hall => ?_⟩
  · exact hthree.next (e := .write 0x038 (u32ToLe 4))
      ⟨Machine.Step.write 0 (Machine.performs_after (by decide)), rfl, rfl⟩
  · have hget : (sizedFour.bus.transport.queues.map (·.size))[0]? = some 4 := by rw [hsizes]; rfl
    rw [List.getElem?_map, Option.map_eq_some_iff] at hget
    obtain ⟨q, hq, hsize⟩ := hget
    have hwritten := (hall 0 q hq).size
    rw [hsize] at hwritten
    exact absurd hwritten (by decide)

end FerrumVM
