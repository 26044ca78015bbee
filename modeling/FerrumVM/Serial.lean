import Mathlib.Data.List.Induction
import FerrumVM.InterruptLine

/-! The serial port of `devices/serial.rs`: the keyboard thread that fills its input queue, its registers,
and the interrupt line it commands. The port and the handler it shares with the rest of the machine are
one state, `Com`; a run interleaves keys, ticks, accesses of the guest and the machine taking the
interrupt commands. -/

namespace FerrumVM

open Base

variable {c : Com} {port : UInt16}

/-! ### The keyboard thread -/

inductive KeyCode where
  | char (c : Char)
  | enter | backspace | delete | esc | tab | backTab
  | up | down | right | left
  | home | end' | pageUp | pageDown | insert
  | f (n : UInt8)
  /-- Any key the thread does not know. -/
  | other
  deriving DecidableEq, Repr

/-- A key event as the terminal reports it. The thread looks at the control modifier, alone or with others. -/
structure KeyEvent where
  code : KeyCode
  press : Bool
  control : Bool
  otherModifiers : Bool
  deriving DecidableEq, Repr

/-- What the thread does with an event: leave the process, or append bytes to the queue. -/
inductive KeyAction where
  | exit
  | append (bytes : Bytes)
  deriving DecidableEq, Repr

def escape (text : List Char) : Bytes := 0x1b :: text.map fun c => UInt8.ofNat c.toNat

def KeyCode.bytes : KeyCode → Bytes
  | .char c => String.utf8EncodeChar c
  | .enter => [0x0d]
  | .backspace => [0x7f]
  | .delete => escape ['[', '3', '~']
  | .esc => [0x1b]
  | .tab => [0x09]
  | .backTab => escape ['[', 'Z']
  | .up => escape ['[', 'A']
  | .down => escape ['[', 'B']
  | .right => escape ['[', 'C']
  | .left => escape ['[', 'D']
  | .home => escape ['[', 'H']
  | .end' => escape ['[', 'F']
  | .pageUp => escape ['[', '5', '~']
  | .pageDown => escape ['[', '6', '~']
  | .insert => escape ['[', '2', '~']
  | .f n =>
    match n.toNat with
    | 1 => escape ['O', 'P']
    | 2 => escape ['O', 'Q']
    | 3 => escape ['O', 'R']
    | 4 => escape ['O', 'S']
    | 5 => escape ['[', '1', '5', '~']
    | 6 => escape ['[', '1', '7', '~']
    | 7 => escape ['[', '1', '8', '~']
    | 8 => escape ['[', '1', '9', '~']
    | 9 => escape ['[', '2', '0', '~']
    | 10 => escape ['[', '2', '1', '~']
    | 11 => escape ['[', '2', '3', '~']
    | 12 => escape ['[', '2', '4', '~']
    | _ => []
  | .other => []

def KeyEvent.action (e : KeyEvent) : KeyAction :=
  if ¬e.press then .append []
  else if e.code = .char 'z' ∧ e.control ∧ ¬e.otherModifiers then .exit
  else
    match e.code, e.control with
    | .char c, true => .append [UInt8.ofNat c.toNat &&& 0x1F]
    | code, _ => .append code.bytes

/-! ### The port -/

inductive SerialMode where
  | terminal
  | logFile
  deriving DecidableEq, Repr

structure Serial where
  /-- Bytes the guest may read, front first. -/
  data : Bytes
  hasIrqHandler : Bool
  /-- What the keyboard thread appended and no tick has taken yet. -/
  queue : Bytes
  mode : SerialMode
  /-- What was handed to the terminal or to the log file. -/
  written : Bytes
  ier : UInt8
  iir : UInt8
  fcr : UInt8
  lcr : UInt8
  mcr : UInt8
  lsr : UInt8
  msr : UInt8
  scr : UInt8
  dll : UInt8
  dlh : UInt8
  thrEmpty : Bool
  deriving DecidableEq, Repr

namespace Serial

def new (mode : SerialMode) : Serial where
  data := []
  hasIrqHandler := false
  queue := []
  mode := mode
  written := []
  ier := 0
  iir := 0x01
  fcr := 0
  lcr := 0
  mcr := 0
  lsr := 0x60
  msr := 0
  scr := 0
  dll := 0
  dlh := 0
  thrEmpty := true

def dlab (s : Serial) : Bool := s.lcr &&& 0x80 != 0

/-- The FIFO bits of the interrupt identification, as the FIFO control register asks for them. -/
def fifoBits (fcr iir : UInt8) : UInt8 := if fcr &&& 0x01 != 0 then iir ||| 0xC0 else iir &&& ~~~0xC0

/-- The identification of a pending interrupt of the given kind. -/
def identified (kind iir : UInt8) : UInt8 := (iir &&& ~~~0x01 &&& 0xF1 : UInt8) ||| (kind <<< 1)

/-- The new interrupt identification, and whether an interrupt is pending. -/
def identify (s : Serial) : UInt8 × Bool :=
  let iir := fifoBits s.fcr s.iir
  if s.ier &&& 0x01 != 0 && !s.data.isEmpty then (identified 0x04 iir, true)
  else if s.ier &&& 0x02 != 0 && s.thrEmpty then (identified 0x02 iir, true)
  else (iir ||| 0x01, false)

def updateLsr (s : Serial) : Serial :=
  let lsr := s.lsr ||| 0x60
  { s with lsr := if s.data.isEmpty then lsr &&& ~~~0x01 else lsr ||| 0x01 }

/-- Take bytes from the back of the buffer, and fill up with zeros. -/
def popData : Nat → Bytes → Bytes × Bytes
  | 0, data => ([], data)
  | length + 1, data =>
    let (out, rest) := popData length data.dropLast
    (data.getLast?.getD 0 :: out, rest)

/-- Move the input queue to the buffer, the last byte first. -/
def takeQueue (s : Serial) : Serial := { s with data := s.data ++ s.queue.reverse, queue := [] }

end Serial

structure Com where
  serial : Serial
  irqHandler : IRQHandler
  deriving DecidableEq, Repr

namespace Com

/-- `trigger_irq` and `deassert_irq`: command line 4, if a handler is attached. -/
def commandIrq (value : Bool) (c : Com) : Com :=
  if c.serial.hasIrqHandler then { c with irqHandler := c.irqHandler.triggerIrq ⟨4, value⟩ } else c

def updateIir (c : Com) : Com :=
  let wasPending := c.serial.iir &&& 0x01 == 0
  let (iir, nowPending) := c.serial.identify
  let c := { c with serial := { c.serial with iir := iir } }
  if nowPending && !wasPending then c.commandIrq true
  else if !nowPending && wasPending then c.commandIrq false
  else c

def input (port : UInt16) (length : Nat) (c : Com) : Bytes × Com :=
  let s := c.serial
  match port.toNat with
  | 0 =>
    if s.dlab then (List.replicate length s.dll, c)
    else
      let (out, data) := Serial.popData length s.data
      (out, { c with serial := { s with data := data } }.updateIir)
  | 1 => (List.replicate length (if s.dlab then s.dlh else s.ier), c)
  | 2 => (List.replicate length s.iir, c)
  | 3 => (List.replicate length s.lcr, c)
  | 4 => (List.replicate length s.mcr, c)
  | 5 =>
    let s := s.updateLsr
    (List.replicate length s.lsr, { c with serial := s })
  | 6 => (List.replicate length s.msr, c)
  | 7 => (List.replicate length s.scr, c)
  | _ => (List.replicate length 0, c)

/-- What a write to the transmit register hands to the terminal or to the log file. -/
def emitted (mode : SerialMode) (val : UInt8) (data : Bytes) : Bytes :=
  match mode with
  | .terminal => String.utf8EncodeChar (Char.ofNat val.toNat)
  | .logFile => data

def output (port : UInt16) (data : Bytes) (c : Com) : Exec Com :=
  let s := c.serial
  match data with
  | [] => .error (.panic .bounds)
  | val :: _ =>
    .ok <| match port.toNat with
    | 0 =>
      if s.dlab then { c with serial := { s with dll := val } }
      else { c with serial := { s with written := s.written ++ emitted s.mode val data, thrEmpty := true } }.updateIir
    | 1 =>
      if s.dlab then { c with serial := { s with dlh := val } }
      else { c with serial := { s with ier := val &&& 0x0F } }.updateIir
    | 2 => { c with serial := { s with fcr := val, iir := Serial.fifoBits val s.iir } }.updateIir
    | 3 => { c with serial := { s with lcr := val } }
    | 4 => { c with serial := { s with mcr := val } }
    | 7 => { c with serial := { s with scr := val } }
    | _ => c

def tick (c : Com) : Com :=
  let c := { c with serial := c.serial.takeQueue }.updateIir
  { c with serial := c.serial.updateLsr }

end Com

/-! ### Runs -/

/-- What can happen at the port: a key, a tick, an access of the guest, the machine taking the commands. -/
inductive ComEvent where
  | key (e : KeyEvent)
  | tick
  | input (port : UInt16) (length : Nat)
  | output (port : UInt16) (data : Bytes)
  | handleIrqs
  deriving DecidableEq, Repr

/-- A port in a run, with what was typed so far, what the guest read of it, and the commands the machine took. -/
structure ComRun where
  com : Com
  typed : Bytes
  received : Bytes
  delivered : List IRQCommand
  deriving DecidableEq, Repr

namespace ComRun

/-- The bytes of a read that are not padding: of a read of the data register, as many as were there. -/
def dataRead (s : Serial) (port : UInt16) (out : Bytes) : Bytes :=
  if port.toNat = 0 ∧ ¬s.dlab then out.take s.data.length else []

/-- The port after an event; `none` when the event ends the process or panics. -/
def next (r : ComRun) : ComEvent → Option ComRun
  | .key e =>
    match e.action with
    | .exit => none
    | .append bytes =>
      some { r with
        com := { r.com with serial := { r.com.serial with queue := r.com.serial.queue ++ bytes } }
        typed := r.typed ++ bytes }
  | .tick => some { r with com := r.com.tick }
  | .input port length =>
    let (out, com) := r.com.input port length
    some { r with com := com, received := r.received ++ dataRead r.com.serial port out }
  | .output port data =>
    match r.com.output port data with
    | .ok com => some { r with com := com }
    | .error _ => none
  | .handleIrqs =>
    let (commands, irqHandler) := r.com.irqHandler.handleIrqs
    some { r with com := { r.com with irqHandler := irqHandler }, delivered := r.delivered ++ commands }

def start (mode : SerialMode) : ComRun where
  com := { serial := { Serial.new mode with hasIrqHandler := true }, irqHandler := IRQHandler.new }
  typed := []
  received := []
  delivered := []

end ComRun

def comSystem : System ComRun ComEvent where
  init r := ∃ mode, r = ComRun.start mode
  step r e r' := r.next e = some r'

/-! ### Terminal input -/

namespace Serial

theorem reverse_eq_popData (length : Nat) (data : Bytes) :
    data.reverse = (popData length data).1.take data.length ++ (popData length data).2.reverse := by
  induction length generalizing data with
  | zero => simp [popData]
  | succ length ih =>
    induction data using List.reverseRecOn with
    | nil => simpa [popData] using ih []
    | append_singleton front last =>
      have hfront := ih front
      simp only [popData, List.dropLast_concat, List.getLast?_concat, Option.getD_some, List.reverse_concat,
        List.length_append, List.length_singleton, List.take_succ_cons, List.cons_append]
      rw [← hfront]

theorem drop_popData (length : Nat) (data : Bytes) :
    (popData length data).1.drop data.length = List.replicate (length - data.length) 0 := by
  induction length generalizing data with
  | zero => simp [popData]
  | succ length ih =>
    induction data using List.reverseRecOn with
    | nil => simpa [popData, List.replicate_succ] using ih []
    | append_singleton front last =>
      simp only [popData, List.dropLast_concat, List.getLast?_concat, Option.getD_some, List.length_append,
        List.length_singleton, List.drop_succ_cons, Nat.add_sub_add_right]
      exact ih front

def SameInput (s s' : Serial) : Prop := s'.data = s.data ∧ s'.queue = s.queue

end Serial

namespace Com

theorem serial_commandIrq (value : Bool) (c : Com) : (c.commandIrq value).serial = c.serial := by
  unfold commandIrq
  split <;> rfl

theorem serial_updateIir (c : Com) : c.updateIir.serial = { c.serial with iir := c.serial.identify.1 } := by
  unfold updateIir
  dsimp only
  split
  · exact serial_commandIrq _ _
  · split
    · exact serial_commandIrq _ _
    · rfl

theorem serial_tick (c : Com) :
    c.tick.serial.data = c.serial.data ++ c.serial.queue.reverse ∧ c.tick.serial.queue = [] := by
  simp [tick, serial_updateIir, Serial.updateLsr, Serial.takeQueue]

theorem sameInput_output {data : Bytes} {c' : Com} (h : c.output port data = .ok c') :
    c.serial.SameInput c'.serial := by
  unfold output at h
  dsimp only at h
  split at h
  · cases h
  · injection h with h
    rw [← h]
    split <;> first
      | exact ⟨rfl, rfl⟩
      | (split <;> first | exact ⟨rfl, rfl⟩ | (rw [serial_updateIir]; exact ⟨rfl, rfl⟩))
      | (rw [serial_updateIir]; exact ⟨rfl, rfl⟩)

theorem input_data (hport : port.toNat = 0) (hdlab : c.serial.dlab = false) (length : Nat) :
    c.input port length = ((Serial.popData length c.serial.data).1,
      { c with serial := { c.serial with data := (Serial.popData length c.serial.data).2 } }.updateIir) := by
  unfold input
  simp only [hport, hdlab, Bool.false_eq_true, if_false]

theorem input_other (h : ¬(port.toNat = 0 ∧ c.serial.dlab = false)) (length : Nat) :
    (c.input port length).2 = c ∨ (c.input port length).2 = { c with serial := c.serial.updateLsr } := by
  unfold input
  dsimp only
  split
  case h_1 hport =>
    have hdlab : c.serial.dlab = true := by simpa [hport] using h
    exact .inl (by rw [if_pos hdlab])
  case h_6 => exact .inr rfl
  all_goals exact .inl rfl

theorem reverse_input (port : UInt16) (length : Nat) (c : Com) :
    (c.input port length).2.serial.queue = c.serial.queue ∧
      c.serial.data.reverse = ComRun.dataRead c.serial port (c.input port length).1 ++
        (c.input port length).2.serial.data.reverse := by
  by_cases hdata : port.toNat = 0 ∧ c.serial.dlab = false
  · rw [input_data hdata.1 hdata.2, serial_updateIir, ComRun.dataRead, if_pos (by simp [hdata])]
    exact ⟨rfl, Serial.reverse_eq_popData length c.serial.data⟩
  · rw [ComRun.dataRead, if_neg (by simpa using hdata)]
    obtain h | h := input_other hdata length
    · rw [h]
      exact ⟨rfl, rfl⟩
    · rw [h]
      exact ⟨rfl, rfl⟩

end Com

namespace ComRun

/-- What was typed is what the guest received, what it would read next, and what waits for a tick. -/
def InOrder (r : ComRun) : Prop :=
  r.typed = r.received ++ r.com.serial.data.reverse ++ r.com.serial.queue

/-- What waits for a tick and what the guest has not read yet give the same bytes in either order. -/
def Commutes (r : ComRun) : Prop :=
  r.com.serial.queue ++ r.com.serial.data.reverse = r.com.serial.data.reverse ++ r.com.serial.queue

theorem next_input (r : ComRun) (port : UInt16) (length : Nat) : r.next (.input port length) = some { r with
      com := (r.com.input port length).2
      received := r.received ++ dataRead r.com.serial port (r.com.input port length).1 } := rfl

/-- One event keeps the order, unless it is a tick that puts bytes before older ones. -/
theorem inOrder_next {r r' : ComRun} {e : ComEvent} (hr : r.InOrder) (h : r.next e = some r') :
    r'.InOrder ↔ (e = .tick → r.Commutes) := by
  unfold InOrder at hr
  have hkept (hsame : r'.InOrder) (hne : e ≠ .tick) : r'.InOrder ↔ (e = .tick → r.Commutes) :=
    ⟨fun _ htick => absurd htick hne, fun _ => hsame⟩
  unfold next at h
  cases e with
  | key k =>
    dsimp only at h
    split at h
    · cases h
    · injection h with h
      refine hkept ?_ nofun
      rw [← h, InOrder]
      dsimp only
      rw [hr, List.append_assoc]
  | tick =>
    injection h with h
    obtain ⟨hdata, hqueue⟩ := Com.serial_tick r.com
    rw [← h, InOrder]
    dsimp only
    rw [hdata, hqueue, hr, List.reverse_append, List.reverse_reverse, List.append_nil, List.append_assoc,
      List.append_cancel_left_eq]
    exact ⟨fun h _ => h.symm, fun h => (h rfl).symm⟩
  | input port length =>
    obtain rfl := Option.some.inj ((next_input r port length).symm.trans h)
    obtain ⟨hqueue, hdata⟩ := Com.reverse_input port length r.com
    refine hkept ?_ nofun
    rw [InOrder]
    dsimp only
    rw [hqueue, hr, hdata]
    simp only [List.append_assoc]
  | output port data =>
    dsimp only at h
    split at h
    · rename_i c' hout
      injection h with h
      obtain ⟨hdata, hqueue⟩ := Com.sameInput_output hout
      refine hkept ?_ nofun
      rw [← h, InOrder]
      dsimp only
      rw [hdata, hqueue, hr]
    · cases h
  | handleIrqs =>
    injection h with h
    exact hkept (by rw [← h]; exact hr) nofun

theorem input_eq_dataRead (hport : port.toNat = 0) (hdlab : c.serial.dlab = false) (length : Nat) :
    (c.input port length).1 = dataRead c.serial port (c.input port length).1 ++
      List.replicate (length - c.serial.data.length) 0 := by
  rw [Com.input_data hport hdlab, dataRead, if_pos (by simp [hport, hdlab]), ← Serial.drop_popData]
  exact (List.take_append_drop _ _).symm

theorem inOrder_start (mode : SerialMode) : (start mode).InOrder := rfl

theorem InOrder.received_typed {r : ComRun} (h : r.InOrder) : r.received <+: r.typed := by
  rw [InOrder] at h
  rw [h, List.append_assoc]
  exact List.prefix_append _ _

theorem foldlM_snoc {r r' : ComRun} {front : List ComEvent} {e : ComEvent} :
    (front ++ [e]).foldlM next r = some r' ↔ ∃ s, front.foldlM next r = some s ∧ s.next e = some r' := by
  simp [List.foldlM_append, Option.bind_eq_some_iff]

/-- **Input order.** What the guest received, what it can read and what waits is what was typed, each byte once and
in this order, in every state of a run exactly if no tick of the run finds unread bytes behind which the waiting ones
would have to go. What a read of the data register returns past the bytes that are there is zero. -/
theorem terminal_input_in_order (mode : SerialMode) (events : List ComEvent) :
    ((∀ front back r, events = front ++ back → front.foldlM next (start mode) = some r →
        r.InOrder ∧ r.received <+: r.typed) ↔
      ∀ front back r, events = front ++ .tick :: back → front.foldlM next (start mode) = some r → r.Commutes) ∧
    ∀ (c : Com) (port : UInt16) (length : Nat), port.toNat = 0 → c.serial.dlab = false →
      (c.input port length).1 = dataRead c.serial port (c.input port length).1 ++
        List.replicate (length - c.serial.data.length) 0 := by
  refine ⟨⟨fun horder front back r hsplit hfront => ?_, fun hticks front => ?_⟩,
    fun c port length hport hdlab => input_eq_dataRead hport hdlab length⟩
  · have hbefore := (horder front (.tick :: back) r hsplit hfront).1
    have hafter := (horder (front ++ [.tick]) back _ (by simp [hsplit]) (foldlM_snoc.mpr ⟨r, hfront, rfl⟩)).1
    exact (inOrder_next hbefore rfl).mp hafter rfl
  · -- the states of the run one after the other, the last event taken off
    induction front using List.reverseRecOn with
    | nil =>
      intro back r _ hstart
      obtain rfl := Option.some.inj hstart
      exact ⟨inOrder_start mode, (inOrder_start mode).received_typed⟩
    | append_singleton front e ih =>
      intro back r hsplit hrun
      rw [List.append_assoc] at hsplit
      obtain ⟨s, hfront, hnext⟩ := foldlM_snoc.mp hrun
      have hbefore := (ih (e :: back) s hsplit hfront).1
      have hafter : r.InOrder := (inOrder_next hbefore hnext).mpr fun he =>
        hticks front back s (by rw [← he]; exact hsplit) hfront
      exact ⟨hafter, hafter.received_typed⟩

def letter (c : Char) : ComEvent := .key ⟨.char c, true, false, false⟩

/-- A letter that was typed, taken by a tick and read. -/
theorem typed_letter_is_read :
    ∃ r, [letter 'a', .tick, .input 0 1].foldlM next (start .terminal) = some r ∧ r.InOrder ∧ r.received = [97] := by
  have hrun : ([letter 'a', .tick, .input 0 1].foldlM next (start .terminal)).any
      (fun r => r.received == [97]) = true := by decide
  obtain ⟨r, hr, hreceived⟩ := (Option.any_eq_true _ _).mp hrun
  have hticks (front back : List ComEvent) (s : ComRun) (hsplit : [letter 'a', .tick, .input 0 1] = front ++ .tick :: back)
      (hfront : front.foldlM next (start .terminal) = some s) : s.Commutes := by
    match front with
    | [] => cases hsplit
    | [e] =>
      obtain ⟨rfl, -⟩ := List.cons.inj hsplit
      obtain rfl := Option.some.inj hfront
      rfl
    | [_, _] => cases hsplit
    | _ :: _ :: _ :: front =>
      have hlength := congrArg List.length hsplit
      simp at hlength
  have horder := ((terminal_input_in_order .terminal [letter 'a', .tick, .input 0 1]).1.mpr hticks) _ [] r rfl hr
  exact ⟨r, hr, horder.1, beq_iff_eq.mp hreceived⟩

theorem reachable_of_run {mode : SerialMode} {events : List ComEvent} {r : ComRun}
    (h : events.foldlM next (start mode) = some r) : comSystem.Reachable r :=
  System.ReachedBy.foldlM (fun _ _ _ h => ⟨trivial, h⟩) (.init ⟨mode, rfl⟩) h

/-- Two letters, with a tick after each: the guest reads the second one first. -/
theorem letters_in_two_ticks_are_swapped :
    ∃ r, comSystem.Reachable r ∧ r.typed = [97, 98] ∧ r.received = [98, 97] ∧ ¬r.received <+: r.typed := by
  have hrun : ([letter 'a', .tick, letter 'b', .tick, .input 0 2].foldlM next (start .terminal)).any
      (fun r => r.typed == [97, 98] && r.received == [98, 97]) = true := by decide
  obtain ⟨r, hr, hbytes⟩ := (Option.any_eq_true _ _).mp hrun
  obtain ⟨htyped, hreceived⟩ := (Bool.and_eq_true _ _).mp hbytes
  rw [beq_iff_eq] at htyped hreceived
  exact ⟨r, reachable_of_run hr, htyped, hreceived, by rw [htyped, hreceived]; decide⟩

end ComRun

/-! ### The interrupt line -/

namespace Serial

/-- What the port interrupts for: data to read, or a transmit register that can take a byte. -/
def WantsIrq (s : Serial) : Prop :=
  s.ier &&& 0x01 ≠ 0 ∧ s.data ≠ [] ∨ s.ier &&& 0x02 ≠ 0 ∧ s.thrEmpty = true

theorem and_or_right (a b c : UInt8) : (a ||| b) &&& c = a &&& c ||| b &&& c :=
  UInt8.eq_of_toBitVec_eq BitVec.and_or_distrib_right

theorem fifoBits_low (fcr iir : UInt8) : fifoBits fcr iir &&& 0x3F = iir &&& 0x3F := by
  unfold fifoBits
  split
  · rw [and_or_right]
    exact UInt8.or_zero
  · rw [UInt8.and_assoc]
    rfl

theorem and_of_low {a b : UInt8} (h : a &&& 0x3F = b &&& 0x3F) (mask : UInt8) :
    a &&& (0x3F &&& mask) = b &&& (0x3F &&& mask) := by
  rw [← UInt8.and_assoc, h, UInt8.and_assoc]

theorem and_zero_or (a b : UInt8) : a &&& 0 ||| b = b := by rw [UInt8.and_zero, UInt8.zero_or]

/-- The source to be identified, in the encoding of the 16550. -/
def source (s : Serial) : UInt8 :=
  if s.ier &&& 0x01 ≠ 0 ∧ s.data ≠ [] then 0x04
  else if s.ier &&& 0x02 ≠ 0 ∧ s.thrEmpty = true then 0x02
  else 0x01

/-- The register gets the code of the source one place to the left, and keeps the code it had when there is none. -/
theorem identify_cases (s : Serial) :
    (s.WantsIrq ∧ (s.source = 0x04 ∨ s.source = 0x02) ∧
        s.identify = (fifoBits s.fcr s.iir &&& 0xF0 ||| 2 * s.source, true)) ∨
      (¬s.WantsIrq ∧ s.source = 0x01 ∧ s.identify = (fifoBits s.fcr s.iir ||| 0x01, false)) := by
  have hrx : (s.ier &&& 0x01 != 0 && !s.data.isEmpty) = true ↔ s.ier &&& 0x01 ≠ 0 ∧ s.data ≠ [] := by simp
  have hthr : (s.ier &&& 0x02 != 0 && s.thrEmpty) = true ↔ s.ier &&& 0x02 ≠ 0 ∧ s.thrEmpty = true := by simp
  simp only [identify, identified, WantsIrq, source, hrx, hthr, UInt8.and_assoc]
  by_cases hdata : s.ier &&& 0x01 ≠ 0 ∧ s.data ≠ []
  · simp only [if_pos hdata]
    exact .inl ⟨.inl hdata, .inl trivial, rfl⟩
  · simp only [if_neg hdata]
    by_cases hempty : s.ier &&& 0x02 ≠ 0 ∧ s.thrEmpty = true
    · simp only [if_pos hempty]
      exact .inl ⟨.inr hempty, .inr trivial, rfl⟩
    · simp only [if_neg hempty]
      exact .inr ⟨not_or.mpr ⟨hdata, hempty⟩, trivial, trivial⟩

theorem identify_spec (s : Serial) :
    (s.identify.2 = true ↔ s.WantsIrq) ∧ (s.identify.1 &&& 0x01 = 0 ↔ s.WantsIrq) := by
  obtain ⟨hwants, hsource, heq⟩ | ⟨hnot, _, heq⟩ := s.identify_cases
  · rw [heq]
    refine ⟨iff_of_true rfl hwants, iff_of_true ?_ hwants⟩
    rw [and_or_right, UInt8.and_assoc]
    rcases hsource with hsource | hsource <;> rw [hsource] <;> exact and_zero_or _ 0
  · rw [heq]
    refine ⟨iff_of_false Bool.false_ne_true hnot, iff_of_false (fun hzero => ?_) hnot⟩
    have hone := congrArg (· &&& (0x01 : UInt8)) hzero
    simp [and_or_right, UInt8.and_assoc] at hone

end Serial

namespace Com

variable {delivered : List IRQCommand}

def level (delivered : List IRQCommand) (c : Com) : Bool := lineLevel 4 (delivered ++ c.irqHandler.commands)

/-- The line is high exactly while the identification register reports an interrupt. -/
def LineShown (delivered : List IRQCommand) (c : Com) : Prop :=
  c.level delivered = true ↔ c.serial.iir &&& 0x01 = 0

structure Settled (delivered : List IRQCommand) (c : Com) : Prop where
  attached : c.serial.hasIrqHandler = true
  shown : c.LineShown delivered
  cause : c.serial.iir &&& 0x01 = 0 ↔ c.serial.WantsIrq

theorem level_commandIrq (hattached : c.serial.hasIrqHandler = true)
    (value : Bool) : (c.commandIrq value).level delivered = value := by
  rw [commandIrq, if_pos hattached, level, IRQHandler.triggerIrq, ← List.append_assoc, lineLevel_snoc]
  rfl

/-- Whatever changed before, the update leaves line, register and cause in agreement. -/
theorem settled_updateIir (hattached : c.serial.hasIrqHandler = true)
    (hshown : c.LineShown delivered) : c.updateIir.Settled delivered := by
  obtain ⟨hpending, hiir⟩ := c.serial.identify_spec
  refine ⟨by rw [serial_updateIir]; exact hattached, ?_, by rw [serial_updateIir]; exact hiir⟩
  rw [LineShown, serial_updateIir]
  refine Iff.trans ?_ (hpending.trans hiir.symm)
  unfold updateIir
  dsimp only
  have hattached' : ({ c with serial := { c.serial with iir := c.serial.identify.1 } } : Com).serial.hasIrqHandler =
      true := hattached
  generalize c.serial.identify.2 = nowPending
  unfold LineShown at hshown
  by_cases hwas : c.serial.iir &&& 0x01 = 0
  · have hhigh : c.level delivered = true := hshown.mpr hwas
    cases nowPending with
    | true => simpa [hwas, level] using hhigh
    | false => simp [hwas, level_commandIrq hattached']
  · have hlow : c.level delivered = false := by simpa using hshown.not.mpr hwas
    cases nowPending with
    | true => simp [hwas, level_commandIrq hattached']
    | false => simpa [hwas, level] using hlow

/-- What the interrupt logic of the port looks at, with the level of the line. -/
def irqView (delivered : List IRQCommand) (c : Com) : Bool × UInt8 × UInt8 × UInt8 × Bytes × Bool × Bool :=
  (c.serial.hasIrqHandler, c.serial.ier, c.serial.iir, c.serial.fcr, c.serial.data, c.serial.thrEmpty,
    c.level delivered)

theorem Settled.congr {delivered' : List IRQCommand} {c' : Com} (h : c.Settled delivered)
    (hview : c'.irqView delivered' = c.irqView delivered) : c'.Settled delivered' := by
  simp only [irqView, Prod.mk.injEq] at hview
  obtain ⟨hattached, hier, hiir, _, hdata, hthr, hlevel⟩ := hview
  refine ⟨hattached.trans h.attached, ?_, ?_⟩
  · rw [LineShown, hlevel, hiir]
    exact h.shown
  · rw [Serial.WantsIrq, hiir, hier, hdata, hthr]
    exact h.cause

end Com

namespace ComRun

/-- An event leaves the interrupt logic as it is, or changes what it looks at and updates the identification. -/
theorem next_cases {r r' : ComRun} {e : ComEvent} (h : r.next e = some r') :
    r'.com.irqView r'.delivered = r.com.irqView r.delivered ∨
      ∃ c : Com, r'.com.irqView r'.delivered = c.updateIir.irqView r.delivered ∧
        c.serial.hasIrqHandler = r.com.serial.hasIrqHandler ∧ c.irqHandler = r.com.irqHandler ∧
        c.serial.iir &&& 0x3F = r.com.serial.iir &&& 0x3F := by
  unfold next at h
  cases e with
  | key k =>
    dsimp only at h
    split at h
    · cases h
    · cases h
      exact .inl rfl
  | tick =>
    cases h
    exact .inr ⟨{ r.com with serial := r.com.serial.takeQueue }, rfl, rfl, rfl, rfl⟩
  | input port length =>
    obtain rfl := Option.some.inj ((next_input r port length).symm.trans h)
    by_cases hdata : port.toNat = 0 ∧ r.com.serial.dlab = false
    · rw [Com.input_data hdata.1 hdata.2]
      exact .inr ⟨_, rfl, rfl, rfl, rfl⟩
    · refine .inl ?_
      obtain hsame | hlsr := Com.input_other hdata length
      · rw [hsame]
      · rw [hlsr]
        rfl
  | output port data =>
    dsimp only at h
    split at h
    · rename_i c' hout
      cases h
      unfold Com.output at hout
      dsimp only at hout
      split at hout
      · cases hout
      · injection hout with hout
        rw [← hout]
        split
        case h_1 | h_2 =>
          split
          · exact .inl rfl
          · exact .inr ⟨_, rfl, rfl, rfl, rfl⟩
        case h_3 => exact .inr ⟨_, rfl, rfl, rfl, Serial.fifoBits_low _ _⟩
        all_goals exact .inl rfl
    · cases h
  | handleIrqs =>
    cases h
    simp [Com.irqView, Com.level, IRQHandler.new]

theorem settled_next {r r' : ComRun} {e : ComEvent} (hr : r.com.Settled r.delivered) (h : r.next e = some r') :
    r'.com.Settled r'.delivered := by
  obtain hview | ⟨c, hview, hattached, hhandler, hlow⟩ := next_cases h
  · exact hr.congr hview
  · refine Com.Settled.congr (Com.settled_updateIir (hattached.trans hr.attached) ?_) hview
    have hpending : c.serial.iir &&& 0x01 = r.com.serial.iir &&& 0x01 := Serial.and_of_low hlow 0x01
    rw [Com.LineShown, Com.level, hhandler, hpending]
    exact hr.shown

/-- **The serial interrupt line.** After every sequence of keys, ticks and accesses the level last commanded on
line 4 is high exactly while the identification register says that an interrupt is pending, which it says
exactly while there is data the guest asked to be told of, or room to transmit it asked to be told of. -/
theorem serial_line_follows_cause (r : ComRun) (hr : comSystem.Reachable r) :
    (lineLevel 4 (r.delivered ++ r.com.irqHandler.commands) = true ↔ r.com.serial.iir &&& 0x01 = 0) ∧
      (r.com.serial.iir &&& 0x01 = 0 ↔ r.com.serial.ier &&& 0x01 ≠ 0 ∧ r.com.serial.data ≠ [] ∨
          r.com.serial.ier &&& 0x02 ≠ 0 ∧ r.com.serial.thrEmpty = true) := by
  have hsettled : r.com.Settled r.delivered := by
    refine hr.invariant (I := fun r => r.com.Settled r.delivered) (fun s hs => ?_)
      fun s e s' hs hstep => settled_next hs hstep
    obtain ⟨mode, rfl⟩ := hs
    refine ⟨rfl, ?_, ?_⟩
    · simp [Com.LineShown, Com.level, start, lineLevel, IRQHandler.new, Serial.new]
    · simp [Serial.WantsIrq, start, Serial.new]
  exact ⟨hsettled.shown, hsettled.cause⟩

/-- The guest asks to be told that it can transmit, and the line goes up. -/
theorem line_rises_for_the_transmitter :
    ∃ r, comSystem.Reachable r ∧ r.com.irqHandler.commands = [⟨4, true⟩] ∧ r.com.serial.iir &&& 0x01 = 0 := by
  have hrun : ([.output 1 [0x02]].foldlM next (start .terminal)).any
      (fun r => r.com.irqHandler.commands == [⟨4, true⟩] && r.delivered == []) = true := by decide
  obtain ⟨r, hr, hstate⟩ := (Option.any_eq_true _ _).mp hrun
  have hreached := reachable_of_run hr
  obtain ⟨hcommands, hdelivered⟩ := (Bool.and_eq_true _ _).mp hstate
  rw [beq_iff_eq] at hcommands hdelivered
  refine ⟨r, hreached, hcommands, (serial_line_follows_cause r hreached).1.mp ?_⟩
  rw [hcommands, hdelivered]
  decide

end ComRun

/-! ### The interrupt identification -/

namespace Serial

/-- The register identifies the source, and shows whether the FIFOs are on. -/
def Identifies (s : Serial) : Prop :=
  s.iir &&& 0x0F = s.source ∧ s.iir &&& 0xC0 = if s.fcr &&& 0x01 ≠ 0 then 0xC0 else 0

theorem fifoBits_high (fcr iir : UInt8) : fifoBits fcr iir &&& 0xC0 = if fcr &&& 0x01 ≠ 0 then 0xC0 else 0 := by
  simp only [fifoBits, bne_iff_ne]
  split
  · refine UInt8.eq_of_toBitVec_eq (BitVec.eq_of_getLsbD_eq fun i hi => ?_)
    simp
    grind
  · rw [UInt8.and_assoc]
    exact UInt8.and_zero

/-- The register shows the code of the source one place to the left, and the FIFO bits. -/
def Shows (s : Serial) : Prop :=
  (s.WantsIrq → (s.source = 0x04 ∨ s.source = 0x02) ∧ s.iir &&& 0x0F = 2 * s.source) ∧
    s.iir &&& 0xC0 = if s.fcr &&& 0x01 ≠ 0 then 0xC0 else 0

theorem shows_identify (s : Serial) : Shows { s with iir := s.identify.1 } := by
  unfold Shows
  dsimp only
  rw [← fifoBits_high s.fcr s.iir]
  obtain ⟨_, hsource, heq⟩ | ⟨hnot, _, heq⟩ := s.identify_cases
  · rw [heq, and_or_right, and_or_right, UInt8.and_assoc, UInt8.and_assoc]
    refine ⟨fun _ => ⟨hsource, ?_⟩, ?_⟩
    · show _ = 2 * s.source
      rcases hsource with hsource | hsource
      · rw [hsource]
        exact and_zero_or _ 8
      · rw [hsource]
        exact and_zero_or _ 4
    · rcases hsource with hsource | hsource <;> rw [hsource] <;> exact UInt8.or_zero
  · refine ⟨fun hwants => absurd hwants hnot, ?_⟩
    rw [heq, and_or_right]
    exact UInt8.or_zero

end Serial

namespace ComRun

theorem shows_next {r r' : ComRun} {e : ComEvent} (hr : r.com.serial.Shows) (h : r.next e = some r') :
    r'.com.serial.Shows ∧ (¬r'.com.serial.WantsIrq → r.com.serial.iir &&& 0x0F = 0x01 →
      r'.com.serial.iir &&& 0x0F = 0x01) := by
  obtain hview | ⟨c, hview, _, _, hlow⟩ := next_cases h
  all_goals
    simp only [Com.irqView, Com.serial_updateIir, Prod.mk.injEq] at hview
    obtain ⟨_, hier, hiir, hfcr, hdata, hthr, _⟩ := hview
    simp only [Serial.Shows, Serial.WantsIrq, Serial.source, hier, hiir, hfcr, hdata, hthr]
  · exact ⟨hr, fun _ hone => hone⟩
  · refine ⟨c.serial.shows_identify, fun hnot hone => ?_⟩
    obtain ⟨hwants, _⟩ | ⟨_, _, heq⟩ := c.serial.identify_cases
    · exact absurd hwants hnot
    · have hkept := Serial.and_of_low ((Serial.fifoBits_low c.serial.fcr c.serial.iir).trans hlow) 0x0F
      rw [heq, Serial.and_or_right]
      exact congrArg (· ||| (0x01 : UInt8)) (hkept.trans hone)

theorem shows_of_run {mode : SerialMode} {events : List ComEvent} {r : ComRun}
    (h : events.foldlM next (start mode) = some r) : r.com.serial.Shows := by
  refine (reachable_of_run h).invariant (I := fun r => r.com.serial.Shows) ?_ fun s e s' hs hstep => (shows_next hs hstep).1
  rintro s ⟨mode, rfl⟩
  exact ⟨fun hwants => absurd hwants (by simp [Serial.WantsIrq, start, Serial.new]), by simp [start, Serial.new]; decide⟩

/-- **Interrupt identification.** The register identifies the source in every state of a run exactly when no state
of the run has one: the code is written one place too far to the left, and is not cleared again. -/
theorem identification_right_iff (mode : SerialMode) (events : List ComEvent) :
    (∀ front back r, events = front ++ back → front.foldlM next (start mode) = some r → r.com.serial.Identifies) ↔
      ∀ front back r, events = front ++ back → front.foldlM next (start mode) = some r → ¬r.com.serial.WantsIrq := by
  constructor
  · intro h front back r hsplit hrun hwants
    obtain ⟨hsource, hcode⟩ := (shows_of_run hrun).1 hwants
    have hdouble := (h front back r hsplit hrun).1.symm.trans hcode
    rcases hsource with hsource | hsource
    all_goals
      rw [hsource] at hdouble
      exact absurd hdouble (by decide)
  · intro h front back r hsplit hrun
    have hone : r.com.serial.iir &&& 0x0F = 0x01 := by
      induction front using List.reverseRecOn generalizing back r with
      | nil =>
        obtain rfl := Option.some.inj hrun
        exact (by decide : (0x01 : UInt8) &&& 0x0F = 0x01)
      | append_singleton front e ih =>
        obtain ⟨s, hfront, hnext⟩ := foldlM_snoc.mp hrun
        refine (shows_next (shows_of_run hfront) hnext).2 (h _ back r hsplit hrun) ?_
        exact ih (e :: back) s (by simpa using hsplit) hfront
    obtain ⟨hwants, _⟩ | ⟨_, hsource, _⟩ := r.com.serial.identify_cases
    · exact absurd hwants (h front back r hsplit hrun)
    · exact ⟨hone.trans hsource.symm, (shows_of_run hrun).2⟩

/-- The guest enables the transmitter interrupt, and the register names the receiver. -/
theorem transmitter_identified_as_receiver :
    ∃ r, [.output 1 [0x02]].foldlM next (start .terminal) = some r ∧ r.com.serial.source = 0x02 ∧
      r.com.serial.iir = 0x04 ∧ ¬r.com.serial.Identifies := by
  refine ⟨_, rfl, by decide, by decide, fun h => absurd h.1 (by decide)⟩

end ComRun

end FerrumVM
