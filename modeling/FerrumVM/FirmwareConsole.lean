import FerrumVM.Serial

/-! The output of `serial.h` on the port of `devices/serial.rs`. Keys, ticks and the delivery of interrupts come
between the accesses of the firmware in any order, and leave what it prints alone. -/

namespace FerrumVM

open Base Program

/-- The port, and what happens to it before each of the accesses that follow. -/
structure Console where
  com : Com
  schedule : Nat → Com → Com

namespace Console

/-- What the output goes by: the mode, the line control register with the divisor latch, and what was printed. -/
structure View where
  mode : SerialMode
  lcr : UInt8
  written : Bytes

def shown (c : Com) : View := ⟨c.serial.mode, c.serial.lcr, c.serial.written⟩

/-- Nothing that happens between the accesses prints or turns the latch. -/
def Background (s : Console) : Prop := ∀ n c, shown (s.schedule n c) = shown c

def next (s : Console) (com : Com) : Console := ⟨com, fun n => s.schedule (n + 1)⟩

def inb (offset : UInt16) : Program Console UInt8 := fun s =>
  let (out, com) := (s.schedule 0 s.com).input offset 1
  .ok (out.headD 0) (s.next com)

def outb (offset : UInt16) (val : UInt8) : Program Console Unit := fun s =>
  match (s.schedule 0 s.com).output offset [val] with
  | .ok com => .ok () (s.next com)
  | .error e => .error e s

def serialInit : Program Console Unit := do
  outb 1 0x00
  outb 3 0x80
  outb 0 0x03
  outb 1 0x00
  outb 3 0x03
  outb 2 0xC7
  outb 4 0x0B

/-- `while ((inb(COM1 + 5) & 0x20) == 0);`, for as many rounds as the fuel allows. -/
def awaitTransmitter : Nat → Program Console Unit
  | 0 => throw .outOfFuel
  | fuel + 1 => do if (← inb 5) &&& 0x20 = 0 then awaitTransmitter fuel

def serialPutc (fuel : Nat) (c : UInt8) : Program Console Unit := do
  awaitTransmitter fuel
  outb 0 c

def serialPuts (fuel : Nat) : Bytes → Program Console Unit
  | [] => return ()
  | c :: text => do
    if c = 0x0A then serialPutc fuel 0x0D
    serialPutc fuel c
    serialPuts fuel text

/-- What a text comes to on the port, with a carriage return before each line feed. -/
def printed (mode : SerialMode) (text : Bytes) : Bytes :=
  (text.flatMap fun c => if c = 0x0A then [0x0D, c] else [c]).flatMap fun c => Com.emitted mode c [c]

/-! ### Single accesses -/

/-- What a write to the port does to the view of it. -/
def View.after (v : View) (offset : UInt16) (val : UInt8) : View :=
  if offset.toNat = 3 then { v with lcr := val }
  else if offset.toNat = 0 ∧ v.lcr &&& 0x80 = 0 then { v with written := v.written ++ Com.emitted v.mode val [val] }
  else v

theorem shown_updateIir (c : Com) : shown c.updateIir = shown c := by
  rw [shown, Com.serial_updateIir]
  rfl

theorem shown_tick (c : Com) : shown c.tick = shown c := shown_updateIir { c with serial := c.serial.takeQueue }

theorem shown_output (c : Com) (offset : UInt16) (val : UInt8) :
    ∃ c', c.output offset [val] = .ok c' ∧ shown c' = (shown c).after offset val := by
  have hupdated {c' : Com} {v : View} (h : shown c' = v) : shown c'.updateIir = v := (shown_updateIir c').trans h
  refine ⟨_, rfl, ?_⟩
  split
  case h_1 h =>
    split
    case isTrue hdlab => simp_all [shown, View.after, Serial.dlab]
    case isFalse hdlab => exact hupdated (by simp_all [shown, View.after, Serial.dlab])
  case h_2 h =>
    split
    · simp_all [shown, View.after]
    · exact hupdated (by simp_all [shown, View.after])
  case h_3 h => exact hupdated (by simp_all [shown, View.after])
  all_goals simp_all [shown, View.after]

theorem transmitter_empty (s : Serial) : s.updateLsr.lsr &&& 0x20 ≠ 0 := by
  intro h
  have hbit := congrArg (fun n : UInt8 => n.toNat.testBit 5) h
  unfold Serial.updateLsr at hbit
  split at hbit
  · simp at hbit
    exact absurd (hbit (.inr rfl) rfl) (by decide)
  · simp at hbit
    exact absurd (hbit (.inl (.inr rfl))) (by decide)

/-! ### Programs -/

variable {s : Console} {α β : Type} {u v w : View}

/-- From a console that shows `v` the program returns, with a console that shows `w`. -/
def Turns (x : Program Console α) (v w : View) : Prop :=
  ∀ s, s.Background → shown s.com = v → ∃ a t, x s = .ok a t ∧ t.Background ∧ shown t.com = w

theorem Turns.bind {x : Program Console α} {f : α → Program Console β} (hx : Turns x u v)
    (hf : ∀ a, Turns (f a) v w) : Turns (x >>= f) u w := by
  intro s hs hu
  obtain ⟨a, t, hrun, ht, hv⟩ := hx s hs hu
  obtain ⟨b, t', hrun', ht', hw⟩ := hf a t ht hv
  exact ⟨b, t', (bind_of_ok hrun).trans hrun', ht', hw⟩

theorem turns_outb (v : View) (offset : UInt16) (val : UInt8) : Turns (outb offset val) v (v.after offset val) := by
  intro s hs hv
  obtain ⟨c, hout, hc⟩ := shown_output (s.schedule 0 s.com) offset val
  exact ⟨(), s.next c, by rw [outb, hout], fun n => hs (n + 1), by rw [next, hc, hs, hv]⟩

theorem turns_awaitTransmitter (fuel : Nat) (v : View) : Turns (awaitTransmitter (fuel + 1)) v v := by
  intro s hs hv
  have hready : ((s.schedule 0 s.com).input 5 1).1.headD 0 &&& 0x20 ≠ 0 := transmitter_empty (s.schedule 0 s.com).serial
  refine ⟨(), s.next ((s.schedule 0 s.com).input 5 1).2, ?_, fun n => hs (n + 1), (hs 0 s.com).trans hv⟩
  exact congrFun (if_neg hready) _

theorem turns_serialInit (v : View) : Turns serialInit v { v with lcr := 0x03 } := by
  have hview : ((((((v.after 1 0x00).after 3 0x80).after 0 0x03).after 1 0x00).after 3 0x03).after 2 0xC7).after 4 0x0B =
      { v with lcr := 0x03 } := by simp [View.after]
  rw [← hview]
  exact (turns_outb _ _ _).bind fun _ => (turns_outb _ _ _).bind fun _ => (turns_outb _ _ _).bind fun _ =>
    (turns_outb _ _ _).bind fun _ => (turns_outb _ _ _).bind fun _ => (turns_outb _ _ _).bind fun _ => turns_outb _ _ _

theorem turns_serialPutc (fuel : Nat) (mode : SerialMode) (front : Bytes) (c : UInt8) :
    Turns (serialPutc (fuel + 1) c) ⟨mode, 0x03, front⟩ ⟨mode, 0x03, front ++ Com.emitted mode c [c]⟩ := by
  have hout := turns_outb ⟨mode, 0x03, front⟩ 0 c
  rw [View.after, if_neg (by decide), if_pos ⟨rfl, show (0x03 : UInt8) &&& 0x80 = 0 by decide⟩] at hout
  exact (turns_awaitTransmitter fuel _).bind fun _ => hout

theorem turns_serialPuts (fuel : Nat) (mode : SerialMode) (front text : Bytes) :
    Turns (serialPuts (fuel + 1) text) ⟨mode, 0x03, front⟩ ⟨mode, 0x03, front ++ printed mode text⟩ := by
  induction text generalizing front with
  | nil => exact fun s hs hv => ⟨(), s, rfl, hs, by simp [hv, printed]⟩
  | cons c text ih =>
    rw [serialPuts]
    split_ifs with hfeed
    · have hrest := (turns_serialPutc fuel mode front 0x0D).bind fun _ =>
        (turns_serialPutc fuel mode _ c).bind fun _ => ih _
      simpa [printed, hfeed] using hrest
    · have hrest := (turns_serialPutc fuel mode front c).bind fun _ => ih _
      simpa [printed, hfeed] using hrest

/-- **Printing.** Whatever state the port is in, and whatever comes between the accesses, `serial_init` and
`serial_puts` return, and what was printed has grown by the text and nothing else. -/
theorem console_prints (hs : s.Background) (fuel : Nat) (text : Bytes) :
    ∃ t, (do serialInit; serialPuts (fuel + 1) text) s = .ok () t ∧
      t.com.serial.written = s.com.serial.written ++ printed s.com.serial.mode text := by
  obtain ⟨_, t, hrun, _, ht⟩ :=
    ((turns_serialInit _).bind fun _ => turns_serialPuts fuel _ _ text) s hs rfl
  exact ⟨t, hrun, congrArg View.written ht⟩

/-- The terminal of a new machine, with a tick before each access. -/
def terminal : Console := ⟨⟨Serial.new .terminal, .new⟩, fun _ => Com.tick⟩

theorem line_printed : ∃ t, (do serialInit; serialPuts 1 [79, 75, 10]) terminal = .ok () t ∧
      t.com.serial.written = [79, 75, 13, 10] :=
  console_prints (s := terminal) (fun _ => shown_tick) 0 _

end Console

end FerrumVM
