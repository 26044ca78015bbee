import Mathlib.Data.List.Induction

/-! The interval timer of `devices/timer.rs`: the registers through which the guest programs the divisor of
channel 0, and what a sequence of writes programs on the timer it stands for. -/

namespace FerrumVM

structure Pit where
  accessMode : UInt8
  opMode : UInt8
  divisor : UInt32
  /-- The low byte comes next. -/
  latchLo : Bool
  /-- The divisor the period in nanoseconds was computed from. -/
  period : UInt32
  programmed : Bool
  deriving DecidableEq, Repr

abbrev PitWrite := UInt16 × UInt8

namespace Pit

/-- The divisor `period_ns` divides the base frequency by. -/
def periodOf (divisor : UInt32) : UInt32 := if divisor = 0 then 65536 else divisor

def new : Pit where
  accessMode := 3
  opMode := 3
  divisor := 65536
  latchLo := true
  period := periodOf 65536
  programmed := false

def updatePeriod (s : Pit) : Pit := { s with period := periodOf s.divisor, programmed := true }

def output (s : Pit) (w : PitWrite) : Pit :=
  let val := w.2
  if w.1 = 3 then
    if (val >>> 6) &&& 3 ≠ 0 then s
    else { s with accessMode := (val >>> 4) &&& 3, opMode := (val >>> 1) &&& 7, latchLo := true, divisor := 0 }
  else if w.1 = 0 then
    if s.accessMode = 1 then updatePeriod { s with divisor := val.toUInt32 }
    else if s.accessMode = 2 then updatePeriod { s with divisor := val.toUInt32 <<< 8 }
    else if s.accessMode = 3 then
      if s.latchLo then { s with divisor := val.toUInt32, latchLo := false }
      else updatePeriod { s with divisor := s.divisor ||| val.toUInt32 <<< 8, latchLo := true }
    else s
  else s

def run (writes : List PitWrite) : Pit := writes.foldl output new

end Pit

/-! ### What the writes program -/

namespace PitWrite

def commands (w : PitWrite) (channel : UInt8) : Prop := w.1 = 3 ∧ (w.2 >>> 6) &&& 3 = channel

def access (w : PitWrite) : UInt8 := (w.2 >>> 4) &&& 3

/-- A command that latches the counter of channel 0. -/
def latches (w : PitWrite) : Prop := w.commands 0 ∧ w.access = 0

instance (w : PitWrite) : Decidable w.latches := inferInstanceAs (Decidable ((_ ∧ _) ∧ _))

end PitWrite

/-- How the bytes of a divisor are written; a pair carries the low byte it has so far. -/
inductive PitAccess where
  | low
  | high
  | pair (low : Option UInt8)

/-- Channel 0 as its data sheet has it, with the last divisor completely written. -/
structure PitChannel where
  access : PitAccess
  divisor : Nat

namespace PitChannel

def write (c : PitChannel) (w : PitWrite) : PitChannel :=
  if w.1 = 3 then
    if (w.2 >>> 6) &&& 3 ≠ 0 ∨ w.access = 0 then c
    else { c with access := if w.access = 1 then .low else if w.access = 2 then .high else .pair none }
  else if w.1 = 0 then
    match c.access with
    | .low => { c with divisor := w.2.toNat }
    | .high => { c with divisor := 256 * w.2.toNat }
    | .pair none => { c with access := .pair (some w.2) }
    | .pair (some low) => ⟨.pair none, 256 * w.2.toNat + low.toNat⟩
  else c

def written (writes : List PitWrite) : PitChannel := writes.foldl write ⟨.pair none, 65536⟩

/-- The divisor in effect: 0 stands for 65536. -/
def inEffect (c : PitChannel) : Nat := if c.divisor = 0 then 65536 else c.divisor

end PitChannel

namespace Pit

variable {s : Pit} {c : PitChannel} {w : PitWrite} {writes : List PitWrite}

def Stands (s : Pit) : PitAccess → Prop
  | .low => s.accessMode = 1
  | .high => s.accessMode = 2
  | .pair none => s.accessMode = 3 ∧ s.latchLo
  | .pair (some low) => s.accessMode = 3 ∧ s.latchLo = false ∧ s.divisor = low.toUInt32

def Holds (s : Pit) (c : PitChannel) : Prop := s.Stands c.access ∧ s.period.toNat = c.inEffect

theorem accessMode_of_stands {access : PitAccess} (h : s.Stands access) : s.accessMode ≠ 0 := by
  rcases access with _ | _ | _ | low
  all_goals simp_all [Stands]

theorem toNat_periodOf {divisor : UInt32} (h : divisor.toNat = c.divisor) :
    (periodOf divisor).toNat = c.inEffect := by
  simp only [periodOf, PitChannel.inEffect, ← h, ← UInt32.toNat_inj, UInt32.toNat_zero]
  split <;> rfl

theorem toNat_high (val : UInt8) : (val.toUInt32 <<< 8).toNat = 256 * val.toNat := by
  have hval := val.toNat_lt
  simp only [UInt32.toNat_shiftLeft, UInt8.toNat_toUInt32, Nat.shiftLeft_eq]
  change val.toNat * 256 % 4294967296 = _
  omega

theorem toNat_pair (low val : UInt8) : (low.toUInt32 ||| val.toUInt32 <<< 8).toNat = 256 * val.toNat + low.toNat := by
  rw [UInt32.toNat_or, toNat_high, UInt8.toNat_toUInt32, Nat.or_comm]
  exact (Nat.two_pow_add_eq_or_of_lt (i := 8) low.toNat_lt val.toNat).symm

theorem stands_of_command (haccess : w.access ≠ 0) (hmode : s.accessMode = w.access) (hlatch : s.latchLo) :
    s.Stands (if w.access = 1 then .low else if w.access = 2 then .high else .pair none) := by
  split
  case isTrue h => exact hmode.trans h
  case isFalse h1 =>
    split
    case isTrue h => exact hmode.trans h
    case isFalse h2 =>
      have hle : w.access.toNat ≤ 3 := UInt8.toNat_and .. ▸ Nat.and_le_right
      have hbits : w.access = 3 := by
        simp only [← UInt8.toNat_inj, UInt8.reduceToNat, ne_eq] at haccess h1 h2 ⊢
        omega
      exact ⟨hmode.trans hbits, hlatch⟩

theorem Holds.output (h : Holds s c) (hw : ¬w.latches) : Holds (s.output w) (c.write w) := by
  obtain ⟨hs, hperiod⟩ := h
  unfold Pit.output PitChannel.write
  by_cases hport : w.1 = 3
  · simp only [if_pos hport]
    by_cases hchannel : (w.2 >>> 6) &&& 3 = 0
    · have haccess : w.access ≠ 0 := fun h0 => hw ⟨⟨hport, hchannel⟩, h0⟩
      rw [if_neg (not_not_intro hchannel), if_neg (not_or_intro (not_not_intro hchannel) haccess)]
      exact ⟨stands_of_command haccess rfl rfl, hperiod⟩
    · rw [if_pos hchannel, if_pos (.inl hchannel)]
      exact ⟨hs, hperiod⟩
  · simp only [if_neg hport]
    split
    case isFalse => exact ⟨hs, hperiod⟩
    case isTrue =>
      rcases c with ⟨_ | _ | _ | low, divisor⟩
      case low =>
        have hmode : s.accessMode = 1 := hs
        rw [if_pos hmode]
        exact ⟨hmode, toNat_periodOf (by simp)⟩
      case high =>
        have hmode : s.accessMode = 2 := hs
        rw [if_neg (by simp [hmode]), if_pos hmode]
        exact ⟨hmode, toNat_periodOf (toNat_high _)⟩
      case pair.none =>
        simp only [hs.1, hs.2]
        exact ⟨⟨rfl, rfl, rfl⟩, hperiod⟩
      case pair.some =>
        simp only [hs.1, hs.2]
        exact ⟨⟨rfl, rfl⟩, toNat_periodOf (toNat_pair _ _)⟩

theorem holds_run (h : ∀ w ∈ writes, ¬w.latches) : Holds (run writes) (.written writes) := by
  induction writes using List.reverseRecOn with
  | nil => exact ⟨⟨rfl, rfl⟩, rfl⟩
  | append_singleton writes w ih =>
    simp only [run, PitChannel.written, List.foldl_append, List.foldl_cons, List.foldl_nil]
    exact (ih fun v hv => h v (List.mem_append_left _ hv)).output (h w (by simp))

/-- What a write has to do: the period in effect becomes that of the last divisor completely written, a command
for another channel does nothing, and one that latches the counter leaves the access mode, the byte latch and
the divisor. -/
def Faithful (s : Pit) (c : PitChannel) (w : PitWrite) : Prop :=
  (s.output w).period.toNat = (c.write w).inEffect ∧
    (∀ channel ≠ 0, w.commands channel → s.output w = s) ∧
    (w.latches → (s.output w).accessMode = s.accessMode ∧ (s.output w).latchLo = s.latchLo ∧
      (s.output w).divisor = s.divisor)

theorem output_of_channel {channel : UInt8} (hchannel : channel ≠ 0) (hw : w.commands channel) : s.output w = s := by
  have hne : (w.2 >>> 6) &&& 3 ≠ 0 := hw.2 ▸ hchannel
  rw [output, if_pos hw.1, if_pos hne]

theorem accessMode_of_latches (hw : w.latches) : (s.output w).accessMode = 0 := by
  rw [output, if_pos hw.1.1, if_neg (not_not_intro hw.1.2)]
  exact hw.2

/-- **Programming the timer.** Every write does what it has to exactly when none latches the counter: the
code takes that command for one that sets the access mode, and then drops the bytes of the divisor. -/
theorem divisor_programmed_iff (writes : List PitWrite) :
    (∀ front w back, writes = front ++ w :: back → Faithful (run front) (.written front) w) ↔
      ∀ w ∈ writes, ¬w.latches := by
  constructor
  · -- Before the first such command the access mode is not 0, and the command makes it 0.
    intro h w hw hlatches
    obtain ⟨v, hv⟩ := Option.isSome_iff_exists.mp
      ((List.find?_isSome (p := fun v : PitWrite => decide v.latches)).mpr ⟨w, hw, decide_eq_true hlatches⟩)
    obtain ⟨hv, front, back, hsplit, hfront⟩ := List.find?_eq_some_iff_append.mp hv
    have hmode := ((h front v back hsplit).2.2 (of_decide_eq_true hv)).1
    have hfront : ∀ u ∈ front, ¬u.latches := fun u hu => by simpa using hfront u hu
    exact accessMode_of_stands (holds_run hfront).1 (hmode ▸ accessMode_of_latches (of_decide_eq_true hv))
  · intro h front w back hsplit
    subst hsplit
    have hfront : Holds (run front) (.written front) := holds_run fun v hv => h v (List.mem_append_left _ hv)
    have hw := h w (by simp)
    exact ⟨(hfront.output hw).2, fun channel => output_of_channel, fun hl => absurd hl hw⟩

/-- A latch command first, and a divisor after it: the divisor is never taken. -/
theorem divisor_dropped_after_latch : ¬∀ front w back, [(3, 0x00), (0, 0x9c), (0, 0x2e)] = front ++ w :: back →
      Faithful (run front) (.written front) w := by
  intro h
  exact absurd (h [(3, 0x00), (0, 0x9c)] (0, 0x2e) [] rfl).1 (by decide)

end Pit

end FerrumVM
