import FerrumVM.ChainAccounts
import FerrumVM.HostDisk

/-! Frames that the guest sends. The network device reads the first descriptor of a chain and no other, so
what it hands to the TAP device is the frame that the driver laid out only if that descriptor holds all of
it, the header included. -/

namespace FerrumVM

open Base Program

/-- A host that records the frames it is given to send. -/
def HostOs.recorder : HostOs :=
  { HostOs.idle (List Bytes) Unit with tapSend := fun frame (sent : List Bytes) => (.ok (), sent ++ [frame]) }

abbrev RecordedNet : Type := NetVirtio HostOs.recorder

def Ram.gathered (m : Ram) (descs : List VirtqDesc) : Bytes :=
  descs.flatMap fun desc => m.load desc.addr desc.len.toNat

namespace Ram

variable {m : Ram} {desc : VirtqDesc} {descs : List VirtqDesc}

theorem gathered_cons : m.gathered (desc :: descs) = m.load desc.addr desc.len.toNat ++ m.gathered descs := rfl

theorem length_gathered : (m.gathered descs).length = (descs.map (·.len.toNat)).sum := by
  unfold gathered
  rw [List.length_flatMap]
  simp only [length_load]

end Ram

namespace NetVirtio

variable {head : UInt16} {c t : Ctx RecordedNet Ram} {desc : VirtqDesc} {descs rest : List VirtqDesc}

def sent (s : NetVirtio HostOs.recorder) : List Bytes := s.tapDevice.host

/-- The frame that the device takes from a buffer, if it takes one. -/
def frameIn (m : Ram) (desc : VirtqDesc) : Option Bytes :=
  if 12 ≤ desc.len.toNat ∧ desc.addr.toNat + 12 < 2 ^ 64 then some (m.load (desc.addr + 12) (desc.len.toNat - 12))
  else none

/-- **What is sent for a chain**, whether its service returns or panics: the frame in the first buffer. -/
theorem sent_serveTx (hdesc : t.queue.getDescriptor t.mem head = .ok desc) :
    ((serveTx head).finalState t).dev.sent = t.dev.sent ++ (frameIn t.mem desc).toList := by
  have hfetch : (Serve.getDescriptor (.head head) : Serve RecordedNet Ram VirtqDesc) t =
      .ok desc (t.fetched (.head head) desc) := Serve.getDescriptor_eq_ok.mpr ⟨hdesc, rfl⟩
  have hfinish (len : UInt32) (worked : Bool) (u : Ctx RecordedNet Ram) :
      ((do Serve.pushUsed head len; return worked : Serve RecordedNet Ram Bool).finalState u).dev =
        u.dev := by
    have huses : Uses [.push] (do Serve.pushUsed head len; return worked : Serve RecordedNet Ram Bool) :=
      .finish _ _ _
    exact (huses.effect u).dev (by decide)
  have hsend (frame : Bytes) (u : Ctx RecordedNet Ram) :
      onTap (TAPDevice.sendPacket frame) u = .ok () { u with
        dev := u.dev.setTap { u.dev.tapDevice with host := (HostOs.recorder.tapSend frame u.dev.tapDevice.host).2 } } :=
    onTap_iff.mpr ⟨_, rfl, rfl⟩
  unfold serveTx
  rw [finalState_bind_of_ok hfetch]
  by_cases hshort : desc.len < 12
  · have hlen : ¬12 ≤ desc.len.toNat := Nat.not_le.mpr (UInt32.lt_iff_toNat_lt.mp hshort)
    rw [if_pos hshort, hfinish, frameIn, if_neg fun h => hlen h.1]
    exact (List.append_nil _).symm
  have hlen : 12 ≤ desc.len.toNat := UInt32.le_iff_toNat_le.mp (UInt32.not_lt.mp hshort)
  rw [if_neg hshort]
  by_cases hfits : desc.addr.toNat + 12 < 2 ^ 64
  · have hbody : (lift (addU64 desc.addr 12) : Serve RecordedNet Ram UInt64)
        (t.fetched (.head head) desc) = .ok (desc.addr + 12) (t.fetched (.head head) desc) :=
      lift_eq_ok.mpr ⟨addU64_of_lt hfits, rfl⟩
    rw [finalState_bind_of_ok hbody,
      finalState_bind_of_ok (Serve.readGuestMemoryAlloc_eq_ok.mpr ⟨rfl, rfl⟩),
      finalState_bind_of_ok (hsend _ _), hfinish, frameIn, if_pos ⟨hlen, hfits⟩]
    rfl
  · have hbody : (lift (addU64 desc.addr 12) : Serve RecordedNet Ram UInt64)
        (t.fetched (.head head) desc) = .error (.panic .overflow) (t.fetched (.head head) desc) := by
      rw [addU64_of_ge hfits]
      rfl
    rw [finalState_bind_of_error hbody, frameIn, if_neg fun h => hfits h.2]
    exact (List.append_nil _).symm

/-- A chain of buffers that the device may read, with room for a header. -/
structure Readable (head : UInt16) (t : Ctx (NetVirtio HostOs.recorder) Ram) (descs : List VirtqDesc) : Prop where
  chain : t.queue.Chain t.mem head descs
  readable : ∀ desc ∈ descs, desc.isWrite = false
  header : 12 ≤ (t.mem.gathered descs).length

/-- One frame is handed to the TAP device: all the bytes of the chain behind the header. -/
def SendsWhole (head : UInt16) (t : Ctx (NetVirtio HostOs.recorder) Ram) (descs : List VirtqDesc) : Prop :=
  ((serveTx head).finalState t).dev.sent = t.dev.sent ++ [(t.mem.gathered descs).drop 12]

/-- The first buffer holds the header and the frame, the others hold nothing, and memory gives the frame alone
as it does behind the header. -/
def InFirst (m : Ram) : List VirtqDesc → Prop
  | [] => False
  | desc :: rest => 12 ≤ desc.len.toNat ∧ desc.addr.toNat + 12 < 2 ^ 64 ∧ (rest.map (·.len.toNat)).sum = 0 ∧
      m.load (desc.addr + 12) (desc.len.toNat - 12) = (m.load desc.addr desc.len.toNat).drop 12

theorem sendsWhole_iff (h : Readable head t descs) : SendsWhole head t descs ↔ InFirst t.mem descs := by
  obtain ⟨desc, rest, rfl, hdesc⟩ := h.chain.first
  unfold SendsWhole InFirst
  dsimp only
  rw [sent_serveTx hdesc, List.append_cancel_left_eq, frameIn]
  by_cases htaken : 12 ≤ desc.len.toNat ∧ desc.addr.toNat + 12 < 2 ^ 64
  · rw [if_pos htaken, Option.toList_some, List.singleton_inj, and_iff_right htaken.1, and_iff_right htaken.2,
      Ram.gathered_cons, List.drop_append_of_le_length (by simpa using htaken.1)]
    constructor
    · intro hframe
      have hempty : (rest.map (·.len.toNat)).sum = 0 := by
        have hlengths := congrArg List.length hframe
        simp only [List.length_append, List.length_drop, Ram.length_load, Ram.length_gathered] at hlengths
        omega
      refine ⟨hempty, ?_⟩
      rw [hframe, List.eq_nil_of_length_eq_zero (Ram.length_gathered.trans hempty), List.append_nil]
    · rintro ⟨hempty, hframe⟩
      rw [hframe, List.eq_nil_of_length_eq_zero (Ram.length_gathered.trans hempty), List.append_nil]
  · rw [if_neg htaken]
    exact iff_of_false nofun fun hin => htaken ⟨hin.1, hin.2.1⟩

end NetVirtio

/-! ### A header and a frame -/

/-- A header of twelve bytes at address 64 and a frame of four bytes at 76, in two descriptors, published on a
queue of two: the table is at address 0, the available ring at 32 and the used ring at 40. -/
def chainedMemory : Ram :=
  ⟨[{ isNull := false
      bytes := [64, 0, 0, 0, 0, 0, 0, 0, 12, 0, 0, 0, 1, 0, 1, 0] ++ [76, 0, 0, 0, 0, 0, 0, 0, 4, 0, 0, 0, 0, 0, 0, 0] ++
        [0, 0, 1, 0] ++ List.replicate 40 0 ++ [1, 2, 3, 4]
      memOffset := 0
      size_le := by simp [isizeMax] }]⟩

def chainedDescs : List VirtqDesc := [⟨64, 12, 1, 1⟩, ⟨76, 4, 0, 0⟩]

/-- The network device with that chain on its transmit queue. -/
def chainedWaiting : Ctx (NetVirtio HostOs.recorder) Ram where
  dev := { NetVirtio.new ⟨[], ([] : List Bytes)⟩ with attached := true }
  queue := { VirtioQueue.new with size := 2, ready := true, availAddr := 32, usedAddr := 40 }
  mem := chainedMemory
  log := []

end FerrumVM
