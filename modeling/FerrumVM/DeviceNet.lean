import FerrumVM.HostOs
import FerrumVM.QueueLoop

/-! `NetVirtio` of `devices/net.rs` over `TAPDevice` of `platform/networking/tap.rs`. The receive queue
takes a frame before it takes a buffer and puts the frame back when no buffer is there. -/

namespace FerrumVM

open Base Program

structure TAPDevice (H : HostOs) where
  packetReciveQueue : List Bytes
  host : H.World

namespace TAPDevice

variable {H : HostOs}

def getNextPacket : Program (TAPDevice H) (Option Bytes) := do
  let s ← get
  match s.packetReciveQueue with
  | [] => return none
  | packet :: rest => do
      set { s with packetReciveQueue := rest }
      return some packet

def addPacketFont (packet : Bytes) : Program (TAPDevice H) Unit :=
  modify fun s => { s with packetReciveQueue := packet :: s.packetReciveQueue }

def sendPacket (packet : Bytes) : Program (TAPDevice H) Unit :=
  modify fun s => { s with host := (H.tapSend packet s.host).2 }

def update (s : TAPDevice H) : TAPDevice H :=
  let (r, host) := H.tapRecv s.host
  match r with
  | .ok packet => { packetReciveQueue := s.packetReciveQueue ++ [packet.val], host }
  | .error _ => { s with host }

end TAPDevice

structure NetVirtioConfig where
  mac : BytesOf 6
  status : UInt16

def NetVirtioConfig.toBytes (config : NetVirtioConfig) (length : Nat) : Exec Bytes :=
  resize (config.mac.val ++ u16ToLe config.status) length

structure NetVirtio (H : HostOs) where
  attached : Bool
  tapDevice : TAPDevice H
  config : NetVirtioConfig

namespace NetVirtio

variable {H : HostOs} {M α : Type} [GuestMemory M] {x : Program (TAPDevice H) α}

def new (tapDevice : TAPDevice H) : NetVirtio H where
  attached := false
  tapDevice := tapDevice
  config := ⟨⟨[0x02, 0x00, 0x00, 0x00, 0x00, 0x01], rfl⟩, 1⟩

omit [GuestMemory M] in
def onTap {α : Type} (x : Program (TAPDevice H) α) : Serve (NetVirtio H) M α :=
  Serve.onDev fun s =>
    match x s.tapDevice with
    | .ok a tapDevice => .ok a { s with tapDevice }
    | .error e tapDevice => .error e { s with tapDevice }

def hdrSize : Nat := 12

def nextRx : Serve (NetVirtio H) M (Option (Bytes × UInt16)) := do
  match ← onTap TAPDevice.getNextPacket with
  | none => return none
  | some ethFrame =>
    match ← Serve.popAvail with
    | none => do
        onTap (TAPDevice.addPacketFont ethFrame)
        return none
    | some head => return some (ethFrame, head)

def serveRx (job : Bytes × UInt16) : Serve (NetVirtio H) M Bool := do
  let (ethFrame, head) := job
  let desc ← Serve.getDescriptor (.head head)
  if desc.len.toNat < ethFrame.length + hdrSize then
    Serve.pushUsed head 0
    return false
  else
    Serve.writeGuestMemory desc.addr (List.replicate hdrSize 0)
    let body ← lift (addU64 desc.addr 12)
    Serve.writeGuestMemory body ethFrame
    Serve.pushUsed head (UInt32.ofNat (hdrSize + ethFrame.length))
    return true

def serveTx (head : UInt16) : Serve (NetVirtio H) M Bool := do
  let desc ← Serve.getDescriptor (.head head)
  if desc.len < 12 then
    Serve.pushUsed head 0
    return false
  else
    let body ← lift (addU64 desc.addr 12)
    let ethFrame ← Serve.readGuestMemoryAlloc body (desc.len.toNat - hdrSize)
    onTap (TAPDevice.sendPacket ethFrame)
    Serve.pushUsed head desc.len
    return true

def tick (fuel queueSel : Nat) : Serve (NetVirtio H) M Bool := do
  let c ← get
  match queueSel with
  | 0 => if !c.dev.attached then return false else drain nextRx serveRx fuel
  | 1 => if !c.dev.attached then return false else drain Serve.popAvail serveTx fuel
  | _ => return false

instance : VirtioDevice (NetVirtio H) M where
  virtioType _ := 0x01
  features _ := (1 : UInt64) <<< 5 ||| (1 : UInt64) <<< 16
  negotiateFeatures s _ := s
  passGuestMemory s := { s with attached := true }
  tick := tick
  readConfig s length := s.config.toBytes length
  writeConfig s _ _ := return s
  update s queues mem := return (false, { s with tapDevice := s.tapDevice.update }, queues, mem)
  reset s := { s with tapDevice := { s.tapDevice with packetReciveQueue := [] } }

def setTap (s : NetVirtio H) (tapDevice : TAPDevice H) : NetVirtio H := { s with tapDevice }

omit [GuestMemory M] in
theorem onTap_iff {a : α} {c c' : Ctx (NetVirtio H) M} :
    onTap x c = .ok a c' ↔ ∃ tapDevice, x c.dev.tapDevice = .ok a tapDevice ∧
      c' = { c with dev := c.dev.setTap tapDevice } := by
  refine Serve.onDev_eq_ok.trans ?_
  cases x c.dev.tapDevice with
  | ok b tapDevice =>
    constructor
    · rintro ⟨_, ⟨rfl, rfl⟩, rfl⟩
      exact ⟨tapDevice, rfl, rfl⟩
    · rintro ⟨_, ⟨rfl, rfl⟩, rfl⟩
      exact ⟨_, rfl, rfl⟩
  | error e tapDevice => simp

theorem uses_onTap (x : Program (TAPDevice H) α) : Uses [.dev] (onTap x : Serve (NetVirtio H) M α) :=
  .onDev _ (by decide)

theorem uses_serveRx (job : Bytes × UInt16) :
    Uses [.fetch, .write, .push] (serveRx job : Serve (NetVirtio H) M Bool) := by
  refine .bind (.getDescriptor _ (by decide)) fun desc => .ite ?_ ?_
  · exact .finish _ _ _
  · refine .bind (.writeGuestMemory _ _ (by decide)) fun _ => .bind (.lift _) fun body => ?_
    refine .bind (.writeGuestMemory _ _ (by decide)) fun _ => ?_
    exact .finish _ _ _

theorem uses_serveTx (head : UInt16) :
    Uses [.fetch, .read, .push, .dev] (serveTx head : Serve (NetVirtio H) M Bool) := by
  refine .bind (.getDescriptor _ (by decide)) fun desc => .ite ?_ ?_
  · exact .finish _ _ _
  · refine .bind (.lift _) fun body => .bind (.readGuestMemoryAlloc _ _ (by decide)) fun frame => ?_
    refine .bind ((uses_onTap _).mono) fun _ => ?_
    exact .finish _ _ _

theorem retiresOnce_serveRx (job : Bytes × UInt16) :
    RetiresOnce job.2 (serveRx job : Serve (NetVirtio H) M Bool) := by
  refine .after (.getDescriptor _ (by decide)) fun desc => .ite (fun _ => .finish _ _) fun _ => ?_
  refine .after (.writeGuestMemory _ _ (by decide)) fun _ => .after (.lift _) fun body => ?_
  exact .after (.writeGuestMemory _ _ (by decide)) fun _ => .finish _ _

theorem retiresOnce_serveTx (head : UInt16) : RetiresOnce head (serveTx head : Serve (NetVirtio H) M Bool) := by
  refine .after (.getDescriptor _ (by decide)) fun desc => .ite (fun _ => .finish _ _) fun _ => ?_
  refine .after (.lift _) fun body => .after (.readGuestMemoryAlloc _ _ (by decide)) fun frame => ?_
  exact .after ((uses_onTap _).mono) fun _ => .finish _ _

omit [GuestMemory M] in
theorem onTap_finalState (x : Program (TAPDevice H) α) (c : Ctx (NetVirtio H) M) :
    ∃ dev, (onTap x).finalState c = { c with dev } :=
  Serve.onDev_finalState _ c

omit [GuestMemory M] in
theorem onTap_eq_ok {c c' : Ctx (NetVirtio H) M} {a : α} (h : onTap x c = .ok a c') : ∃ dev, c' = { c with dev } :=
  finalState_of_ok h ▸ onTap_finalState x c

omit [GuestMemory M] in
theorem onTap_eq_error {c c' : Ctx (NetVirtio H) M} {e : Fault}
    (h : onTap x c = .error e c') : ∃ dev, c' = { c with dev } :=
  finalState_of_error h ▸ onTap_finalState x c

theorem pops_nextRx : Pops (nextRx : Serve (NetVirtio H) M (Option (Bytes × UInt16))) Prod.snd where
  none c c' h := by
    obtain ⟨frame?, t, hframe, h⟩ := bind_eq_ok.mp h
    obtain ⟨dev, rfl⟩ := onTap_eq_ok hframe
    cases frame? with
    | none =>
      obtain ⟨_, rfl⟩ := pure_eq_ok.mp h
      exact ⟨dev, rfl⟩
    | some frame =>
      obtain ⟨head?, t', hpop, h⟩ := bind_eq_ok.mp h
      cases head? with
      | none =>
        obtain ⟨_, t'', hback, h⟩ := bind_eq_ok.mp h
        obtain ⟨_, rfl⟩ := pure_eq_ok.mp h
        rw [Serve.popAvail_none hpop] at hback
        obtain ⟨dev', rfl⟩ := onTap_eq_ok hback
        exact ⟨dev', rfl⟩
      | some head => cases (pure_eq_ok.mp h).1
  some c job c' h := by
    obtain ⟨frame?, t, hframe, h⟩ := bind_eq_ok.mp h
    obtain ⟨dev, rfl⟩ := onTap_eq_ok hframe
    cases frame? with
    | none => cases (pure_eq_ok.mp h).1
    | some frame =>
      obtain ⟨head?, t', hpop, h⟩ := bind_eq_ok.mp h
      cases head? with
      | none =>
        obtain ⟨_, t'', _, h⟩ := bind_eq_ok.mp h
        cases (pure_eq_ok.mp h).1
      | some head =>
        obtain ⟨hjob, rfl⟩ := pure_eq_ok.mp h
        cases hjob
        obtain ⟨hsize, rfl⟩ := Serve.popAvail_some hpop
        exact ⟨hsize, dev, rfl⟩
  fault c e c' h := by
    unfold nextRx at h
    cases hframe : onTap TAPDevice.getNextPacket c with
    | error e' t =>
      rw [bind_of_error hframe] at h
      cases h
      exact onTap_eq_error hframe
    | ok frame? t =>
      rw [bind_of_ok hframe] at h
      obtain ⟨dev, rfl⟩ := onTap_eq_ok hframe
      cases frame? with
      | none => cases h
      | some frame =>
        change (Serve.popAvail >>= _) { c with dev : Ctx (NetVirtio H) M } = _ at h
        cases hpop : (Serve.popAvail : Serve (NetVirtio H) M _) { c with dev } with
        | error e' t' =>
          rw [bind_of_error hpop] at h
          cases h
          exact ⟨dev, act_eq_error hpop⟩
        | ok head? t' =>
          rw [bind_of_ok hpop] at h
          cases head? with
          | none => cases h
          | some head => cases h

abbrev rxLoop : QueueLoop (NetVirtio H) M where
  Job := Bytes × UInt16
  next := nextRx
  serve _ := serveRx
  headOf := Prod.snd
  batch := none

abbrev txLoop : QueueLoop (NetVirtio H) M := .ofPops (fun _ => serveTx) none

theorem lawful_rxLoop : (rxLoop : QueueLoop (NetVirtio H) M).Lawful where
  pops := pops_nextRx
  uses _ job := (uses_serveRx job).mono
  retires _ := retiresOnce_serveRx
  mono _ := .const _

theorem lawful_txLoop : (txLoop : QueueLoop (NetVirtio H) M).Lawful :=
  .ofPops (fun _ head => (uses_serveTx head).mono) (fun _ => retiresOnce_serveTx) fun _ => .const _

def queueLoop (s : NetVirtio H) (queueSel : Nat) : Option (QueueLoop (NetVirtio H) M) :=
  match queueSel with
  | 0 => if !s.attached then none else some rxLoop
  | 1 => if !s.attached then none else some txLoop
  | _ => none

theorem forall_queueLoop {P : QueueLoop (NetVirtio H) M → Prop} {s : NetVirtio H} {queueSel : Nat} :
    (∀ l, queueLoop s queueSel = some l → P l) ↔
      (s.attached = true → (queueSel = 0 → P rxLoop) ∧ (queueSel = 1 → P txLoop)) := by
  unfold queueLoop
  rcases queueSel with _ | _ | queueSel
  · cases s.attached <;> simp
  · cases s.attached <;> simp
  · simp

instance : QueueDevice (NetVirtio H) M where
  queueLoop := queueLoop
  tick_eq fuel queueSel c := by
    match queueSel with
    | 0 =>
      show (if !c.dev.attached then (return false) else drain nextRx serveRx fuel :
        Serve (NetVirtio H) M Bool) c = _
      unfold queueLoop
      split_ifs <;> rfl
    | 1 =>
      show (if !c.dev.attached then (return false) else drain Serve.popAvail serveTx fuel :
        Serve (NetVirtio H) M Bool) c = _
      unfold queueLoop
      split_ifs <;> rfl
    | _ + 2 => rfl
  lawful h := forall_queueLoop.mpr (fun _ => ⟨fun _ => lawful_rxLoop, fun _ => lawful_txLoop⟩) _ h

end NetVirtio

end FerrumVM
