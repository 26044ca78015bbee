import FerrumVM.HostOs
import FerrumVM.QueueLoop

/-! The devices without a configuration space of their own: `RngVirtio` of `devices/rng.rs`,
`CntVirtio` of `devices/counter.rs` and `ConsoleVirtio` of `devices/console.rs`. The first two refuse
a chain by a panic. -/

namespace FerrumVM

open Base Program

variable {H : HostOs} {M : Type} [GuestMemory M]

/-! ### The entropy device -/

structure RngVirtio (H : HostOs) where
  /-- `guest_memory.is_some()`. -/
  attached : Bool
  host : H.World

namespace RngVirtio

def getRandom (length : Nat) : Program (RngVirtio H) Bytes := do
  let s ← get
  let (data, host) := H.randBytes length s.host
  set { s with host }
  return data.val

def serve (head : UInt16) : Serve (RngVirtio H) M Bool := do
  let desc ← Serve.getDescriptor (.head head)
  if !desc.isWrite then throw (.panic (.message "virtio-rng got non-writable buffer"))
  else
    let data ← Serve.onDev (getRandom desc.len.toNat)
    Serve.writeGuestMemory desc.addr data
    Serve.pushUsed head desc.len
    return true

def tick (fuel queueSel : Nat) : Serve (RngVirtio H) M Bool := do
  let c ← get
  if queueSel ≠ 0 ∨ !c.dev.attached then return false
  else drain Serve.popAvail serve fuel

instance : VirtioDevice (RngVirtio H) M where
  virtioType _ := 0x04
  features _ := 0
  negotiateFeatures s _ := s
  passGuestMemory s := { s with attached := true }
  tick := tick
  readConfig _ _ := return []
  writeConfig s _ _ := return s
  update s queues mem := return (false, s, queues, mem)
  reset s := s

theorem length_getRandom {length : Nat} {data : Bytes} {s s' : RngVirtio H}
    (h : getRandom length s = .ok data s') : data.length = length := by
  obtain ⟨s0, t, hget, h⟩ := bind_eq_ok.mp h
  obtain ⟨_, t', _, h⟩ := bind_eq_ok.mp h
  obtain ⟨rfl, _⟩ := pure_eq_ok.mp h
  exact (H.randBytes length s0.host).1.property

theorem uses_serve (head : UInt16) :
    Uses [.fetch, .write, .push, .dev] (serve head : Serve (RngVirtio H) M Bool) := by
  refine .bind (.getDescriptor _ (by decide)) fun desc => .ite (.throw _) ?_
  refine .bind (.onDev _ (by decide)) fun data => .bind (.writeGuestMemory _ _ (by decide)) fun _ => ?_
  exact .finish _ _ _

theorem retiresOnce_serve (head : UInt16) : RetiresOnce head (serve head : Serve (RngVirtio H) M Bool) := by
  refine .after (.getDescriptor _ (by decide)) fun desc => .ite (fun _ => .throw _) fun _ => ?_
  refine .after (.onDev _ (by decide)) fun data => .after (.writeGuestMemory _ _ (by decide)) fun _ => ?_
  exact .finish _ _

abbrev rngLoop : QueueLoop (RngVirtio H) M := .ofPops (fun _ => serve) none

theorem lawful_rngLoop : (rngLoop : QueueLoop (RngVirtio H) M).Lawful :=
  .ofPops (fun _ head => (uses_serve head).mono) (fun _ => retiresOnce_serve) fun _ => .const _

def queueLoop (s : RngVirtio H) (queueSel : Nat) : Option (QueueLoop (RngVirtio H) M) :=
  if queueSel ≠ 0 ∨ !s.attached then none else some rngLoop

theorem forall_queueLoop {P : QueueLoop (RngVirtio H) M → Prop} {s : RngVirtio H} {queueSel : Nat} :
    (∀ l, queueLoop s queueSel = some l → P l) ↔ (s.attached = true → queueSel = 0 → P rngLoop) :=
  forall_single

instance : QueueDevice (RngVirtio H) M where
  queueLoop := queueLoop
  tick_eq fuel queueSel c := by
    show (if queueSel ≠ 0 ∨ !c.dev.attached then (return false) else drain Serve.popAvail serve fuel :
      Serve (RngVirtio H) M Bool) c = _
    unfold queueLoop
    split_ifs <;> rfl
  lawful h := forall_queueLoop.mpr (fun _ _ => lawful_rngLoop) _ h

end RngVirtio

/-! ### The counter device -/

structure CntVirtio where
  attached : Bool
  deriving DecidableEq, Repr

namespace CntVirtio

def serve (head : UInt16) : Serve CntVirtio M Bool := do
  let desc ← Serve.getDescriptor (.head head)
  if !desc.isWrite || !desc.hasNext then
    throw (.panic (.message
      ("virtio-cnt got unusable buffer: " ++ String.ofList (Nat.toDigits 2 desc.flags.toNat))))
  else
    let desc2 ← Serve.getDescriptor (.next desc)
    let input ← Serve.readU32 desc.addr
    let output ← lift (addU32 input 1)
    Serve.writeU32 desc2.addr output
    Serve.pushUsed head desc.len
    return true

def tick (fuel queueSel : Nat) : Serve CntVirtio M Bool := do
  let c ← get
  if queueSel ≠ 0 ∨ !c.dev.attached then return false
  else drain Serve.popAvail serve fuel

instance : VirtioDevice CntVirtio M where
  virtioType _ := 0x10
  features _ := 0
  negotiateFeatures s _ := s
  passGuestMemory s := { s with attached := true }
  tick := tick
  readConfig _ _ := return []
  writeConfig s _ _ := return s
  update s queues mem := return (false, s, queues, mem)
  reset s := s

theorem uses_serve (head : UInt16) : Uses [.fetch, .read, .write, .push] (serve head : Serve CntVirtio M Bool) := by
  refine .bind (.getDescriptor _ (by decide)) fun desc => .ite (.throw _) ?_
  refine .bind (.getDescriptor _ (by decide)) fun desc2 => .bind (.readU32 _ (by decide)) fun input => ?_
  refine .bind (.lift _) fun output => .bind (.writeU32 _ _ (by decide)) fun _ => ?_
  exact .finish _ _ _

theorem retiresOnce_serve (head : UInt16) : RetiresOnce head (serve head : Serve CntVirtio M Bool) := by
  refine .after (.getDescriptor _ (by decide)) fun desc => .ite (fun _ => .throw _) fun _ => ?_
  refine .after (.getDescriptor _ (by decide)) fun desc2 => .after (.readU32 _ (by decide)) fun input => ?_
  refine .after (.lift _) fun output => .after (.writeU32 _ _ (by decide)) fun _ => ?_
  exact .finish _ _

abbrev cntLoop : QueueLoop CntVirtio M := .ofPops (fun _ => serve) none

theorem lawful_cntLoop : (cntLoop : QueueLoop CntVirtio M).Lawful :=
  .ofPops (fun _ head => (uses_serve head).mono) (fun _ => retiresOnce_serve) fun _ => .const _

def queueLoop (s : CntVirtio) (queueSel : Nat) : Option (QueueLoop CntVirtio M) :=
  if queueSel ≠ 0 ∨ !s.attached then none else some cntLoop

theorem forall_queueLoop {P : QueueLoop CntVirtio M → Prop} {s : CntVirtio} {queueSel : Nat} :
    (∀ l, queueLoop s queueSel = some l → P l) ↔ (s.attached = true → queueSel = 0 → P cntLoop) :=
  forall_single

instance : QueueDevice CntVirtio M where
  queueLoop := queueLoop
  tick_eq fuel queueSel c := by
    show (if queueSel ≠ 0 ∨ !c.dev.attached then (return false) else drain Serve.popAvail serve fuel :
      Serve CntVirtio M Bool) c = _
    unfold queueLoop
    split_ifs <;> rfl
  lawful h := forall_queueLoop.mpr (fun _ _ => lawful_cntLoop) _ h

end CntVirtio

/-! ### The console device -/

structure ConsoleVirtio where
  attached : Bool
  deriving DecidableEq, Repr

omit [GuestMemory M] in
/-- The console does not look at its queues yet: the ticks of both report work and do none. -/
def ConsoleVirtio.tick (queueSel : Nat) : Serve ConsoleVirtio M Bool := return decide (queueSel < 2)

instance : VirtioDevice ConsoleVirtio M where
  virtioType _ := 0x3
  features _ := 0
  negotiateFeatures s _ := s
  passGuestMemory s := { s with attached := true }
  tick _ := ConsoleVirtio.tick
  readConfig _ length := zeros length
  writeConfig s _ _ := return s
  update s queues mem := return (false, s, queues, mem)
  reset s := s

end FerrumVM
