import FerrumVM.QueueLoop
import FerrumVM.SharedFolder

/-! `FsVirtio` of `devices/fs.rs`. A request is gathered from the readable descriptors of a chain, the
reply is scattered over its writable ones; both walks follow NEXT for as long as the chain does. -/

namespace FerrumVM

open Base Program

structure FsVirtioConfig where
  tag : BytesOf 36
  requestQueues : UInt32

namespace FsVirtioConfig

/-- The tag is cut or filled up with zeros to 36 bytes. -/
def new (tag : Bytes) (requestQueues : UInt32) : FsVirtioConfig where
  tag := ⟨tag.take 36 ++ List.replicate (36 - tag.length) 0, by
    rw [List.length_append, List.length_take, List.length_replicate]
    omega⟩
  requestQueues := requestQueues

def toBytes (config : FsVirtioConfig) (length : Nat) : Exec Bytes :=
  resize (config.tag.val ++ u32ToLe config.requestQueues) length

end FsVirtioConfig

structure FsVirtio (H : HostOs) where
  attached : Bool
  config : FsVirtioConfig
  fuseDevice : SharedFolder H

namespace FsVirtio

variable {H : HostOs} {M : Type} [GuestMemory M]

def new (name : Bytes) (fuseDevice : SharedFolder H) : FsVirtio H where
  attached := false
  config := FsVirtioConfig.new name 1
  fuseDevice := fuseDevice

omit [GuestMemory M] in
def onFuse {α : Type} (x : Program (SharedFolder H) α) : Serve (FsVirtio H) M α :=
  Serve.onDev fun s =>
    match x s.fuseDevice with
    | .ok a fuseDevice => .ok a { s with fuseDevice }
    | .error e fuseDevice => .error e { s with fuseDevice }

def collectStep (s : VirtqDesc × Bytes) : Serve (FsVirtio H) M ((VirtqDesc × Bytes) ⊕ Bytes) := do
  let (desc, fuseInBytes) := s
  if desc.isWrite then return .inr fuseInBytes
  else
    let buf ← Serve.readGuestMemoryAlloc desc.addr desc.len.toNat
    if !desc.hasNext then return .inr (fuseInBytes ++ buf)
    else
      let next ← Serve.getDescriptor (.next desc)
      return .inl (next, fuseInBytes ++ buf)

def collectReadable (fuel : Nat) (head : UInt16) : Serve (FsVirtio H) M Bytes := do
  let desc ← Serve.getDescriptor (.head head)
  loop collectStep fuel (desc, [])

def replyNext (desc : VirtqDesc) (written : Nat) : Serve (FsVirtio H) M ((VirtqDesc × Nat) ⊕ Nat) :=
  if !desc.hasNext then return .inr written
  else do
    let next ← Serve.getDescriptor (.next desc)
    return .inl (next, written)

def replyStep (reply : Bytes) (s : VirtqDesc × Nat) : Serve (FsVirtio H) M ((VirtqDesc × Nat) ⊕ Nat) := do
  let (desc, written) := s
  if desc.isWrite then
    let n := min (reply.length - written) desc.len.toNat
    let part ← lift (slice reply written (written + n))
    Serve.writeGuestMemory desc.addr part
    if reply.length ≤ written + n then return .inr (written + n)
    else replyNext desc (written + n)
  else replyNext desc written

def writeOutReply (fuel : Nat) (head : UInt16) (reply : Bytes) : Serve (FsVirtio H) M Nat := do
  let desc ← Serve.getDescriptor (.head head)
  loop (replyStep reply) fuel (desc, 0)

/-- The reply to a request: a header, and the payload of a request that succeeded. -/
def replyBytes (unique : UInt64) : Except Errno Bytes → Bytes
  | .ok payload =>
    FuseOutHeader.toBytes ⟨UInt32.ofNat (FuseOutHeader.length + payload.length), 0, unique⟩ ++ payload
  | .error errno => FuseOutHeader.toBytes ⟨UInt32.ofNat FuseOutHeader.length, -errno, unique⟩

omit [GuestMemory M] in
/-- A request of the priority queue: nothing but FORGET is acted upon. -/
def hiprio (header : FuseInHeader) : Serve (FsVirtio H) M Unit :=
  if FuseOpcode.ofNumber header.opcode = .forget then onFuse (SharedFolder.forget header)
  else return ()

def serveHiprio (fuel : Nat) (head : UInt16) : Serve (FsVirtio H) M Bool := do
  let fuseInBytes ← collectReadable fuel head
  hiprio (FuseInHeader.new fuseInBytes).1
  Serve.pushUsed head 0
  return true

def serveRequest (fuel : Nat) (head : UInt16) : Serve (FsVirtio H) M Bool := do
  let fuseInBytes ← collectReadable fuel head
  let request := FuseInHeader.new fuseInBytes
  let answer ← onFuse (SharedFolder.dispatch request.1 request.2)
  let _ ← writeOutReply fuel head (replyBytes request.1.unique answer)
  Serve.pushUsed head 0
  return true

def tick (fuel queueSel : Nat) : Serve (FsVirtio H) M Bool := do
  let c ← get
  if !c.dev.attached then return false
  else
    match queueSel with
    | 0 => drain Serve.popAvail (serveHiprio fuel) fuel
    | 1 => drain Serve.popAvail (serveRequest fuel) fuel
    | _ => return false

instance : VirtioDevice (FsVirtio H) M where
  virtioType _ := 0x1A
  features _ := 0
  negotiateFeatures s _ := s
  passGuestMemory s := { s with attached := true }
  tick := tick
  readConfig s length := s.config.toBytes length
  writeConfig s _ _ := return s
  update s queues mem := return (false, s, queues, mem)
  reset s := s

def setFuse (s : FsVirtio H) (fuseDevice : SharedFolder H) : FsVirtio H := { s with fuseDevice }

omit [GuestMemory M] in
theorem onFuse_eq_ok {α : Type} {x : Program (SharedFolder H) α} {a : α} {c c' : Ctx (FsVirtio H) M} :
    onFuse x c = .ok a c' ↔ ∃ fuseDevice, x c.dev.fuseDevice = .ok a fuseDevice ∧
      c' = { c with dev := c.dev.setFuse fuseDevice } := by
  refine Serve.onDev_eq_ok.trans ?_
  cases x c.dev.fuseDevice with
  | ok b fuseDevice =>
    constructor
    · rintro ⟨_, ⟨rfl, rfl⟩, rfl⟩
      exact ⟨fuseDevice, rfl, rfl⟩
    · rintro ⟨_, ⟨rfl, rfl⟩, rfl⟩
      exact ⟨_, rfl, rfl⟩
  | error e fuseDevice => simp

theorem uses_onFuse {α : Type} (x : Program (SharedFolder H) α) : Uses [.dev] (onFuse x : Serve (FsVirtio H) M α) :=
  .onDev _ (by decide)

theorem uses_collectStep (s : VirtqDesc × Bytes) : Uses [.fetch, .read] (collectStep s : Serve (FsVirtio H) M _) := by
  refine .ite (.pure _) (.bind (.readGuestMemoryAlloc _ _ (by decide)) fun buf => .ite (.pure _) ?_)
  exact .bind (.getDescriptor _ (by decide)) fun next => .pure _

theorem uses_collectReadable (fuel : Nat) (head : UInt16) :
    Uses [.fetch, .read] (collectReadable fuel head : Serve (FsVirtio H) M Bytes) :=
  .bind (.getDescriptor _ (by decide)) fun _ => .loop uses_collectStep _ _

theorem uses_replyNext (desc : VirtqDesc) (written : Nat) :
    Uses [.fetch, .write] (replyNext desc written : Serve (FsVirtio H) M _) :=
  .ite (.pure _) (.bind (.getDescriptor _ (by decide)) fun _ => .pure _)

theorem uses_replyStep (reply : Bytes) (s : VirtqDesc × Nat) :
    Uses [.fetch, .write] (replyStep reply s : Serve (FsVirtio H) M _) := by
  refine .ite (.bind (.lift _) fun part => ?_) (uses_replyNext _ _)
  exact .bind (.writeGuestMemory _ _ (by decide)) fun _ => .ite (.pure _) (uses_replyNext _ _)

theorem uses_writeOutReply (fuel : Nat) (head : UInt16) (reply : Bytes) :
    Uses [.fetch, .write] (writeOutReply fuel head reply : Serve (FsVirtio H) M Nat) :=
  .bind (.getDescriptor _ (by decide)) fun _ => .loop (uses_replyStep reply) _ _

theorem uses_hiprio (header : FuseInHeader) : Uses [.dev] (hiprio header : Serve (FsVirtio H) M Unit) :=
  .ite (uses_onFuse _) (.pure _)

section

variable (fuel : Nat) (head : UInt16)

theorem uses_serveHiprio : Uses [.fetch, .read, .push, .dev] (serveHiprio fuel head : Serve (FsVirtio H) M Bool) := by
  refine .bind ((uses_collectReadable _ _).mono) fun fuseInBytes => ?_
  refine .bind ((uses_hiprio _).mono) fun _ => ?_
  exact .finish _ _ _

theorem uses_serveRequest : Service (serveRequest fuel head : Serve (FsVirtio H) M Bool) := by
  refine .bind ((uses_collectReadable _ _).mono) fun fuseInBytes => ?_
  refine .bind ((uses_onFuse _).mono) fun answer => ?_
  refine .bind ((uses_writeOutReply _ _ _).mono) fun _ => ?_
  exact .finish _ _ _

theorem retiresOnce_serveHiprio : RetiresOnce head (serveHiprio fuel head : Serve (FsVirtio H) M Bool) := by
  refine .after ((uses_collectReadable _ _).mono) fun fuseInBytes => ?_
  exact .after ((uses_hiprio _).mono) fun _ => .finish _ _

theorem retiresOnce_serveRequest : RetiresOnce head (serveRequest fuel head : Serve (FsVirtio H) M Bool) := by
  refine .after ((uses_collectReadable _ _).mono) fun fuseInBytes => ?_
  refine .after ((uses_onFuse _).mono) fun answer => ?_
  exact .after ((uses_writeOutReply _ _ _).mono) fun _ => .finish _ _

end

theorem fuelMono_collectReadable (head : UInt16) :
    FuelMono fun fuel => (collectReadable fuel head : Serve (FsVirtio H) M Bytes) :=
  .bind (.const _) fun _ => .loop _ _

theorem fuelMono_writeOutReply (head : UInt16) (reply : Bytes) :
    FuelMono fun fuel => (writeOutReply fuel head reply : Serve (FsVirtio H) M Nat) :=
  .bind (.const _) fun _ => .loop _ _

theorem fuelMono_serveHiprio (head : UInt16) :
    FuelMono fun fuel => (serveHiprio fuel head : Serve (FsVirtio H) M Bool) :=
  .bind (fuelMono_collectReadable head) fun _ => .const _

theorem fuelMono_serveRequest (head : UInt16) :
    FuelMono fun fuel => (serveRequest fuel head : Serve (FsVirtio H) M Bool) :=
  .bind (fuelMono_collectReadable head) fun _ => .bind (.const _) fun _ =>
    .bind (fuelMono_writeOutReply head _) fun _ => .const _

abbrev hiprioLoop : QueueLoop (FsVirtio H) M := .ofPops serveHiprio none

abbrev requestLoop : QueueLoop (FsVirtio H) M := .ofPops serveRequest none

theorem lawful_hiprioLoop : (hiprioLoop : QueueLoop (FsVirtio H) M).Lawful :=
  .ofPops (fun fuel head => (uses_serveHiprio fuel head).mono) retiresOnce_serveHiprio
    fuelMono_serveHiprio

theorem lawful_requestLoop : (requestLoop : QueueLoop (FsVirtio H) M).Lawful :=
  .ofPops uses_serveRequest retiresOnce_serveRequest fuelMono_serveRequest

def queueLoop (s : FsVirtio H) (queueSel : Nat) : Option (QueueLoop (FsVirtio H) M) :=
  if !s.attached then none
  else
    match queueSel with
    | 0 => some hiprioLoop
    | 1 => some requestLoop
    | _ => none

theorem forall_queueLoop {P : QueueLoop (FsVirtio H) M → Prop} {s : FsVirtio H} {queueSel : Nat} :
    (∀ l, queueLoop s queueSel = some l → P l) ↔
      (s.attached = true → (queueSel = 0 → P hiprioLoop) ∧ (queueSel = 1 → P requestLoop)) := by
  unfold queueLoop
  cases s.attached with
  | false => simp
  | true =>
    rcases queueSel with _ | _ | queueSel
    · simp
    · simp
    · simp

instance : QueueDevice (FsVirtio H) M where
  queueLoop := queueLoop
  tick_eq fuel queueSel c := by
    show (if !c.dev.attached then (return false) else _ : Serve (FsVirtio H) M Bool) c = _
    unfold queueLoop
    split_ifs
    · rfl
    · match queueSel with
      | 0 => rfl
      | 1 => rfl
      | _ + 2 => rfl
  lawful h := forall_queueLoop.mpr (fun _ => ⟨fun _ => lawful_hiprioLoop, fun _ => lawful_requestLoop⟩) _ h

end FsVirtio

end FerrumVM
