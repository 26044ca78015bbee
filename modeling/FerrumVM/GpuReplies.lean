import FerrumVM.GpuControlQueue

/-! The replies of the control queue of the graphics device. A request that is answered with an error has
changed nothing, and the commands that name a resource answer with an invalid id where there is none. -/

namespace FerrumVM

open Base Program

def GpuResponse.IsError (response : GpuResponse) : Prop :=
  response = .header respErrUnsupported ∨ response = .header respErrInvalidArgument ∨
    response = .header respErrInvalidResourceId

namespace VirtioGpu

theorem ne_okNodata_of_isError {response : GpuResponse} (h : response.IsError) : response ≠ okNodata := by
  rintro rfl
  rcases h with h | h | h <;> cases h

/-! ### The device changes on success only -/

section Tables

variable {W : Type} {s : VirtioGpu W} {bytes : Bytes}

theorem resourceCreate2d_of_not_ok (h : (s.resourceCreate2d bytes).1 ≠ okNodata) : (s.resourceCreate2d bytes).2 = s := by
  unfold resourceCreate2d at h ⊢
  split at h
  · rfl
  split_ifs at h ⊢
  · rfl
  · rfl
  split at h
  · rfl
  · exact absurd rfl h

theorem resourceUnref_of_not_ok (h : (s.resourceUnref bytes).1 ≠ okNodata) : (s.resourceUnref bytes).2 = s := by
  unfold resourceUnref at h ⊢
  split at h
  · rfl
  · exact absurd rfl h

theorem setScanout_of_not_ok (h : (s.setScanout bytes).1 ≠ okNodata) : (s.setScanout bytes).2 = s := by
  unfold setScanout at h ⊢
  split at h
  · rfl
  split_ifs at h ⊢
  · rfl
  · rfl
  all_goals exact absurd rfl h

theorem resourceAttachBacking_of_not_ok (h : (s.resourceAttachBacking bytes).1 ≠ okNodata) :
    (s.resourceAttachBacking bytes).2 = s := by
  unfold resourceAttachBacking at h ⊢
  split at h
  · rfl
  split at h
  · rfl
  · exact absurd rfl h

theorem resourceDetachBacking_of_not_ok (h : (s.resourceDetachBacking bytes).1 ≠ okNodata) :
    (s.resourceDetachBacking bytes).2 = s := by
  unfold resourceDetachBacking at h ⊢
  split at h
  · rfl
  split at h
  · rfl
  · exact absurd rfl h

end Tables

section Commands

variable {W M : Type} [GuestMemory M] {cmd : GpuCommand} {request : Bytes} {c c' : Ctx (VirtioGpu W) M}
  {response : GpuResponse}

omit [GuestMemory M] in
theorem onTables_of_not_ok {f : VirtioGpu W → GpuResponse × VirtioGpu W}
    (hf : ∀ s, (f s).1 ≠ okNodata → (f s).2 = s) (h : onTables f c = .ok response c')
    (hresponse : response ≠ okNodata) : c'.dev = c.dev := by
  obtain ⟨dev, hdev, rfl⟩ := Serve.onDev_eq_ok.mp h
  cases hdev
  exact hf c.dev hresponse

variable [DisplayBackend W]

theorem command_of_not_ok (h : command cmd request c = .ok response c') (hresponse : response ≠ okNodata) :
    c'.dev = c.dev := by
  cases cmd with
  | getDisplayInfo =>
    rw [command, get_bind] at h
    rw [(pure_eq_ok.mp h).2]
  | resourceCreate2d => exact onTables_of_not_ok (fun _ => resourceCreate2d_of_not_ok) h hresponse
  | resourceUnref => exact onTables_of_not_ok (fun _ => resourceUnref_of_not_ok) h hresponse
  | setScanout => exact onTables_of_not_ok (fun _ => setScanout_of_not_ok) h hresponse
  | resourceAttachBacking => exact onTables_of_not_ok (fun _ => resourceAttachBacking_of_not_ok) h hresponse
  | resourceDetachBacking => exact onTables_of_not_ok (fun _ => resourceDetachBacking_of_not_ok) h hresponse
  | resourceFlush =>
    obtain ⟨dev, hflush, rfl⟩ := Serve.onDev_eq_ok.mp h
    rcases resourceFlush_cases hflush with ⟨_, rfl⟩ | hok
    · rfl
    · exact absurd hok hresponse
  | transferToHost2d =>
    rcases transferToHost2d_cases h with ⟨_, rfl⟩ | hok
    · rfl
    · exact absurd hok hresponse
  | getEdid | cursorGet | updateCursor | unsupported => rw [(pure_eq_ok.mp h).2]

/-! ### Error replies -/

omit [DisplayBackend W] in
def respond (head : UInt16) (desc : VirtqDesc) (response : GpuResponse) : Serve (VirtioGpu W) M Bool := do
  let written ← writeBuf desc (GpuResponse.bytes response)
  Serve.pushUsed head (UInt32.ofNat written)
  return true

omit [DisplayBackend W] in
theorem uses_respond (head : UInt16) (desc : VirtqDesc) (response : GpuResponse) :
    Uses [.write, .push] (respond head desc response : Serve (VirtioGpu W) M Bool) :=
  .bind ((uses_writeBuf _ _).mono) fun _ => .finish _ _ _

def Replied (head : UInt16) (c : Ctx (VirtioGpu W) M) (response : GpuResponse) (c' : Ctx (VirtioGpu W) M) : Prop :=
  ∃ request desc header t u worked,
    gatherControlRequest head c = .ok (some (request, desc)) t ∧ VirtioGpuCtrlHdr.fromBytes request = some header ∧
      command (GpuCommand.ofNumber header.typ) request t = .ok response u ∧ respond head desc response u = .ok worked c'

/-- **Error replies.** A request of the control queue that is answered with an error leaves the resources, the
scanouts, the configuration and the display as they were. -/
theorem error_reply_keeps_device {head : UInt16} (hreplied : Replied head c response c') (herror : response.IsError) :
    c'.dev = c.dev := by
  obtain ⟨request, desc, header, t, u, worked, hgather, _, hcommand, hrespond⟩ := hreplied
  have hgathered : t.dev = c.dev := ((uses_gatherControlRequest head).effect_of_ok hgather).dev (by decide)
  have hkept : u.dev = t.dev := command_of_not_ok hcommand (ne_okNodata_of_isError herror)
  have hresponded : c'.dev = u.dev := ((uses_respond head desc response).effect_of_ok hrespond).dev (by decide)
  rw [hresponded, hkept, hgathered]

end Commands

end VirtioGpu

def attachedNew : VirtioGpu (FerrumSDLContext SdlCanvas.blank) :=
  VirtioDevice.passGuestMemory Ram (VirtioGpu.new ⟨(), 0, 0⟩)

/-- A flush of a resource that is not there is answered with an error. -/
theorem flush_of_nothing_is_refused :
    ∃ c', VirtioGpu.Replied 0 (flushWaiting attachedNew) VirtioGpu.invalidResourceId c' ∧ c'.dev = attachedNew := by
  have hgather : Program.ends (VirtioGpu.gatherControlRequest 0) (flushWaiting attachedNew)
      (fun request? t => request? == some (flushRequest, ⟨112, 24, 2, 0⟩) && (t.dev.resources.lookup 7).isNone &&
        Program.ends (VirtioGpu.respond 0 ⟨112, 24, 2, 0⟩ VirtioGpu.invalidResourceId) t fun _ _ => true) = true := by
    decide +kernel
  obtain ⟨request?, hgather, hcheck⟩ := eq_ok_of_ends hgather
  generalize (VirtioGpu.gatherControlRequest 0).finalState (flushWaiting attachedNew) = t at hgather hcheck
  rw [Bool.and_eq_true, Bool.and_eq_true, beq_iff_eq, Option.isNone_iff_eq_none] at hcheck
  obtain ⟨⟨rfl, hdead⟩, hrespond⟩ := hcheck
  obtain ⟨worked, hrespond, _⟩ := eq_ok_of_ends hrespond
  have hcommand : (VirtioGpu.command .resourceFlush flushRequest : Serve _ Ram _) t = .ok VirtioGpu.invalidResourceId t :=
    Serve.onDev_eq_ok.mpr ⟨t.dev, VirtioGpu.resourceFlush_of_dead (by decide) hdead, rfl⟩
  have hreplied : VirtioGpu.Replied 0 (flushWaiting attachedNew) VirtioGpu.invalidResourceId _ :=
    ⟨flushRequest, ⟨112, 24, 2, 0⟩, VirtioGpuCtrlHdr.new 0x104, t, t, worked, hgather, by decide, hcommand, hrespond⟩
  exact ⟨_, hreplied, VirtioGpu.error_reply_keeps_device hreplied (Or.inr (Or.inr rfl))⟩

namespace VirtioGpu

theorem okNodata_ne : okNodata ≠ invalidResourceId := by decide

theorem invalidArgument_ne : invalidArgument ≠ invalidResourceId := by decide

theorem exists_lookup {W : Type} {id : UInt32} {s : VirtioGpu W} (h : id ∈ s.resources) : ∃ r, s.resources.lookup id = some r :=
  Option.isSome_iff_exists.mp (AList.lookup_isSome.mpr h)

section Commands

variable {W M : Type} [GuestMemory M] [DisplayBackend W] {cmd : GpuCommand} {request : Bytes}
  {c c' : Ctx (VirtioGpu W) M} {response : GpuResponse}

/-! ### Commands that name a resource -/

/-- The resource that a long enough request names, for the commands that work on one that is there; a scanout is
bound to a resource where its number is in range and the resource is not zero. -/
def namedResource (cmd : GpuCommand) (request : Bytes) : Option UInt32 :=
  match cmd with
  | .resourceUnref | .resourceDetachBacking => resourceIdFromBytes request
  | .resourceFlush => flushFromBytes request
  | .transferToHost2d => (VirtioGpuTransferToHost.fromBytes request).map (·.resourceId)
  | .resourceAttachBacking => (VirtioGpuBackingAttach.fromBytes request).map (·.resourceId)
  | .setScanout =>
    ((VirtioGpuSetScanout.fromBytes request).filter fun req => req.scanoutId.toNat < maxScanouts ∧ req.resourceId ≠ 0).map
      (·.resourceId)
  | _ => none

/-- A request that names a resource which is not there is answered with an invalid id and leaves the device, and
one that names a live resource is not answered so. -/
def RejectsDead (cmd : GpuCommand) (request : Bytes) (c : Ctx (VirtioGpu W) M) : Prop :=
  ∀ id, namedResource cmd request = some id →
    (id ∉ c.dev.resources → ∃ c', command cmd request c = .ok invalidResourceId c' ∧ c'.dev = c.dev) ∧
      (id ∈ c.dev.resources → ∀ response c', command cmd request c = .ok response c' → response ≠ invalidResourceId)

omit [GuestMemory M] [DisplayBackend W] in
theorem rejects_onTables {f : VirtioGpu W → GpuResponse × VirtioGpu W} {id : UInt32}
    (hdead : id ∉ c.dev.resources → f c.dev = (invalidResourceId, c.dev))
    (hlive : id ∈ c.dev.resources → (f c.dev).1 ≠ invalidResourceId) :
    (id ∉ c.dev.resources → ∃ c', onTables f c = .ok invalidResourceId c' ∧ c'.dev = c.dev) ∧
      (id ∈ c.dev.resources → ∀ response c', onTables f c = .ok response c' → response ≠ invalidResourceId) := by
  refine ⟨fun hid => ⟨c, Serve.onDev_eq_ok.mpr ⟨c.dev, ?_, rfl⟩, rfl⟩, fun hid response c' h => ?_⟩
  · rw [hdead hid]
  · obtain ⟨dev, hdev, rfl⟩ := Serve.onDev_eq_ok.mp h
    cases hdev
    exact hlive hid

section

variable (request : Bytes) (c : Ctx (VirtioGpu W) M)

theorem rejectsDead_setScanout : RejectsDead .setScanout request c := by
  intro id hid
  obtain ⟨req, hfilter, rfl⟩ := Option.map_eq_some_iff.mp hid
  obtain ⟨hreq, hnamed⟩ := Option.filter_eq_some_iff.mp hfilter
  obtain ⟨hrange, hne⟩ := of_decide_eq_true hnamed
  refine rejects_onTables (fun hdead => ?_) fun hlive => ?_
  · rw [setScanout, hreq]
    dsimp only
    rw [if_neg (Nat.not_le.mpr hrange), if_pos ⟨hne, hdead⟩]
  · rw [setScanout, hreq]
    dsimp only
    rw [if_neg (Nat.not_le.mpr hrange), if_neg fun h => h.2 hlive]
    exact okNodata_ne

theorem rejectsDead_resourceAttachBacking : RejectsDead .resourceAttachBacking request c := by
  intro id hid
  obtain ⟨req, hreq, rfl⟩ := Option.map_eq_some_iff.mp hid
  refine rejects_onTables (fun hdead => ?_) fun hlive => ?_
  · rw [resourceAttachBacking, hreq]
    dsimp only
    rw [AList.lookup_eq_none.mpr hdead]
  · obtain ⟨r, hr⟩ := exists_lookup hlive
    rw [resourceAttachBacking, hreq]
    dsimp only
    rw [hr]
    exact okNodata_ne

theorem rejectsDead_resourceDetachBacking : RejectsDead .resourceDetachBacking request c := by
  intro id hid
  have hreq : resourceIdFromBytes request = some id := hid
  refine rejects_onTables (fun hdead => ?_) fun hlive => ?_
  · rw [resourceDetachBacking, hreq]
    dsimp only
    rw [AList.lookup_eq_none.mpr hdead]
  · obtain ⟨r, hr⟩ := exists_lookup hlive
    rw [resourceDetachBacking, hreq]
    dsimp only
    rw [hr]
    exact okNodata_ne

theorem rejectsDead_resourceFlush : RejectsDead .resourceFlush request c := by
  intro id hid
  refine ⟨fun hdead => ⟨c, Serve.onDev_eq_ok.mpr ⟨c.dev, ?_, rfl⟩, rfl⟩, fun hlive response c' h => ?_⟩
  · exact resourceFlush_of_dead hid (AList.lookup_eq_none.mpr hdead)
  · obtain ⟨r, hr⟩ := exists_lookup hlive
    obtain ⟨dev, hflush, rfl⟩ := Serve.onDev_eq_ok.mp h
    rw [resourceFlush_of_live hid hr] at hflush
    obtain ⟨_, _, _, hflush⟩ := bind_eq_ok.mp hflush
    obtain ⟨_, _, _, hflush⟩ := bind_eq_ok.mp hflush
    rw [← (pure_eq_ok.mp hflush).1]
    exact okNodata_ne

theorem rejectsDead_transferToHost2d : RejectsDead .transferToHost2d request c := by
  intro id hid
  obtain ⟨req, hreq, rfl⟩ := Option.map_eq_some_iff.mp hid
  refine ⟨fun hdead => ⟨c, transferToHost2d_of_dead hreq (AList.lookup_eq_none.mpr hdead), rfl⟩,
    fun hlive response c' h => ?_⟩
  obtain ⟨r, hr⟩ := exists_lookup hlive
  change transferToHost2d request c = _ at h
  by_cases haccepts : ∃ base, Accepts r req base
  · obtain ⟨base, haccepts⟩ := haccepts
    rw [transferToHost2d_of_accepts hreq hr haccepts] at h
    obtain ⟨_, _, _, h⟩ := bind_eq_ok.mp h
    obtain ⟨_, _, _, h⟩ := bind_eq_ok.mp h
    rw [← (pure_eq_ok.mp h).1]
    exact okNodata_ne
  · rw [transferToHost2d_of_refused hreq hr (not_exists.mp haccepts)] at h
    cases h
    exact invalidArgument_ne

theorem rejectsDead_resourceUnref_iff :
    RejectsDead .resourceUnref request c ↔ ∀ id, resourceIdFromBytes request = some id → id ∈ c.dev.resources := by
  have hreply (id : UInt32) (hid : resourceIdFromBytes request = some id) : (c.dev.resourceUnref request).1 = okNodata := by
    rw [resourceUnref, hid]
  constructor
  · intro h id hid
    by_contra hdead
    obtain ⟨c', hcommand, _⟩ := (h id hid).1 hdead
    injection hcommand with hresponse
    exact okNodata_ne ((hreply id hid).symm.trans hresponse)
  · intro h id hid
    refine rejects_onTables (fun hdead => absurd (h id hid) hdead) fun _ => ?_
    rw [hreply id hid]
    exact okNodata_ne

end

/-- **Dead resources.** The commands that name a resource reject one that is not there and no other, except that
RESOURCE_UNREF rejects none: they do so exactly when the request is not for dropping a resource that is not there. -/
theorem dead_resources_rejected_iff (cmd : GpuCommand) (request : Bytes) (c : Ctx (VirtioGpu W) M) :
    RejectsDead cmd request c ↔
      (cmd = .resourceUnref → ∀ id, resourceIdFromBytes request = some id → id ∈ c.dev.resources) := by
  rcases eq_or_ne cmd .resourceUnref with rfl | hne
  · rw [rejectsDead_resourceUnref_iff]
    exact ⟨fun h _ => h, fun h => h rfl⟩
  refine iff_of_true ?_ fun h => absurd h hne
  cases cmd with
  | resourceUnref => exact absurd rfl hne
  | setScanout => exact rejectsDead_setScanout request c
  | resourceFlush => exact rejectsDead_resourceFlush request c
  | transferToHost2d => exact rejectsDead_transferToHost2d request c
  | resourceAttachBacking => exact rejectsDead_resourceAttachBacking request c
  | resourceDetachBacking => exact rejectsDead_resourceDetachBacking request c
  | _ =>
    intro id hid
    cases hid

end Commands

end VirtioGpu

def unrefRequest : Bytes := [2, 1, 0, 0] ++ List.replicate 20 0 ++ [7, 0, 0, 0]

/-- A new device has no resource 7 and answers the request to drop it with OK. -/
theorem unref_of_nothing_is_ok : GpuCommand.ofNumber (field32 unrefRequest 0) = .resourceUnref ∧
      ¬VirtioGpu.RejectsDead (GpuCommand.ofNumber (field32 unrefRequest 0)) unrefRequest
        (⟨attachedNew, VirtioQueue.new, ⟨[]⟩, []⟩ : Ctx _ Ram) := by
  have hcmd : GpuCommand.ofNumber (field32 unrefRequest 0) = .resourceUnref := by decide
  refine ⟨hcmd, fun h => ?_⟩
  rw [hcmd, VirtioGpu.rejectsDead_resourceUnref_iff] at h
  exact AList.notMem_empty 7 (h 7 (by decide))

end FerrumVM
