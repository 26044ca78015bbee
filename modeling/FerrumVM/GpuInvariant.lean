import FerrumVM.BaseSystem
import FerrumVM.DeviceGpu

/-! The tables of the graphics device. The driver chooses every number in them, and the commands keep
them in order: resources stay within their bounds and have as much data as their size says, scanouts
refer to resources that are there. The copies of a transfer rest on that. -/

namespace FerrumVM

open Base Program

variable {r : GpuResource}

section Tables

variable {α β : Type} [DecidableEq α] {a a' : α} {b b' : β} {s : AList fun _ : α => β}

theorem kreplace_cons_of_eq {first : Sigma fun _ : α => β} (h : a = first.1) (rest : List (Sigma fun _ : α => β)) :
    (first :: rest).kreplace a b = ⟨a, b⟩ :: rest :=
  List.lookmap_cons_some _ _ (if_pos h)

theorem kreplace_cons_of_ne {first : Sigma fun _ : α => β} (h : a ≠ first.1) (rest : List (Sigma fun _ : α => β)) :
    (first :: rest).kreplace a b = first :: rest.kreplace a b :=
  List.lookmap_cons_none _ _ (if_neg h)

theorem mem_kreplace {entries : List (Sigma fun _ : α => β)} {e : Sigma fun _ : α => β}
    (h : e ∈ entries.kreplace a b) : e = ⟨a, b⟩ ∨ e ∈ entries := by
  induction entries with
  | nil => exact Or.inr h
  | cons first rest ih =>
    by_cases hfirst : a = first.1
    · rw [kreplace_cons_of_eq hfirst, List.mem_cons] at h
      exact h.imp_right (List.mem_cons_of_mem _)
    · rw [kreplace_cons_of_ne hfirst, List.mem_cons] at h
      rcases h with rfl | h
      · exact Or.inr List.mem_cons_self
      · exact (ih h).imp_right (List.mem_cons_of_mem _)

theorem mem_kreplace_self {entries : List (Sigma fun _ : α => β)} (h : ⟨a, b'⟩ ∈ entries) :
    ⟨a, b⟩ ∈ entries.kreplace a b := by
  induction entries with
  | nil => cases h
  | cons first rest ih =>
    by_cases hfirst : a = first.1
    · rw [kreplace_cons_of_eq hfirst]
      exact List.mem_cons_self
    · rw [kreplace_cons_of_ne hfirst]
      rcases List.mem_cons.mp h with rfl | h
      · exact absurd rfl hfirst
      · exact List.mem_cons_of_mem _ (ih h)

theorem kreplace_kreplace (entries : List (Sigma fun _ : α => β)) :
    (entries.kreplace a b).kreplace a b' = entries.kreplace a b' := by
  induction entries with
  | nil => rfl
  | cons first rest ih =>
    by_cases hfirst : a = first.1
    · have hagain : a = (⟨a, b⟩ : Sigma fun _ : α => β).1 := rfl
      rw [kreplace_cons_of_eq hfirst, kreplace_cons_of_eq hfirst, kreplace_cons_of_eq hagain]
    · rw [kreplace_cons_of_ne hfirst, kreplace_cons_of_ne hfirst, kreplace_cons_of_ne hfirst, ih]

theorem lookup_replace_cases (h : (s.replace a b).lookup a' = some b') :
    (a' = a ∧ b' = b) ∨ s.lookup a' = some b' := by
  rcases mem_kreplace (AList.mem_lookup_iff.mp h) with heq | hmem
  · cases heq
    exact Or.inl ⟨rfl, rfl⟩
  · exact Or.inr (AList.mem_lookup_iff.mpr hmem)

theorem lookup_insert_cases (h : (s.insert a b).lookup a' = some b') : (a' = a ∧ b' = b) ∨ s.lookup a' = some b' := by
  by_cases heq : a' = a
  · subst heq
    rw [AList.lookup_insert] at h
    exact Or.inl ⟨rfl, (Option.some.inj h).symm⟩
  · rw [AList.lookup_insert_ne heq] at h
    exact Or.inr h

theorem lookup_of_lookup_erase (h : (s.erase a).lookup a' = some b') : s.lookup a' = some b' := by
  by_cases heq : a' = a
  · subst heq
    rw [AList.lookup_erase] at h
    cases h
  · rwa [AList.lookup_erase_ne heq] at h

theorem lookup_replace_self (h : s.lookup a = some b') : (s.replace a b).lookup a = some b :=
  AList.mem_lookup_iff.mpr (mem_kreplace_self (AList.mem_lookup_iff.mp h))

theorem replace_self (h : s.lookup a = some b) : s.replace a b = s :=
  AList.ext (List.kreplace_self s.nodupKeys (AList.mem_lookup_iff.mp h))

theorem replace_replace (s : AList fun _ : α => β) : (s.replace a b).replace a b' = s.replace a b' :=
  AList.ext (kreplace_kreplace s.entries)

theorem length_replace (s : AList fun _ : α => β) : (s.replace a b).entries.length = s.entries.length := by
  simpa [AList.keys, List.keys] using congrArg List.length (AList.keys_replace a b s)

theorem length_erase_le (s : AList fun _ : α => β) : (s.erase a).entries.length ≤ s.entries.length :=
  (List.kerase_sublist a s.entries).length_le

theorem length_insert (h : a ∉ s) : (s.insert a b).entries.length = s.entries.length + 1 := by
  rw [AList.entries_insert_of_notMem h, List.length_cons]

end Tables

/-! ### The invariant -/

structure GpuResource.Valid (r : GpuResource) : Prop where
  width_pos : 1 ≤ r.width.toNat
  width_le : r.width.toNat ≤ 16384
  height_pos : 1 ≤ r.height.toNat
  height_le : r.height.toNat ≤ 16384
  stride_eq : r.stride = 4 * r.width.toNat
  length_eq : r.data.length = r.stride * r.height.toNat
  length_le : r.data.length ≤ maxResourceBytes

theorem GpuResource.valid_of_new {format width height : UInt32}
    (h : GpuResource.new format width height = some r) : r.Valid := by
  unfold GpuResource.new at h
  split_ifs at h with _ hzero hbig
  obtain ⟨stride, hstride, h⟩ := Option.bind_eq_some_iff.mp h
  obtain ⟨len, hlen, h⟩ := Option.bind_eq_some_iff.mp h
  split_ifs at h with hbytes
  cases h
  unfold checkedUsize at hstride hlen
  split_ifs at hstride hlen
  cases hstride
  cases hlen
  simp only [not_or, maxResourceDimension, UInt32.not_lt, UInt32.le_iff_toNat_le, UInt32.reduceToNat] at hbig
  have hwidth : width.toNat ≠ 0 := fun h0 => hzero (Or.inl (UInt32.toNat_inj.mp h0))
  have hheight : height.toNat ≠ 0 := fun h0 => hzero (Or.inr (UInt32.toNat_inj.mp h0))
  constructor
  · exact Nat.one_le_iff_ne_zero.mpr hwidth
  · exact hbig.1
  · exact Nat.one_le_iff_ne_zero.mpr hheight
  · exact hbig.2
  · exact Nat.mul_comm _ _
  · exact List.length_replicate
  · rw [List.length_replicate]
    exact Nat.not_lt.mp hbytes

theorem GpuResource.Valid.withData (h : r.Valid) {data : Bytes}
    (hlen : data.length = r.data.length) : ({ r with data } : GpuResource).Valid where
  width_pos := h.width_pos
  width_le := h.width_le
  height_pos := h.height_pos
  height_le := h.height_le
  stride_eq := h.stride_eq
  length_eq := hlen.trans h.length_eq
  length_le := hlen.trans_le h.length_le

theorem GpuResource.Valid.withBacking (h : r.Valid) (backing : List VirtioGpuMemEntry) :
    ({ r with backing } : GpuResource).Valid := ⟨h.1, h.2, h.3, h.4, h.5, h.6, h.7⟩

namespace VirtioGpu

variable {W M : Type}

structure Invariant (s : VirtioGpu W) : Prop where
  count : s.resources.entries.length ≤ maxResources
  valid : ∀ id r, s.resources.lookup id = some r → r.Valid
  bound : ∀ scanout ∈ s.scanouts.toList, ∀ id, scanout.resourceId = some id → id ≠ 0 ∧ id ∈ s.resources
  unbound : ∀ scanout ∈ s.scanouts.toList, scanout.resourceId = none → scanout.rect = .empty

theorem Invariant.of_cleared {s : VirtioGpu W} (hresources : s.resources = ∅)
    (hscanouts : s.scanouts = Vector.replicate 16 .empty) : s.Invariant := by
  have hempty (scanout : VirtioGpuScanout) (h : scanout ∈ s.scanouts.toList) : scanout = .empty := by
    rw [hscanouts, Vector.toList_replicate] at h
    exact List.eq_of_mem_replicate h
  constructor
  · rw [hresources]
    exact Nat.zero_le _
  · intro id r hr
    rw [hresources] at hr
    cases hr
  · intro scanout hmem id hid
    rw [hempty scanout hmem] at hid
    cases hid
  · intro scanout hmem _
    rw [hempty scanout hmem]
    rfl

theorem invariant_new (window : W) : (new window).Invariant := .of_cleared rfl rfl

theorem invariant_reset (s : VirtioGpu W) : s.reset.Invariant := .of_cleared rfl rfl

/-! ### The commands that change the tables -/

variable {s : VirtioGpu W}

section

variable (h : s.Invariant)
include h

theorem Invariant.replace (id : UInt32) (hr : r.Valid) :
    Invariant { s with resources := s.resources.replace id r } where
  count := (length_replace s.resources).trans_le h.count
  valid id' r' hlookup := by
    rcases lookup_replace_cases hlookup with ⟨_, rfl⟩ | hold
    · exact hr
    · exact h.valid id' r' hold
  bound scanout hmem id' hid := by
    obtain ⟨hne, hlive⟩ := h.bound scanout hmem id' hid
    exact ⟨hne, AList.mem_replace.mpr hlive⟩
  unbound := h.unbound

theorem invariant_resourceCreate2d (bytes : Bytes) : (s.resourceCreate2d bytes).2.Invariant := by
  unfold resourceCreate2d
  split
  · exact h
  split_ifs with htaken hfull
  · exact h
  · exact h
  split
  · exact h
  rename_i req _ _ resource hnew
  constructor
  · show (s.resources.insert req.resourceId resource).entries.length ≤ maxResources
    rw [length_insert htaken]
    exact Nat.lt_of_not_le hfull
  · intro id r hlookup
    rcases lookup_insert_cases hlookup with ⟨_, rfl⟩ | hold
    · exact GpuResource.valid_of_new hnew
    · exact h.valid id r hold
  · intro scanout hmem id hid
    obtain ⟨hne, hlive⟩ := h.bound scanout hmem id hid
    exact ⟨hne, (AList.mem_insert _).mpr (Or.inr hlive)⟩
  · exact h.unbound

theorem invariant_resourceUnref (bytes : Bytes) : (s.resourceUnref bytes).2.Invariant := by
  unfold resourceUnref
  split
  · exact h
  rename_i id _
  -- A scanout of the new table is empty, or an old one that shows another resource.
  have hcases (scanout : VirtioGpuScanout) (hmem : scanout ∈ (s.scanouts.map fun scanout =>
      if scanout.resourceId = some id then VirtioGpuScanout.empty else scanout).toList) :
      scanout = .empty ∨ (scanout ∈ s.scanouts.toList ∧ scanout.resourceId ≠ some id) := by
    rw [Vector.toList_map, List.mem_map] at hmem
    obtain ⟨old, hold, rfl⟩ := hmem
    split_ifs with hshows
    · exact Or.inl rfl
    · exact Or.inr ⟨hold, hshows⟩
  constructor
  · exact (length_erase_le s.resources).trans h.count
  · exact fun id' r hlookup => h.valid id' r (lookup_of_lookup_erase hlookup)
  · intro scanout hmem id' hid'
    rcases hcases scanout hmem with rfl | ⟨hold, hother⟩
    · cases hid'
    · obtain ⟨hne, hlive⟩ := h.bound scanout hold id' hid'
      refine ⟨hne, AList.mem_erase.mpr ⟨fun heq => hother ?_, hlive⟩⟩
      rw [hid', heq]
  · intro scanout hmem hnone
    rcases hcases scanout hmem with rfl | ⟨hold, _⟩
    · rfl
    · exact h.unbound scanout hold hnone

theorem Invariant.setScanout (i : Nat) {scanout : VirtioGpuScanout}
    (hbound : ∀ id, scanout.resourceId = some id → id ≠ 0 ∧ id ∈ s.resources)
    (hunbound : scanout.resourceId = none → scanout.rect = .empty) :
    Invariant { s with scanouts := s.scanouts.setIfInBounds i scanout } := by
  have hcases (other : VirtioGpuScanout) (hmem : other ∈ (s.scanouts.setIfInBounds i scanout).toList) :
      other ∈ s.scanouts.toList ∨ other = scanout := by
    rw [Vector.toList_setIfInBounds] at hmem
    exact List.mem_or_eq_of_mem_set hmem
  refine ⟨h.count, h.valid, fun other hmem id hid => ?_, fun other hmem hnone => ?_⟩
  · rcases hcases other hmem with hold | rfl
    · exact h.bound other hold id hid
    · exact hbound id hid
  · rcases hcases other hmem with hold | rfl
    · exact h.unbound other hold hnone
    · exact hunbound hnone

theorem invariant_setScanout (bytes : Bytes) : (s.setScanout bytes).2.Invariant := by
  unfold VirtioGpu.setScanout
  split
  · exact h
  rename_i req _
  split_ifs with hrange hunknown hunbind
  · exact h
  · exact h
  · exact h.setScanout _ nofun fun _ => rfl
  · refine h.setScanout _ (fun id hid => ?_) nofun
    cases hid
    exact ⟨hunbind, not_not.mp fun hgone => hunknown ⟨hunbind, hgone⟩⟩

theorem invariant_resourceAttachBacking (bytes : Bytes) : (s.resourceAttachBacking bytes).2.Invariant := by
  unfold resourceAttachBacking
  split
  · exact h
  split
  · exact h
  · rename_i hlookup
    exact h.replace _ ((h.valid _ _ hlookup).withBacking _)

theorem invariant_resourceDetachBacking (bytes : Bytes) : (s.resourceDetachBacking bytes).2.Invariant := by
  unfold resourceDetachBacking
  split
  · exact h
  split
  · exact h
  · rename_i hlookup
    exact h.replace _ ((h.valid _ _ hlookup).withBacking _)

theorem Invariant.setWindow (window : W) : Invariant { s with window } :=
  ⟨h.count, h.valid, h.bound, h.unbound⟩

theorem Invariant.setConfig (config : VirtioGpuConfig) : Invariant { s with config } :=
  ⟨h.count, h.valid, h.bound, h.unbound⟩

theorem Invariant.attach (attached : Bool) : Invariant { s with attached } :=
  ⟨h.count, h.valid, h.bound, h.unbound⟩

end

/-! ### Programs of the device -/

def tablesAfter (cmd : GpuCommand) (bytes : Bytes) (s : VirtioGpu W) : VirtioGpu W :=
  match cmd with
  | .resourceCreate2d => (s.resourceCreate2d bytes).2
  | .resourceUnref => (s.resourceUnref bytes).2
  | .setScanout => (s.setScanout bytes).2
  | .resourceAttachBacking => (s.resourceAttachBacking bytes).2
  | .resourceDetachBacking => (s.resourceDetachBacking bytes).2
  | _ => s

variable [GuestMemory M]

section Keeps

variable {I : VirtioGpu W → Prop} (hwindow : ∀ s window, I s → I { s with window })
  (hdata : ∀ s0 s id r data, I s0 → s0.resources.lookup id = some r → data.length = r.data.length → I s →
    I { s with resources := s.resources.replace id { r with data } })

omit [GuestMemory M] in
theorem keepsDev_onTables {f : VirtioGpu W → GpuResponse × VirtioGpu W} (hf : ∀ s, I s → I (f s).2) :
    KeepsDev I (onTables f : Serve (VirtioGpu W) M GpuResponse) :=
  .onDev hf

include hdata in
theorem keepsDev_transferRows (id : UInt32) (rect : DisplayRect) (base remaining row : Nat) (rowBuf : Bytes) :
    KeepsDev I (transferRows id rect base remaining row rowBuf : Serve (VirtioGpu W) M Unit) := by
  induction remaining generalizing row rowBuf with
  | zero => exact .pure _
  | succ remaining ih =>
    refine .get_bind fun c hc => ?_
    split
    · exact .pure _
    rename_i resource hlookup
    split
    · exact .pure _
    refine .bind (.of_uses (uses_readBackingRange _ _ _ _ _) (by decide)) fun rowBuf => ?_
    refine .lift_bind fun rowStart _ => .lift_bind fun dstStart _ => .ite (.pure _) ?_
    refine .lift_bind fun data hcopy => .bind (.onDev fun s hs => ?_) fun _ => ih _ _
    exact hdata c.dev s id resource data hc hlookup (copySlice_eq_ok hcopy).2 hs

include hdata in
theorem keepsDev_transferToHost2d (bytes : Bytes) :
    KeepsDev I (transferToHost2d bytes : Serve (VirtioGpu W) M GpuResponse) := by
  unfold transferToHost2d
  split
  · exact .pure _
  refine .get_bind fun c _ => ?_
  split
  · exact .pure _
  refine .ite (.pure _) ?_
  split
  · exact .pure _
  refine .ite (.pure _) (.lift_bind fun rowBuf _ => ?_)
  exact .bind (keepsDev_transferRows hdata _ _ _ _ _ _) fun _ => .pure _

omit [GuestMemory M] in
include hwindow in
theorem keepsDev_resourceFlush [DisplayBackend W] (bytes : Bytes) :
    KeepsDev I (Serve.onDev (resourceFlush bytes) : Serve (VirtioGpu W) M GpuResponse) := by
  refine .onDev fun s hs => ?_
  unfold resourceFlush
  rw [finalState_bind_of_ok (get_eq_ok.mpr ⟨rfl, rfl⟩)]
  split
  · exact hs
  split
  · exact hs
  · rename_i id _ _ resource _
    cases hflush : flushScanouts id resource s.scanouts.toList s.window with
    | ok window => exact hwindow s window hs
    | error e => exact hs

theorem keepsDev_command [DisplayBackend W] (cmd : GpuCommand) (bytes : Bytes)
    (htables : ∀ s, I s → I (tablesAfter cmd bytes s)) (hwindow : ∀ s window, I s → I { s with window })
    (hdata : ∀ s0 s id r data, I s0 → s0.resources.lookup id = some r → data.length = r.data.length → I s →
      I { s with resources := s.resources.replace id { r with data } }) :
    KeepsDev I (command cmd bytes : Serve (VirtioGpu W) M GpuResponse) := by
  cases cmd with
  | getDisplayInfo => exact .get_bind fun _ _ => .pure _
  | resourceFlush => exact keepsDev_resourceFlush hwindow bytes
  | transferToHost2d => exact keepsDev_transferToHost2d hdata bytes
  | getEdid | cursorGet | updateCursor | unsupported => exact .pure _
  | _ =>
    refine keepsDev_onTables ?_
    exact htables

end Keeps

theorem invariant_tablesAfter (cmd : GpuCommand) (bytes : Bytes) (s : VirtioGpu W) (h : s.Invariant) :
    (tablesAfter cmd bytes s).Invariant := by
  cases cmd with
  | resourceCreate2d => exact invariant_resourceCreate2d h bytes
  | resourceUnref => exact invariant_resourceUnref h bytes
  | setScanout => exact invariant_setScanout h bytes
  | resourceAttachBacking => exact invariant_resourceAttachBacking h bytes
  | resourceDetachBacking => exact invariant_resourceDetachBacking h bytes
  | _ => exact h

theorem keeps_command [DisplayBackend W] (cmd : GpuCommand) (bytes : Bytes) :
    KeepsDev Invariant (command cmd bytes : Serve (VirtioGpu W) M GpuResponse) := by
  refine keepsDev_command cmd bytes (invariant_tablesAfter cmd bytes) (fun s window hs => hs.setWindow window) ?_
  intro s0 s id r data h₀ hlookup hlen hs
  exact hs.replace id ((h₀.valid id r hlookup).withData hlen)

theorem length_gatherLoop {steps : Nat} {link : Link} {request bytes : Bytes} {desc : VirtqDesc}
    {c t : Ctx (VirtioGpu W) M} (h : gatherLoop steps link request c = .ok (some (bytes, desc)) t)
    (hle : request.length ≤ maxRequestBytes) : bytes.length ≤ maxRequestBytes := by
  induction steps generalizing link request c with
  | zero => cases (pure_eq_ok.mp h).1
  | succ steps ih =>
    obtain ⟨d, t1, _, h⟩ := bind_eq_ok.mp h
    split at h
    · split at h
      · cases (pure_eq_ok.mp h).1
      · cases (pure_eq_ok.mp h).1
        exact hle
    split at h
    · cases (pure_eq_ok.mp h).1
    next hshort =>
    obtain ⟨chunk, t2, hchunk, h⟩ := bind_eq_ok.mp h
    obtain ⟨u, t3, _, h⟩ := bind_eq_ok.mp h
    split at h
    · cases (pure_eq_ok.mp h).1
    · refine ih h ?_
      have hmax : maxRequestBytes < 2 ^ 64 - 1 := by decide
      have hlen := GuestMemory.length_read (Serve.readGuestMemoryAlloc_eq_ok.mp hchunk).1
      unfold saturatingUsize at hshort
      rw [List.length_append]
      omega

/-- What the commands keep, a chain of the control queue keeps; their requests are of bounded length. -/
theorem keepsDev_serveControl [DisplayBackend W] {I : VirtioGpu W → Prop}
    (hcommand : ∀ cmd bytes, bytes.length ≤ maxRequestBytes →
      KeepsDev I (command cmd bytes : Serve (VirtioGpu W) M GpuResponse)) (head : UInt16) :
    KeepsDev I (serveControl head : Serve (VirtioGpu W) M Bool) := by
  refine .bind_of_ok (.of_uses (uses_gatherControlRequest head) (by decide)) fun c request? t hgather => ?_
  split
  · exact .of_uses (uses_retire head) (by decide)
  split
  · exact .of_uses (uses_retire head) (by decide)
  obtain ⟨u, t', _, hgather⟩ := bind_eq_ok.mp hgather
  refine .bind (hcommand _ _ (length_gatherLoop hgather (Nat.zero_le _))) fun response => ?_
  refine .bind (.of_uses (uses_writeBuf _ _) (by decide)) fun written => ?_
  exact .of_uses (.finish _ _ _ : Uses [.push] _) (by decide)

theorem dev_of_tick [DisplayBackend W] {I : VirtioGpu W → Prop}
    (hcommand : ∀ cmd bytes, KeepsDev I (command cmd bytes : Serve (VirtioGpu W) M GpuResponse))
    {fuel queueSel : Nat} {c c' : Ctx (VirtioGpu W) M} {worked : Bool}
    (h : VirtioDevice.tick fuel queueSel c = .ok worked c') (hc : I c.dev) : I c'.dev := by
  have hpop : KeepsDev I (Serve.popAvail : Serve (VirtioGpu W) M _) :=
    .of_uses (.popAvail (by decide) : Uses [.pop] _) (by decide)
  have hcursor (head : UInt16) : KeepsDev I (serveCursor head : Serve (VirtioGpu W) M Bool) :=
    .of_uses (uses_serveCursor head) (by decide)
  rw [QueueDevice.tick_eq (D := VirtioGpu W) (M := M)] at h
  cases hl : queueLoop (M := M) c.dev queueSel with
  | none =>
    rw [show QueueDevice.queueLoop c.dev queueSel = none from hl] at h
    rw [← (pure_eq_ok.mp h).2]
    exact hc
  | some l =>
    rw [show QueueDevice.queueLoop c.dev queueSel = some l from hl] at h
    have hkeeps := forall_queueLoop
      (P := fun l => KeepsDev I l.next ∧ ∀ fuel job, KeepsDev I (l.serve fuel job)) |>.mpr
      (fun _ => ⟨fun _ => ⟨hpop, fun _ => keepsDev_serveControl fun cmd bytes _ => hcommand cmd bytes⟩, fun _ => ⟨hpop, fun _ => hcursor⟩⟩) l hl
    exact QueueLoop.dev_of_run hkeeps.1 hkeeps.2 h hc

theorem keeps_serveControl [DisplayBackend W] (head : UInt16) :
    KeepsDev Invariant (serveControl head : Serve (VirtioGpu W) M Bool) :=
  keepsDev_serveControl (fun cmd bytes _ => keeps_command cmd bytes) head

theorem keeps_serveCursor (head : UInt16) : KeepsDev Invariant (serveCursor head : Serve (VirtioGpu W) M Bool) :=
  .of_uses (uses_serveCursor head) (by decide)

/-! ### The copies of a transfer -/

theorem readBackingRange_returns {D : Type} (start : Nat) (entries : List VirtioGpuMemEntry) {copied skipped : Nat}
    {out : Bytes} (hcopied : copied ≤ out.length) (c : Ctx D Ram) :
    ∃ out', readBackingRange start entries copied skipped out c = .ok out' c ∧ out'.length = out.length := by
  induction entries generalizing copied skipped out with
  | nil => exact ⟨out, rfl, rfl⟩
  | cons entry rest ih =>
    unfold readBackingRange
    dsimp only
    split_ifs with hfull hstart
    · exact ⟨out, rfl, rfl⟩
    · cases checkedUsize (entry.addr.toNat + (start - skipped)) with
      | none => exact ⟨out, rfl, rfl⟩
      | some addr =>
        generalize hn : min (entry.length.toNat - (start - skipped)) (out.length - copied) = n
        let tmp := c.mem.load (UInt64.ofNat addr) n
        have hcopy : copySlice out copied (copied + n) tmp = .ok (splice out copied tmp) :=
          if_pos ⟨Nat.le_add_right _ _, by omega, by simp [tmp]⟩
        have hlen := (copySlice_eq_ok hcopy).2
        obtain ⟨out', hrest, hlen'⟩ := @ih (copied + n) (saturatingUsize (skipped + entry.length.toNat))
          (splice out copied tmp) (by omega)
        refine ⟨out', bind_eq_ok.mpr ⟨tmp, c, rfl, bind_eq_ok.mpr ⟨_, c, ?_, hrest⟩⟩, hlen'.trans hlen⟩
        exact lift_eq_ok.mpr ⟨hcopy, rfl⟩
    · exact ih hcopied

theorem rowStart_lt {resource : GpuResource} (h : resource.Valid) (x y : UInt32) {row : Nat} (hrow : row < 2 ^ 32) :
    (y.toNat + row) * resource.stride < 2 ^ 64 ∧
      (y.toNat + row) * resource.stride + x.toNat * bytesPerPixel < 2 ^ 64 := by
  have hx := x.toNat_lt
  have hy := y.toNat_lt
  have hstride : resource.stride ≤ 2 ^ 16 := by
    have hwidth := h.width_le
    rw [h.stride_eq]
    omega
  have hmul : (y.toNat + row) * resource.stride ≤ 2 ^ 33 * 2 ^ 16 := Nat.mul_le_mul (by omega) hstride
  simp only [bytesPerPixel]
  omega

theorem transferRows_returns (id : UInt32) (rect : DisplayRect) (base : Nat) {remaining row : Nat}
    (hrow : row + remaining ≤ rect.height.toNat) (rowBuf : Bytes) {c : Ctx (VirtioGpu W) Ram}
    (hc : c.dev.Invariant) : Returns (transferRows id rect base remaining row rowBuf) c := by
  induction remaining generalizing row rowBuf c with
  | zero => exact ⟨(), c, rfl⟩
  | succ remaining ih =>
    unfold transferRows
    rw [returns_get_bind]
    cases hlookup : c.dev.resources.lookup id with
    | none => exact returns_pure _ _
    | some resource =>
      have hvalid := hc.valid id resource hlookup
      dsimp only
      cases checkedUsize (base + saturatingUsize (row * resource.stride)) with
      | none => exact returns_pure _ _
      | some src =>
        obtain ⟨buf, hread, _⟩ := readBackingRange_returns src resource.backing (Nat.zero_le _) c
        rw [returns_bind_of_ok hread]
        have hheight := rect.height.toNat_lt
        obtain ⟨hstart, hdst⟩ := rowStart_lt hvalid rect.x rect.y (by omega : row < 2 ^ 32)
        refine returns_lift_bind.mpr ⟨_, if_pos hstart, returns_lift_bind.mpr ⟨_, if_pos hdst, ?_⟩⟩
        generalize (rect.y.toNat + row) * resource.stride + rect.x.toNat * bytesPerPixel = dstStart
        generalize hlen : min buf.length (resource.data.length - dstStart) = copyLen
        refine returns_ite.mpr ⟨fun _ => returns_pure _ _, fun hcopy => ?_⟩
        have htake : (buf.take copyLen).length = copyLen := by
          rw [List.length_take]
          omega
        have hcopied : copySlice resource.data dstStart (dstStart + copyLen) (buf.take copyLen) =
            .ok (splice resource.data dstStart (buf.take copyLen)) :=
          if_pos ⟨Nat.le_add_right _ _, by omega, by omega⟩
        refine returns_lift_bind.mpr ⟨_, hcopied, ?_⟩
        rw [returns_bind_of_ok (a := ⟨⟩) (Serve.onDev_eq_ok.mpr ⟨_, modify_eq_ok.mpr rfl, rfl⟩)]
        exact ih (by omega) _ (hc.replace id (hvalid.withData (copySlice_eq_ok hcopied).2))

/-- **TRANSFER_TO_HOST_2D** does not panic, whatever the request and guest memory hold. -/
theorem transferToHost2d_returns (bytes : Bytes) {c : Ctx (VirtioGpu W) Ram} (hc : c.dev.Invariant) :
    Returns (transferToHost2d bytes) c := by
  cases hreq : VirtioGpuTransferToHost.fromBytes bytes with
  | none => exact .of_ok (transferToHost2d_of_short hreq)
  | some req =>
    cases hr : c.dev.resources.lookup req.resourceId with
    | none => exact .of_ok (transferToHost2d_of_dead hreq hr)
    | some resource =>
      by_cases haccepts : ∃ base, Accepts resource req base
      · obtain ⟨base, haccepts⟩ := haccepts
        unfold Returns
        rw [transferToHost2d_of_accepts hreq hr haccepts]
        refine returns_lift_bind.mpr ⟨_, if_pos ?_, ?_⟩
        · have hlt := req.rect.width.toNat_lt
          simp only [bytesPerPixel, isizeMax]
          omega
        · obtain ⟨_, t, hrows⟩ := transferRows_returns req.resourceId req.rect base
            (Nat.le_of_eq (Nat.zero_add _)) (List.replicate (req.rect.width.toNat * bytesPerPixel) 0) hc
          exact returns_bind.mpr ⟨_, t, hrows, returns_pure _ _⟩
      · exact .of_ok (transferToHost2d_of_refused hreq hr (not_exists.mp haccepts))

end VirtioGpu

/-! ### Runs of the device -/

/-- What happens to the device: a chain of either queue with the queue and guest memory it is served
from, and the operations of the transport. -/
inductive GpuEvent where
  | control (head : UInt16) (queue : VirtioQueue) (mem : Ram)
  | cursor (head : UInt16) (queue : VirtioQueue) (mem : Ram)
  | writeConfig (offset : Nat) (data : Bytes)
  | passGuestMemory
  | reset

/-- A chain that makes the device panic leaves it as it was then. -/
def gpuSystem (W : Type) [DisplayBackend W] : System (VirtioGpu W) GpuEvent where
  init s := ∃ window, s = .new window
  step s e s' :=
    match e with
    | .control head queue mem => s' = ((VirtioGpu.serveControl head).finalState ⟨s, queue, mem, []⟩).dev
    | .cursor head queue mem => s' = ((VirtioGpu.serveCursor head).finalState ⟨s, queue, mem, []⟩).dev
    | .writeConfig offset data => VirtioDevice.writeConfig Ram s offset data = .ok s'
    | .passGuestMemory => s' = VirtioDevice.passGuestMemory Ram s
    | .reset => s' = VirtioDevice.reset Ram s

theorem gpuSystem_step {W : Type} [DisplayBackend W] {s s' : VirtioGpu W} {e : GpuEvent} (h : s.Invariant)
    (hstep : (gpuSystem W).step s e s') : s'.Invariant := by
  cases e with
  | control head queue mem =>
    rw [show s' = _ from hstep]
    exact VirtioGpu.keeps_serveControl head ⟨s, queue, mem, []⟩ h
  | cursor head queue mem =>
    rw [show s' = _ from hstep]
    exact VirtioGpu.keeps_serveCursor head ⟨s, queue, mem, []⟩ h
  | writeConfig offset data =>
    obtain ⟨config, _, heq⟩ := Exec.bind_eq_ok.mp hstep
    cases heq
    exact h.setConfig config
  | passGuestMemory =>
    rw [show s' = _ from hstep]
    exact h.attach true
  | reset =>
    rw [show s' = _ from hstep]
    exact VirtioGpu.invariant_reset s

theorem invariant_of_reachable {W : Type} [DisplayBackend W] {s : VirtioGpu W} (h : (gpuSystem W).Reachable s) :
    s.Invariant := by
  refine h.invariant ?_ fun s e s' hs hstep => gpuSystem_step hs hstep
  rintro s ⟨window, rfl⟩
  exact VirtioGpu.invariant_new window

/-- **The tables stay in order** in every run of the device, and a transfer never leaves its buffers:
from every state that is reached, whatever it is asked to copy, it returns. -/
theorem gpu_tables_in_order {W : Type} [DisplayBackend W] {s : VirtioGpu W} (h : (gpuSystem W).Reachable s) :
    s.Invariant ∧ ∀ bytes (c : Ctx (VirtioGpu W) Ram), c.dev = s → Returns (VirtioGpu.transferToHost2d bytes) c := by
  have hinv := invariant_of_reachable h
  refine ⟨hinv, fun bytes c hc => ?_⟩
  subst hc
  exact VirtioGpu.transferToHost2d_returns bytes hinv

/-- Two descriptors, a request for resource 7 with two columns and three rows, and room for the reply. -/
def createRequest : Ram :=
  ⟨[{ isNull := false
      bytes := [32, 0, 0, 0, 0, 0, 0, 0, 40, 0, 0, 0, 1, 0, 1, 0, 72, 0, 0, 0, 0, 0, 0, 0, 24, 0, 0, 0, 2, 0, 0, 0,
        1, 1, 0, 0, 0, 0, 0, 0, 0, 0, 0, 0, 0, 0, 0, 0, 0, 0, 0, 0, 0, 0, 0, 0, 7, 0, 0, 0, 1, 0, 0, 0, 2, 0, 0, 0,
        3, 0, 0, 0] ++ List.replicate 24 0
      memOffset := 0
      size_le := by decide }]⟩

def createdOne : VirtioGpu (FerrumSDLContext SdlCanvas.blank) :=
  ((VirtioGpu.serveControl 0).finalState ⟨.new ⟨(), 640, 480⟩,
    { VirtioQueue.new with size := 2, ready := true, usedAddr := 96 }, createRequest, []⟩).dev

theorem gpu_tables_in_order_created :
    (gpuSystem _).Reachable createdOne ∧ 7 ∈ createdOne.resources ∧ createdOne.Invariant ∧
      ∀ bytes (c : Ctx _ Ram), c.dev = createdOne → Returns (VirtioGpu.transferToHost2d bytes) c := by
  have hinit : (gpuSystem (FerrumSDLContext SdlCanvas.blank)).Reachable (.new ⟨(), 640, 480⟩) :=
    System.Reachable.init ⟨_, rfl⟩
  have hreach : (gpuSystem _).Reachable createdOne := hinit.next (e := .control 0 _ createRequest) rfl
  have hlive : (createdOne.resources.lookup 7).isSome = true := by
    decide
  exact ⟨hreach, AList.lookup_isSome.mp hlive, gpu_tables_in_order hreach⟩

end FerrumVM
