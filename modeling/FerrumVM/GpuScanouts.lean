import FerrumVM.GpuInvariant

/-! The rectangles of the scanouts. A command binds a scanout to a resource with a rectangle of the
driver's choice, and a later one draws that part of the resource. Whether the rectangle lies inside the
resource is decided when the scanout is bound, since resources never change their size. -/

namespace FerrumVM

open Base Program

variable {r : GpuResource}

namespace GpuResource

def size (r : GpuResource) : UInt32 × UInt32 := (r.width, r.height)

def Inside (r : GpuResource) (rect : DisplayRect) : Prop :=
  rect.x.toNat + rect.width.toNat ≤ r.width.toNat ∧ rect.y.toNat + rect.height.toNat ≤ r.height.toNat

theorem contains_congr {r' : GpuResource} (h : r.size = r'.size) (rect : DisplayRect) :
    r.contains rect = r'.contains rect := by
  have hwidth : r.width = r'.width := congrArg Prod.fst h
  have hheight : r.height = r'.height := congrArg Prod.snd h
  rw [contains, contains, hwidth, hheight]

theorem inside_of_contains (hr : r.Valid) {rect : DisplayRect} (h : r.contains rect = true) : r.Inside rect := by
  have hwidth := hr.width_le
  have hheight := hr.height_le
  simp only [contains, Bool.and_eq_true, decide_eq_true_eq] at h
  obtain ⟨⟨_, hright⟩, hbottom⟩ := h
  unfold saturatingAdd at hright hbottom
  exact ⟨by omega, by omega⟩

end GpuResource

namespace VirtioGpu

variable {W M : Type} {s : VirtioGpu W} {id : UInt32}

def sizes (s : VirtioGpu W) (id : UInt32) : Option (UInt32 × UInt32) := (s.resources.lookup id).map GpuResource.size

/-- Every scanout that shows a resource shows a part of it. -/
def RectsInside (s : VirtioGpu W) : Prop :=
  ∀ scanout ∈ s.scanouts.toList, ∀ id r, scanout.resourceId = some id → s.resources.lookup id = some r →
    r.contains scanout.rect = true

def blits (id : UInt32) (scanouts : List VirtioGpuScanout) : List DisplayRect :=
  (scanouts.filter fun scanout => scanout.resourceId = some id).map (·.rect)

theorem flushScanouts_eq_foldlM [DisplayBackend W] (id : UInt32) (resource : GpuResource)
    (scanouts : List VirtioGpuScanout) (window : W) : flushScanouts id resource scanouts window =
      (blits id scanouts).foldlM (fun window rect => DisplayBackend.blit window resource.data resource.stride rect)
        window := by
  induction scanouts generalizing window with
  | nil => rfl
  | cons scanout rest ih =>
    unfold flushScanouts
    by_cases hshows : scanout.resourceId = some id
    · rw [if_pos hshows, blits, List.filter_cons_of_pos (by simpa using hshows), List.map_cons, List.foldlM_cons]
      exact congrArg _ (funext ih)
    · rw [if_neg hshows, blits, List.filter_cons_of_neg (by simpa using hshows)]
      exact ih window

theorem RectsInside.blits (h : s.RectsInside)
    (hr : s.resources.lookup id = some r) {rect : DisplayRect} (hrect : rect ∈ blits id s.scanouts.toList) :
    r.contains rect = true := by
  obtain ⟨scanout, hmem, rfl⟩ := List.mem_map.mp hrect
  obtain ⟨hmem, hshows⟩ := List.mem_filter.mp hmem
  exact h scanout hmem id r (by simpa using hshows) hr

theorem RectsInside.congr {s' : VirtioGpu W} (h : s.RectsInside) (hscanouts : s'.scanouts = s.scanouts)
    (hsizes : s'.sizes = s.sizes) : s'.RectsInside := by
  intro scanout hmem id r hid hr
  rw [hscanouts] at hmem
  have hsize : s.sizes id = some r.size := by
    rw [← hsizes, sizes, hr]
    rfl
  obtain ⟨r', hr', heq⟩ := Option.map_eq_some_iff.mp hsize
  rw [← GpuResource.contains_congr heq]
  exact h scanout hmem id r' hid hr'

/-! ### Commands that leave scanouts and sizes alone -/

theorem sizes_replace (h : ∀ old, s.resources.lookup id = some old → old.size = r.size) :
    sizes { s with resources := s.resources.replace id r } = s.sizes := by
  funext id'
  show ((s.resources.replace id r).lookup id').map _ = (s.resources.lookup id').map _
  cases hnew : (s.resources.replace id r).lookup id' with
  | none =>
    have hgone : id' ∉ s.resources := fun hmem => AList.lookup_eq_none.mp hnew (AList.mem_replace.mpr hmem)
    rw [AList.lookup_eq_none.mpr hgone]
  | some r' =>
    rcases lookup_replace_cases hnew with ⟨rfl, rfl⟩ | hold
    · have hmem : id' ∈ s.resources := AList.mem_replace.mp (AList.lookup_isSome.mp (by rw [hnew]; rfl))
      obtain ⟨old, hold⟩ := Option.isSome_iff_exists.mp (AList.lookup_isSome.mpr hmem)
      rw [hold, Option.map_some, Option.map_some, h old hold]
    · rw [hold]

def Shaped (scanouts : Vector VirtioGpuScanout 16) (sizes : UInt32 → Option (UInt32 × UInt32))
    (s : VirtioGpu W) : Prop :=
  s.scanouts = scanouts ∧ s.sizes = sizes

section

variable {scanouts : Vector VirtioGpuScanout 16} {sizes : UInt32 → Option (UInt32 × UInt32)} (h : s.Shaped scanouts sizes)
include h

theorem Shaped.replace (hr : sizes id = some r.size) :
    Shaped scanouts sizes { s with resources := s.resources.replace id r } := by
  refine ⟨h.1, (sizes_replace fun old hold => ?_).trans h.2⟩
  have hsize : s.sizes id = some old.size := by
    rw [VirtioGpu.sizes, hold]
    rfl
  rw [h.2, hr] at hsize
  exact (Option.some.inj hsize).symm

theorem Shaped.size_eq (hr : s.resources.lookup id = some r) : sizes id = some r.size := by
  rw [← h.2, VirtioGpu.sizes, hr]
  rfl

end

theorem shaped_command [GuestMemory M] [DisplayBackend W] (scanouts : Vector VirtioGpuScanout 16)
    (sizes : UInt32 → Option (UInt32 × UInt32)) {cmd : GpuCommand} (hcreate : cmd ≠ .resourceCreate2d)
    (hunref : cmd ≠ .resourceUnref) (hset : cmd ≠ .setScanout) (bytes : Bytes) :
    KeepsDev (Shaped scanouts sizes) (command cmd bytes : Serve (VirtioGpu W) M GpuResponse) := by
  refine keepsDev_command cmd bytes (fun s hs => ?_) (fun _ _ hs => hs) fun s0 s id r data h0 hr _ hs => ?_
  · cases cmd with
    | resourceCreate2d => exact absurd rfl hcreate
    | resourceUnref => exact absurd rfl hunref
    | setScanout => exact absurd rfl hset
    | resourceAttachBacking =>
      show Shaped _ _ (s.resourceAttachBacking bytes).2
      unfold resourceAttachBacking
      split
      · exact hs
      split
      · exact hs
      · rename_i hlookup
        exact hs.replace (hs.size_eq hlookup :)
    | resourceDetachBacking =>
      show Shaped _ _ (s.resourceDetachBacking bytes).2
      unfold resourceDetachBacking
      split
      · exact hs
      split
      · exact hs
      · rename_i hlookup
        exact hs.replace (hs.size_eq hlookup :)
    | _ => exact hs
  · exact hs.replace (h0.size_eq hr :)

/-! ### Commands that make, drop and bind -/

variable {s : VirtioGpu W}

theorem rectsInside_resourceCreate2d (hinv : s.Invariant) (h : s.RectsInside) (bytes : Bytes) :
    (s.resourceCreate2d bytes).2.RectsInside := by
  unfold resourceCreate2d
  split
  · exact h
  split_ifs with htaken hfull
  · exact h
  · exact h
  split
  · exact h
  rename_i req _ _ resource _
  intro scanout hmem id r hid hr
  -- The new resource is not one that a scanout shows.
  have hne : id ≠ req.resourceId := fun heq => htaken (heq ▸ (hinv.bound scanout hmem id hid).2)
  rw [AList.lookup_insert_ne hne] at hr
  exact h scanout hmem id r hid hr

theorem rectsInside_resourceUnref (h : s.RectsInside) (bytes : Bytes) : (s.resourceUnref bytes).2.RectsInside := by
  unfold resourceUnref
  split
  · exact h
  rename_i gone _
  intro scanout hmem id r hid hr
  rw [Vector.toList_map, List.mem_map] at hmem
  obtain ⟨old, hold, rfl⟩ := hmem
  split_ifs at hid ⊢ with hshows
  · cases hid
  · have hne : id ≠ gone := fun heq => hshows (heq ▸ hid)
    rw [AList.lookup_erase_ne hne] at hr
    exact h old hold id r hid hr

/-- If the request binds a scanout to a resource, its rectangle is a part of the resource. -/
def SetScanoutFits (s : VirtioGpu W) (bytes : Bytes) : Prop :=
  ∀ req r, VirtioGpuSetScanout.fromBytes bytes = some req → req.scanoutId.toNat < maxScanouts →
    req.resourceId ≠ 0 → s.resources.lookup req.resourceId = some r → r.contains req.rect = true

theorem rectsInside_setScanout_iff (h : s.RectsInside) (bytes : Bytes) :
    (s.setScanout bytes).2.RectsInside ↔ s.SetScanoutFits bytes := by
  unfold setScanout
  cases hreq : VirtioGpuSetScanout.fromBytes bytes with
  | none => exact iff_of_true h fun req r hsome => by simp [hreq] at hsome
  | some req =>
    have hfits : s.SetScanoutFits bytes ↔ (req.scanoutId.toNat < maxScanouts → req.resourceId ≠ 0 →
        ∀ r, s.resources.lookup req.resourceId = some r → r.contains req.rect = true) := by
      unfold SetScanoutFits
      rw [hreq]
      exact ⟨fun hall hid hne r hr => hall req r rfl hid hne hr,
        fun hall req' r heq hid hne hr => by cases heq; exact hall hid hne r hr⟩
    rw [hfits]
    dsimp only
    split_ifs with hrange hunknown hunbind
    · exact iff_of_true h fun hid => absurd hid (Nat.not_lt.mpr hrange)
    · refine iff_of_true h fun _ _ r hr => absurd ?_ hunknown.2
      exact AList.lookup_isSome.mp (by rw [hr]; rfl)
    · refine iff_of_true (fun scanout hmem id r hid hr => ?_) fun _ hne => absurd hunbind hne
      rw [Vector.toList_setIfInBounds] at hmem
      rcases List.mem_or_eq_of_mem_set hmem with hold | rfl
      · exact h scanout hold id r hid hr
      · cases hid
    · constructor
      · intro hinside hid _ r hr
        refine hinside ⟨some req.resourceId, req.rect⟩ ?_ req.resourceId r rfl hr
        rw [Vector.toList_setIfInBounds]
        have hlen : req.scanoutId.toNat < s.scanouts.toList.length := by simpa [maxScanouts] using hid
        exact List.mem_set hlen _
      · intro hfits scanout hmem id r hid hr
        rw [Vector.toList_setIfInBounds] at hmem
        rcases List.mem_or_eq_of_mem_set hmem with hold | rfl
        · exact h scanout hold id r hid hr
        · cases hid
          exact hfits (Nat.lt_of_not_le hrange) hunbind r hr

end VirtioGpu

/-! ### Chains and runs -/

namespace VirtioGpu

variable {W M : Type} [GuestMemory M]

def requestOf (head : UInt16) (c : Ctx (VirtioGpu W) M) : Option (GpuCommand × Bytes) :=
  match gatherControlRequest head c with
  | .ok (some (request, _)) _ =>
    (VirtioGpuCtrlHdr.fromBytes request).map fun header => (GpuCommand.ofNumber header.typ, request)
  | _ => none

theorem dev_serveControl [DisplayBackend W] (head : UInt16) (c : Ctx (VirtioGpu W) M) :
    (requestOf head c = none ∧ ((serveControl head).finalState c).dev = c.dev) ∨
      ∃ cmd bytes, ∃ t : Ctx (VirtioGpu W) M, requestOf head c = some (cmd, bytes) ∧ t.dev = c.dev ∧
        ((serveControl head).finalState c).dev = ((command cmd bytes).finalState t).dev := by
  have hquiet := (uses_gatherControlRequest head).effect c
  have hsame {α : Type} {dev : VirtioGpu W} {kinds : List Prim} {x : Serve (VirtioGpu W) M α} (hx : Uses kinds x)
      (hdev : .dev ∉ kinds) (t : Ctx (VirtioGpu W) M) (ht : t.dev = dev) : (x.finalState t).dev = dev :=
    KeepsDev.of_uses (I := (· = dev)) hx hdev t ht
  unfold serveControl requestOf
  cases hgather : gatherControlRequest head c with
  | error e t =>
    rw [finalState_bind_of_error hgather]
    rw [finalState_of_error hgather] at hquiet
    exact Or.inl ⟨rfl, hquiet.dev (by decide)⟩
  | ok request? t =>
    rw [finalState_bind_of_ok hgather]
    rw [finalState_of_ok hgather] at hquiet
    have ht : t.dev = c.dev := hquiet.dev (by decide)
    cases request? with
    | none => exact Or.inl ⟨rfl, hsame (uses_retire head) (by decide) t ht⟩
    | some gathered =>
      obtain ⟨request, desc⟩ := gathered
      dsimp only
      cases hheader : VirtioGpuCtrlHdr.fromBytes request with
      | none => exact Or.inl ⟨rfl, hsame (uses_retire head) (by decide) t ht⟩
      | some header =>
        refine Or.inr ⟨_, _, t, rfl, ht, ?_⟩
        dsimp only
        unfold answer
        cases hcommand : command (GpuCommand.ofNumber header.typ) request t with
        | error e u => rw [finalState_bind_of_error hcommand, finalState_of_error hcommand]
        | ok response u =>
          rw [finalState_bind_of_ok hcommand, finalState_of_ok hcommand]
          have huses : Uses [.write, .push] (do
              let written ← writeBuf desc (GpuResponse.bytes response)
              Serve.pushUsed head (UInt32.ofNat written)
              return true : Serve (VirtioGpu W) M Bool) :=
            .bind ((uses_writeBuf _ _).mono) fun written =>
              .finish _ _ _
          exact hsame huses (by decide) u rfl

theorem rectsInside_command_iff [DisplayBackend W] {c : Ctx (VirtioGpu W) M} (hinv : c.dev.Invariant)
    (h : c.dev.RectsInside) (cmd : GpuCommand) (bytes : Bytes) :
    ((command cmd bytes).finalState c).dev.RectsInside ↔ (cmd = .setScanout → c.dev.SetScanoutFits bytes) := by
  by_cases hset : cmd = .setScanout
  · subst hset
    rw [forall_prop_of_true rfl]
    exact rectsInside_setScanout_iff h bytes
  refine iff_of_true ?_ fun heq => absurd heq hset
  by_cases hcreate : cmd = .resourceCreate2d
  · subst hcreate
    exact rectsInside_resourceCreate2d hinv h bytes
  by_cases hunref : cmd = .resourceUnref
  · subst hunref
    exact rectsInside_resourceUnref h bytes
  obtain ⟨hscanouts, hsizes⟩ := shaped_command c.dev.scanouts c.dev.sizes hcreate hunref
    hset bytes c ⟨rfl, rfl⟩
  exact h.congr hscanouts hsizes

/-- Every bound scanout has a resource, and shows a part of it. -/
def ScanoutsInside (s : VirtioGpu W) : Prop :=
  ∀ scanout ∈ s.scanouts.toList, ∀ id, scanout.resourceId = some id →
    ∃ r, s.resources.lookup id = some r ∧ r.contains scanout.rect = true

theorem scanoutsInside_iff {s : VirtioGpu W} (hinv : s.Invariant) : s.ScanoutsInside ↔ s.RectsInside := by
  constructor
  · intro h scanout hmem id r hid hr
    obtain ⟨r', hr', hinside⟩ := h scanout hmem id hid
    rw [hr] at hr'
    cases hr'
    exact hinside
  · intro h scanout hmem id hid
    obtain ⟨r, hr⟩ := Option.isSome_iff_exists.mp (AList.lookup_isSome.mpr (hinv.bound scanout hmem id hid).2)
    exact ⟨r, hr, h scanout hmem id r hid hr⟩

end VirtioGpu

section

variable {W : Type} [DisplayBackend W]

/-- A chain that binds a scanout to a resource asks for a part of the resource. -/
def BindsInside (s : VirtioGpu W) : GpuEvent → Prop
  | .control head queue mem =>
    ∀ bytes, VirtioGpu.requestOf head ⟨s, queue, mem, []⟩ = some (.setScanout, bytes) → s.SetScanoutFits bytes
  | _ => True

theorem rectsInside_step_iff {s s' : VirtioGpu W} {e : GpuEvent} (hinv : s.Invariant) (h : s.RectsInside)
    (hstep : (gpuSystem W).step s e s') : s'.RectsInside ↔ BindsInside s e := by
  have hsame (heq : s' = s) : s'.RectsInside := heq ▸ h
  cases e with
  | control head queue mem =>
    rw [show s' = _ from hstep]
    rcases VirtioGpu.dev_serveControl head ⟨s, queue, mem, []⟩ with
      ⟨hnone, hdev⟩ | ⟨cmd, bytes, t, hrequest, ht, hdev⟩
    · rw [hdev]
      exact iff_of_true h fun bytes hsome => by simp [hnone] at hsome
    · subst ht
      rw [hdev, VirtioGpu.rectsInside_command_iff hinv h, BindsInside, hrequest]
      constructor
      · rintro hfits bytes' ⟨⟩
        exact hfits rfl
      · rintro hfits rfl
        exact hfits bytes rfl
  | cursor head queue mem =>
    have hcursor : KeepsDev (· = s) (VirtioGpu.serveCursor head : Serve (VirtioGpu W) Ram Bool) :=
      .of_uses (VirtioGpu.uses_serveCursor head) (by decide)
    exact iff_of_true (hsame (hstep.trans (hcursor ⟨s, queue, mem, []⟩ rfl))) trivial
  | writeConfig offset data =>
    obtain ⟨config, _, heq⟩ := Exec.bind_eq_ok.mp hstep
    cases heq
    exact iff_of_true h trivial
  | passGuestMemory =>
    rw [show s' = _ from hstep]
    exact iff_of_true h trivial
  | reset =>
    rw [show s' = _ from hstep]
    refine iff_of_true (fun scanout _ id r _ hr => ?_) trivial
    cases hr

/-- **Scanouts show parts of their resources** in every state of a run in which each chain that binds a
scanout asks for such a part, and a flush then draws only rectangles inside the resource it flushes. From
such a state a further step keeps that exactly when it meets the condition. -/
theorem scanouts_inside_iff {s : VirtioGpu W} (h : (gpuSystem W).ReachedBy BindsInside s) : s.ScanoutsInside ∧
      (∀ id r (window : W), s.resources.lookup id = some r → VirtioGpu.flushScanouts id r s.scanouts.toList window =
            (VirtioGpu.blits id s.scanouts.toList).foldlM
              (fun window rect => DisplayBackend.blit window r.data r.stride rect) window ∧
          ∀ rect ∈ VirtioGpu.blits id s.scanouts.toList, r.Inside rect) ∧
      ∀ e s', (gpuSystem W).step s e s' → (s'.ScanoutsInside ↔ BindsInside s e) := by
  obtain ⟨hinv, hinside⟩ : s.Invariant ∧ s.RectsInside := by
    refine h.invariant (I := fun s => s.Invariant ∧ s.RectsInside) ?_ fun s e s' hs hbinds hstep => ?_
    · rintro s ⟨window, rfl⟩
      refine ⟨VirtioGpu.invariant_new window, fun scanout _ id r _ hr => ?_⟩
      cases hr
    · exact ⟨gpuSystem_step hs.1 hstep, (rectsInside_step_iff hs.1 hs.2 hstep).mpr hbinds⟩
  refine ⟨(VirtioGpu.scanoutsInside_iff hinv).mpr hinside, fun id r window hr => ⟨?_, fun rect hrect => ?_⟩, ?_⟩
  · exact VirtioGpu.flushScanouts_eq_foldlM id r _ window
  · exact GpuResource.inside_of_contains (hinv.valid id r hr) (hinside.blits hr hrect)
  · intro e s' hstep
    rw [VirtioGpu.scanoutsInside_iff (gpuSystem_step hinv hstep)]
    exact rectsInside_step_iff hinv hinside hstep

end

/-- A request to show a part of resource 7, from its corner on, on scanout 0. -/
def showRequest (width height : UInt8) : Ram :=
  ⟨[{ isNull := false
      bytes := [32, 0, 0, 0, 0, 0, 0, 0, 48, 0, 0, 0, 1, 0, 1, 0, 80, 0, 0, 0, 0, 0, 0, 0, 24, 0, 0, 0, 2, 0, 0, 0,
        3, 1, 0, 0, 0, 0, 0, 0, 0, 0, 0, 0, 0, 0, 0, 0, 0, 0, 0, 0, 0, 0, 0, 0, 0, 0, 0, 0, 0, 0, 0, 0,
        width, 0, 0, 0, height, 0, 0, 0, 0, 0, 0, 0, 7, 0, 0, 0] ++ List.replicate 24 0
      memOffset := 0
      size_le := by simp [isizeMax] }]⟩

def showQueue : VirtioQueue := { VirtioQueue.new with size := 2, ready := true, usedAddr := 104 }

/-- A device with a resource of two columns and three rows that was asked to show a part of it. -/
def shown (width height : UInt8) : VirtioGpu (FerrumSDLContext SdlCanvas.blank) :=
  ((VirtioGpu.serveControl 0).finalState ⟨createdOne, showQueue, showRequest width height, []⟩).dev

theorem createdOne_reached : (gpuSystem _).ReachedBy BindsInside createdOne := by
  have hinit : (gpuSystem (FerrumSDLContext SdlCanvas.blank)).ReachedBy BindsInside (.new ⟨(), 640, 480⟩) :=
    .init ⟨_, rfl⟩
  refine .step (e := .control 0 _ createRequest) hinit (fun bytes hrequest => ?_) rfl
  have hcreate : (VirtioGpu.requestOf 0 (⟨.new ⟨(), 640, 480⟩,
      { VirtioQueue.new with size := 2, ready := true, usedAddr := 96 }, createRequest, []⟩ :
      Ctx (VirtioGpu (FerrumSDLContext SdlCanvas.blank)) Ram)).map Prod.fst = some .resourceCreate2d := by
    decide
  rw [hrequest] at hcreate
  cases hcreate

theorem shown_reached : (gpuSystem _).ReachedBy BindsInside (shown 2 3) := by
  refine .step (e := .control 0 showQueue (showRequest 2 3)) createdOne_reached (fun bytes hrequest => ?_) rfl
  intro req r hreq _ _ hr
  have hshow : ((VirtioGpu.requestOf 0 (⟨createdOne, showQueue, showRequest 2 3, []⟩ : Ctx _ Ram)).bind
      fun request => VirtioGpuSetScanout.fromBytes request.2) = some ⟨⟨0, 0, 2, 3⟩, 0, 7⟩ := by
    decide +kernel
  have hfits : (createdOne.resources.lookup 7).map (·.contains ⟨0, 0, 2, 3⟩) = some true := by
    decide
  rw [hrequest, Option.bind_some, hreq] at hshow
  cases hshow
  rw [hr] at hfits
  exact Option.some.inj hfits

theorem scanouts_inside_shown : (shown 2 3).scanouts.toList.map (·.resourceId) = some 7 :: List.replicate 15 none ∧
      (shown 2 3).ScanoutsInside ∧
      (∀ id r (window : FerrumSDLContext SdlCanvas.blank), (shown 2 3).resources.lookup id = some r →
        VirtioGpu.flushScanouts id r (shown 2 3).scanouts.toList window =
            (VirtioGpu.blits id (shown 2 3).scanouts.toList).foldlM
              (fun window rect => DisplayBackend.blit window r.data r.stride rect) window ∧
          ∀ rect ∈ VirtioGpu.blits id (shown 2 3).scanouts.toList, r.Inside rect) ∧
      ∀ e s', (gpuSystem _).step (shown 2 3) e s' → (s'.ScanoutsInside ↔ BindsInside (shown 2 3) e) :=
  ⟨by decide +kernel, scanouts_inside_iff shown_reached⟩

/-- A scanout of sixteen columns and rows is bound to a resource of two columns and three rows, and the
next flush of the resource draws all of it. -/
theorem scanout_bound_outside : (gpuSystem _).Reachable (shown 16 16) ∧ ¬(shown 16 16).ScanoutsInside ∧
      VirtioGpu.blits 7 (shown 16 16).scanouts.toList = [⟨0, 0, 16, 16⟩] ∧
      ∀ r, (shown 16 16).resources.lookup 7 = some r → ¬r.Inside ⟨0, 0, 16, 16⟩ := by
  have hcreated : (gpuSystem _).Reachable createdOne := createdOne_reached.mono fun _ _ _ => trivial
  have hblits : VirtioGpu.blits 7 (shown 16 16).scanouts.toList = [⟨0, 0, 16, 16⟩] := by decide +kernel
  have hsize : (shown 16 16).sizes 7 = some (2, 3) := by decide +kernel
  have houtside (r : GpuResource) (hr : (shown 16 16).resources.lookup 7 = some r) :
      ¬r.Inside ⟨0, 0, 16, 16⟩ ∧ r.contains ⟨0, 0, 16, 16⟩ = false := by
    obtain ⟨r', hr', heq⟩ := Option.map_eq_some_iff.mp hsize
    rw [hr] at hr'
    cases hr'
    obtain ⟨hwidth, hheight⟩ := Prod.mk.inj heq
    constructor
    · rintro ⟨hx, _⟩
      rw [hwidth] at hx
      exact absurd hx (by decide)
    · rw [GpuResource.contains, hwidth, hheight]
      decide
  refine ⟨hcreated.next (e := .control 0 showQueue (showRequest 16 16)) rfl, fun hinside => ?_, hblits,
    fun r hr => (houtside r hr).1⟩
  have hmem : (⟨0, 0, 16, 16⟩ : DisplayRect) ∈ VirtioGpu.blits 7 (shown 16 16).scanouts.toList := by simp [hblits]
  obtain ⟨scanout, hmem, hrect⟩ := List.mem_map.mp hmem
  obtain ⟨hmem, hshows⟩ := List.mem_filter.mp hmem
  obtain ⟨r, hr, hcontains⟩ := hinside scanout hmem 7 (by simpa using hshows)
  rw [hrect, (houtside r hr).2] at hcontains
  cases hcontains

end FerrumVM
