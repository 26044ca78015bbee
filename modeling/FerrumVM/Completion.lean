import FerrumVM.Shipped

/-! Whether a tick reports the chains it retired. The devices keep the report by hand. Most mark work for
every chain; the block device and the network device retire a chain they cannot use without marking it,
so their report is right only when, among the chains a tick retires, there is one they can use. -/

namespace FerrumVM

open Base Program

variable {worked : Bool}

section

variable {D M α β : Type}

def SignalsCompletion (worked : Bool) (c c' : Ctx D M) : Prop :=
  worked = true ↔ retiredHeads c'.log ≠ retiredHeads c.log

namespace QueueLoop

/-- If the loop comes to a job at all, it comes to one with the property. -/
def ComesTo (l : QueueLoop D M) (c : Ctx D M) (P : l.Job → Ctx D M → Prop) : Prop :=
  (∃ job t, l.Reaches c job t) → ∃ job t, l.Reaches c job t ∧ P job t

def WorksIff (l : QueueLoop D M) (fuel : Nat) (P : l.Job → Ctx D M → Prop) : Prop :=
  ∀ job c worked c', l.serve fuel job c = .ok worked c' → (worked = true ↔ P job c)

theorem signals_iff [GuestMemory M] {l : QueueLoop D M} (hl : l.Lawful) {fuel : Nat} {P : l.Job → Ctx D M → Prop}
    (hworks : l.WorksIff fuel P) {c c' : Ctx D M} (h : l.run fuel c = .ok worked c') :
    SignalsCompletion worked c c' ↔ l.ComesTo c P := by
  obtain ⟨jobs, t, hserves, rfl, hwithin, hend⟩ := run_eq_ok h
  have hring : c'.ring = t.ring := by
    rcases hend with hidle | ⟨_, rfl⟩
    · exact hl.pops.ring_none hidle
    · rfl
  have hserved := (served_of_drained hl.pops (hl.retires fuel) hserves).trans_ring hring
  have hretired : retiredHeads c'.log ≠ retiredHeads c.log ↔ jobs ≠ [] := by
    rw [(ring_eq_iff.mp hserved).2.2]
    simp
  have hsome : jobs ≠ [] ↔ ∃ job u, l.Reaches c job u := by
    constructor
    · intro hne
      obtain ⟨⟨job, worked⟩, rest, rfl⟩ := List.exists_cons_of_ne_nil hne
      have hfirst : l.Serves fuel c ([] ++ (job, worked) :: rest) t := hserves
      obtain ⟨t0, u, u', hnone, hnext, hserve, _⟩ := hfirst.split
      exact ⟨job, u, (reaches_iff hl.mono hserves hend hwithin).mpr
        ⟨[], worked, rest, t0, u', rfl, hnone, hnext, hserve⟩⟩
    · rintro ⟨job, u, hreach⟩ rfl
      obtain ⟨before, worked, after, _, _, heq, _⟩ := (reaches_iff hl.mono hserves hend hwithin).mp hreach
      simp at heq
  have hworked : jobs.any (·.2) = true ↔ ∃ job u, l.Reaches c job u ∧ P job u := by
    rw [List.any_eq_true]
    constructor
    · rintro ⟨⟨job, worked⟩, hmem, rfl⟩
      obtain ⟨before, after, rfl⟩ := List.append_of_mem hmem
      obtain ⟨t0, u, u', hbefore, hnext, hserve, _⟩ := hserves.split
      refine ⟨job, u, (reaches_iff hl.mono hserves hend hwithin).mpr
        ⟨before, _, after, t0, u', rfl, hbefore, hnext, hserve⟩, ?_⟩
      exact (hworks job u _ u' hserve).mp rfl
    · rintro ⟨job, u, hreach, hP⟩
      obtain ⟨before, worked, after, _, u', rfl, _, _, hserve⟩ := (reaches_iff hl.mono hserves hend hwithin).mp hreach
      exact ⟨(job, worked), by simp, (hworks job u worked u' hserve).mpr hP⟩
  rw [SignalsCompletion, hworked, hretired, hsome]
  exact ⟨fun h hsome => h.mpr hsome, fun h => ⟨fun ⟨job, u, hreach, _⟩ => ⟨job, u, hreach⟩, h⟩⟩

end QueueLoop

/-! ### Devices that mark every chain -/

def ReportsWork (x : Serve D M Bool) : Prop := ∀ c worked c', x c = .ok worked c' → worked = true

namespace ReportsWork

theorem pure : ReportsWork (pure true : Serve D M Bool) := by
  intro c worked c' h
  exact (pure_eq_ok.mp h).1.symm

theorem bind {x : Serve D M α} {f : α → Serve D M Bool} (hf : ∀ a, ReportsWork (f a)) : ReportsWork (x >>= f) := by
  intro c worked c' h
  obtain ⟨a, t, _, h⟩ := bind_eq_ok.mp h
  exact hf a t worked c' h

theorem ite {p : Prop} [Decidable p] {x y : Serve D M Bool} (hx : ReportsWork x) (hy : ReportsWork y) :
    ReportsWork (if p then x else y) := by
  split_ifs
  · exact hx
  · exact hy

theorem throw (e : Fault) : ReportsWork (throw e : Serve D M Bool) := fun _ _ _ h => absurd h throw_ne_ok

theorem guarded {x : Serve D M Bool} (hx : ReportsWork x) {check : Bool} {c c' : Ctx D M}
    (h : (if !check then Pure.pure false else x : Serve D M Bool) c = .ok worked c') : worked = check := by
  cases check with
  | true => exact hx c worked c' h
  | false => exact (pure_eq_ok.mp h).1.symm

end ReportsWork

variable [GuestMemory M] [VirtioDevice D M] [QueueDevice D M]

def MarksEveryChain (D M : Type) [GuestMemory M] [VirtioDevice D M] [QueueDevice D M] : Prop :=
  ∀ (dev : D) queueSel (l : QueueLoop D M), QueueDevice.queueLoop dev queueSel = some l →
    ∀ fuel job, ReportsWork (l.serve fuel job)

omit [GuestMemory M] [VirtioDevice D M] [QueueDevice D M] in
theorem signals_of_pure {c c' : Ctx D M} (h : (pure false : Serve D M Bool) c = .ok worked c') :
    SignalsCompletion worked c c' := by
  obtain ⟨rfl, rfl⟩ := pure_eq_ok.mp h
  simp [SignalsCompletion]

section Tick

variable {fuel queueSel : Nat} {c c' : Ctx D M} (h : VirtioDevice.tick fuel queueSel c = .ok worked c')

include h

theorem run_of_tick (l : QueueLoop D M) (hloop : QueueDevice.queueLoop c.dev queueSel = some l) :
    l.run fuel c = .ok worked c' := by
  rw [QueueDevice.tick_eq, hloop] at h
  exact h

theorem signals_of_loop (hloops : ∀ l : QueueLoop D M, QueueDevice.queueLoop c.dev queueSel = some l →
    SignalsCompletion worked c c') : SignalsCompletion worked c c' := by
  cases hloop : (QueueDevice.queueLoop c.dev queueSel : Option (QueueLoop D M)) with
  | none =>
    rw [QueueDevice.tick_eq, hloop] at h
    exact signals_of_pure h
  | some l => exact hloops l hloop

end Tick

theorem signals_of_marks (hD : MarksEveryChain D M) {fuel queueSel : Nat} {c c' : Ctx D M}
    (h : VirtioDevice.tick fuel queueSel c = .ok worked c') : SignalsCompletion worked c c' := by
  refine signals_of_loop h fun l hloop => ?_
  have hworks : l.WorksIff fuel fun _ _ => True := fun job c worked c' hserve =>
    iff_true_intro (hD _ queueSel l hloop fuel job c worked c' hserve)
  refine ((QueueLoop.signals_iff (QueueDevice.lawful hloop) hworks) (run_of_tick h l hloop)).mpr ?_
  exact fun ⟨job, t, hreach⟩ => ⟨job, t, hreach, trivial⟩

end

section

variable {H : HostOs} {W M : Type} [GuestMemory M] [DisplayBackend W]

theorem marksEveryChain_rng : MarksEveryChain (RngVirtio H) M := by
  refine fun dev queueSel => RngVirtio.forall_queueLoop.mpr fun _ _ fuel job => ?_
  exact .bind fun desc => .ite (.throw _) (.bind fun _ => .bind fun _ => .bind fun _ => .pure)

theorem marksEveryChain_cnt : MarksEveryChain CntVirtio M := by
  refine fun dev queueSel => CntVirtio.forall_queueLoop.mpr fun _ _ fuel job => ?_
  refine .bind fun desc => .ite (.throw _) (.bind fun _ => .bind fun _ => .bind fun _ => ?_)
  exact .bind fun _ => .bind fun _ => .pure

theorem marksEveryChain_fs : MarksEveryChain (FsVirtio H) M := by
  refine fun dev queueSel => FsVirtio.forall_queueLoop.mpr fun _ => ⟨fun _ fuel job => ?_, fun _ fuel job => ?_⟩
  · exact .bind fun _ => .bind fun _ => .bind fun _ => .pure
  · exact .bind fun _ => .bind fun _ => .bind fun _ => .bind fun _ => .pure

omit [DisplayBackend W] in
theorem reportsWork_retire (head : UInt16) : ReportsWork (VirtioGpu.retire head : Serve (VirtioGpu W) M Bool) :=
  .bind fun _ => .pure

theorem marksEveryChain_gpu : MarksEveryChain (VirtioGpu W) M := by
  refine fun dev queueSel => VirtioGpu.forall_queueLoop.mpr fun _ => ⟨fun _ fuel job => ?_, fun _ fuel job => ?_⟩
  · refine .bind fun request? => ?_
    split
    · exact reportsWork_retire _
    split
    · exact reportsWork_retire _
    · exact .bind fun _ => .bind fun _ => .bind fun _ => .pure
  · refine .bind fun headerDesc => .bind fun _ => .ite (reportsWork_retire _) ?_
    exact .bind fun _ => .bind fun _ => .bind fun _ => .bind fun _ => .pure

/-! ### The block device -/

namespace BlkVirtio

def Usable (head : UInt16) (c : Ctx (BlkVirtio H) M) : Prop :=
  ∃ chain offset, chainAt c.queue c.mem head = .ok (some chain) ∧
    mulU64 chain.request.sector sectorSize = .ok offset ∧
    (H.seek c.dev.blkFile offset c.dev.host).1.isOk = true

omit [GuestMemory M] in
theorem onDev_seek_eq_ok {c c' : Ctx (BlkVirtio H) M} {offset : UInt64} {sought : Bool}
    (h : Serve.onDev (seek offset) c = .ok sought c') : sought = (H.seek c.dev.blkFile offset c.dev.host).1.isOk := by
  obtain ⟨dev, hseek, _⟩ := Serve.onDev_eq_ok.mp h
  exact (pure_eq_ok.mp hseek).1.symm

theorem transfer_eq_ok {c c' : Ctx (BlkVirtio H) M} {request : BlkRequest} {dataSection statusByte : VirtqDesc}
    {sought : Bool} (h : transfer request dataSection statusByte c = .ok sought c') :
    ∃ offset, mulU64 request.sector sectorSize = .ok offset ∧
      sought = (H.seek c.dev.blkFile offset c.dev.host).1.isOk := by
  obtain ⟨rqstType, sector⟩ := request
  cases rqstType with
  | false =>
    obtain ⟨offset, t, hoffset, hrest⟩ := bind_eq_ok.mp h
    obtain ⟨hmul, rfl⟩ := lift_eq_ok.mp hoffset
    obtain ⟨found, t, hseek, hend⟩ := bind_eq_ok.mp hrest
    refine ⟨offset, hmul, ?_⟩
    rw [← onDev_seek_eq_ok hseek]
    refine ReportsWork.guarded (.bind fun buf? => ?_) hend
    cases buf? with
    | some buf => exact .bind fun _ => .bind fun _ => .pure
    | none => exact .bind fun _ => .pure
  | true =>
    obtain ⟨buf, t, hbuf, hrest⟩ := bind_eq_ok.mp h
    obtain ⟨_, rfl⟩ := Serve.readGuestMemoryAlloc_eq_ok.mp hbuf
    obtain ⟨offset, t, hoffset, hrest⟩ := bind_eq_ok.mp hrest
    obtain ⟨hmul, rfl⟩ := lift_eq_ok.mp hoffset
    obtain ⟨found, t, hseek, hend⟩ := bind_eq_ok.mp hrest
    refine ⟨offset, hmul, ?_⟩
    rw [← onDev_seek_eq_ok hseek]
    exact ReportsWork.guarded (.bind fun _ => .ite (.bind fun _ => .pure) (.bind fun _ => .pure)) hend

theorem skip_eq_ok {c c' : Ctx (BlkVirtio H) M} {head : UInt16}
    (h : skip head c = .ok worked c') : worked = false := by
  obtain ⟨_, t, _, h⟩ := bind_eq_ok.mp h
  exact (pure_eq_ok.mp h).1.symm

theorem serve_works_iff {c c' : Ctx (BlkVirtio H) M} {head : UInt16}
    (h : serve head c = .ok worked c') : worked = true ↔ Usable head c := by
  obtain ⟨chain?, t, hgather, hrest⟩ := bind_eq_ok.mp h
  obtain ⟨hchain, log, rfl⟩ := (looks_gather head).of_ok hgather
  cases chain? with
  | none =>
    have hskip : worked = false := skip_eq_ok hrest
    constructor
    · intro hworked
      rw [hskip] at hworked
      cases hworked
    · rintro ⟨chain, _, hsome, _⟩
      rw [hchain] at hsome
      cases hsome
  | some chain =>
    obtain ⟨sought, t, htransfer, hend⟩ := bind_eq_ok.mp hrest
    obtain ⟨offset, hoffset, hsought⟩ := transfer_eq_ok htransfer
    have hworked : worked = sought := by
      cases sought with
      | true => exact (ReportsWork.bind fun _ => .pure) t worked c' hend
      | false => exact skip_eq_ok hend
    rw [hworked, hsought]
    constructor
    · intro hok
      exact ⟨chain, offset, hchain, hoffset, hok⟩
    · rintro ⟨chain', offset', hsome, hoffset', hok⟩
      rw [hchain] at hsome
      cases hsome
      rw [hoffset] at hoffset'
      cases hoffset'
      exact hok

theorem worksIff_requestLoop (fuel : Nat) :
    (requestLoop : QueueLoop (BlkVirtio H) M).WorksIff fuel fun head t => Usable head t :=
  fun _ _ _ _ h => serve_works_iff h

end BlkVirtio

/-! ### The network device -/

namespace NetVirtio

def Fits (job : Bytes × UInt16) (c : Ctx (NetVirtio H) M) : Prop :=
  ∃ desc, c.queue.getDescriptor c.mem job.2 = .ok desc ∧ job.1.length + hdrSize ≤ desc.len.toNat

def Sendable (head : UInt16) (c : Ctx (NetVirtio H) M) : Prop :=
  ∃ desc, c.queue.getDescriptor c.mem head = .ok desc ∧ 12 ≤ desc.len

omit [GuestMemory M] in
theorem reports_iff {p : Prop} [Decidable p] {x y : Serve (NetVirtio H) M Bool} {c c' : Ctx (NetVirtio H) M}
    (hx : ∀ c worked c', x c = .ok worked c' → worked = false) (hy : ReportsWork y)
    (h : (if p then x else y) c = .ok worked c') : worked = true ↔ ¬p := by
  split_ifs at h with hp
  · rw [hx c worked c' h]
    simpa using hp
  · rw [hy c worked c' h]
    simpa using hp

theorem reportsNone_retire {head : UInt16} (c c' : Ctx (NetVirtio H) M) (worked : Bool)
    (h : (do Serve.pushUsed head 0; return false : Serve (NetVirtio H) M Bool) c = .ok worked c') :
    worked = false := by
  obtain ⟨_, t, _, h⟩ := bind_eq_ok.mp h
  exact (pure_eq_ok.mp h).1.symm

theorem worksIff_rxLoop (fuel : Nat) :
    (rxLoop : QueueLoop (NetVirtio H) M).WorksIff fuel fun job t => Fits job t := by
  rintro ⟨frame, head⟩ c worked c' h
  obtain ⟨desc, t, hdesc, hrest⟩ := bind_eq_ok.mp h
  obtain ⟨hread, _⟩ := Serve.getDescriptor_eq_ok.mp hdesc
  have hworked : worked = true ↔ ¬desc.len.toNat < frame.length + hdrSize := by
    refine reports_iff (fun c w c' => reportsNone_retire c c' w) ?_ hrest
    exact .bind fun _ => .bind fun _ => .bind fun _ => .bind fun _ => .pure
  rw [hworked, Nat.not_lt]
  constructor
  · exact fun hle => ⟨desc, hread, hle⟩
  · rintro ⟨desc', hread', hle⟩
    cases hread.symm.trans hread'
    exact hle

theorem worksIff_txLoop (fuel : Nat) :
    (txLoop : QueueLoop (NetVirtio H) M).WorksIff fuel fun head t => Sendable head t := by
  intro head c worked c' h
  obtain ⟨desc, t, hdesc, hrest⟩ := bind_eq_ok.mp h
  obtain ⟨hread, _⟩ := Serve.getDescriptor_eq_ok.mp hdesc
  have hworked : worked = true ↔ ¬desc.len < 12 := by
    refine reports_iff (fun c w c' => reportsNone_retire c c' w) ?_ hrest
    exact .bind fun _ => .bind fun _ => .bind fun _ => .bind fun _ => .pure
  rw [hworked, UInt32.not_lt]
  constructor
  · exact fun hle => ⟨desc, hread, hle⟩
  · rintro ⟨desc', hread', hle⟩
    cases hread.symm.trans hread'
    exact hle

end NetVirtio

/-! ### Every device -/

/-- When the report of a tick is right. The console is not a device of the queues: it reports work on
its first two queues and does none. -/
def Device.SignalCondition (queueSel : Nat) (c : Ctx (Device H W) M) : Prop :=
  match c.dev with
  | .blk dev => queueSel = 0 → dev.attached = true →
      BlkVirtio.requestLoop.ComesTo (c.withDev dev) fun head t => BlkVirtio.Usable head t
  | .net dev => dev.attached = true →
      (queueSel = 0 → NetVirtio.rxLoop.ComesTo (c.withDev dev) fun job t => NetVirtio.Fits job t) ∧
      (queueSel = 1 → NetVirtio.txLoop.ComesTo (c.withDev dev) fun head t => NetVirtio.Sendable head t)
  | .fs _ | .gpu _ | .rng _ | .cnt _ => True
  | .console _ => 2 ≤ queueSel

theorem BlkVirtio.signals_iff {fuel queueSel : Nat} {c c' : Ctx (BlkVirtio H) M}
    (h : VirtioDevice.tick fuel queueSel c = .ok worked c') :
    SignalsCompletion worked c c' ↔ (queueSel = 0 → c.dev.attached = true →
      requestLoop.ComesTo c fun head t => Usable head t) := by
  have hrun (hatt : c.dev.attached = true) (hsel : queueSel = 0) : requestLoop.run fuel c = .ok worked c' :=
    forall_queueLoop.mp (run_of_tick h) hatt hsel
  constructor
  · exact fun hsignals hsel hatt =>
      (QueueLoop.signals_iff lawful_requestLoop (worksIff_requestLoop fuel) (hrun hatt hsel)).mp hsignals
  · exact fun hcomes => signals_of_loop h (forall_queueLoop.mpr fun hatt hsel =>
      (QueueLoop.signals_iff lawful_requestLoop (worksIff_requestLoop fuel) (hrun hatt hsel)).mpr (hcomes hsel hatt))

theorem NetVirtio.signals_iff {fuel queueSel : Nat} {c c' : Ctx (NetVirtio H) M}
    (h : VirtioDevice.tick fuel queueSel c = .ok worked c') : SignalsCompletion worked c c' ↔ (c.dev.attached = true →
      (queueSel = 0 → rxLoop.ComesTo c fun job t => Fits job t) ∧
      (queueSel = 1 → txLoop.ComesTo c fun head t => Sendable head t)) := by
  have hruns (hatt : c.dev.attached = true) : (queueSel = 0 → rxLoop.run fuel c = .ok worked c') ∧
      (queueSel = 1 → txLoop.run fuel c = .ok worked c') := forall_queueLoop.mp (run_of_tick h) hatt
  have hrx (hatt : c.dev.attached = true) (hsel : queueSel = 0) :=
    QueueLoop.signals_iff lawful_rxLoop (worksIff_rxLoop fuel) ((hruns hatt).1 hsel)
  have htx (hatt : c.dev.attached = true) (hsel : queueSel = 1) :=
    QueueLoop.signals_iff lawful_txLoop (worksIff_txLoop fuel) ((hruns hatt).2 hsel)
  constructor
  · exact fun hsignals hatt => ⟨fun hsel => (hrx hatt hsel).mp hsignals, fun hsel => (htx hatt hsel).mp hsignals⟩
  · exact fun hcomes => signals_of_loop h (forall_queueLoop.mpr fun hatt =>
      ⟨fun hsel => (hrx hatt hsel).mpr ((hcomes hatt).1 hsel), fun hsel => (htx hatt hsel).mpr ((hcomes hatt).2 hsel)⟩)

/-- **Completion.** A tick of a device reports work exactly when it retired a chain, if and only if the
device's own condition holds: a tick of the block device or of the network device that comes to a chain
comes to one that the device can use. -/
theorem completion_signalled_iff {fuel queueSel : Nat} {c c' : Ctx (Device H W) M} {worked : Bool}
    (h : VirtioDevice.tick fuel queueSel c = .ok worked c') :
    SignalsCompletion worked c c' ↔ Device.SignalCondition queueSel c := by
  obtain ⟨dev, queue, mem, log⟩ := c
  cases dev with
  | blk dev =>
    obtain ⟨t, htick, rfl⟩ := Serve.within_eq_ok.mp h
    exact BlkVirtio.signals_iff htick
  | net dev =>
    obtain ⟨t, htick, rfl⟩ := Serve.within_eq_ok.mp h
    exact NetVirtio.signals_iff htick
  | fs dev =>
    obtain ⟨t, htick, rfl⟩ := Serve.within_eq_ok.mp h
    exact iff_of_true (signals_of_marks marksEveryChain_fs htick) trivial
  | gpu dev =>
    obtain ⟨t, htick, rfl⟩ := Serve.within_eq_ok.mp h
    exact iff_of_true (signals_of_marks marksEveryChain_gpu htick) trivial
  | rng dev =>
    obtain ⟨t, htick, rfl⟩ := Serve.within_eq_ok.mp h
    exact iff_of_true (signals_of_marks marksEveryChain_rng htick) trivial
  | cnt dev =>
    obtain ⟨t, htick, rfl⟩ := Serve.within_eq_ok.mp h
    exact iff_of_true (signals_of_marks marksEveryChain_cnt htick) trivial
  | console dev =>
    rw [Device.tick_console fuel queueSel rfl] at h
    obtain ⟨t, htick, rfl⟩ := Serve.within_eq_ok.mp h
    obtain ⟨rfl, rfl⟩ := pure_eq_ok.mp htick
    show (decide (queueSel < 2) = true ↔ ¬retiredHeads log = retiredHeads log) ↔ 2 ≤ queueSel
    simp only [decide_eq_true_eq, not_true_eq_false, iff_false, Nat.not_lt]

end

theorem completion_signalled_rng : ∃ worked c', VirtioDevice.tick 2 0 (waiting bareRng) = .ok worked c' ∧
      SignalsCompletion worked (waiting bareRng) c' := by
  have hends : Program.ends (VirtioDevice.tick 2 0) (waiting bareRng) (fun _ _ => true) = true := by
    decide
  obtain ⟨worked, h, _⟩ := eq_ok_of_ends hends
  exact ⟨worked, _, h, (completion_signalled_iff h).mpr trivial⟩

/-- The block device retires a chain whose header has no NEXT flag and reports no work. -/
theorem blk_retires_unreported :
    ∃ c', VirtioDevice.tick 1 0 (waiting bareBlk) = .ok false c' ∧ retiredHeads c'.log = [0] ∧
      c'.queue.lastUsedIdx = 1 ∧ ¬SignalsCompletion false (waiting bareBlk) c' := by
  have hends : Program.ends (VirtioDevice.tick 1 0) (waiting bareBlk)
      (fun worked c' => worked == false && retiredHeads c'.log == [0] && c'.queue.lastUsedIdx == 1) = true := by
    decide
  obtain ⟨worked, h, hcheck⟩ := eq_ok_of_ends hends
  simp only [Bool.and_eq_true, beq_iff_eq] at hcheck
  obtain ⟨⟨rfl, hretired⟩, hused⟩ := hcheck
  refine ⟨_, h, hretired, hused, fun hsignals => ?_⟩
  have hnone := hsignals.mpr (by rw [hretired]; decide)
  cases hnone

end FerrumVM
