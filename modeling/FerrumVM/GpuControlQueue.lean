import FerrumVM.PanicFreedom
import FerrumVM.QueueMemory

/-! The control queue of the display device. What a chain asks for is read off the descriptor table and
guest memory as they are when the chain is popped; the chain is retired with the length of the reply that
was stored in its first writable descriptor, or with zero. -/

namespace FerrumVM

open Base Program

variable {request : Bytes} {desc : VirtqDesc} {cmd : GpuCommand} {head : UInt16}

namespace VirtioGpu

/-! ### What a chain asks for -/

/-- The bytes of the readable descriptors from `index` on and the writable one behind them, if they are
linked within the table, are few enough, and there is at least one byte to read. -/
def chainFrom (q : VirtioQueue) (m : Ram) : (steps : Nat) → UInt16 → Bytes → Option (Bytes × VirtqDesc)
  | 0, _, _ => none
  | steps + 1, index, request =>
    let desc := q.descAt m index
    if desc.isWrite then if request = [] then none else some (request, desc)
    else if maxRequestBytes < request.length + desc.len.toNat then none
    else if desc.hasNext ∧ desc.next < q.size then
      chainFrom q m steps desc.next (request ++ m.load desc.addr desc.len.toNat)
    else none

/-- The command, the request and the response buffer of a chain, unless the chain has no such form or the
request is shorter than a header. -/
def chainRequest (q : VirtioQueue) (m : Ram) (head : UInt16) : Option (GpuCommand × Bytes × VirtqDesc) :=
  match chainFrom q m q.size.toNat head [] with
  | none => none
  | some (request, desc) =>
    if request.length < 24 then none else some (GpuCommand.ofNumber (field32 request 0), request, desc)

theorem isWrite_of_chainFrom {q : VirtioQueue} {m : Ram} {steps : Nat} {index : UInt16} {bytes : Bytes}
    (h : chainFrom q m steps index request = some (bytes, desc)) : desc.isWrite = true := by
  induction steps generalizing index request with
  | zero => cases h
  | succ steps ih =>
    unfold chainFrom at h
    dsimp only at h
    split at h
    · next hwrite =>
        split at h
        · cases h
        · cases h
          exact hwrite
    split at h
    · cases h
    split at h
    · exact ih h
    · cases h

section Gather

variable {W : Type}

theorem gatherLoop_eq_ok {steps : Nat} {link : Link} {c t : Ctx (VirtioGpu W) Ram}
    {request? : Option (Bytes × VirtqDesc)} (h : gatherLoop steps link request c = .ok request? t) :
    request? = chainFrom c.queue c.mem steps link.index request := by
  induction steps generalizing link request c with
  | zero => exact (pure_eq_ok.mp h).1.symm
  | succ steps ih =>
    unfold gatherLoop at h
    obtain ⟨_, h⟩ := getDescriptor_bind_eq_ok.mp h
    unfold chainFrom
    dsimp only
    generalize hdesc : c.queue.descAt c.mem link.index = desc
    rw [Ctx.descAt, hdesc] at h
    have hbig : maxRequestBytes < saturatingUsize (request.length + desc.len.toNat) ↔
        maxRequestBytes < request.length + desc.len.toNat := by
      have hmax : maxRequestBytes < 2 ^ 64 - 1 := by decide
      unfold saturatingUsize
      omega
    split at h
    · next hwrite =>
        rw [if_pos hwrite]
        split at h
        · next hnil => rw [if_pos hnil, (pure_eq_ok.mp h).1]
        · next hnil => rw [if_neg hnil, (pure_eq_ok.mp h).1]
    next hread =>
    rw [if_neg hread]
    split at h
    · next hlong => rw [if_pos (hbig.mp hlong), (pure_eq_ok.mp h).1]
    next hshort =>
    rw [if_neg fun hlong => hshort (hbig.mpr hlong)]
    rw [read_bind, get_bind] at h
    split at h
    · next hlast =>
        rw [if_neg, (pure_eq_ok.mp h).1]
        rintro ⟨hnext, hlt⟩
        rw [hnext, Bool.not_true, Bool.false_or, decide_eq_true_eq] at hlast
        exact UInt16.not_lt.mpr hlast hlt
    · next hmore =>
        rw [Bool.or_eq_true, not_or, Bool.not_eq_true', Bool.not_eq_false, decide_eq_true_eq, UInt16.not_le,
          fetched_queue] at hmore
        rw [if_pos hmore, ih h]
        rfl

theorem gatherControlRequest_eq_ok {c t : Ctx (VirtioGpu W) Ram}
    {request? : Option (Bytes × VirtqDesc)} (h : gatherControlRequest head c = .ok request? t) :
    request? = chainFrom c.queue c.mem c.queue.size.toNat head [] := by
  rw [gatherControlRequest, get_bind] at h
  exact gatherLoop_eq_ok h

def visits (log : List Event) : Nat := log.countP fun | .fetch _ => true | _ => false

def followed (q : VirtioQueue) (m : Ram) (index : UInt16) : Nat → VirtqDesc
  | 0 => q.descAt m index
  | n + 1 => followed q m (q.descAt m index).next n

def followedBytes (q : VirtioQueue) (m : Ram) (index : UInt16) (n : Nat) : Bytes :=
  (List.range n).flatMap fun k => m.load (followed q m index k).addr (followed q m index k).len.toNat

/-- Within `steps` descriptors, readable ones with links inside the table are followed by a writable one. -/
def Leads (q : VirtioQueue) (m : Ram) (steps : Nat) (index : UInt16) (bytes : Bytes) (desc : VirtqDesc) : Prop :=
  ∃ n < steps, (∀ k < n, (followed q m index k).isWrite = false ∧ (followed q m index k).hasNext = true ∧
      (followed q m index k).next < q.size) ∧
    (followed q m index n).isWrite = true ∧ desc = followed q m index n ∧ bytes = followedBytes q m index n

variable {q : VirtioQueue} {m : Ram} {steps : Nat} {index : UInt16} {bytes : Bytes}

theorem leads_of_isWrite (h : (q.descAt m index).isWrite = true) :
    Leads q m (steps + 1) index bytes desc ↔ desc = q.descAt m index ∧ bytes = [] := by
  constructor
  · rintro ⟨n, _, hread, _, rfl, rfl⟩
    cases n with
    | zero => exact ⟨rfl, rfl⟩
    | succ n => exact absurd ((hread 0 n.succ_pos).1.symm.trans h) Bool.false_ne_true
  · rintro ⟨rfl, rfl⟩
    exact ⟨0, steps.succ_pos, nofun, h, rfl, rfl⟩

theorem followedBytes_succ (n : Nat) : followedBytes q m index (n + 1) =
    m.load (q.descAt m index).addr (q.descAt m index).len.toNat ++ followedBytes q m (q.descAt m index).next n := by
  simp only [followedBytes, List.range_succ_eq_map, List.flatMap_cons, List.flatMap_map, followed]

theorem leads_of_isRead (h : (q.descAt m index).isWrite = false) :
    Leads q m (steps + 1) index bytes desc ↔
      ((q.descAt m index).hasNext = true ∧ (q.descAt m index).next < q.size) ∧
        ∃ rest, Leads q m steps (q.descAt m index).next rest desc ∧
          bytes = m.load (q.descAt m index).addr (q.descAt m index).len.toNat ++ rest := by
  constructor
  · rintro ⟨n, hn, hread, hwrite, rfl, rfl⟩
    cases n with
    | zero => exact absurd (h.symm.trans hwrite) Bool.false_ne_true
    | succ n =>
      refine ⟨(hread 0 n.succ_pos).2, _, ⟨n, Nat.lt_of_succ_lt_succ hn, fun k hk => ?_, hwrite, rfl, rfl⟩,
        followedBytes_succ n⟩
      exact hread (k + 1) (Nat.succ_lt_succ hk)
  · rintro ⟨hlink, _, ⟨n, hn, hread, hwrite, rfl, rfl⟩, rfl⟩
    refine ⟨n + 1, Nat.succ_lt_succ hn, fun k hk => ?_, hwrite, rfl, (followedBytes_succ n).symm⟩
    cases k with
    | zero => exact ⟨h, hlink⟩
    | succ k => exact hread k (Nat.lt_of_succ_lt_succ hk)

/-- The budget is checked descriptor by descriptor, which comes to the same as checking the whole request. -/
theorem chainFrom_eq_some_iff (hrequest : request.length ≤ maxRequestBytes) :
    chainFrom q m steps index request = some (bytes, desc) ↔
      ∃ rest, Leads q m steps index rest desc ∧ bytes = request ++ rest ∧ bytes ≠ [] ∧
        bytes.length ≤ maxRequestBytes := by
  induction steps generalizing index request with
  | zero => exact iff_of_false nofun fun ⟨_, ⟨n, hn, _⟩, _⟩ => absurd hn n.not_lt_zero
  | succ steps ih =>
    unfold chainFrom
    dsimp only
    cases hwrite : (q.descAt m index).isWrite with
    | true =>
      simp only [leads_of_isWrite hwrite, if_true]
      by_cases hnil : request = []
      · rw [if_pos hnil]
        exact iff_of_false nofun fun ⟨_, ⟨_, hrest⟩, hbytes, hne, _⟩ => hne (by rw [hbytes, hrest, hnil]; rfl)
      · rw [if_neg hnil, Option.some.injEq, Prod.mk.injEq]
        constructor
        · rintro ⟨rfl, rfl⟩
          exact ⟨[], ⟨rfl, rfl⟩, (List.append_nil _).symm, hnil, hrequest⟩
        · rintro ⟨_, ⟨rfl, rfl⟩, rfl, _⟩
          exact ⟨(List.append_nil _).symm, rfl⟩
    | false =>
      simp only [leads_of_isRead hwrite, Bool.false_eq_true, if_false]
      have hlength : (request ++ m.load (q.descAt m index).addr (q.descAt m index).len.toNat).length =
          request.length + (q.descAt m index).len.toNat := by rw [List.length_append, Ram.length_load]
      split_ifs with hbig hlink
      · refine iff_of_false nofun ?_
        rintro ⟨_, ⟨_, rest, _, rfl⟩, rfl, _, hle⟩
        rw [← List.append_assoc, List.length_append, hlength] at hle
        omega
      · rw [ih (hlength.trans_le (Nat.not_lt.mp hbig))]
        constructor
        · rintro ⟨rest, hleads, rfl, hne, hle⟩
          exact ⟨_, ⟨hlink, rest, hleads, rfl⟩, List.append_assoc .., hne, hle⟩
        · rintro ⟨_, ⟨_, rest, hleads, rfl⟩, rfl, hne, hle⟩
          exact ⟨rest, hleads, (List.append_assoc ..).symm, hne, hle⟩
      · exact iff_of_false nofun fun ⟨_, ⟨h, _⟩, _⟩ => hlink h

theorem visits_gatherLoop {link : Link} {c t : Ctx (VirtioGpu W) Ram} {request? : Option (Bytes × VirtqDesc)}
    (h : gatherLoop steps link request c = .ok request? t) : visits t.log ≤ visits c.log + steps := by
  induction steps generalizing link request c with
  | zero => exact (pure_eq_ok.mp h).2 ▸ Nat.le_refl _
  | succ steps ih =>
    unfold gatherLoop at h
    obtain ⟨_, h⟩ := getDescriptor_bind_eq_ok.mp h
    have hfetched (desc : VirtqDesc) : visits (c.fetched link desc).log = visits c.log + 1 := by
      simp [visits, Ctx.fetched]
    have hstop {r : Option (Bytes × VirtqDesc)} {desc : VirtqDesc}
        (h : (pure r : Serve (VirtioGpu W) Ram _) (c.fetched link desc) = .ok request? t) :
        visits t.log ≤ visits c.log + (steps + 1) := by
      rw [← (pure_eq_ok.mp h).2, hfetched]
      omega
    split_ifs at h
    · exact hstop h
    · exact hstop h
    · exact hstop h
    · rw [read_bind, get_bind] at h
      split_ifs at h
      · exact hstop h
      · have hrest := ih h
        rw [hfetched] at hrest
        omega

/-- **Gathering a request.** The walk reads at most as many descriptors as the queue has and gathers exactly the
readable descriptors in front of the first writable one, from one byte up to 256 KiB of them, and nothing else:
exactly if the addresses of the descriptors that it comes to do not overflow. -/
theorem request_gathered_iff (head : UInt16) (c : Ctx (VirtioGpu W) Ram) :
    (∃ request? t, gatherControlRequest head c = .ok request? t ∧ visits t.log ≤ visits c.log + c.queue.size.toNat ∧
      ∀ bytes desc, request? = some (bytes, desc) ↔ Leads c.queue c.mem c.queue.size.toNat head bytes desc ∧
        1 ≤ bytes.length ∧ bytes.length ≤ 256 * 1024) ↔
      GatherSafe c.queue c.mem c.queue.size.toNat head 0 := by
  have hreturns : Returns (gatherControlRequest head) c ↔ GatherSafe c.queue c.mem c.queue.size.toNat head 0 :=
    returns_gatherLoop_iff
  rw [← hreturns]
  refine ⟨fun ⟨request?, t, hrun, _⟩ => ⟨request?, t, hrun⟩, fun ⟨request?, t, hrun⟩ => ⟨request?, t, hrun, ?_, ?_⟩⟩
  · rw [gatherControlRequest, get_bind] at hrun
    exact visits_gatherLoop hrun
  · intro bytes desc
    rw [gatherControlRequest_eq_ok hrun, chainFrom_eq_some_iff (Nat.zero_le _)]
    simp only [List.nil_append, Nat.one_le_iff_ne_zero, ne_eq, List.length_eq_zero_iff]
    exact ⟨fun ⟨_, hleads, heq, hne, hle⟩ => ⟨heq ▸ hleads, hne, hle⟩,
      fun ⟨hleads, hne, hle⟩ => ⟨_, hleads, rfl, hne, hle⟩⟩

/-- A queue of one entry whose table is at the last address: its only descriptor cannot be fetched. -/
theorem last_address_is_not_gathered :
    ¬∃ request? t, gatherControlRequest 0 (⟨attachedGpu,
      { VirtioQueue.new with size := 1, descAddr := 0xFFFFFFFFFFFFFFFF }, ⟨[]⟩, []⟩ : Ctx _ Ram) = .ok request? t := by
  intro h
  have hfits : 0xFFFFFFFFFFFFFFFF + 0 * 16 + 14 < 2 ^ 64 := (returns_gatherLoop_iff.mp h).1
  omega

end Gather

/-! ### How a chain is retired -/

section Served

variable {W : Type} {head : UInt16} {t t1 t' : Ctx (VirtioGpu W) Ram} {response : GpuResponse} {worked : Bool}

/-- The chain is retired with the length of the reply, the reply stands where it was to be stored, and
nothing else outside the used ring is written. -/
structure Answered (head : UInt16) (t t' : Ctx (VirtioGpu W) Ram) (reply : Option (UInt64 × Bytes)) : Prop where
  queue : t'.queue = { t.queue with lastUsedIdx := t.queue.lastUsedIdx + 1 }
  entry : t.queue.UsedEntry t'.mem head (UInt32.ofNat (reply.elim 0 (·.2.length)))
  stored : ∀ addr data, reply = some (addr, data) → t'.mem.load addr data.length = data
  frame : Ram.Frame ((t.queue.usedAddr, t.queue.usedBytes) :: (reply.map fun r => (r.1, r.2.length)).toList)
    t.mem t'.mem

theorem answered_none (hheld : t.queue.RingsHeld t.mem) (hqueue : t1.queue = t.queue) (hmem : t1.mem = t.mem)
    (h : (do Serve.pushUsed head 0; return true : Serve (VirtioGpu W) Ram Bool) t1 = .ok worked t') :
    worked = true ∧ t'.dev = t1.dev ∧ Answered head t t' none := by
  obtain ⟨dev, queue, mem, log⟩ := t1
  cases hqueue
  cases hmem
  cases (finish_held (t := ⟨dev, t.queue, t.mem, log⟩) hheld head 0 true).symm.trans h
  exact ⟨rfl, rfl, rfl, hheld.usedEntry head 0, nofun, hheld.frame_pushedTo head 0⟩

theorem answered_some {addr : UInt64} {data : Bytes} (hheld : t.queue.RingsHeld t.mem)
    (hram : t.mem.Holds addr data.length) (happart : Apart addr data.length t.queue.usedAddr t.queue.usedBytes)
    (hqueue : t1.queue = t.queue) (hmem : t1.mem = t.mem.store addr data)
    (h : (do Serve.pushUsed head (UInt32.ofNat data.length); return true : Serve (VirtioGpu W) Ram Bool) t1 =
      .ok worked t') : worked = true ∧ t'.dev = t1.dev ∧ Answered head t t' (some (addr, data)) := by
  obtain ⟨dev, queue, mem, log⟩ := t1
  cases hqueue
  cases hmem
  have hstore := Ram.Frame.store t.mem addr data
  have hheld1 := hheld.frame hstore
  have hpush := hheld1.frame_pushedTo head (UInt32.ofNat data.length)
  cases (finish_held (t := ⟨dev, t.queue, t.mem.store addr data, log⟩) hheld1 head _ true).symm.trans h
  refine ⟨rfl, rfl, rfl, hheld1.usedEntry head _, ?_, (hstore.weaken (by simp)).trans (hpush.weaken (by simp))⟩
  rintro _ _ ⟨⟩
  exact (hpush.load addr data.length (by simpa using happart.symm)).trans (hram.load_store rfl)

/-! ### One chain -/

variable [DisplayBackend W]

/-- The command is run on the device and guest memory as they are, gives the response, and leaves the
device as it is in `t'`. -/
def Runs (cmd : GpuCommand) (request : Bytes) (t : Ctx (VirtioGpu W) Ram) (response : GpuResponse)
    (t' : Ctx (VirtioGpu W) Ram) : Prop :=
  ∃ u u' : Ctx (VirtioGpu W) Ram, u.dev = t.dev ∧ u.mem = t.mem ∧ command cmd request u = .ok response u' ∧
    t'.dev = u'.dev

def ControlServed (head : UInt16) (t t' : Ctx (VirtioGpu W) Ram) : Prop :=
  match chainRequest t.queue t.mem head with
  | none => Answered head t t' none ∧ t'.dev = t.dev
  | some (cmd, request, desc) =>
    ∃ response, Runs cmd request t response t' ∧
      (GpuResponse.bytes response).length = (if cmd = .getDisplayInfo then 408 else 24) ∧
      Answered head t t'
        (if desc.len.toNat < (GpuResponse.bytes response).length then none else some (desc.addr, (GpuResponse.bytes response)))

omit [DisplayBackend W] in
theorem tables_header (s : VirtioGpu W) (bytes : Bytes) :
    (∃ typ, (s.resourceCreate2d bytes).1 = .header typ) ∧ (∃ typ, (s.resourceUnref bytes).1 = .header typ) ∧
      (∃ typ, (s.setScanout bytes).1 = .header typ) ∧ (∃ typ, (s.resourceAttachBacking bytes).1 = .header typ) ∧
      ∃ typ, (s.resourceDetachBacking bytes).1 = .header typ := by
  refine ⟨?_, ?_, ?_, ?_, ?_⟩
  · unfold resourceCreate2d
    repeat' split
    all_goals exact ⟨_, rfl⟩
  · unfold resourceUnref
    split
    all_goals exact ⟨_, rfl⟩
  · unfold setScanout
    repeat' split
    all_goals exact ⟨_, rfl⟩
  · unfold resourceAttachBacking
    repeat' split
    all_goals exact ⟨_, rfl⟩
  · unfold resourceDetachBacking
    repeat' split
    all_goals exact ⟨_, rfl⟩

theorem flush_header {bytes : Bytes} {s s' : VirtioGpu W}
    (h : resourceFlush bytes s = .ok response s') : ∃ typ, response = .header typ := by
  rcases resourceFlush_cases h with ⟨rfl | rfl, _⟩ | rfl
  all_goals exact ⟨_, rfl⟩

omit [DisplayBackend W] in
theorem transfer_header {bytes : Bytes} {c c' : Ctx (VirtioGpu W) Ram}
    (h : transferToHost2d bytes c = .ok response c') : ∃ typ, response = .header typ := by
  rcases transferToHost2d_cases h with ⟨rfl | rfl, _⟩ | rfl
  all_goals exact ⟨_, rfl⟩

theorem command_header {c c' : Ctx (VirtioGpu W) Ram}
    (h : command cmd request c = .ok response c') (hcmd : cmd ≠ .getDisplayInfo) : ∃ typ, response = .header typ := by
  obtain ⟨hcreate, hunref, hscanout, hattach, hdetach⟩ := tables_header c.dev request
  cases cmd with
  | getDisplayInfo => exact absurd rfl hcmd
  | transferToHost2d => exact transfer_header h
  | resourceFlush =>
    obtain ⟨dev, hflush, _⟩ := Serve.onDev_eq_ok.mp h
    exact flush_header hflush
  | resourceCreate2d =>
    cases h
    exact hcreate
  | resourceUnref =>
    cases h
    exact hunref
  | setScanout =>
    cases h
    exact hscanout
  | resourceAttachBacking =>
    cases h
    exact hattach
  | resourceDetachBacking =>
    cases h
    exact hdetach
  | getEdid => exact ⟨_, (pure_eq_ok.mp h).1.symm⟩
  | cursorGet => exact ⟨_, (pure_eq_ok.mp h).1.symm⟩
  | updateCursor => exact ⟨_, (pure_eq_ok.mp h).1.symm⟩
  | unsupported => exact ⟨_, (pure_eq_ok.mp h).1.symm⟩

theorem length_displayInfo (window : W) : (displayInfoResponse [.new window]).length = 408 := by
  have hinfo (d : VirtioGpuDisplayInfo) : d.toBytes.length = 24 := by
    simp [VirtioGpuDisplayInfo.toBytes, DisplayRect.toBytes]
  simp [displayInfoResponse, hinfo]

theorem length_response {c c' : Ctx (VirtioGpu W) Ram} (h : command cmd request c = .ok response c') :
    (GpuResponse.bytes response).length = if cmd = .getDisplayInfo then 408 else 24 := by
  by_cases hcmd : cmd = .getDisplayInfo
  · subst hcmd
    cases h
    exact length_displayInfo _
  · obtain ⟨typ, rfl⟩ := command_header h hcmd
    rw [if_neg hcmd]
    exact VirtioGpuCtrlHdr.length_toBytes _

/-- The response buffer is in RAM, beside both rings. -/
def BufferApart (q : VirtioQueue) (m : Ram) (desc : VirtqDesc) : Prop :=
  m.Holds desc.addr desc.len.toNat ∧ Apart desc.addr desc.len.toNat q.availAddr q.availBytes ∧
    Apart desc.addr desc.len.toNat q.usedAddr q.usedBytes

omit [DisplayBackend W] in
theorem covers_buffer {data : Bytes} (h : ¬desc.len.toNat < data.length) :
    Covers desc.addr desc.len.toNat desc.addr data.length :=
  ⟨le_rfl, by omega⟩

theorem answered_of_answer (hheld : t.queue.RingsHeld t.mem)
    (hbuffer : BufferApart t.queue t.mem desc) (hwritable : desc.isWrite = true) (hqueue : t1.queue = t.queue)
    (hmem : t1.mem = t.mem) (hdev : t1.dev = t.dev) (h : answer head cmd request desc t1 = .ok worked t') :
    worked = true ∧ ∃ response, Runs cmd request t response t' ∧
      (GpuResponse.bytes response).length = (if cmd = .getDisplayInfo then 408 else 24) ∧
      Answered head t t' (if desc.len.toNat < (GpuResponse.bytes response).length then none
        else some (desc.addr, (GpuResponse.bytes response))) := by
  obtain ⟨response, t2, hcommand, h⟩ := bind_eq_ok.mp h
  have heffect := (uses_command _ _).effect_of_ok hcommand
  have hqueue2 : t2.queue = t.queue := (heffect.queue_eq).trans hqueue
  have hmem2 : t2.mem = t.mem := (heffect.mem_eq).trans hmem
  obtain ⟨written, t3, hwrite, h⟩ := bind_eq_ok.mp h
  obtain ⟨hram, _, hused⟩ := hbuffer
  unfold writeBuf at hwrite
  simp only [hwritable, Bool.not_true, Bool.false_or, decide_eq_true_eq] at hwrite
  split at hwrite
  · next hsmall =>
      obtain ⟨rfl, rfl⟩ := pure_eq_ok.mp hwrite
      obtain ⟨hworked, hdev', hanswered⟩ := answered_none hheld hqueue2 hmem2 h
      refine ⟨hworked, response, ⟨t1, t2, hdev, hmem, hcommand, hdev'⟩, length_response hcommand, ?_⟩
      rwa [if_pos hsmall]
  · next hroom =>
      rw [write_bind] at hwrite
      obtain ⟨rfl, rfl⟩ := pure_eq_ok.mp hwrite
      have hcovers := covers_buffer hroom
      have hqueue3 : (t2.writing desc.addr (GpuResponse.bytes response)).queue = t.queue := hqueue2
      have hstored := congrArg (Ram.store · desc.addr (GpuResponse.bytes response)) hmem2
      obtain ⟨hworked, hdev', hanswered⟩ :=
        answered_some hheld (hram.sub hcovers) (hused.symm.of_covers hcovers).symm hqueue3 hstored h
      refine ⟨hworked, response, ⟨t1, t2, hdev, hmem, hcommand, hdev'⟩, length_response hcommand, ?_⟩
      rwa [if_neg hroom]

theorem serveControl_eq_ok (h : serveControl head t = .ok worked t') :
    ∃ t1, gatherControlRequest head t = .ok (chainFrom t.queue t.mem t.queue.size.toNat head []) t1 ∧
      match chainRequest t.queue t.mem head with
      | none => retire head t1 = .ok worked t'
      | some (cmd, request, desc) => answer head cmd request desc t1 = .ok worked t' := by
  obtain ⟨request?, t1, hgather, h⟩ := bind_eq_ok.mp h
  have hchain := gatherControlRequest_eq_ok hgather
  rw [chainRequest, ← hchain]
  refine ⟨t1, hgather, ?_⟩
  cases request? with
  | none => exact h
  | some gathered =>
    dsimp only at h ⊢
    by_cases hshort : gathered.1.length < VirtioGpuCtrlHdr.size
    · rw [VirtioGpuCtrlHdr.fromBytes, if_pos hshort] at h
      rwa [if_pos (show gathered.1.length < 24 from hshort)]
    · rw [VirtioGpuCtrlHdr.fromBytes, if_neg hshort] at h
      rwa [if_neg (show ¬gathered.1.length < 24 from hshort)]

theorem isWrite_of_chainRequest {q : VirtioQueue} {m : Ram} (h : chainRequest q m head = some (cmd, request, desc)) :
    chainFrom q m q.size.toNat head [] = some (request, desc) ∧ desc.isWrite = true := by
  unfold chainRequest at h
  cases hchain : chainFrom q m q.size.toNat head [] with
  | none =>
    rw [hchain] at h
    cases h
  | some gathered =>
    rw [hchain] at h
    dsimp only at h
    split_ifs at h
    cases h
    exact ⟨rfl, isWrite_of_chainFrom hchain⟩

/-- **One chain.** A chain that is served is retired as its request asks for. -/
theorem controlServed_of_ok (hheld : t.queue.RingsHeld t.mem)
    (hbuffer : ∀ cmd request desc, chainRequest t.queue t.mem head = some (cmd, request, desc) →
      BufferApart t.queue t.mem desc) (h : serveControl head t = .ok worked t') :
    worked = true ∧ ControlServed head t t' := by
  obtain ⟨t1, hgather, h⟩ := serveControl_eq_ok h
  have heffect := (uses_gatherControlRequest head).effect_of_ok hgather
  have hdev : t1.dev = t.dev := heffect.dev (by decide)
  unfold ControlServed
  cases hrequest : chainRequest t.queue t.mem head with
  | none =>
    rw [hrequest] at h
    obtain ⟨hworked, hdev', hanswered⟩ := answered_none hheld heffect.queue_eq heffect.mem_eq h
    exact ⟨hworked, hanswered, hdev'.trans hdev⟩
  | some chain =>
    rw [hrequest] at h
    exact answered_of_answer hheld (hbuffer _ _ _ hrequest) (isWrite_of_chainRequest hrequest).2 heffect.queue_eq
      heffect.mem_eq hdev h

end Served

/-! ### The whole queue -/

section Tick

variable {S : SdlCanvas} {c : Ctx (VirtioGpu (FerrumSDLContext S)) Ram}

/-- The response buffers of the chains that a tick comes to are in RAM, beside both rings. -/
def BuffersApart (c : Ctx (VirtioGpu (FerrumSDLContext S)) Ram) : Prop :=
  ∀ head t, controlLoop.Reaches c head t → ∀ cmd request desc,
    chainRequest t.queue t.mem head = some (cmd, request, desc) → BufferApart t.queue t.mem desc

theorem Answered.leaves {W : Type} {t t' : Ctx (VirtioGpu W) Ram}
    {reply : Option (UInt64 × Bytes)} (h : Answered head t t' reply) (hheld : t.queue.RingsHeld t.mem)
    (hreply : ∀ r ∈ reply, Apart r.1 r.2.length t.queue.availAddr t.queue.availBytes) :
    ∃ ranges, Ram.Frame ranges t.mem t'.mem ∧ ∀ r ∈ ranges, Apart r.1 r.2 t.queue.availAddr t.queue.availBytes := by
  refine ⟨_, h.frame, fun r hr => ?_⟩
  rcases List.mem_cons.mp hr with rfl | hmem
  · exact hheld.apart.symm
  · obtain ⟨reply, hsome, rfl⟩ := Option.map_eq_some_iff.mp (Option.mem_toList.mp hmem)
    exact hreply reply hsome

theorem leaves_of_served {W : Type} [DisplayBackend W] {t t' : Ctx (VirtioGpu W) Ram}
    (h : ControlServed head t t') (hheld : t.queue.RingsHeld t.mem)
    (hbuffer : ∀ cmd request desc, chainRequest t.queue t.mem head = some (cmd, request, desc) →
      BufferApart t.queue t.mem desc) :
    ∃ ranges, Ram.Frame ranges t.mem t'.mem ∧ ∀ r ∈ ranges, Apart r.1 r.2 t.queue.availAddr t.queue.availBytes := by
  unfold ControlServed at h
  cases hrequest : chainRequest t.queue t.mem head with
  | none =>
    rw [hrequest] at h
    exact h.1.leaves hheld nofun
  | some chain =>
    obtain ⟨cmd, request, desc⟩ := chain
    rw [hrequest] at h
    obtain ⟨response, _, _, hanswered⟩ := h
    refine hanswered.leaves hheld fun r hr => ?_
    split at hr
    · cases hr
    · next hroom =>
        cases hr
        exact ((hbuffer _ _ _ hrequest).2.1.symm.of_covers (covers_buffer hroom)).symm

theorem tick_control (fuel : Nat) (hattached : c.dev.attached = true) :
    VirtioDevice.tick fuel 0 c = controlLoop.run fuel c := by
  rw [QueueDevice.tick_eq, show QueueDevice.queueLoop c.dev 0 = queueLoop c.dev 0 from rfl, queueLoop, hattached]
  rfl

theorem leavesAvail_control (hbuffers : BuffersApart c) : LeavesAvail (fun _ => serveControl) none c := by
  intro _ head t worked t' hreach hheld hserve
  have hbuffer := hbuffers head t hreach
  exact leaves_of_served (controlServed_of_ok hheld hbuffer hserve).2 hheld hbuffer

/-- A tick comes to its end, the used entries it has pushed are for the published heads in their order, and
each chain is retired as its request asks for. -/
def ControlQueueServed (c : Ctx (VirtioGpu (FerrumSDLContext S)) Ram) : Prop :=
  (∃ fuel worked c', VirtioDevice.tick fuel 0 c = .ok worked c' ∧ Served (c.queue.published c.mem) c c') ∧
    ∀ head t, controlLoop.Reaches c head t → ∃ t', serveControl head t = .ok true t' ∧ ControlServed head t t'

end Tick

end VirtioGpu

/-! ### One request in guest memory -/

/-- A table with a readable descriptor of 48 bytes and a writable one of 24, an available ring with the
first of them published, room for a used ring, the request, and room for the response. -/
def controlMemory (request : Bytes) (hlen : request.length = 48) : Ram :=
  ⟨[{ isNull := false
      bytes := [64, 0, 0, 0, 0, 0, 0, 0, 48, 0, 0, 0, 1, 0, 1, 0, 112, 0, 0, 0, 0, 0, 0, 0, 24, 0, 0, 0, 2, 0, 0, 0,
        0, 0, 1, 0, 0, 0, 0, 0] ++ List.replicate 24 0 ++ request ++ List.replicate 24 0
      memOffset := 0
      size_le := by simp [isizeMax, hlen] }]⟩

def controlQueue : VirtioQueue := { VirtioQueue.new with size := 2, ready := true, availAddr := 32, usedAddr := 40 }

theorem controlMemory_holds (hlen : request.length = 48) {addr : UInt64} {n : Nat}
    (h : addr.toNat + n ≤ 136) : (controlMemory request hlen).Holds addr n := by
  refine Ram.holds_of_contains rfl ?_ ⟨Nat.zero_le _, ?_⟩
  · simp [hlen]
  · simpa [hlen] using h

theorem controlQueue_held (hlen : request.length = 48) : controlQueue.RingsHeld (controlMemory request hlen) where
  size_ne := by decide
  avail := controlMemory_holds hlen (by decide)
  used := controlMemory_holds hlen (by decide)
  apart := by decide

def flushRequest : Bytes := [4, 1, 0, 0] ++ List.replicate 36 0 ++ [7, 0, 0, 0, 0, 0, 0, 0]

/-- A request to show resource 7 on scanout 0 with as many columns and rows as a rectangle can have. -/
def showHugeRequest : Bytes :=
  [3, 1, 0, 0] ++ List.replicate 28 0 ++ List.replicate 8 255 ++ [0, 0, 0, 0, 7, 0, 0, 0]

def createdAttached : VirtioGpu (FerrumSDLContext SdlCanvas.blank) := VirtioDevice.passGuestMemory Ram createdOne

def flushWaiting (dev : VirtioGpu (FerrumSDLContext SdlCanvas.blank)) :
    Ctx (VirtioGpu (FerrumSDLContext SdlCanvas.blank)) Ram :=
  ⟨dev, controlQueue, controlMemory flushRequest (by decide), []⟩

theorem createdAttached_reachable : (gpuSystem _).Reachable createdAttached := by
  have hcreated : (gpuSystem _).Reachable createdOne := createdOne_reached.mono fun _ _ _ => trivial
  exact hcreated.next (e := .passGuestMemory) rfl

theorem flushWaiting_buffer (dev : VirtioGpu (FerrumSDLContext SdlCanvas.blank))
    (h : VirtioGpu.chainRequest ((flushWaiting dev).pop dev 0).queue ((flushWaiting dev).pop dev 0).mem 0 =
      some (cmd, request, desc)) : desc = ⟨112, 24, 2, 0⟩ := by
  have hdesc : (VirtioGpu.chainRequest ((flushWaiting dev).pop dev 0).queue ((flushWaiting dev).pop dev 0).mem 0).map
      (·.2.2) = some ⟨112, 24, 2, 0⟩ := by
    show (VirtioGpu.chainRequest { controlQueue with lastAvailIdx := 1 } (controlMemory flushRequest (by decide)) 0).map
      (·.2.2) = some ⟨112, 24, 2, 0⟩
    decide +kernel
  rw [h] at hdesc
  exact Option.some.inj hdesc

theorem flushWaiting_pop (dev : VirtioGpu (FerrumSDLContext SdlCanvas.blank)) :
    (Serve.popAvail : Serve _ Ram (Option UInt16)) (flushWaiting dev) = .ok (some 0) ((flushWaiting dev).pop dev 0) := by
  have hpublished : controlQueue.published (controlMemory flushRequest (by decide)) = [0] := by decide +kernel
  exact popAvail_cons (controlQueue_held (by decide)) hpublished

theorem flushWaiting_reaches {dev : VirtioGpu (FerrumSDLContext SdlCanvas.blank)}
    (hends : Program.ends (VirtioGpu.serveControl 0 >>= fun _ => Serve.popAvail) ((flushWaiting dev).pop dev 0)
      (fun head? _ => head?.isNone) = true) {t : Ctx (VirtioGpu (FerrumSDLContext SdlCanvas.blank)) Ram}
    (h : VirtioGpu.controlLoop.Reaches (flushWaiting dev) head t) : head = 0 ∧ t = (flushWaiting dev).pop dev 0 := by
  refine QueueLoop.ofPops_reaches_only (flushWaiting_pop dev) (fun _ worked u hserve => ?_) h
  obtain ⟨head?, hrun, hnone⟩ := eq_ok_of_ends hends
  rw [bind_of_ok hserve] at hrun
  rw [Option.isNone_iff_eq_none] at hnone
  exact ⟨_, hnone ▸ hrun⟩

/-- A device that shows resource 7 on a scanout of the greatest size. -/
def shownHuge : VirtioGpu (FerrumSDLContext SdlCanvas.blank) :=
  ((VirtioGpu.serveControl 0).finalState
    ⟨createdAttached, controlQueue, controlMemory showHugeRequest (by decide), []⟩).dev

theorem shownHuge_reachable : (gpuSystem _).Reachable shownHuge :=
  createdAttached_reachable.next (e := .control 0 controlQueue (controlMemory showHugeRequest (by decide))) rfl

end FerrumVM
