import FerrumVM.ChainAccounts
import FerrumVM.QueueMemory

/-! What the block device makes of one chain, as a function of the device, the descriptor table and guest
memory: the parts of the chain if it has the form of a request, the calls on the host file, the bytes stored
in guest memory and the length of the used entry. -/

namespace FerrumVM

open Base Program
open FsVirtio (flagged)

namespace BlkVirtio

variable {H : HostOs} {head : UInt16} {t t1 u : Ctx (BlkVirtio H) Ram} {chain : BlkChain}

/-- The parts of the chain, unless it is to be skipped. -/
def chainIn (q : VirtioQueue) (m : Ram) (head : UInt16) : Option BlkChain :=
  let header := q.descAt m head
  let request := requestIn m header
  let dataSection := q.descAt m header.next
  let statusByte := q.descAt m dataSection.next
  if header.hasNext = true ∧ header.len = 16 ∧ flagsOk request dataSection = true ∧ statusByte.isWrite = true then
    some { request, dataSection, statusByte }
  else none

theorem chainIn_eq_some {q : VirtioQueue} {m : Ram} (h : chainIn q m head = some chain) :
    (q.descAt m head).hasNext = true ∧ (q.descAt m head).len = 16 ∧
      chain.request = requestIn m (q.descAt m head) ∧ chain.dataSection = q.descAt m (q.descAt m head).next ∧
      chain.statusByte = q.descAt m chain.dataSection.next ∧
      flagsOk chain.request chain.dataSection = true ∧ chain.statusByte.isWrite = true := by
  unfold chainIn at h
  dsimp only at h
  split_ifs at h with hform
  obtain rfl := Option.some.inj h
  exact ⟨hform.1, hform.2.1, rfl, rfl, rfl, hform.2.2⟩

structure Outcome (H : HostOs) where
  dev : BlkVirtio H
  writes : List (UInt64 × Bytes)
  len : UInt32
  worked : Bool

/-- A request is carried out on the host file, unless the sector cannot be sought. -/
def carryOut (s : BlkVirtio H) (m : Ram) (chain : BlkChain) : Outcome H :=
  let sought := H.seek s.blkFile (chain.request.sector * 512) s.host
  let length := chain.dataSection.len.toNat
  if sought.1.isOk then
    match chain.request.rqstType with
    | false =>
      let read := H.readExact s.blkFile length sought.2
      match read.1.toOption with
      | some buf =>
        ⟨{ s with host := read.2 }, [(chain.dataSection.addr, buf.val), (chain.statusByte.addr, [0])],
          chain.dataSection.len, true⟩
      | none => ⟨{ s with host := read.2 }, [(chain.statusByte.addr, [1])], chain.dataSection.len, true⟩
    | true =>
      let written := H.writeAll s.blkFile (m.load chain.dataSection.addr length) sought.2
      ⟨{ s with host := written.2 }, [(chain.statusByte.addr, [if written.1.isOk then 0 else 1])],
        chain.dataSection.len, true⟩
  else ⟨{ s with host := sought.2 }, [], 0, false⟩

def outcome (s : BlkVirtio H) (m : Ram) : Option BlkChain → Outcome H
  | none => ⟨s, [], 0, false⟩
  | some chain => carryOut s m chain

abbrev sought (s : BlkVirtio H) (chain : BlkChain) : Except IoErrorKind Unit × H.World :=
  H.seek s.blkFile (chain.request.sector * 512) s.host

section Cases

variable {s : BlkVirtio H} {m : Ram} {chain : BlkChain} {host : H.World}

theorem carryOut_unsought (hseek : (sought s chain).1.isOk = false) :
    carryOut s m chain = ⟨{ s with host := (sought s chain).2 }, [], 0, false⟩ := by
  unfold carryOut
  dsimp only
  rw [if_neg (by rw [hseek]; decide)]

section

variable (hseek : (sought s chain).1.isOk = true)
include hseek

theorem carryOut_out (hreq : chain.request.rqstType = true)
    {r : Except IoErrorKind Unit} (hwrite : H.writeAll s.blkFile
      (m.load chain.dataSection.addr chain.dataSection.len.toNat) (sought s chain).2 = (r, host)) :
    carryOut s m chain = ⟨{ s with host }, [(chain.statusByte.addr, [if r.isOk then 0 else 1])],
      chain.dataSection.len, true⟩ := by
  unfold carryOut
  dsimp only
  rw [if_pos hseek, hreq]
  dsimp only
  rw [hwrite]

theorem carryOut_in (hreq : chain.request.rqstType = false) {buf : BytesOf chain.dataSection.len.toNat}
    (hread : H.readExact s.blkFile chain.dataSection.len.toNat (sought s chain).2 = (.ok buf, host)) :
    carryOut s m chain = ⟨{ s with host }, [(chain.dataSection.addr, buf.val), (chain.statusByte.addr, [0])],
      chain.dataSection.len, true⟩ := by
  unfold carryOut
  dsimp only
  rw [if_pos hseek, hreq]
  dsimp only
  rw [hread]
  rfl

theorem carryOut_unread (hreq : chain.request.rqstType = false) {e : IoErrorKind}
    (hread : H.readExact s.blkFile chain.dataSection.len.toNat (sought s chain).2 = (.error e, host)) :
    carryOut s m chain = ⟨{ s with host }, [(chain.statusByte.addr, [1])], chain.dataSection.len, true⟩ := by
  unfold carryOut
  dsimp only
  rw [if_pos hseek, hreq]
  dsimp only
  rw [hread]
  rfl

end

theorem carryOut_cases (s : BlkVirtio H) (m : Ram) (chain : BlkChain) {P : Outcome H → Prop}
    (hunsought : (sought s chain).1.isOk = false → P ⟨{ s with host := (sought s chain).2 }, [], 0, false⟩)
    (hout : (sought s chain).1.isOk = true → chain.request.rqstType = true → ∀ r host,
      H.writeAll s.blkFile (m.load chain.dataSection.addr chain.dataSection.len.toNat) (sought s chain).2 = (r, host) →
      P ⟨{ s with host }, [(chain.statusByte.addr, [if r.isOk then 0 else 1])], chain.dataSection.len, true⟩)
    (hin : (sought s chain).1.isOk = true → chain.request.rqstType = false → ∀ buf host,
      H.readExact s.blkFile chain.dataSection.len.toNat (sought s chain).2 = (.ok buf, host) →
      P ⟨{ s with host }, [(chain.dataSection.addr, buf.val), (chain.statusByte.addr, [0])],
        chain.dataSection.len, true⟩) (hunread : (sought s chain).1.isOk = true →
      chain.request.rqstType = false → ∀ e host,
      H.readExact s.blkFile chain.dataSection.len.toNat (sought s chain).2 = (.error e, host) →
      P ⟨{ s with host }, [(chain.statusByte.addr, [1])], chain.dataSection.len, true⟩) : P (carryOut s m chain) := by
  cases hseek : (sought s chain).1.isOk with
  | false => exact carryOut_unsought (m := m) hseek ▸ hunsought hseek
  | true =>
    cases hreq : chain.request.rqstType with
    | true => exact carryOut_out hseek hreq rfl ▸ hout hseek hreq _ _ rfl
    | false =>
      rcases hread : H.readExact s.blkFile chain.dataSection.len.toNat (sought s chain).2 with ⟨e | buf, host⟩
      · exact carryOut_unread (m := m) hseek hreq hread ▸ hunread hseek hreq _ _ hread
      · exact carryOut_in (m := m) hseek hreq hread ▸ hin hseek hreq _ _ hread

theorem carryOut_len (s : BlkVirtio H) (m : Ram) (chain : BlkChain) :
    (carryOut s m chain).len = if (carryOut s m chain).worked then chain.dataSection.len else 0 :=
  carryOut_cases s m chain (P := fun o => o.len = if o.worked then chain.dataSection.len else 0)
    (fun _ => rfl) (fun _ _ _ _ _ => rfl) (fun _ _ _ _ _ => rfl) fun _ _ _ _ _ => rfl

end Cases

/-! ### The checks -/

theorem readRequest_eq_ok {header : VirtqDesc} {request : BlkRequest}
    (h : readRequest header.addr t = .ok request t1) : request = requestIn t.mem header ∧ t1 = t := by
  rw [readRequest, readU32_bind, addU64_bind_eq_ok] at h
  obtain ⟨rfl, rfl⟩ := pure_eq_ok.mp h.2
  exact ⟨rfl, rfl⟩

theorem gather_eq_ok {chain? : Option BlkChain} (h : gather head t = .ok chain? t1) :
    chain? = chainIn t.queue t.mem head := by
  unfold chainIn
  obtain ⟨_, h⟩ := head_bind_eq_ok h
  split_ifs at h with hshape
  · obtain ⟨rfl, _⟩ := pure_eq_ok.mp h
    rw [if_neg]
    rintro ⟨hnext, hlen, _⟩
    rw [Bool.or_eq_true, Bool.not_eq_true', bne_iff_ne] at hshape
    rcases hshape with hnone | hlong
    · rw [Ctx.descAt, hnext] at hnone
      cases hnone
    · exact hlong hlen
  obtain ⟨hnext, hlen⟩ : (t.descAt head).hasNext = true ∧ (t.descAt head).len = 16 := by simpa using hshape
  obtain ⟨request, t2, hrequest, h⟩ := bind_eq_ok.mp h
  obtain ⟨rfl, rfl⟩ := readRequest_eq_ok hrequest
  obtain ⟨_, h⟩ := next_bind_eq_ok h
  split_ifs at h with hflags
  · obtain ⟨rfl, _⟩ := pure_eq_ok.mp h
    rw [if_neg]
    rintro ⟨_, _, hok, _⟩
    rw [Bool.not_eq_true'] at hflags
    cases hok.symm.trans hflags
  obtain ⟨_, h⟩ := next_bind_eq_ok h
  split_ifs at h with hstatus
  · obtain ⟨rfl, _⟩ := pure_eq_ok.mp h
    rw [if_neg]
    rintro ⟨_, _, _, hwrite⟩
    rw [Bool.not_eq_true'] at hstatus
    cases hwrite.symm.trans hstatus
  · obtain ⟨rfl, _⟩ := pure_eq_ok.mp h
    rw [Bool.not_eq_true, Bool.not_eq_false'] at hflags hstatus
    exact (if_pos ⟨hnext, hlen, hflags, hstatus⟩).symm

/-! ### The transfer -/

def storedAll (t : Ctx (BlkVirtio H) Ram) (o : Outcome H) : Ctx (BlkVirtio H) Ram :=
  { t with
    dev := o.dev
    mem := t.mem.storeAll o.writes
    log := t.log ++ o.writes.map fun w => .stored w.1 w.2 (GuestMemory.inRam t.mem w.1 w.2.length) }

section Transfer

variable {offset : UInt64} {moved : Bool}

theorem seek_eq_ok {x : Serve (BlkVirtio H) Ram Bool}
    (h : (do if !(← Serve.onDev (seek offset)) then return false else x) t = .ok moved t1) :
    (H.seek t.dev.blkFile offset t.dev.host).1.isOk = false ∧ moved = false ∧
        t1 = { t with dev := { t.dev with host := (H.seek t.dev.blkFile offset t.dev.host).2 } } ∨
      (H.seek t.dev.blkFile offset t.dev.host).1.isOk = true ∧
        x { t with dev := { t.dev with host := (H.seek t.dev.blkFile offset t.dev.host).2 } } = .ok moved t1 := by
  change (if !(H.seek t.dev.blkFile offset t.dev.host).1.isOk then pure false else x) _ = _ at h
  cases hok : (H.seek t.dev.blkFile offset t.dev.host).1.isOk with
  | false =>
    rw [hok] at h
    obtain ⟨rfl, rfl⟩ := pure_eq_ok.mp h
    exact .inl ⟨rfl, rfl, rfl⟩
  | true =>
    rw [hok] at h
    exact .inr ⟨rfl, h⟩

theorem readExact_bind {length : Nat} {w host : H.World} {r : Except IoErrorKind (BytesOf length)}
    {f : Option Bytes → Serve (BlkVirtio H) Ram Bool} (hread : H.readExact t.dev.blkFile length w = (r, host)) :
    (Serve.onDev (readExact length) >>= f) { t with dev := { t.dev with host := w } } =
      f (r.toOption.map Subtype.val) { t with dev := { t.dev with host } } := by
  show f ((H.readExact t.dev.blkFile length w).1.toOption.map Subtype.val)
    { t with dev := { t.dev with host := (H.readExact t.dev.blkFile length w).2 } } = _
  rw [hread]

theorem writeAll_bind {data : Bytes} {w host : H.World} {r : Except IoErrorKind Unit}
    {f : Bool → Serve (BlkVirtio H) Ram Bool} (hwrite : H.writeAll t.dev.blkFile data w = (r, host)) :
    (Serve.onDev (writeAll data) >>= f) { t with dev := { t.dev with host := w } } =
      f r.isOk { t with dev := { t.dev with host } } := by
  show f (H.writeAll t.dev.blkFile data w).1.isOk
    { t with dev := { t.dev with host := (H.writeAll t.dev.blkFile data w).2 } } = _
  rw [hwrite]

theorem transfer_outcome (h : transfer chain.request chain.dataSection chain.statusByte t = .ok moved t1) :
    moved = (carryOut t.dev t.mem chain).worked ∧ t1 = storedAll t (carryOut t.dev t.mem chain) := by
  have hunsought (hseek : (sought t.dev chain).1.isOk = false) : false = (carryOut t.dev t.mem chain).worked ∧
      { t with dev := { t.dev with host := (sought t.dev chain).2 } } = storedAll t (carryOut t.dev t.mem chain) := by
    rw [carryOut_unsought hseek]
    exact ⟨rfl, Ctx.ext rfl rfl rfl (List.append_nil _).symm⟩
  cases hreq : chain.request.rqstType with
  | false =>
    rw [transfer, hreq] at h
    obtain ⟨_, h⟩ := checked_bind_eq_ok.mp h
    rcases seek_eq_ok h with ⟨hseek, rfl, rfl⟩ | ⟨hseek, h⟩
    · exact hunsought hseek
    rcases hread : H.readExact t.dev.blkFile chain.dataSection.len.toNat (sought t.dev chain).2 with ⟨e | buf, host⟩
    · rw [carryOut_unread hseek hreq hread]
      obtain ⟨rfl, rfl⟩ := pure_eq_ok.mp ((readExact_bind hread).symm.trans h)
      exact ⟨rfl, rfl⟩
    · rw [carryOut_in hseek hreq hread]
      obtain ⟨rfl, rfl⟩ := pure_eq_ok.mp ((readExact_bind hread).symm.trans h)
      refine ⟨rfl, Ctx.ext rfl rfl rfl ?_⟩
      show t.log ++ [_] ++ [.stored _ _ (landsIn (Ctx.writing _ _ _).mem.regions _ _)] = _
      rw [landsIn_writing, List.append_assoc]
      rfl
  | true =>
    rw [transfer, hreq] at h
    obtain ⟨_, h⟩ := checked_bind_eq_ok.mp h
    rcases seek_eq_ok h with ⟨hseek, rfl, rfl⟩ | ⟨hseek, h⟩
    · exact hunsought hseek
    rcases hwrite : H.writeAll t.dev.blkFile _ (sought t.dev chain).2 with ⟨r, host⟩
    rw [carryOut_out hseek hreq hwrite]
    have hend := (writeAll_bind hwrite).symm.trans h
    cases hok : r.isOk with
    | false | true =>
      rw [hok] at hend
      obtain ⟨rfl, rfl⟩ := pure_eq_ok.mp hend
      exact ⟨rfl, rfl⟩

end Transfer

theorem stores_storedAll (t : Ctx (BlkVirtio H) Ram) (o : Outcome H) :
    stores (storedAll t o).log = stores t.log ++ flagged t.mem o.writes := by
  rw [storedAll, stores_append, flagged]
  congr 1
  rw [stores, List.filterMap_map]
  exact congrFun List.filterMap_eq_map o.writes

theorem usedEntries_storedAll (t : Ctx (BlkVirtio H) Ram) (o : Outcome H) :
    usedEntries (storedAll t o).log = usedEntries t.log := by
  rw [storedAll, usedEntries_append]
  refine (congrArg (usedEntries t.log ++ ·) ?_).trans (List.append_nil _)
  rw [usedEntries, List.filterMap_map]
  exact List.filterMap_eq_nil_iff.mpr fun w _ => rfl

theorem accounts_storedAll {o : Outcome H} {len : UInt32} (h : Accounts head (storedAll t o) u [] len) :
    Accounts head t u (flagged t.mem o.writes) len := by
  refine ⟨h.stored.trans ?_, h.entry.trans ?_⟩
  · rw [stores_storedAll, List.append_nil]
  · rw [usedEntries_storedAll]

structure ServedAs (head : UInt16) (o : Outcome H) (t u : Ctx (BlkVirtio H) Ram) : Prop where
  dev : u.dev = o.dev
  pushed : t.queue.pushUsed (t.mem.storeAll o.writes) head o.len = .ok (u.queue, u.mem)
  accounts : Accounts head t u (flagged t.mem o.writes) o.len

theorem servedAs_of_push {o : Outcome H} {len : UInt32} {a worked : Bool} (hlen : len = o.len)
    (h : (do Serve.pushUsed head len; return a : Serve (BlkVirtio H) Ram Bool) (storedAll t o) = .ok worked u) :
    worked = a ∧ ServedAs head o t u := by
  have haccounts := accounts_storedAll (.push h)
  obtain ⟨_, t1, hpushed, hpure⟩ := bind_eq_ok.mp h
  obtain ⟨rfl, rfl⟩ := pure_eq_ok.mp hpure
  obtain ⟨queue, mem, hpush, rfl⟩ := Serve.pushUsed_eq_ok hpushed
  subst hlen
  exact ⟨rfl, rfl, hpush, haccounts⟩

/-- **One chain of the block device.** A chain that is served is retired with what it comes to. -/
theorem serve_eq_ok {worked : Bool} (h : serve head t = .ok worked u) :
    worked = (outcome t.dev t.mem (chainIn t.queue t.mem head)).worked ∧
      ServedAs head (outcome t.dev t.mem (chainIn t.queue t.mem head)) t u := by
  obtain ⟨chain?, t1, hgather, hrest⟩ := bind_eq_ok.mp h
  obtain rfl := gather_eq_ok hgather
  have hgathered := (uses_gather head).effect_of_ok hgather
  have hqueue : t1.queue = t.queue := hgathered.queue_eq
  have hmem : t1.mem = t.mem := hgathered.mem_eq
  have hdev : t1.dev = t.dev := hgathered.dev (by decide)
  have hserved (o : Outcome H) (hthen : ServedAs head o t1 u) : ServedAs head o t u := by
    have hpushed := hthen.pushed
    have haccounts := hthen.accounts.after hgathered (by decide) (by decide)
    rw [hqueue, hmem] at hpushed
    rw [hmem] at haccounts
    exact ⟨hthen.dev, hpushed, haccounts⟩
  cases hchain : chainIn t.queue t.mem head with
  | none =>
    rw [hchain] at hrest
    have hskip : storedAll t1 (outcome t.dev t.mem none) = t1 := Ctx.ext hdev.symm rfl rfl (List.append_nil _)
    have hpush := servedAs_of_push (t := t1) (o := outcome t.dev t.mem none) rfl (by rw [hskip]; exact hrest)
    exact ⟨hpush.1, hserved _ hpush.2⟩
  | some chain =>
    rw [hchain] at hrest
    obtain ⟨moved, t2, htransfer, hend⟩ := bind_eq_ok.mp hrest
    obtain ⟨hmoved, rfl⟩ := transfer_outcome htransfer
    have hlen := carryOut_len t.dev t.mem chain
    rw [hdev, hmem] at hmoved hend
    show worked = (carryOut t.dev t.mem chain).worked ∧ ServedAs head (carryOut t.dev t.mem chain) t u
    rw [← hmoved] at hlen ⊢
    cases moved with
    | false =>
      obtain ⟨hworked, hthen⟩ := servedAs_of_push (by rw [hlen]; rfl) hend
      exact ⟨hworked, hserved _ hthen⟩
    | true =>
      obtain ⟨hworked, hthen⟩ := servedAs_of_push (by rw [hlen]; rfl) hend
      exact ⟨hworked, hserved _ hthen⟩

end BlkVirtio

end FerrumVM
