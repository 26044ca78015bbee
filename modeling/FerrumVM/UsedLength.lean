import FerrumVM.BlkRequests
import FerrumVM.GpuControlQueue

/-! The length in a used entry. The driver takes it for the number of bytes that the device wrote into the
chain's writable buffers. Each device computes the length apart from its writes, and the two agree under a
condition of its own. -/

namespace FerrumVM

open Base Program GuestMemory QueueLoop

variable {H : HostOs} {head : UInt16} {worked : Bool}

/-! ### The entropy device and the counter device -/

namespace RngVirtio

variable {t u : Ctx (RngVirtio H) Ram}

def LengthRight (head : UInt16) (t : Ctx (RngVirtio H) Ram) : Prop :=
  (t.descAt head).len.toNat = 0 ∨ GuestMemory.inRam t.mem (t.descAt head).addr (t.descAt head).len.toNat = true

theorem honestLength_iff (h : serve head t = .ok worked u) : HonestLength head t u ↔ LengthRight head t := by
  obtain ⟨hfetch, h⟩ := head_bind_eq_ok h
  have hchain : t.queue.InChain t.mem head (t.descAt head) := .first hfetch
  split_ifs at h with hread
  · exact absurd h throw_ne_ok
  have hwrite : (t.descAt head).isWrite = true := by simpa using hread
  obtain ⟨data, t2, hrandom, h⟩ := bind_eq_ok.mp h
  obtain ⟨dev, hdata, rfl⟩ := Serve.onDev_eq_ok.mp hrandom
  have hlen := length_getRandom hdata
  rw [write_bind] at h
  have haccounts : Accounts head t u _ _ := (Accounts.push h).store.of_dev.fetched
  rw [FerrumVM.honestLength_iff haccounts, bytesInto_one, takes_buffer hchain hwrite hlen.le]
  exact (honest_whole hlen.symm).trans (by rw [hlen]; rfl)

end RngVirtio

namespace CntVirtio

variable {t u : Ctx CntVirtio Ram}

/-- The buffer of the head is as long as what the buffer behind it takes of the counter's four bytes. -/
def LengthRight (head : UInt16) (t : Ctx CntVirtio Ram) : Prop :=
  (t.descAt head).len.toNat = t.taken head (t.descAt (t.descAt head).next).addr 4

theorem honestLength_iff (h : serve head t = .ok worked u) : HonestLength head t u ↔ LengthRight head t := by
  obtain ⟨_, h⟩ := head_bind_eq_ok h
  split_ifs at h with hunusable
  · exact absurd h throw_ne_ok
  obtain ⟨_, h⟩ := next_bind_eq_ok h
  rw [readU32_bind, addU32_bind_eq_ok, writeU32_bind] at h
  have haccounts : Accounts head t u _ _ := (Accounts.push h.2).store.fetched.fetched
  rw [FerrumVM.honestLength_iff haccounts, bytesInto_one, length_u32ToLe]
  rfl

end CntVirtio

/-! ### The network device -/

namespace NetVirtio

variable {t u : Ctx (NetVirtio H) Ram}

/-- The buffer is too short for the frame, or every byte of the header and of the frame is in RAM and in a
writable buffer of the chain. -/
def RxLengthRight (job : Bytes × UInt16) (t : Ctx (NetVirtio H) Ram) : Prop :=
  job.1.length + hdrSize ≤ (t.descAt job.2).len.toNat →
    t.taken job.2 (t.descAt job.2).addr hdrSize = hdrSize ∧
      t.taken job.2 ((t.descAt job.2).addr + 12) job.1.length = job.1.length

theorem honestLength_rx {job : Bytes × UInt16} (h : serveRx job t = .ok worked u) :
    HonestLength job.2 t u ↔ RxLengthRight job t := by
  obtain ⟨ethFrame, head⟩ := job
  unfold RxLengthRight
  dsimp only
  obtain ⟨_, h⟩ := head_bind_eq_ok h
  split_ifs at h with hsmall
  · have haccounts : Accounts head t u _ _ := (Accounts.push h).fetched
    refine iff_of_true ((FerrumVM.honestLength_iff haccounts).mpr rfl) fun hroom => ?_
    omega
  rw [write_bind, addU64_bind_eq_ok, write_bind] at h
  have haccounts : Accounts head t u _ _ := (Accounts.push h.2).store.store.fetched
  have hlen : (UInt32.ofNat (hdrSize + ethFrame.length)).toNat = hdrSize + ethFrame.length := by
    have hlt := (t.descAt head).len.toNat_lt
    exact UInt32.toNat_ofNat_of_lt' (show hdrSize + ethFrame.length < 2 ^ 32 by omega)
  have hheader := taken_le t head (t.descAt head).addr hdrSize
  have hframe := taken_le t head ((t.descAt head).addr + 12) ethFrame.length
  rw [FerrumVM.honestLength_iff haccounts, bytesInto_two, hlen, List.length_replicate, landsIn_writing]
  show hdrSize + ethFrame.length = t.taken _ _ _ + t.taken _ _ _ ↔ _
  omega

def TxLengthRight (head : UInt16) (t : Ctx (NetVirtio H) Ram) : Prop := (t.descAt head).len < 12

theorem honestLength_tx (h : serveTx head t = .ok worked u) : HonestLength head t u ↔ TxLengthRight head t := by
  obtain ⟨_, h⟩ := head_bind_eq_ok h
  split_ifs at h with hsmall
  · have haccounts : Accounts head t u _ _ := (Accounts.push h).fetched
    exact iff_of_true ((FerrumVM.honestLength_iff haccounts).mpr rfl) hsmall
  rw [addU64_bind_eq_ok, read_bind] at h
  obtain ⟨_, t4, hsend, h⟩ := bind_eq_ok.mp h.2
  obtain ⟨tapDevice, _, rfl⟩ := onTap_iff.mp hsend
  have haccounts : Accounts head t u [] _ := (Accounts.push h).of_dev.fetched
  refine iff_of_false (fun hhonest => hsmall ?_) hsmall
  have hzero : (t.descAt head).len.toNat = 0 := (FerrumVM.honestLength_iff haccounts).mp hhonest
  exact UInt32.lt_iff_toNat_lt.mpr (by rw [hzero]; decide)

end NetVirtio

/-! ### The display device -/

namespace VirtioGpu

variable {W : Type} {t t1 u : Ctx (VirtioGpu W) Ram}

theorem honestLength_writeBuf {desc : VirtqDesc} {buf : Bytes} (hbuf : 0 < buf.length)
    (haccounts : ∀ stored len, Accounts head t1 u stored len → Accounts head t u stored len)
    (hmem : t1.mem = t.mem) (hchain : t.queue.InChain t.mem head desc) (h : (do
      let written ← writeBuf desc buf
      Serve.pushUsed head (UInt32.ofNat written)
      return true : Serve (VirtioGpu W) Ram Bool) t1 = .ok worked u) :
    HonestLength head t u ↔ (desc.isWrite = true → buf.length ≤ desc.len.toNat →
      inRam t.mem desc.addr buf.length = true) := by
  obtain ⟨written, t2, hwrite, h⟩ := bind_eq_ok.mp h
  unfold writeBuf at hwrite
  split_ifs at hwrite with hunusable
  · obtain ⟨rfl, rfl⟩ := pure_eq_ok.mp hwrite
    refine iff_of_true ((honestLength_iff (haccounts _ _ (.push h))).mpr rfl) fun hflag hroom => ?_
    rw [hflag, Bool.not_true, Bool.false_or, decide_eq_true_eq] at hunusable
    omega
  rw [Bool.or_eq_true, not_or, Bool.not_eq_true', Bool.not_eq_false, decide_eq_true_eq, Nat.not_lt] at hunusable
  obtain ⟨hflag, hroom⟩ := hunusable
  rw [write_bind] at hwrite
  obtain ⟨rfl, rfl⟩ := pure_eq_ok.mp hwrite
  have hlen : (UInt32.ofNat buf.length).toNat = buf.length := by
    have hlt := desc.len.toNat_lt
    exact UInt32.toNat_ofNat_of_lt' (show buf.length < 2 ^ 32 by omega)
  rw [honestLength_iff (haccounts _ _ (Accounts.push h).store), bytesInto_one, takes_buffer hchain hflag hroom,
    honest_whole hlen, hmem]
  rw [forall_prop_of_true hflag, forall_prop_of_true hroom]
  exact or_iff_right hbuf.ne'

theorem inChain_of_gatherLoop {steps : Nat} {link : Link} {request bytes : Bytes} {desc : VirtqDesc}
    (h : gatherLoop steps link request t = .ok (some (bytes, desc)) u)
    (hlink : ∀ desc, t.queue.getDescriptor t.mem link.index = .ok desc → t.queue.InChain t.mem head desc) :
    t.queue.InChain t.mem head desc := by
  induction steps generalizing link request t with
  | zero => cases (pure_eq_ok.mp h).1
  | succ steps ih =>
    unfold gatherLoop at h
    obtain ⟨hfetch, h⟩ := fetch_bind_eq_ok link h
    have hfirst := hlink _ hfetch
    generalize t.descAt link.index = first at h hfirst
    split_ifs at h with hwrite hnil hlong
    · cases (pure_eq_ok.mp h).1
    · cases (pure_eq_ok.mp h).1
      exact hfirst
    · cases (pure_eq_ok.mp h).1
    rw [read_bind, get_bind] at h
    split_ifs at h with hlast
    · cases (pure_eq_ok.mp h).1
    have hnext : first.hasNext = true := by
      by_contra hnone
      rw [Bool.not_eq_true] at hnone
      exact hlast (by rw [hnone]; rfl)
    exact ih (t := t.fetched link first) h fun desc hdesc => .next hfirst hnext hdesc

/-- The reply does not fit into the response buffer, or it is stored in RAM. -/
def ControlLengthRight (head : UInt16) (t : Ctx (VirtioGpu W) Ram) : Prop :=
  ∀ cmd request desc, chainRequest t.queue t.mem head = some (cmd, request, desc) →
    (if cmd = .getDisplayInfo then 408 else 24) ≤ desc.len.toNat →
      GuestMemory.inRam t.mem desc.addr (if cmd = .getDisplayInfo then 408 else 24) = true

theorem honestLength_control [DisplayBackend W] (h : serveControl head t = .ok worked u) :
    HonestLength head t u ↔ ControlLengthRight head t := by
  obtain ⟨t1, hgather, h⟩ := serveControl_eq_ok h
  have hgathered := (uses_gatherControlRequest head).effect_of_ok hgather
  unfold ControlLengthRight
  cases hrequest : chainRequest t.queue t.mem head with
  | none =>
    rw [hrequest] at h
    have haccounts := (Accounts.push h).after hgathered (by decide) (by decide)
    exact iff_of_true ((honestLength_iff haccounts).mpr rfl) nofun
  | some chain =>
    obtain ⟨cmd, request, desc⟩ := chain
    obtain ⟨hchain, hwritable⟩ := isWrite_of_chainRequest hrequest
    rw [hrequest] at h
    obtain ⟨response, t2, hcommand, h⟩ := bind_eq_ok.mp h
    have hcommanded := (uses_command _ _).effect_of_ok hcommand
    have hlength := length_response hcommand
    rw [hchain, gatherControlRequest, get_bind] at hgather
    have hdesc : t.queue.InChain t.mem head desc := inChain_of_gatherLoop hgather fun desc hdesc => .first hdesc
    have hpos : 0 < (GpuResponse.bytes response).length := by
      rw [hlength]
      split_ifs <;> decide
    have haccounts (stored len) (h : Accounts head t2 u stored len) : Accounts head t u stored len :=
      (h.after hcommanded (by decide) (by decide)).after hgathered (by decide) (by decide)
    rw [honestLength_writeBuf hpos haccounts (hcommanded.mem_eq.trans hgathered.mem_eq) hdesc h,
      forall_prop_of_true hwritable, hlength]
    constructor
    · rintro hroom _ _ _ ⟨⟩
      exact hroom
    · intro hall
      exact hall _ _ _ rfl

/-- The chain has no buffer for the reply, or the reply is stored in RAM. -/
def CursorLengthRight (head : UInt16) (t : Ctx (VirtioGpu W) Ram) : Prop :=
  (t.descAt head).hasNext = true → (t.descAt head).isWrite = false → (t.descAt head).next < t.queue.size →
    (t.descAt (t.descAt head).next).isWrite = true → 24 ≤ (t.descAt (t.descAt head).next).len.toNat →
      GuestMemory.inRam t.mem (t.descAt (t.descAt head).next).addr 24 = true

theorem honestLength_cursor (h : serveCursor head t = .ok worked u) :
    HonestLength head t u ↔ CursorLengthRight head t := by
  obtain ⟨hfetch, h⟩ := head_bind_eq_ok h
  rw [get_bind] at h
  split_ifs at h with hunusable
  · refine iff_of_true ((honestLength_iff (Accounts.push h).fetched).mpr rfl) fun hnext hread hlt => ?_
    rw [hnext, hread, Bool.not_true, Bool.false_or, Bool.false_or, decide_eq_true_eq] at hunusable
    exact absurd hlt (UInt16.not_lt.mpr hunusable)
  rw [Bool.or_eq_true, Bool.or_eq_true, not_or, not_or, Bool.not_eq_true', Bool.not_eq_false, Bool.not_eq_true,
    decide_eq_true_eq, UInt16.not_le] at hunusable
  obtain ⟨⟨hnext, hread⟩, hinside⟩ := hunusable
  have hlt : (t.descAt head).next < t.queue.size := hinside
  obtain ⟨hfetch', h⟩ := next_bind_eq_ok h
  rw [read_bind] at h
  have hlength (bytes : Bytes) := VirtioGpuCtrlHdr.length_toBytes (VirtioGpuCtrlHdr.new (cursorResponse bytes))
  rw [honestLength_writeBuf (by rw [hlength]; decide) (fun stored len haccounts => haccounts.fetched.fetched) rfl
    (.next (.first hfetch) hnext hfetch') h, hlength]
  unfold CursorLengthRight
  rw [forall_prop_of_true hnext, forall_prop_of_true hread, forall_prop_of_true hlt]
  rfl

end VirtioGpu

/-! ### The file system device -/

namespace FsVirtio

variable {t u : Ctx (FsVirtio H) Ram}

/-- How many bytes of the reply a descriptor is given once `written` of them are out. -/
def share (reply : Bytes) (desc : VirtqDesc) (written : Nat) : Nat :=
  if desc.isWrite then min (reply.length - written) desc.len.toNat else 0

/-- No descriptor from `i` on takes a byte of the reply: what it is given is nothing, or not in RAM. -/
inductive Refuses (q : VirtioQueue) (m : Ram) (reply : Bytes) : UInt16 → Nat → Prop
  | intro {i : UInt16} {written : Nat}
      (hnone : share reply (q.descAt m i) written = 0 ∨
        GuestMemory.inRam m (q.descAt m i).addr (share reply (q.descAt m i) written) = false)
      (hrest : replyEnds reply (q.descAt m i) (written + share reply (q.descAt m i) written) = false →
        Refuses q m reply (q.descAt m i).next (written + share reply (q.descAt m i) written)) :
      Refuses q m reply i written

theorem refuses_iff {q : VirtioQueue} {m : Ram} {reply : Bytes} {i : UInt16} {written : Nat} :
    Refuses q m reply i written ↔ (share reply (q.descAt m i) written = 0 ∨
        inRam m (q.descAt m i).addr (share reply (q.descAt m i) written) = false) ∧
      (replyEnds reply (q.descAt m i) (written + share reply (q.descAt m i) written) = false →
        Refuses q m reply (q.descAt m i).next (written + share reply (q.descAt m i) written)) := by
  constructor
  · rintro ⟨hnone, hrest⟩
    exact ⟨hnone, hrest⟩
  · rintro ⟨hnone, hrest⟩
    exact .intro hnone hrest

theorem replyAt_eq_ok {reply : Bytes} {desc : VirtqDesc} {written written' : Nat} {m m' : Ram}
    {parts : List (UInt64 × Bytes)} (h : replyAt reply desc written m = .ok (parts, written', m'))
    (hchain : t.queue.InChain t.mem head desc) (hmem : t.mem = m) : written' = written + share reply desc written ∧
      ((∀ p ∈ parts, t.taken head p.1 p.2.length = 0) ↔ share reply desc written = 0 ∨
        inRam m desc.addr (share reply desc written) = false) ∧
      ((∀ p ∈ parts, t.taken head p.1 p.2.length = 0) → m' = m) := by
  unfold replyAt at h
  unfold share
  split_ifs at h ⊢ with hwrite
  · obtain ⟨part, hslice, h⟩ := Exec.bind_eq_ok.mp h
    obtain ⟨m1, hstore, h⟩ := Exec.bind_eq_ok.mp h
    cases h
    cases hstore
    obtain ⟨_, hroom, rfl⟩ := slice_eq_ok.mp hslice
    have hlength : ((reply.drop written).take (written + min (reply.length - written) desc.len.toNat - written)).length =
        min (reply.length - written) desc.len.toNat := by
      rw [List.length_take, List.length_drop]
      omega
    generalize (reply.drop written).take _ = part at hlength ⊢
    have htaken : t.taken head desc.addr part.length =
        if inRam t.mem desc.addr part.length then part.length else 0 :=
      takes_buffer hchain hwrite (by omega) _
    have hnone : t.taken head desc.addr part.length = 0 ↔
        part.length = 0 ∨ inRam m desc.addr part.length = false := by
      rw [htaken, hmem]
      split_ifs with hland
      · simp [hland]
      · simpa using Or.inr hland
    rw [← hlength]
    refine ⟨rfl, by simpa using hnone, fun hall => ?_⟩
    have hnot := hnone.mp (hall _ List.mem_cons_self)
    exact Ram.store_of_not_lands (hnot.imp_left List.length_eq_zero_iff.mp)
  · cases h
    exact ⟨rfl, iff_of_true nofun (.inl rfl), fun _ => rfl⟩

theorem refuses_of_scatters {q : VirtioQueue} {m m' : Ram} {reply : Bytes} {i : UInt16} {written : Nat}
    {parts : List (UInt64 × Bytes)} (h : Scatters q reply i written m parts m') (hqueue : t.queue = q)
    (hmem : t.mem = m) (hlink : ∀ desc, q.getDescriptor m i = .ok desc → t.queue.InChain t.mem head desc) :
    (∀ p ∈ parts, t.taken head p.1 p.2.length = 0) ↔ Refuses q m reply i written := by
  -- As long as nothing is taken, the walk reads the memory that it started with.
  induction h with
  | last hdesc hpart hend =>
    obtain ⟨_, rfl⟩ := VirtioQueue.getDescriptor_eq_ok.mp hdesc
    obtain ⟨rfl, hiff, _⟩ := replyAt_eq_ok hpart (hlink _ hdesc) hmem
    rw [hiff, refuses_iff]
    refine (and_iff_left fun hgoes => ?_).symm
    rw [hend] at hgoes
    cases hgoes
  | more hdesc hpart hgoes hrest ih =>
    obtain ⟨_, rfl⟩ := VirtioQueue.getDescriptor_eq_ok.mp hdesc
    have hchain := hlink _ hdesc
    obtain ⟨rfl, hiff, hkeep⟩ := replyAt_eq_ok hpart hchain hmem
    rw [refuses_iff, ← hiff, forall_prop_of_true hgoes]
    simp only [List.mem_append, or_imp, forall_and]
    refine and_congr_right fun hnone => ?_
    obtain rfl := hkeep hnone
    refine ih hmem fun desc hnext => .next hchain ?_ ?_
    · rw [replyEnds, Bool.or_eq_false_iff, Bool.not_eq_false'] at hgoes
      exact hgoes.1
    · rwa [hqueue, hmem]

def RequestLengthRight (head : UInt16) (t : Ctx (FsVirtio H) Ram) : Prop :=
  ∀ bytes answer, Gathers t.queue t.mem head bytes → Answers bytes answer t →
    Refuses t.queue t.mem (replyBytes (FuseInHeader.new bytes).1.unique answer) head 0

theorem honestLength_hiprio {fuel : Nat} (h : serveHiprio fuel head t = .ok worked u) : HonestLength head t u := by
  obtain ⟨bytes, t1, hcollect, h⟩ := bind_eq_ok.mp h
  obtain ⟨_, t2, hacted, h⟩ := bind_eq_ok.mp h
  have hcollected := (uses_collectReadable _ _).effect_of_ok hcollect
  have hdone := (uses_hiprio _).effect_of_ok hacted
  have haccounts := ((Accounts.push h).after hdone (by decide) (by decide)).after hcollected (by decide) (by decide)
  exact (honestLength_iff haccounts).mpr rfl

theorem honestLength_request {fuel : Nat} (h : serveRequest fuel head t = .ok worked u) :
    HonestLength head t u ↔ RequestLengthRight head t := by
  obtain ⟨bytes, t1, hcollect, h⟩ := bind_eq_ok.mp h
  have hcollected := (uses_collectReadable _ _).effect_of_ok hcollect
  have hgathers := collectReadable_iff.mp ⟨fuel, t1, hcollect⟩
  obtain ⟨answer, t2, hdispatch, h⟩ := bind_eq_ok.mp h
  obtain ⟨fuseDevice, hanswer, rfl⟩ := onFuse_eq_ok.mp hdispatch
  rw [hcollected.dev (by decide)] at hanswer
  obtain ⟨written, t3, hreply, h⟩ := bind_eq_ok.mp h
  have hreplied := (uses_writeOutReply _ _ _).effect_of_ok hreply
  obtain ⟨parts, hscatters, hstores⟩ := scatters_of_writeOutReply hreply
  have hqueue : t.queue = t1.queue := (hcollected.queue_eq).symm
  have hmem : t.mem = t1.mem := (hcollected.mem_eq).symm
  have hpushed := Accounts.push h
  have haccounts : Accounts head t1 u (flagged t1.mem parts) 0 := by
    refine ⟨?_, hpushed.entry.trans ?_⟩
    · rw [hpushed.stored, hstores, List.append_nil]
    · rw [hreplied.usedEntries_eq (by decide)]
  rw [honestLength_iff (haccounts.after hcollected (by decide) (by decide)), ← hmem]
  have hzero : (0 : UInt32).toNat = t.bytesInto head (flagged t.mem parts) ↔
      ∀ p ∈ parts, t.taken head p.1 p.2.length = 0 := by
    refine eq_comm.trans (bytesInto_eq_zero.trans ?_)
    simp only [flagged, List.mem_map, forall_exists_index, and_imp, forall_apply_eq_imp_iff₂]
    rfl
  rw [hzero, refuses_of_scatters hscatters hqueue hmem fun desc hdesc => .first (by rwa [hqueue, hmem])]
  rw [← hqueue, ← hmem]
  -- The request is the one that was gathered, and the server has one answer to it.
  constructor
  · rintro hrefuses bytes' answer' hgathers' ⟨fuseDevice', hanswer'⟩
    obtain rfl := hgathers'.unique hgathers
    rw [hanswer] at hanswer'
    cases hanswer'
    exact hrefuses
  · intro hall
    exact hall bytes answer hgathers ⟨fuseDevice, hanswer⟩

end FsVirtio

/-! ### The block device -/

namespace BlkVirtio

variable {t u : Ctx (BlkVirtio H) Ram}

/-- The length of the data is what the status buffer takes of the status byte, together with the data if it
is read and stored in RAM. -/
def LengthRight (head : UInt16) (t : Ctx (BlkVirtio H) Ram) : Prop :=
  ∀ chain, chainIn t.queue t.mem head = some chain →
    (H.seek t.dev.blkFile (chain.request.sector * 512) t.dev.host).1.isOk = true →
      chain.dataSection.len.toNat = t.taken head chain.statusByte.addr 1 +
        if chain.request.rqstType = false ∧
          (H.readExact t.dev.blkFile chain.dataSection.len.toNat
            (H.seek t.dev.blkFile (chain.request.sector * 512) t.dev.host).2).1.isOk = true ∧
          GuestMemory.inRam t.mem chain.dataSection.addr chain.dataSection.len.toNat = true
        then chain.dataSection.len.toNat else 0

theorem inChain_dataSection {chain : BlkChain} (h : Returns (serve head) t)
    (hchain : chainIn t.queue t.mem head = some chain) : t.queue.InChain t.mem head chain.dataSection := by
  obtain ⟨hnext, hlen, _, hdata, _⟩ := chainIn_eq_some hchain
  obtain ⟨hhead, hthen, _⟩ := returns_serve_iff.mp h
  obtain ⟨_, hsafe, _⟩ := hthen hnext hlen
  have hfirst : t.queue.getDescriptor t.mem head = .ok (t.descAt head) :=
    VirtioQueue.getDescriptor_eq_ok.mpr ⟨hhead, rfl⟩
  exact .next (.first hfirst) hnext (VirtioQueue.getDescriptor_eq_ok.mpr ⟨hsafe, hdata⟩)

theorem honestLength_iff (h : serve head t = .ok worked u) : HonestLength head t u ↔ LengthRight head t := by
  have hserved := (serve_eq_ok h).2
  rw [FerrumVM.honestLength_iff hserved.accounts]
  unfold LengthRight
  cases hchain : chainIn t.queue t.mem head with
  | none => exact iff_of_true rfl nofun
  | some chain =>
    have hdata := inChain_dataSection (.of_ok h) hchain
    obtain ⟨_, _, _, _, _, hflags, _⟩ := chainIn_eq_some hchain
    simp only [Option.some.injEq, forall_eq']
    refine carryOut_cases t.dev t.mem chain
      (P := fun o => o.len.toNat = t.bytesInto head (FsVirtio.flagged t.mem o.writes) ↔ _) ?_ ?_ ?_ ?_
    · intro hseek
      exact iff_of_true rfl fun hok => by rw [hseek] at hok; cases hok
    · intro hseek hreq r host _
      rw [forall_prop_of_true hseek]
      refine (Eq.congr_right bytesInto_one).trans (Eq.congr_right ?_)
      simp only [hreq, Bool.true_eq_false, false_and, if_false, Nat.add_zero]
      rfl
    · intro hseek hreq buf host hread
      have hwrite : chain.dataSection.isWrite = true := by simpa [flagsOk, hreq] using hflags
      have htakes (landed : Bool) := takes_buffer hdata hwrite buf.property.le landed
      rw [forall_prop_of_true hseek, hread]
      refine (Eq.congr_right bytesInto_two).trans (Eq.congr_right ?_)
      rw [htakes, buf.property, Nat.add_comm]
      by_cases hland : inRam t.mem chain.dataSection.addr chain.dataSection.len.toNat = true
      · rw [if_pos hland, if_pos ⟨hreq, rfl, hland⟩]
        rfl
      · rw [if_neg hland, if_neg fun hand => hland hand.2.2]
        rfl
    · intro hseek hreq e host hread
      rw [forall_prop_of_true hseek, hread]
      refine (Eq.congr_right bytesInto_one).trans (Eq.congr_right ?_)
      rw [if_neg fun hand => by cases hand.2.1]
      rfl

end BlkVirtio

/-! ### Whole ticks -/

section Ticks

variable {D : Type}

/-- A run of the loop comes to the job in state `t` and retires its chain. -/
def QueueLoop.Retires (l : QueueLoop D Ram) (c : Ctx D Ram) (job : l.Job) (t u : Ctx D Ram) : Prop :=
  l.Reaches c job t ∧ ∃ fuel worked, l.serve fuel job t = .ok worked u

/-- Every chain that a run of the loop retires met the condition when it was popped. -/
def QueueLoop.RetiresOnly (l : QueueLoop D Ram) (P : l.Job → Ctx D Ram → Prop) (c : Ctx D Ram) : Prop :=
  ∀ job t u, l.Retires c job t u → P job t

/-- Every chain that a run of the loop retires has the right length. -/
def QueueLoop.LengthsHonest (c : Ctx D Ram) (l : QueueLoop D Ram) : Prop :=
  ∀ job t u, l.Retires c job t u → HonestLength (l.headOf job) t u

theorem QueueLoop.lengthsHonest_iff {l : QueueLoop D Ram} {P : l.Job → Ctx D Ram → Prop}
    (h : ∀ fuel job t worked u, l.serve fuel job t = .ok worked u → (HonestLength (l.headOf job) t u ↔ P job t))
    (c : Ctx D Ram) : l.LengthsHonest c ↔ l.RetiresOnly P c := by
  constructor
  · rintro hhonest job t u ⟨hreach, fuel, worked, hserve⟩
    exact (h fuel job t worked u hserve).mp (hhonest job t u ⟨hreach, fuel, worked, hserve⟩)
  · rintro hright job t u ⟨hreach, fuel, worked, hserve⟩
    exact (h fuel job t worked u hserve).mpr (hright job t u ⟨hreach, fuel, worked, hserve⟩)

/-- Every chain that a tick retires has the length of what was written to its buffers. -/
def LengthsHonest [VirtioDevice D Ram] [QueueDevice D Ram] (queueSel : Nat) (c : Ctx D Ram) : Prop :=
  ∀ l, QueueDevice.queueLoop c.dev queueSel = some l → l.LengthsHonest c

end Ticks

section Device

variable {W : Type} [DisplayBackend W] {queueSel : Nat}

/-- Every chain that a tick retires has the length of what was written to its buffers. A tick of the console
device retires nothing. -/
def Device.LengthsHonest (queueSel : Nat) (c : Ctx (Device H W) Ram) : Prop :=
  match c.dev with
  | .blk dev => FerrumVM.LengthsHonest queueSel (c.withDev dev)
  | .net dev => FerrumVM.LengthsHonest queueSel (c.withDev dev)
  | .fs dev => FerrumVM.LengthsHonest queueSel (c.withDev dev)
  | .gpu dev => FerrumVM.LengthsHonest queueSel (c.withDev dev)
  | .rng dev => FerrumVM.LengthsHonest queueSel (c.withDev dev)
  | .cnt dev => FerrumVM.LengthsHonest queueSel (c.withDev dev)
  | .console _ => True

def Device.LengthsRight (queueSel : Nat) (c : Ctx (Device H W) Ram) : Prop :=
  match c.dev with
  | .blk dev => dev.attached = true → queueSel = 0 →
      BlkVirtio.requestLoop.RetiresOnly BlkVirtio.LengthRight (c.withDev dev)
  | .net dev => dev.attached = true →
      (queueSel = 0 → NetVirtio.rxLoop.RetiresOnly NetVirtio.RxLengthRight (c.withDev dev)) ∧
      (queueSel = 1 → NetVirtio.txLoop.RetiresOnly NetVirtio.TxLengthRight (c.withDev dev))
  | .fs dev => dev.attached = true → queueSel = 1 →
      FsVirtio.requestLoop.RetiresOnly FsVirtio.RequestLengthRight (c.withDev dev)
  | .gpu dev => dev.attached = true →
      (queueSel = 0 → VirtioGpu.controlLoop.RetiresOnly VirtioGpu.ControlLengthRight (c.withDev dev)) ∧
      (queueSel = 1 → VirtioGpu.cursorLoop.RetiresOnly VirtioGpu.CursorLengthRight (c.withDev dev))
  | .rng dev => dev.attached = true → queueSel = 0 →
      RngVirtio.rngLoop.RetiresOnly RngVirtio.LengthRight (c.withDev dev)
  | .cnt dev => dev.attached = true → queueSel = 0 →
      CntVirtio.cntLoop.RetiresOnly CntVirtio.LengthRight (c.withDev dev)
  | .console _ => True

/-- **Used lengths.** Every chain that a tick retires has the number of bytes written to its writable buffers
exactly when each chain meets the condition of the device in the state in which it is popped. -/
theorem used_lengths_iff {c : Ctx (Device H W) Ram} :
    Device.LengthsHonest queueSel c ↔ Device.LengthsRight queueSel c := by
  obtain ⟨dev, queue, mem, log⟩ := c
  cases dev with
  | blk dev =>
    refine BlkVirtio.forall_queueLoop.trans (imp_congr_right fun _ => imp_congr_right fun _ => ?_)
    exact lengthsHonest_iff (fun _ _ _ _ _ => BlkVirtio.honestLength_iff) _
  | net dev =>
    refine NetVirtio.forall_queueLoop.trans (imp_congr_right fun _ => and_congr ?_ ?_)
    · exact imp_congr_right fun _ => lengthsHonest_iff (fun _ _ _ _ _ => NetVirtio.honestLength_rx) _
    · exact imp_congr_right fun _ => lengthsHonest_iff (fun _ _ _ _ _ => NetVirtio.honestLength_tx) _
  | fs dev =>
    refine FsVirtio.forall_queueLoop.trans (imp_congr_right fun _ => ?_)
    rw [and_iff_right fun _ => ?_]
    · exact imp_congr_right fun _ => lengthsHonest_iff (fun _ _ _ _ _ => FsVirtio.honestLength_request) _
    · rintro job t u ⟨_, fuel, worked, hserve⟩
      exact FsVirtio.honestLength_hiprio hserve
  | gpu dev =>
    refine VirtioGpu.forall_queueLoop.trans (imp_congr_right fun _ => and_congr ?_ ?_)
    · exact imp_congr_right fun _ => lengthsHonest_iff (fun _ _ _ _ _ => VirtioGpu.honestLength_control) _
    · exact imp_congr_right fun _ => lengthsHonest_iff (fun _ _ _ _ _ => VirtioGpu.honestLength_cursor) _
  | rng dev =>
    refine RngVirtio.forall_queueLoop.trans (imp_congr_right fun _ => imp_congr_right fun _ => ?_)
    exact lengthsHonest_iff (fun _ _ _ _ _ => RngVirtio.honestLength_iff) _
  | cnt dev =>
    refine CntVirtio.forall_queueLoop.trans (imp_congr_right fun _ => imp_congr_right fun _ => ?_)
    exact lengthsHonest_iff (fun _ _ _ _ _ => CntVirtio.honestLength_iff) _
  | console dev => exact Iff.rfl

end Device

/-- A readable buffer of twelve bytes at address 40, published on a queue of one descriptor: the table is at
address 0, the available ring at 16 and the used ring at 24. -/
def headerOnly : Ram :=
  ⟨[{ isNull := false
      bytes := [40, 0, 0, 0, 0, 0, 0, 0, 12, 0, 0, 0, 0, 0, 0, 0] ++ [0, 0, 1, 0, 0, 0, 0, 0] ++ List.replicate 40 0
      memOffset := 0
      size_le := by decide }]⟩

def bareNet : NetVirtio HostOs.bare := { NetVirtio.new ⟨[], ()⟩ with attached := true }

def headerWaiting : Ctx (NetVirtio HostOs.bare) Ram where
  dev := bareNet
  queue := { VirtioQueue.new with size := 1, ready := true, availAddr := 16, usedAddr := 24 }
  mem := headerOnly
  log := []

/-- A buffer that was sent is retired with its own length, though nothing was written to it. -/
theorem sent_is_not_written :
    (∃ worked u, VirtioDevice.tick 2 1 headerWaiting = .ok worked u ∧ usedEntries u.log = [(0, 12)] ∧
        stores u.log = []) ∧ ¬Device.LengthsHonest 1 (headerWaiting.withDev (.net bareNet : BareDevice)) := by
  have htick : Program.ends (VirtioDevice.tick 2 1) headerWaiting (fun _ u =>
      usedEntries u.log == [(0, 12)] && stores u.log == []) = true := by
    decide
  have hpop : Program.ends Serve.popAvail headerWaiting (fun head? t =>
      head? == some 0 && !decide ((t.descAt 0).len < 12) && Program.ends (NetVirtio.serveTx 0) t fun _ _ => true) =
        true := by
    decide
  refine ⟨?_, fun hhonest => ?_⟩
  · obtain ⟨worked, hrun, hcheck⟩ := eq_ok_of_ends htick
    simp only [Bool.and_eq_true, beq_iff_eq] at hcheck
    exact ⟨worked, _, hrun, hcheck.1, hcheck.2⟩
  · obtain ⟨head?, hrun, hcheck⟩ := eq_ok_of_ends hpop
    simp only [Bool.and_eq_true, beq_iff_eq, Bool.not_eq_true', decide_eq_false_iff_not] at hcheck
    obtain ⟨⟨rfl, hlong⟩, hserve⟩ := hcheck
    obtain ⟨worked, hsent, _⟩ := eq_ok_of_ends hserve
    have hretires := hhonest NetVirtio.txLoop rfl 0 _ _ ⟨ofPops_reaches_first nofun hrun, 0, worked, hsent⟩
    exact hlong ((NetVirtio.honestLength_tx hsent).mp hretires)

end FerrumVM
