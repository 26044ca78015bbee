import FerrumVM.FolderListing
import FerrumVM.NetTransmit
import FerrumVM.QueueMemory

/-! Requests and replies of the file-system device, as a driver sees them. The request is the concatenation of the
readable buffers of a chain that stand before the first writable one; the reply covers the front of the
concatenation of its writable buffers, and nothing else in guest memory changes. The length that the reply states is
that of the reply as long as it has 32 bits. -/

namespace FerrumVM

open Base Program

/-! ### Buffers -/

def Clear (a : UInt64) (n : Nat) (b : UInt64) (k : Nat) : Prop := n = 0 ∨ k = 0 ∨ Apart a n b k

instance (a : UInt64) (n : Nat) (b : UInt64) (k : Nat) : Decidable (Clear a n b k) :=
  inferInstanceAs (Decidable (_ ∨ _ ∨ _))

theorem Clear.front {a b : UInt64} {n n' k : Nat} (h : Clear a n b k) (hle : n' ≤ n) : Clear a n' b k := by
  unfold Clear Apart at *
  omega

theorem Clear.symm {a b : UInt64} {n k : Nat} (h : Clear a n b k) : Clear b k a n := by
  unfold Clear Apart at *
  omega

/-- The buffers of two descriptors have no byte in common. -/
def VirtqDesc.ClearOf (desc desc' : VirtqDesc) : Prop := Clear desc.addr desc.len.toNat desc'.addr desc'.len.toNat

instance : DecidableRel VirtqDesc.ClearOf := fun _ _ => inferInstanceAs (Decidable (Clear _ _ _ _))

namespace Ram

variable {m : Ram} {addr from' : UInt64} {data : Bytes} {n k : Nat}

theorem load_zero (m : Ram) (addr : UInt64) : m.load addr 0 = [] :=
  List.eq_nil_of_length_eq_zero (length_load m addr 0)

theorem load_store_of_clear (m : Ram) (h : Clear addr data.length from' k) :
    (m.store addr data).load from' k = m.load from' k := by
  rcases h with hnil | rfl | hapart
  · rw [store_of_not_lands (Or.inl (List.eq_nil_of_length_eq_zero hnil))]
  · rw [load_zero, load_zero]
  · exact load_store_of_disjoint m hapart

theorem agree_store (h : Clear addr data.length from' n) : Agree from' n m (m.store addr data) := by
  intro at' k hin
  refine load_store_of_clear m ?_
  unfold Clear Apart Covers at *
  omega

theorem length_regions_store (m : Ram) (addr : UInt64) (data : Bytes) :
    (m.store addr data).regions.length = m.regions.length :=
  (storeIn_geometry addr data m.regions).length_eq.symm

theorem load_store_front (hsingle : m.regions.length = 1) (hheld : m.Holds addr n) (hle : data.length ≤ n) :
    (m.store addr data).load addr n = overlay data (m.load addr n) := by
  by_cases hzero : data = []
  · rw [hzero, overlay_nil, store_of_not_lands (Or.inl rfl)]
  obtain ⟨r, hr⟩ := List.length_eq_one_iff.mp hsingle
  have hpos := List.length_pos_of_ne_nil hzero
  have hlands := hheld.lands addr n (by omega) (.refl _ _)
  rw [hr] at hlands
  have hc : r.Contains addr n := by
    by_contra hnot
    rw [landsIn_cons_of_not hnot] at hlands
    cases hlands
  have hdata : r.Contains addr data.length := ⟨hc.1, by have := hc.2; omega⟩
  rw [landsIn_cons_of_contains hc, Bool.not_eq_true'] at hlands
  have hstored : (m.store addr data).regions = [r.write data (r.offsetOf addr)] := by
    show storeIn addr data m.regions = _
    rw [hr, storeIn, if_pos hdata]
  have hafter := contains_congr (r.write_memOffset data (r.offsetOf addr))
    (r.length_write data (r.offsetOf addr)) addr n
  unfold load
  rw [hstored, hr, specLoad_cons_of_contains (hafter.mpr hc), specLoad_cons_of_contains hc,
    MemoryRegion.write_memOffset, MemoryRegion.write, dif_pos (hdata.inBounds hlands), ← hdata.offset.1]
  exact window_splice_front hle hc.offset.2

/-- The bytes laid over the writable buffers, one after the other. -/
def lay (m : Ram) : Bytes → List VirtqDesc → Ram
  | _, [] => m
  | rest, desc :: descs =>
    if desc.isWrite then lay (m.store desc.addr (rest.take desc.len.toNat)) (rest.drop desc.len.toNat) descs
    else lay m rest descs

section Lay

variable {desc : VirtqDesc} {descs : List VirtqDesc} {rest : Bytes}

theorem lay_nil (m : Ram) (descs : List VirtqDesc) : m.lay [] descs = m := by
  induction descs with
  | nil => rfl
  | cons desc descs ih =>
    rw [lay, List.take_nil, List.drop_nil, store_of_not_lands (Or.inl rfl), ih, ite_self]

theorem lay_cons_of_write (hwrite : desc.isWrite = true) : m.lay rest (desc :: descs) =
      (m.store desc.addr (rest.take desc.len.toNat)).lay (rest.drop desc.len.toNat) descs := by
  rw [lay, if_pos hwrite]

theorem lay_cons_of_read (hwrite : desc.isWrite = false) : m.lay rest (desc :: descs) = m.lay rest descs := by
  rw [lay, if_neg (by simp [hwrite])]

theorem load_lay (h : ∀ desc ∈ descs, desc.isWrite = true → Clear desc.addr desc.len.toNat from' k) :
    (m.lay rest descs).load from' k = m.load from' k := by
  induction descs generalizing m rest with
  | nil => rfl
  | cons desc descs ih =>
    have hrest := fun d hd => h d (List.mem_cons_of_mem _ hd)
    cases hwrite : desc.isWrite with
    | false => rw [lay_cons_of_read hwrite, ih hrest]
    | true =>
      rw [lay_cons_of_write hwrite, ih hrest]
      exact load_store_of_clear m ((h desc List.mem_cons_self hwrite).front (List.length_take_le _ _))

theorem gathered_store (h : ∀ desc ∈ descs, Clear addr data.length desc.addr desc.len.toNat) :
    (m.store addr data).gathered descs = m.gathered descs := by
  induction descs with
  | nil => rfl
  | cons desc descs ih =>
    rw [gathered_cons, gathered_cons, load_store_of_clear m (h desc List.mem_cons_self),
      ih fun d hd => h d (List.mem_cons_of_mem _ hd)]

/-- **The writable buffers taken together** have their front covered. -/
theorem gathered_lay (hsingle : m.regions.length = 1)
    (hheld : ∀ desc ∈ descs, m.Holds desc.addr desc.len.toNat) (hclear : descs.Pairwise VirtqDesc.ClearOf) :
    (m.lay rest descs).gathered (descs.filter (·.isWrite)) =
      overlay rest (m.gathered (descs.filter (·.isWrite))) := by
  induction descs generalizing m rest with
  | nil => simp [gathered, overlay, lay]
  | cons desc descs ih =>
    obtain ⟨hfirst, hothers⟩ := List.pairwise_cons.mp hclear
    cases hwrite : desc.isWrite with
    | false =>
      rw [lay_cons_of_read hwrite, List.filter_cons_of_neg (by simp [hwrite])]
      exact ih hsingle (fun d hd => hheld d (List.mem_cons_of_mem _ hd)) hothers
    | true =>
      have hfront : (rest.take desc.len.toNat).length ≤ desc.len.toNat := List.length_take_le _ _
      have hsame := Frame.store m desc.addr (rest.take desc.len.toNat)
      have hkept : (m.store desc.addr (rest.take desc.len.toNat)).gathered (descs.filter (·.isWrite)) =
          m.gathered (descs.filter (·.isWrite)) :=
        gathered_store fun d hd => (hfirst d (List.mem_of_mem_filter hd)).front hfront
      have hlater := @ih (m.store desc.addr (rest.take desc.len.toNat)) (rest.drop desc.len.toNat)
        ((length_regions_store m _ _).trans hsingle)
        (fun d hd => (hheld d (List.mem_cons_of_mem _ hd)).frame hsame) hothers
      rw [lay_cons_of_write hwrite, List.filter_cons_of_pos hwrite, gathered_cons, gathered_cons, overlay_append,
        length_load, ← load_store_front hsingle (hheld desc List.mem_cons_self) hfront, hlater, hkept,
        load_lay fun d hd _ => (hfirst d hd).symm]

end Lay

end Ram

namespace VirtioQueue

variable {q : VirtioQueue} {m : Ram} {i : UInt16} {descs : List VirtqDesc}

/-- The descriptors that follow are in the table as well. -/
def InTable (q : VirtioQueue) (descs : List VirtqDesc) : Prop :=
  ∀ desc ∈ descs, desc.hasNext = true → desc.next.toNat < q.size.toNat

theorem Chain.store {addr : UInt64} {data : Bytes} (h : q.Chain m i descs) (hi : i.toNat < q.size.toNat)
    (htable : q.InTable descs) (hclear : Clear addr data.length q.descAddr q.tableBytes) :
    q.Chain (m.store addr data) i descs := by
  have hsame {i : UInt16} {desc : VirtqDesc} (hi : i.toNat < q.size.toNat) (hdesc : q.getDescriptor m i = .ok desc) :
      q.getDescriptor (m.store addr data) i = .ok desc := by
    obtain ⟨hsafe, rfl⟩ := getDescriptor_eq_ok.mp hdesc
    exact getDescriptor_eq_ok.mpr ⟨hsafe, (descAt_of_agree hsafe hi (Ram.agree_store hclear)).symm⟩
  induction h with
  | last hdesc hnext => exact .last (hsame hi hdesc) hnext
  | more hdesc hnext _ ih =>
    refine .more (hsame hi hdesc) hnext (ih ?_ fun d hd => htable d (List.mem_cons_of_mem _ hd))
    exact htable _ List.mem_cons_self hnext

end VirtioQueue

namespace FsVirtio

variable {H : HostOs} {q : VirtioQueue} {m : Ram} {i : UInt16} {desc : VirtqDesc} {descs : List VirtqDesc}
  {reply : Bytes} {written : Nat}

def requestPart (descs : List VirtqDesc) : List VirtqDesc := descs.takeWhile fun desc => !desc.isWrite

def replyPart (descs : List VirtqDesc) : List VirtqDesc := descs.filter (·.isWrite)

theorem replyPart_cons_of_write (hwrite : desc.isWrite = true) :
    replyPart (desc :: descs) = desc :: replyPart descs :=
  List.filter_cons_of_pos hwrite

theorem replyPart_cons_of_read (hwrite : desc.isWrite = false) : replyPart (desc :: descs) = replyPart descs :=
  List.filter_cons_of_neg (by simp [hwrite])

theorem gathers_of_chain (h : q.Chain m i descs) : Gathers q m i (m.gathered (requestPart descs)) := by
  induction h with
  | @last i desc hdesc hnext =>
    cases hwrite : desc.isWrite with
    | true =>
      rw [requestPart, List.takeWhile_cons_of_neg (by simp [hwrite])]
      exact .writable hdesc hwrite
    | false =>
      rw [requestPart, List.takeWhile_cons_of_pos (by simp [hwrite]), List.takeWhile_nil, Ram.gathered_cons]
      exact (List.append_nil (m.load desc.addr desc.len.toNat)).symm ▸ .last hdesc hwrite rfl hnext
  | @more i desc descs hdesc hnext _ ih =>
    cases hwrite : desc.isWrite with
    | true =>
      rw [requestPart, List.takeWhile_cons_of_neg (by simp [hwrite])]
      exact .writable hdesc hwrite
    | false =>
      rw [requestPart, List.takeWhile_cons_of_pos (by simp [hwrite]), Ram.gathered_cons]
      exact .more hdesc hwrite rfl hnext ih

theorem replyAt_read (hwrite : desc.isWrite = false) : replyAt reply desc written m = .ok ([], written, m) := by
  rw [replyAt, if_neg (by simp [hwrite])]
  rfl

theorem replyAt_write (hwrite : desc.isWrite = true) (hwritten : written ≤ reply.length) :
    replyAt reply desc written m = .ok ([(desc.addr, (reply.drop written).take desc.len.toNat)],
      written + min (reply.length - written) desc.len.toNat,
      m.store desc.addr ((reply.drop written).take desc.len.toNat)) := by
  have hslice : slice reply written (written + min (reply.length - written) desc.len.toNat) =
      .ok ((reply.drop written).take desc.len.toNat) := by
    refine slice_eq_ok.mpr ⟨Nat.le_add_right _ _, by omega, ?_⟩
    rw [Nat.add_sub_cancel_left, ← List.length_drop, Nat.min_comm, ← List.take_take, List.take_length]
  rw [replyAt, if_pos hwrite]
  dsimp only
  rw [hslice]
  rfl

theorem scatters_of_chain (h : q.Chain m i descs) (hi : i.toNat < q.size.toNat) (htable : q.InTable descs)
    (hclear : ∀ desc ∈ descs, Clear desc.addr desc.len.toNat q.descAddr q.tableBytes)
    (hwritten : written ≤ reply.length) :
    ∃ parts, Scatters q reply i written m parts (m.lay (reply.drop written) descs) ∧
      total parts = min (reply.length - written) ((replyPart descs).map (·.len.toNat)).sum := by
  induction descs generalizing i m written with
  | nil => cases h
  | cons desc descs ih =>
    have hdesc : q.getDescriptor m i = .ok desc := by
      obtain ⟨_, _, hcons, hdesc⟩ := h.first
      cases hcons
      exact hdesc
    have hlast : desc.hasNext = false → descs = [] := by
      cases h with
      | last => exact fun _ => rfl
      | more _ hnext => exact fun hnone => absurd (hnext.symm.trans hnone) nofun
    have hrest : desc.hasNext = true → q.Chain m desc.next descs := by
      cases h with
      | last _ hnone => exact fun hnext => absurd (hnext.symm.trans hnone) nofun
      | more _ _ hrest => exact fun _ => hrest
    have hnext : desc.hasNext = true → desc.next.toNat < q.size.toNat := htable desc List.mem_cons_self
    have htable' : q.InTable descs := fun d hd => htable d (List.mem_cons_of_mem _ hd)
    have hclear' : ∀ d ∈ descs, Clear d.addr d.len.toNat q.descAddr q.tableBytes :=
      fun d hd => hclear d (List.mem_cons_of_mem _ hd)
    cases hwrite : desc.isWrite with
    | false =>
      rw [Ram.lay_cons_of_read hwrite, replyPart_cons_of_read hwrite]
      cases hgoes : desc.hasNext with
      | false =>
        obtain rfl := hlast hgoes
        exact ⟨[], .last hdesc (replyAt_read hwrite) (by simp [replyEnds, hgoes]), (Nat.min_zero _).symm⟩
      | true =>
        obtain ⟨parts, hparts, htotal⟩ := ih (hrest hgoes) (hnext hgoes) htable' hclear' hwritten
        have hends : replyEnds reply desc written = false := by simp [replyEnds, hgoes, hwrite]
        exact ⟨[] ++ parts, .more hdesc (replyAt_read hwrite) hends hparts, htotal⟩
    | true =>
      have hpart := replyAt_write (m := m) hwrite hwritten
      have hcount := written_replyAt hpart
      rw [Ram.lay_cons_of_write hwrite, replyPart_cons_of_write hwrite, List.map_cons, List.sum_cons,
        List.drop_drop]
      generalize hn : min (reply.length - written) desc.len.toNat = n at hpart hcount
      by_cases hdone : reply.length ≤ written + n
      · -- The reply ends in this buffer, and the rest of the chain takes nothing.
        have hnone : reply.drop (written + desc.len.toNat) = [] := List.drop_eq_nil_of_le (by omega)
        rw [hnone, Ram.lay_nil]
        refine ⟨_, .last hdesc hpart (by simp [replyEnds, hwrite, hdone]), ?_⟩
        omega
      · have hwhole : n = desc.len.toNat := by omega
        subst hwhole
        cases hgoes : desc.hasNext with
        | false =>
          obtain rfl := hlast hgoes
          refine ⟨_, .last hdesc hpart (by simp [replyEnds, hgoes]), ?_⟩
          simp only [replyPart, List.filter_nil, List.map_nil, List.sum_nil]
          omega
        | true =>
          have hkept := (hrest hgoes).store (hnext hgoes) htable'
            ((hclear desc List.mem_cons_self).front (List.length_take_le desc.len.toNat (reply.drop written)))
          have hfits : written + desc.len.toNat ≤ reply.length := by omega
          obtain ⟨parts, hparts, htotal⟩ := ih hkept (hnext hgoes) htable' hclear' hfits
          refine ⟨_ ++ parts, .more hdesc hpart (by simp [replyEnds, hgoes, hdone]) hparts, ?_⟩
          rw [total_append, htotal]
          omega

/-! ### Headers -/

open SharedFolder (u32Field u64Field u32Field_append u64Field_append)

def headerIn (request : Bytes) : FuseInHeader where
  len := u32Field request 0
  opcode := u32Field request 4
  unique := u64Field request 8
  nodeid := u64Field request 16
  uid := u32Field request 24
  gid := u32Field request 28
  pid := u32Field request 32
  padding := u32Field request 36

theorem readLeU32_drop {bytes : Bytes} {k : Nat} (h : k + 4 ≤ bytes.length) :
    readLeU32 (bytes.drop k) = (u32Field bytes k, bytes.drop (k + 4)) := by
  unfold readLeU32 u32Field u32FromLe
  rw [List.length_drop, if_neg (by omega), List.take_take, Nat.min_self, List.drop_drop]

theorem readLeU64_drop {bytes : Bytes} {k : Nat} (h : k + 8 ≤ bytes.length) :
    readLeU64 (bytes.drop k) = (u64Field bytes k, bytes.drop (k + 8)) := by
  unfold readLeU64 u64Field u64FromLe
  rw [List.length_drop, if_neg (by omega), List.take_take, Nat.min_self, List.drop_drop]

theorem new_of_long {request : Bytes} (h : 40 ≤ request.length) :
    FuseInHeader.new request = (headerIn request, request.drop 40) := by
  have hfirst : readLeU32 request = (u32Field request 0, request.drop 4) := @readLeU32_drop request 0 (by omega)
  unfold FuseInHeader.new headerIn
  simp (disch := omega) only [hfirst, readLeU32_drop, readLeU64_drop]

def payloadOf : Except Errno Bytes → Bytes
  | .ok payload => payload
  | .error _ => []

def errorOf : Except Errno Bytes → Errno
  | .ok _ => 0
  | .error errno => -errno

structure IsReply (unique : UInt64) (answer : Except Errno Bytes) (reply : Bytes) : Prop where
  length : reply.length = 16 + (payloadOf answer).length
  len : (u32Field reply 0).toNat = 16 + (payloadOf answer).length
  error : (u32Field reply 4).toInt32 = errorOf answer
  unique : u64Field reply 8 = unique
  payload : reply.drop 16 = payloadOf answer

theorem replyBytes_eq (unique : UInt64) (answer : Except Errno Bytes) :
    replyBytes unique answer = u32ToLe (UInt32.ofNat (16 + (payloadOf answer).length)) ++
      (u32ToLe (errorOf answer).toUInt32 ++ (u64ToLe unique ++ payloadOf answer)) := by
  cases answer with
  | ok payload => simp [replyBytes, FuseOutHeader.toBytes, FuseOutHeader.length, payloadOf, errorOf]
  | error errno => simp [replyBytes, FuseOutHeader.toBytes, FuseOutHeader.length, payloadOf, errorOf]

theorem isReply_replyBytes (unique : UInt64) {answer : Except Errno Bytes}
    (h : (payloadOf answer).length + 16 < 2 ^ 32) : IsReply unique answer (replyBytes unique answer) := by
  have hlen : u32Field (replyBytes unique answer) 0 = UInt32.ofNat (16 + (payloadOf answer).length) := by
    rw [replyBytes_eq]
    exact u32Field_append [] rfl _ _
  have hfits : 16 + (payloadOf answer).length < 2 ^ 32 := by omega
  refine ⟨?_, ?_, ?_, ?_, ?_⟩
  · rw [replyBytes_eq]
    simp only [List.length_append, length_u32ToLe, length_u64ToLe]
    omega
  · rw [hlen, UInt32.toNat_ofNat_of_lt' hfits]
  · rw [replyBytes_eq, u32Field_append _ (length_u32ToLe _)]
    simp
  · rw [replyBytes_eq, ← List.append_assoc]
    exact u64Field_append _ (by simp) _ _
  · rw [replyBytes_eq, ← List.append_assoc, ← List.append_assoc]
    exact List.drop_left' (by simp)

/-! ### Transport -/

/-- A chain of a request: it ends, its buffers lie in a single region of RAM, and no two of them, nor any of them and
a part of the queue, have a byte in common. -/
structure RequestChain (head : UInt16) (t : Ctx (FsVirtio H) Ram) (descs : List VirtqDesc) : Prop where
  chain : t.queue.Chain t.mem head descs
  head_lt : head.toNat < t.queue.size.toNat
  table : t.queue.InTable descs
  single : t.mem.regions.length = 1
  held : ∀ desc ∈ descs, t.mem.Holds desc.addr desc.len.toNat
  clear_queue : ∀ desc ∈ descs, ∀ part ∈ t.queue.parts, Clear desc.addr desc.len.toNat part.1 part.2
  clear : descs.Pairwise VirtqDesc.ClearOf

/-- The reply covers the front of the writable buffers taken together, and no other byte has changed. -/
structure Scattered (descs : List VirtqDesc) (reply : Bytes) (m m' : Ram) : Prop where
  buffers : m'.gathered (replyPart descs) = overlay reply (m.gathered (replyPart descs))
  others : ∀ addr n, (∀ desc ∈ descs, desc.isWrite = true → Clear desc.addr desc.len.toNat addr n) →
    m'.load addr n = m.load addr n

/-- The request is gathered from its buffers, header first, and what the server answers to it is scattered over the
others as a reply. A request on which the server panics has no reply. -/
structure Transported (head : UInt16) (t : Ctx (FsVirtio H) Ram) (descs : List VirtqDesc) (request : Bytes) :
    Prop where
  header : 40 ≤ request.length → FuseInHeader.new request = (headerIn request, request.drop 40)
  gathered : ∃ fuel t₁, collectReadable fuel head t = .ok request t₁
  replied : ∀ answer folder,
    SharedFolder.dispatch (FuseInHeader.new request).1 (FuseInHeader.new request).2 t.dev.fuseDevice =
      .ok answer folder →
    ∃ reply, IsReply (FuseInHeader.new request).1.unique answer reply ∧ ∃ fuel t₁ u,
      collectReadable fuel head t = .ok request t₁ ∧
      writeOutReply fuel head reply { t₁ with dev := t.dev.setFuse folder } =
        .ok (min reply.length ((replyPart descs).map (·.len.toNat)).sum) u ∧
      Scattered descs reply t.mem u.mem ∧
      serveRequest fuel head t = (do Serve.pushUsed head 0; return true : Serve (FsVirtio H) Ram Bool) u

variable {head : UInt16} {t : Ctx (FsVirtio H) Ram}

theorem writeOutReply_of_chain (h : RequestChain head t descs) (reply : Bytes) {t₁ : Ctx (FsVirtio H) Ram}
    (hqueue : t₁.queue = t.queue) (hmem : t₁.mem = t.mem) : ∃ fuel u,
      writeOutReply fuel head reply t₁ = .ok (min reply.length ((replyPart descs).map (·.len.toNat)).sum) u ∧
      Scattered descs reply t.mem u.mem := by
  have hclear (desc) (hdesc : desc ∈ descs) := h.clear_queue desc hdesc _ t.queue.table_mem
  obtain ⟨parts, hparts, htotal⟩ := scatters_of_chain h.chain h.head_lt h.table hclear (Nat.zero_le reply.length)
  rw [List.drop_zero] at hparts
  rw [← hqueue, ← hmem] at hparts
  obtain ⟨fuel, u, hwrite, hafter⟩ := writeOutReply_of_scatters hparts
  rw [htotal, Nat.sub_zero] at hwrite
  refine ⟨fuel, u, hwrite, ?_, fun addr n hapart => ?_⟩
  · rw [hafter, hmem]
    exact Ram.gathered_lay h.single h.held h.clear
  · rw [hafter, hmem]
    exact Ram.load_lay hapart

/-- **FUSE transport.** Requests are gathered and replies scattered as they should be, except that the length in
the header of a reply of 2³² bytes or more is cut off. -/
theorem fuse_transport_iff (h : RequestChain head t descs) :
    Transported head t descs (t.mem.gathered (requestPart descs)) ↔
      ∀ payload, Answers (t.mem.gathered (requestPart descs)) (.ok payload) t → payload.length + 16 < 2 ^ 32 := by
  generalize hrequest : t.mem.gathered (requestPart descs) = request
  have hgathers := gathers_of_chain h.chain
  rw [hrequest] at hgathers
  obtain ⟨fuel, t₁, hcollect⟩ := collectReadable_iff.mpr hgathers
  obtain ⟨hdev, hqueue, hmem, _⟩ := FsVirtio.gathered hcollect
  constructor
  · rintro htransported payload ⟨folder, hdispatch⟩
    obtain ⟨reply, hreply, _⟩ := htransported.replied _ folder hdispatch
    have hlen : (u32Field reply 0).toNat = 16 + payload.length := hreply.len
    have hlt := UInt32.toNat_lt (u32Field reply 0)
    omega
  · intro hshort
    refine ⟨new_of_long, ⟨fuel, t₁, hcollect⟩, fun answer folder hdispatch => ?_⟩
    refine ⟨_, isReply_replyBytes _ ?_, ?_⟩
    · cases answer with
      | ok payload => exact hshort payload ⟨folder, hdispatch⟩
      | error errno =>
        show 0 + 16 < 2 ^ 32
        decide
    · have hanswer : onFuse (SharedFolder.dispatch (FuseInHeader.new request).1 (FuseInHeader.new request).2) t₁ =
          .ok answer { t₁ with dev := t.dev.setFuse folder } := by
        refine onFuse_eq_ok.mpr ⟨folder, ?_, ?_⟩
        · rw [hdev]
          exact hdispatch
        · rw [hdev]
      obtain ⟨fuel', u, hwrite, hscattered⟩ := @writeOutReply_of_chain H descs head t h
        (replyBytes (FuseInHeader.new request).1.unique answer) { t₁ with dev := t.dev.setFuse folder } hqueue hmem
      -- Both walks end with the fuel that either needs.
      have hcollect' := (fuelMono_collectReadable head fuel (max fuel fuel') t (Nat.le_max_left _ _)
        (by simp [hcollect])).trans hcollect
      have hwrite' := (fuelMono_writeOutReply head _ fuel' (max fuel fuel') _ (Nat.le_max_right _ _)
        (by simp [hwrite])).trans hwrite
      refine ⟨max fuel fuel', t₁, u, hcollect', hwrite', hscattered, ?_⟩
      unfold serveRequest
      rw [bind_of_ok hcollect', bind_of_ok hanswer, bind_of_ok hwrite']

end FsVirtio

/-! ### A directory of four gigabytes -/

section LongReply

open SharedFolder (records FuseDirent recordLength u64Field u32Field)

/-- The body of a READDIR from offset zero on, with room for 2³² − 1 bytes. -/
def listBody : Bytes := u64ToLe 1 ++ u64ToLe 0 ++ u32ToLe 0xFFFFFFFF ++ List.replicate 20 0

/-- Two descriptors, of that request at address 80 and of a reply of 16 bytes at 160. The queue has its table at
address 0, the available ring at 32 and the used ring at 48. -/
def requestRegion : MemoryRegion where
  isNull := false
  bytes := [80, 0, 0, 0, 0, 0, 0, 0, 80, 0, 0, 0, 1, 0, 1, 0] ++
    [160, 0, 0, 0, 0, 0, 0, 0, 16, 0, 0, 0, 2, 0, 0, 0] ++ [0, 0, 1, 0] ++ List.replicate 44 0 ++
    (u32ToLe 80 ++ u32ToLe 28 ++ u64ToLe 7 ++ u64ToLe 1 ++ List.replicate 16 0) ++ listBody ++ List.replicate 16 0
  memOffset := 0
  size_le := by simp [isizeMax, listBody]

def requestQueue : VirtioQueue := { VirtioQueue.new with size := 2, ready := true, availAddr := 32, usedAddr := 48 }

def requestDescs : List VirtqDesc := [⟨80, 80, 1, 1⟩, ⟨160, 16, 2, 0⟩]

def requestWaiting {H : HostOs} (folder : SharedFolder H) : Ctx (FsVirtio H) Ram where
  dev := { FsVirtio.new [] folder with attached := true }
  queue := requestQueue
  mem := ⟨[requestRegion]⟩
  log := []

theorem requestChain_waiting {H : HostOs} (folder : SharedFolder H) :
    FsVirtio.RequestChain 0 (requestWaiting folder) requestDescs where
  chain := by
    have hfirst : requestQueue.getDescriptor (⟨[requestRegion]⟩ : Ram) 0 = .ok ⟨80, 80, 1, 1⟩ := by decide +kernel
    have hsecond : requestQueue.getDescriptor (⟨[requestRegion]⟩ : Ram) 1 = .ok ⟨160, 16, 2, 0⟩ := by decide +kernel
    exact .more hfirst (by decide) (.last hsecond (by decide))
  head_lt := by
    show (0 : UInt16).toNat < requestQueue.size.toNat
    decide
  table := by
    show ∀ desc ∈ requestDescs, desc.hasNext = true → desc.next.toNat < requestQueue.size.toNat
    decide
  single := rfl
  held desc hdesc := by
    have hlength : requestRegion.bytes.length = 176 := by simp [requestRegion, listBody]
    have hin : ∀ desc ∈ requestDescs, desc.addr.toNat + desc.len.toNat ≤ 176 := by decide
    refine Ram.holds_of_contains rfl ?_ ⟨Nat.zero_le _, ?_⟩
    · rw [hlength]
      show (0 : UInt64).toNat + 176 ≤ 2 ^ 64
      decide
    · rw [hlength]
      exact Nat.le_trans (hin desc hdesc) (Nat.le_add_left _ _)
  clear_queue := by
    show ∀ desc ∈ requestDescs, ∀ part ∈ requestQueue.parts, Clear desc.addr desc.len.toNat part.1 part.2
    decide
  clear := by decide

/-- A host on which every directory has the given entries. -/
def HostOs.listing (entries : List DirEntry) : HostOs :=
  { HostOs.idle Unit Unit with readDir := fun _ w => (.ok entries, w) }

def listingServer (entries : List DirEntry) : SharedFolder (HostOs.listing entries) := .new [47] ()

theorem dispatch_listing {entries : List DirEntry} (hknown : ∀ entry ∈ entries, ∃ m, entry.metadata = .ok m)
    (hroom : ((records entries 1).flatMap FuseDirent.toBytes).length < 2 ^ 32) :
    ∃ folder, SharedFolder.dispatch ⟨80, 28, 7, 1, 0, 0, 0, 0⟩ listBody (listingServer entries) =
      .ok (.ok ((records entries 1).flatMap FuseDirent.toBytes)) folder := by
  have hoffset : u64Field listBody 8 = 0 := by decide
  have hsize : u32Field listBody 16 = 0xFFFFFFFF := by decide
  have hpath : (listingServer entries).Knows 1 [47] := rfl
  have hgives : (listingServer entries).Gives ((HostOs.listing entries).readDir [47]) entries := rfl
  have hloop := @SharedFolder.readDirLoop_all (HostOs.listing entries) 0 0xFFFFFFFF entries 1 [] hknown (by decide)
    (Nat.le_of_lt_succ hroom)
  let listed := (listingServer entries).called ((HostOs.listing entries).readDir [47])
  refine ⟨listed, SharedFolder.dispatch_eq_ok_iff.mpr ?_⟩
  refine SharedFolder.after_handle (P := fun r u => r = some (.ok _) ∧ u = listed) |>.mp ?_
  refine SharedFolder.after_readDir rfl (by decide) hpath hgives ?_
  rw [hoffset, hsize]
  show SharedFolder.After (SharedFolder.readDirLoop 0 0xFFFFFFFF entries 1 []) _ _
  rw [hloop]
  exact (SharedFolder.after_pure _).mpr ⟨rfl, rfl⟩

/-- The entry number `i` of a directory: its name has 216 letters, which differ for different numbers. -/
def entryAt (i : Nat) : DirEntry where
  name := (List.range 216).map fun k => if i.testBit k then 98 else 97
  ino := UInt64.ofNat i
  metadata := .ok emptyDirectory
  name_le := by simp

def entriesUpTo (n : Nat) : List DirEntry := (List.range n).map entryAt

theorem length_listing (n : Nat) : ((records (entriesUpTo n) 1).flatMap FuseDirent.toBytes).length = n * 240 := by
  have hnames : ∀ entry ∈ entriesUpTo n, entry.name.length = 216 := by
    intro entry hentry
    obtain ⟨i, _, rfl⟩ := List.mem_map.mp hentry
    simp [entryAt]
  rw [SharedFolder.length_flatMap_records hnames, entriesUpTo, List.length_map, List.length_range]
  rfl

theorem known_entriesUpTo (n : Nat) : ∀ entry ∈ entriesUpTo n, ∃ m, entry.metadata = .ok m := by
  intro entry hentry
  obtain ⟨i, _, rfl⟩ := List.mem_map.mp hentry
  exact ⟨_, rfl⟩

def gatheredRequest : Bytes := Ram.gathered ⟨[requestRegion]⟩ (FsVirtio.requestPart requestDescs)

theorem new_gatheredRequest : FuseInHeader.new gatheredRequest = (⟨80, 28, 7, 1, 0, 0, 0, 0⟩, listBody) := by
  decide +kernel

theorem answers_listing {n : Nat} (hroom : n * 240 < 2 ^ 32) :
    FsVirtio.Answers gatheredRequest (.ok ((records (entriesUpTo n) 1).flatMap FuseDirent.toBytes))
      (requestWaiting (listingServer (entriesUpTo n))) := by
  have hdispatch := dispatch_listing (known_entriesUpTo n) (by rw [length_listing]; exact hroom)
  unfold FsVirtio.Answers
  rw [new_gatheredRequest]
  exact hdispatch

/-- A directory with two entries is listed in a reply of 496 bytes. -/
theorem short_listing_is_transported :
    FsVirtio.Transported 0 (requestWaiting (listingServer (entriesUpTo 2))) requestDescs gatheredRequest := by
  refine (FsVirtio.fuse_transport_iff (requestChain_waiting _)).mpr fun payload hanswers => ?_
  obtain ⟨folder, hdispatch⟩ := hanswers
  obtain ⟨folder', hdispatch'⟩ := @answers_listing 2 (by decide)
  cases hdispatch.symm.trans hdispatch'
  rw [length_listing]
  decide

theorem misstated_of_length {n : Nat} (hn : n * 240 + 16 = 2 ^ 32) :
    (∃ payload, FsVirtio.Answers gatheredRequest (.ok payload) (requestWaiting (listingServer (entriesUpTo n))) ∧
      payload.length + 16 = 2 ^ 32 ∧ u32Field (FsVirtio.replyBytes 7 (.ok payload)) 0 = 0) ∧
    ¬FsVirtio.Transported 0 (requestWaiting (listingServer (entriesUpTo n))) requestDescs gatheredRequest := by
  have hlength := length_listing n
  obtain ⟨folder, hdispatch⟩ := @answers_listing n (by omega)
  generalize (records (entriesUpTo n) 1).flatMap FuseDirent.toBytes = payload at hlength hdispatch
  have htotal : payload.length + 16 = 2 ^ 32 := by omega
  refine ⟨⟨payload, ⟨folder, hdispatch⟩, htotal, ?_⟩, fun htransported => ?_⟩
  · rw [FsVirtio.replyBytes_eq]
    refine (SharedFolder.u32Field_append [] rfl _ _).trans ?_
    show UInt32.ofNat (16 + payload.length) = 0
    rw [Nat.add_comm, htotal]
    rfl
  · obtain ⟨reply, hreply, _⟩ := htransported.replied _ folder hdispatch
    have hlen : (u32Field reply 0).toNat = 16 + payload.length := hreply.len
    have hlt := UInt32.toNat_lt (u32Field reply 0)
    omega

/-- That is the reply to the listing of a directory with 17895697 entries. -/
theorem long_listing_has_no_length :
    FsVirtio.RequestChain 0 (requestWaiting (listingServer (entriesUpTo 17895697))) requestDescs ∧
    (∃ payload, FsVirtio.Answers gatheredRequest (.ok payload)
        (requestWaiting (listingServer (entriesUpTo 17895697))) ∧
      payload.length + 16 = 2 ^ 32 ∧ u32Field (FsVirtio.replyBytes 7 (.ok payload)) 0 = 0) ∧
    ¬FsVirtio.Transported 0 (requestWaiting (listingServer (entriesUpTo 17895697))) requestDescs gatheredRequest :=
  ⟨requestChain_waiting _, misstated_of_length rfl⟩

end LongReply

end FerrumVM
