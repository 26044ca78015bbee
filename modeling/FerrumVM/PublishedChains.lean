import Mathlib.Data.List.Induction
import FerrumVM.RamRanges
import FerrumVM.SafeAccess

/-! The chains that a driver has published. With both rings in RAM and apart, a push changes nothing but
the used ring, so as long as serving a chain leaves the available ring alone, a run of a device takes
the published heads one after another, in the order of the ring, and ends when it has taken them all or
its batch is full. -/

namespace FerrumVM

open Base Program QueueLoop

namespace VirtioQueue

variable {q : VirtioQueue} {m m' : Ram}

structure RingsHeld (q : VirtioQueue) (m : Ram) : Prop where
  size_ne : q.size ≠ 0
  avail : m.Holds q.availAddr q.availBytes
  used : m.Holds q.usedAddr q.usedBytes
  apart : Apart q.availAddr q.availBytes q.usedAddr q.usedBytes

theorem RingsHeld.frame {ranges : List (UInt64 × Nat)} (h : q.RingsHeld m) (hframe : Ram.Frame ranges m m') :
    q.RingsHeld m' :=
  ⟨h.size_ne, h.avail.frame hframe, h.used.frame hframe, h.apart⟩

theorem RingsHeld.moved (h : q.RingsHeld m) (lastAvailIdx lastUsedIdx : UInt16) :
    RingsHeld { q with lastAvailIdx, lastUsedIdx } m :=
  ⟨h.size_ne, h.avail, h.used, h.apart⟩

theorem size_pos (h : q.size ≠ 0) : 0 < q.size.toNat := by
  refine Nat.pos_of_ne_zero fun hzero => h ?_
  exact UInt16.toNat_inj.mp hzero

/-! ### Pushing -/

def pushedTo (q : VirtioQueue) (m : Ram) (head : UInt16) (len : UInt32) : Ram :=
  ((m.store (q.usedAddr + q.usedOffset q.lastUsedIdx) (u32ToLe head.toUInt32)).store
    (q.usedAddr + q.usedOffset q.lastUsedIdx + 4) (u32ToLe len)).store (q.usedAddr + 2) (u16ToLe (q.lastUsedIdx + 1))

theorem PushSafe.pushUsed_eq (h : q.PushSafe) (hsize : q.size ≠ 0) (m : Ram) (head : UInt16) (len : UInt32) :
    q.pushUsed m head len = .ok ({ q with lastUsedIdx := q.lastUsedIdx + 1 }, q.pushedTo m head len) := by
  have hoff := q.toNat_usedOffset q.lastUsedIdx
  have hlast := h.resolve_left hsize
  have hentry : q.usedAddr.toNat + (q.usedOffset q.lastUsedIdx).toNat < 2 ^ 64 := by omega
  have hlen : (q.usedAddr + q.usedOffset q.lastUsedIdx).toNat + (4 : UInt64).toNat < 2 ^ 64 := by
    rw [toNat_add_of_lt hentry, show (4 : UInt64).toNat = 4 from rfl]
    omega
  have hidx : q.usedAddr.toNat + (2 : UInt64).toNat < 2 ^ 64 := by
    rw [show (2 : UInt64).toNat = 2 from rfl]
    omega
  rw [pushUsed, if_neg hsize, addU64_of_lt hentry, Exec.ok_bind, addU64_of_lt hlen, addU64_of_lt hidx]
  rfl

theorem RingsHeld.pushSafe (h : q.RingsHeld m) : q.PushSafe := by
  have hslot : q.lastUsedIdx.toNat % q.size.toNat < q.size.toNat := Nat.mod_lt _ (size_pos h.size_ne)
  have hfits := h.used.fits
  unfold usedBytes at hfits
  exact Or.inr (by omega)

theorem RingsHeld.used_covers (h : q.RingsHeld m) :
    Covers q.usedAddr q.usedBytes (q.usedAddr + q.usedOffset q.lastUsedIdx) 8 ∧
      Covers (q.usedAddr + q.usedOffset q.lastUsedIdx) 8 (q.usedAddr + q.usedOffset q.lastUsedIdx) 4 ∧
      Covers (q.usedAddr + q.usedOffset q.lastUsedIdx) 8 (q.usedAddr + q.usedOffset q.lastUsedIdx + 4) 4 ∧
      Covers q.usedAddr q.usedBytes (q.usedAddr + 2) 2 ∧
      Apart (q.usedAddr + 2) 2 (q.usedAddr + q.usedOffset q.lastUsedIdx) 8 ∧
      Apart (q.usedAddr + q.usedOffset q.lastUsedIdx) 4 (q.usedAddr + q.usedOffset q.lastUsedIdx + 4) 4 := by
  have hslot : q.lastUsedIdx.toNat % q.size.toNat < q.size.toNat := Nat.mod_lt _ (size_pos h.size_ne)
  have hfits := h.used.fits
  have hoff := q.toNat_usedOffset q.lastUsedIdx
  have hfour : (4 : UInt64).toNat = 4 := rfl
  have htwo : (2 : UInt64).toNat = 2 := rfl
  unfold usedBytes at hfits
  have hentry := toNat_add_of_lt (show q.usedAddr.toNat + (q.usedOffset q.lastUsedIdx).toNat < 2 ^ 64 by omega)
  have hlen := toNat_add_of_lt
    (show (q.usedAddr + q.usedOffset q.lastUsedIdx).toNat + (4 : UInt64).toNat < 2 ^ 64 by omega)
  have hidx := toNat_add_of_lt (show q.usedAddr.toNat + (2 : UInt64).toNat < 2 ^ 64 by omega)
  unfold Covers Apart usedBytes
  omega

theorem RingsHeld.frame_pushedTo (h : q.RingsHeld m) (head : UInt16) (len : UInt32) :
    Ram.Frame [(q.usedAddr, q.usedBytes)] m (q.pushedTo m head len) := by
  obtain ⟨hslot, hentry, hlen, hidx, _, _⟩ := h.used_covers
  have hin {m : Ram} {addr : UInt64} {data : Bytes} (hcovers : Covers q.usedAddr q.usedBytes addr data.length) :
      Ram.Frame [(q.usedAddr, q.usedBytes)] m (m.store addr data) :=
    (Ram.Frame.store m addr data).mono fun r hr => by
      rw [List.mem_singleton.mp hr]
      exact ⟨_, List.mem_singleton_self _, hcovers⟩
  refine ((hin ?_).trans (hin ?_)).trans (hin ?_)
  · rw [length_u32ToLe]
    exact hslot.trans hentry
  · rw [length_u32ToLe]
    exact hslot.trans hlen
  · rw [length_u16ToLe]
    exact hidx

/-- The entry that a push lays in the used ring, and the index behind it. -/
structure UsedEntry (q : VirtioQueue) (m : Ram) (head : UInt16) (len : UInt32) : Prop where
  id : m.u32 (q.usedAddr + q.usedOffset q.lastUsedIdx) = head.toUInt32
  len : m.u32 (q.usedAddr + q.usedOffset q.lastUsedIdx + 4) = len
  idx : m.u16 (q.usedAddr + 2) = q.lastUsedIdx + 1

theorem RingsHeld.usedEntry (h : q.RingsHeld m) (head : UInt16) (len : UInt32) :
    q.UsedEntry (q.pushedTo m head len) head len := by
  obtain ⟨hslot, hentry, hlen, hidx, hapart, hapart'⟩ := h.used_covers
  have hland {addr : UInt64} {n : Nat} (hn : 0 < n) (hin : Covers q.usedAddr q.usedBytes addr n) :=
    h.used.lands addr n hn hin
  have hland1 := (Ram.storeIn_geometry (q.usedAddr + q.usedOffset q.lastUsedIdx) (u32ToLe head.toUInt32) m.regions).landsIn_eq
  have hland2 := (Ram.storeIn_geometry (q.usedAddr + q.usedOffset q.lastUsedIdx + 4) (u32ToLe len)
    (m.store (q.usedAddr + q.usedOffset q.lastUsedIdx) (u32ToLe head.toUInt32)).regions).landsIn_eq
  unfold pushedTo
  refine ⟨?_, ?_, ?_⟩
  · rw [Ram.u32_store_of_disjoint (by rw [length_u16ToLe]; exact hapart.of_covers hentry),
      Ram.u32_store_of_disjoint (by rw [length_u32ToLe]; exact hapart'.symm)]
    exact Ram.u32_store_self (hland (by decide) (hslot.trans hentry))
  · rw [Ram.u32_store_of_disjoint (by rw [length_u16ToLe]; exact hapart.of_covers hlen)]
    refine Ram.u32_store_self ?_
    exact (congrFun (congrFun hland1 _) _).trans (hland (by decide) (hslot.trans hlen))
  · refine Ram.u16_store_self ?_
    exact (congrFun (congrFun (hland2.trans hland1) _) _).trans (hland (by decide) hidx)

/-! ### Popping -/

def headAt (q : VirtioQueue) (m : Ram) (idx : UInt16) : UInt16 := m.u16 (q.availAddr + q.availOffset idx)

def pending (q : VirtioQueue) (m : Ram) : Nat := (m.u16 (q.availAddr + 2) - q.lastAvailIdx).toNat

def published (q : VirtioQueue) (m : Ram) : List UInt16 :=
  (List.range (q.pending m)).map fun i => q.headAt m (q.lastAvailIdx + UInt16.ofNat i)

theorem length_published : (q.published m).length = q.pending m := by
  rw [published, List.length_map, List.length_range]

theorem pending_eq_zero_iff : q.pending m = 0 ↔ q.lastAvailIdx = m.u16 (q.availAddr + 2) := by
  have hlt := (m.u16 (q.availAddr + 2)).toNat_lt
  have hlt' := q.lastAvailIdx.toNat_lt
  rw [pending, UInt16.toNat_sub, ← UInt16.toNat_inj]
  omega

theorem published_cons (h : q.lastAvailIdx ≠ m.u16 (q.availAddr + 2)) : q.published m = q.headAt m q.lastAvailIdx ::
      published { q with lastAvailIdx := q.lastAvailIdx + 1 } m := by
  have hpos : q.pending m ≠ 0 := fun hzero => h (pending_eq_zero_iff.mp hzero)
  have hrest : pending { q with lastAvailIdx := q.lastAvailIdx + 1 } m + 1 = q.pending m := by
    have hlt' := q.lastAvailIdx.toNat_lt
    have hnext : (q.lastAvailIdx + 1).toNat = (q.lastAvailIdx.toNat + 1) % 2 ^ 16 := UInt16.toNat_add _ _
    simp only [pending, UInt16.toNat_sub, hnext] at hpos ⊢
    omega
  unfold published
  rw [← hrest, List.range_succ_eq_map, List.map_cons, List.map_map]
  refine congrArg₂ List.cons (by simp) (List.map_congr_left fun i _ => ?_)
  simp only [Function.comp_apply, Nat.succ_eq_add_one, UInt16.ofNat_add]
  refine congrArg (q.headAt m) ?_
  rw [UInt16.add_assoc, UInt16.add_comm 1]
  rfl

theorem RingsHeld.popAvail_eq (h : q.RingsHeld m) : q.popAvail m = .ok (match q.published m with
      | [] => (none, q)
      | head :: _ => (some head, { q with lastAvailIdx := q.lastAvailIdx + 1 })) := by
  have hslot : q.lastAvailIdx.toNat % q.size.toNat < q.size.toNat := Nat.mod_lt _ (size_pos h.size_ne)
  have hfits := h.avail.fits
  have hoff := q.toNat_availOffset q.lastAvailIdx
  unfold availBytes at hfits
  have hidx : q.availAddr.toNat + (2 : UInt64).toNat < 2 ^ 64 := by
    rw [show (2 : UInt64).toNat = 2 from rfl]
    omega
  have hentry : q.availAddr.toNat + (q.availOffset q.lastAvailIdx).toNat < 2 ^ 64 := by omega
  rw [popAvail, if_neg h.size_ne, addU64_of_lt hidx, addU64_of_lt hentry]
  by_cases hnew : q.lastAvailIdx = m.u16 (q.availAddr + 2)
  · rw [List.eq_nil_of_length_eq_zero (length_published.trans (pending_eq_zero_iff.mpr hnew))]
    exact if_pos hnew
  · rw [published_cons hnew]
    exact if_neg hnew

theorem RingsHeld.popSafe (h : q.RingsHeld m) : q.PopSafe m := by
  rcases q.popAvail_cases m with ⟨hidle, _⟩ | ⟨_, hsafe, _⟩ | ⟨_, hpop⟩
  · exact Or.inl hidle
  · exact hsafe
  · rw [h.popAvail_eq] at hpop
    cases hpop

theorem RingsHeld.caughtUp_iff (h : q.RingsHeld m) : q.CaughtUp m ↔ q.published m = [] := by
  have hfits := h.avail.fits
  unfold availBytes at hfits
  rw [← List.length_eq_zero_iff, length_published, pending_eq_zero_iff, CaughtUp, or_iff_right h.size_ne,
    and_iff_right (by omega)]

theorem published_of_agree (h : q.RingsHeld m) (hagree : Ram.Agree q.availAddr q.availBytes m m') :
    q.published m' = q.published m := by
  have hfits := h.avail.fits
  have hpos := size_pos h.size_ne
  unfold availBytes at hfits
  have hidx : m'.u16 (q.availAddr + 2) = m.u16 (q.availAddr + 2) :=
    hagree.u16 (Covers.offset (o := 2) h.avail.fits (by decide) (by unfold availBytes; omega))
  have hhead (idx : UInt16) : q.headAt m' idx = q.headAt m idx := by
    refine hagree.u16 ?_
    have hslot : idx.toNat % q.size.toNat < q.size.toNat := Nat.mod_lt _ hpos
    have hoff := q.toNat_availOffset idx
    have hat := toNat_add_of_lt (show q.availAddr.toNat + (q.availOffset idx).toNat < 2 ^ 64 by omega)
    unfold Covers availBytes
    omega
  simp only [published, pending, hidx, hhead]

end VirtioQueue

/-! ### Runs -/

section Runs

variable {D : Type} {c t t' : Ctx D Ram}

theorem popAvail_nil (h : c.queue.RingsHeld c.mem) (hnone : c.queue.published c.mem = []) :
    (Serve.popAvail : Serve D Ram (Option UInt16)) c = .ok none c := by
  have hpop := h.popAvail_eq
  rw [hnone] at hpop
  refine act_eq_ok.mpr (Exec.bind_eq_ok.mpr ⟨_, hpop, ?_⟩)
  simp

theorem popAvail_cons (h : c.queue.RingsHeld c.mem) {head : UInt16} {heads : List UInt16}
    (hsome : c.queue.published c.mem = head :: heads) :
    (Serve.popAvail : Serve D Ram (Option UInt16)) c = .ok (some head) (c.pop c.dev head) := by
  have hpop := h.popAvail_eq
  rw [hsome] at hpop
  exact act_eq_ok.mpr (Exec.bind_eq_ok.mpr ⟨_, hpop, rfl⟩)

theorem published_of_pop (h : c.queue.RingsHeld c.mem) {head : UInt16}
    (hpop : (Serve.popAvail : Serve D Ram (Option UInt16)) c = .ok (some head) t) :
    t = c.pop c.dev head ∧ t.queue.RingsHeld t.mem ∧ c.queue.published c.mem = head :: t.queue.published t.mem := by
  cases hnext : c.queue.published c.mem with
  | nil =>
    rw [popAvail_nil h hnext] at hpop
    cases hpop
  | cons first heads =>
    rw [popAvail_cons h hnext] at hpop
    cases hpop
    refine ⟨rfl, h.moved (c.queue.lastAvailIdx + 1) c.queue.lastUsedIdx, ?_⟩
    rw [← hnext]
    have hne : c.queue.lastAvailIdx ≠ c.mem.u16 (c.queue.availAddr + 2) := by
      intro heq
      have hzero := VirtioQueue.pending_eq_zero_iff.mpr heq
      rw [← VirtioQueue.length_published, hnext] at hzero
      cases hzero
    have hcons := VirtioQueue.published_cons hne
    rw [hcons, (List.cons.inj (hnext.symm.trans hcons)).1]
    rfl

variable {serve : Nat → UInt16 → Serve D Ram Bool} {batch : Option Nat}

/-- Serving a chain that the loop comes to writes nothing in the available ring. -/
def LeavesAvail (serve : Nat → UInt16 → Serve D Ram Bool) (batch : Option Nat) (c : Ctx D Ram) : Prop :=
  ∀ fuel head t worked t', (QueueLoop.ofPops serve batch).Reaches c head t → t.queue.RingsHeld t.mem →
    serve fuel head t = .ok worked t' →
    ∃ ranges, Ram.Frame ranges t.mem t'.mem ∧ ∀ r ∈ ranges, Apart r.1 r.2 t.queue.availAddr t.queue.availBytes

theorem published_of_serves (hl : (ofPops serve batch).Lawful) (hc : c.queue.RingsHeld c.mem)
    (hleaves : LeavesAvail serve batch c) {fuel : Nat} {jobs : List (UInt16 × Bool)}
    (h : (ofPops serve batch).Serves fuel c jobs t) (hwithin : (ofPops serve batch).Within jobs.length) :
    t.queue.RingsHeld t.mem ∧ c.queue.published c.mem = jobs.map Prod.fst ++ t.queue.published t.mem := by
  induction jobs using List.reverseRecOn generalizing t with
  | nil =>
    cases h
    exact ⟨hc, rfl⟩
  | append_singleton jobs job ih =>
    obtain ⟨head, worked⟩ := job
    obtain ⟨t0, t1, t2, hbefore, hpop, hserve, hrest⟩ := h.split
    cases hrest
    rw [List.length_append, List.length_singleton] at hwithin
    have hfewer : (ofPops serve batch).Within jobs.length := fun b hb => Nat.le_of_succ_le (hwithin b hb)
    obtain ⟨hheld, hpublished⟩ := ih hbefore hfewer
    obtain ⟨rfl, hheld1, hhead⟩ := published_of_pop hheld hpop
    obtain ⟨ranges, hframe, happart⟩ :=
      hleaves fuel head _ worked t ⟨fuel, jobs, t0, hbefore, hwithin, hpop⟩ hheld1 hserve
    have hqueue := (ring_eq_iff.mp (hl.retires fuel head _ worked t hheld1.size_ne hserve)).1
    refine ⟨hqueue ▸ (hheld1.frame hframe).moved _ _, ?_⟩
    rw [hpublished, hhead, List.map_append, List.append_assoc, List.map_singleton, List.singleton_append,
      ← VirtioQueue.published_of_agree hheld1 (hframe.agree happart), hqueue]
    rfl

/-- From a state on its way with `n` heads still published, a run whose chains are all served comes to a
state in which there is none. -/
theorem caughtUp_of_serves (hl : (ofPops serve none).Lawful) (hc : c.queue.RingsHeld c.mem)
    (hleaves : LeavesAvail serve none c)
    (hserve : ∀ head t, (ofPops serve none).Reaches c head t → ∃ fuel, Returns (serve fuel head) t)
    {n fuel : Nat} {jobs : List (UInt16 × Bool)} (h : (ofPops serve none).Serves fuel c jobs t)
    (hn : (t.queue.published t.mem).length = n) : ∃ t, (ofPops serve none).Polls c t ∧ t.queue.CaughtUp t.mem := by
  have hroom (k : Nat) : (ofPops serve none).Within k := nofun
  induction n generalizing fuel jobs t with
  | zero =>
    obtain ⟨hheld, _⟩ := published_of_serves hl hc hleaves h (hroom _)
    exact ⟨t, ⟨fuel, jobs, h, hroom _⟩, hheld.caughtUp_iff.mpr (List.eq_nil_of_length_eq_zero hn)⟩
  | succ n ih =>
    obtain ⟨hheld, hpublished⟩ := published_of_serves hl hc hleaves h (hroom _)
    obtain ⟨head, heads, hsome⟩ := List.exists_cons_of_length_eq_add_one hn
    have hpop := popAvail_cons hheld hsome
    obtain ⟨fuel', worked, t', hreturns⟩ := hserve head _ ⟨fuel, jobs, t, h, hroom _, hpop⟩
    have hmore := (hl.mono head fuel' (max fuel fuel') _ (Nat.le_max_right _ _) (by simp [hreturns])).trans hreturns
    have hlonger := (QueueLoop.Serves.mono hl.mono (Nat.le_max_left fuel fuel') h).snoc hpop hmore
    refine ih hlonger ?_
    have hrest := (published_of_serves hl hc hleaves hlonger (hroom _)).2
    rw [hpublished, List.map_append, List.append_assoc, List.append_cancel_left_eq] at hrest
    have hlength := congrArg List.length hrest
    rw [List.length_append, List.length_map, List.length_singleton] at hlength
    omega

theorem popsSafely_iff (hl : (ofPops serve none).Lawful) (hc : c.queue.RingsHeld c.mem)
    (hleaves : LeavesAvail serve none c) {safe : UInt16 → Ctx D Ram → Prop}
    (hsafe : ∀ head t, (ofPops serve none).Reaches c head t → (safe head t ↔ ∃ fuel, Returns (serve fuel head) t)) :
    (∃ fuel, Returns ((ofPops serve none).run fuel) c) ↔
      ∀ head t, (ofPops serve none).Reaches c head t → safe head t := by
  refine (returns_iff hl.mono (fun _ => popAvail_idle_iff) (fun _ => returns_popAvail_iff) hsafe).trans ?_
  refine ⟨fun h => h.serves, fun hall => ⟨fun _ => ?_, ?_, hall⟩⟩
  · have hnone : (ofPops serve none).Serves 0 c [] c := .nil c
    exact caughtUp_of_serves hl hc hleaves (fun head t ht => (hsafe head t ht).mp (hall head t ht)) hnone rfl
  · rintro t ⟨fuel, jobs, hserves, _⟩
    exact (published_of_serves hl hc hleaves hserves nofun).1.popSafe

section

variable (hl : (ofPops serve batch).Lawful) (hc : c.queue.RingsHeld c.mem) (hleaves : LeavesAvail serve batch c)
include hl hc hleaves

theorem held_of_reaches {head : UInt16} (h : (ofPops serve batch).Reaches c head t) : t.queue.RingsHeld t.mem := by
  obtain ⟨fuel, jobs, t0, hserves, hroom, hpop⟩ := h
  have hheld := (published_of_serves hl hc hleaves hserves fun b hb => Nat.le_of_succ_le (hroom b hb)).1
  exact (published_of_pop hheld hpop).2.1

theorem heads_of_run {fuel : Nat} {worked : Bool} (h : (ofPops serve batch).run fuel c = .ok worked t) :
    ∃ heads rest, c.queue.published c.mem = heads ++ rest ∧ Served heads c t ∧
      (rest = [] ∨ batch = some heads.length) := by
  obtain ⟨jobs, u, hserves, _, hwithin, hend⟩ := run_eq_ok h
  obtain ⟨hheld, hpublished⟩ := published_of_serves hl hc hleaves hserves hwithin
  have hserved := served_of_drained hl.pops (hl.retires fuel) hserves
  refine ⟨jobs.map Prod.fst, u.queue.published u.mem, hpublished, ?_, ?_⟩
  · rcases hend with hidle | ⟨_, rfl⟩
    · exact hserved.trans_ring (hl.pops.ring_none hidle)
    · exact hserved
  · rcases hend with hidle | ⟨hbatch, _⟩
    · exact Or.inl (hheld.caughtUp_iff.mp (popAvail_idle_iff.mpr ⟨t, hidle⟩))
    · exact Or.inr (by simpa using hbatch)

end

end Runs

end FerrumVM
