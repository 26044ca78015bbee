import Mathlib.Data.List.Induction
import Mathlib.Data.List.Pairwise
import FerrumVM.BaseMemory
import FerrumVM.BaseSystem

/-! The firmware's heap, `mem/heap.c`: every block starts with a header of two words, the link of the free
list and the size of the block; freed blocks are put at the front of the list, and a request takes the first
block of the list that is large enough, or else the front of the memory never handed out. The list lives in
the blocks themselves, so everything it promises rests on who writes where. -/

namespace FerrumVM

open Base

variable {size : UInt64} {b : Block}

/-- The heap's variables and the memory its headers are in; a null pointer is zero. -/
structure Heap where
  mem : Memory
  freeList : UInt64
  heapPtr : UInt64
  heapEnd : UInt64
  initilized : Bool

namespace Heap

def initHeap (pStart pEnd : UInt64) (s : Heap) : Heap :=
  { s with freeList := 0, heapPtr := pStart, heapEnd := pEnd, initilized := true }

def free (ptr : UInt64) (s : Heap) : Heap :=
  if ptr = 0 ∨ ¬s.initilized then s
  else
    let h := ptr - 16
    { s with mem := s.mem.store h (u64ToLe s.freeList), freeList := h }

/-- The size of the block for a request: with the header, rounded up to whole words. -/
def needed (size : UInt64) : UInt64 := (16 + size + 7) &&& ~~~7

/-- `*prev`: the variable `free_list`, or the link in a header. -/
def linkAt (s : Heap) : Option UInt64 → UInt64
  | none => s.freeList
  | some h => s.mem.u64 h

/-- `*prev = link`. -/
def setLink (s : Heap) (link : UInt64) : Option UInt64 → Heap
  | none => { s with freeList := link }
  | some h => { s with mem := s.mem.store h (u64ToLe link) }

@[simp] theorem heapPtr_setLink (s : Heap) (link : UInt64) (prev : Option UInt64) :
    (s.setLink link prev).heapPtr = s.heapPtr := by
  cases prev <;> rfl

/-- The search of the free list: where the link to the first large enough block is, and the block. `none` when
the fuel runs out. -/
def search (s : Heap) (needed : UInt64) : Nat → Option UInt64 → Option (Option (Option UInt64 × UInt64))
  | 0, _ => none
  | fuel + 1, prev =>
    let h := s.linkAt prev
    if h = 0 then some none
    else if needed ≤ s.mem.u64 (h + 8) then some (some (prev, h))
    else search s needed fuel (some h)

def malloc (fuel : Nat) (size : UInt64) (s : Heap) : Exec (UInt64 × Heap) :=
  if ¬s.initilized then .ok (0, s)
  else
    match s.search (needed size) fuel none with
    | none => .error .outOfFuel
    | some (some (prev, h)) => .ok (h + 16, s.setLink (s.mem.u64 h) prev)
    | some none =>
      if s.heapEnd < s.heapPtr + needed size then .ok (0, s)
      else
        .ok (s.heapPtr + 16,
          { s with mem := s.mem.store (s.heapPtr + 8) (u64ToLe (needed size)), heapPtr := s.heapPtr + needed size })

end Heap

/-! ### Runs -/

structure Block where
  addr : UInt64
  size : UInt64
  deriving DecidableEq, Repr

namespace Block

def stop (b : Block) : Nat := b.addr.toNat + b.size.toNat

def Apart (b c : Block) : Prop := b.stop ≤ c.addr.toNat ∨ c.stop ≤ b.addr.toNat

theorem Apart.symm {c : Block} (h : b.Apart c) : c.Apart b := Or.symm h

instance : Std.Symm Apart := ⟨fun _ _ => Apart.symm⟩

end Block

structure LiveBlock extends Block where
  requested : UInt64
  deriving DecidableEq, Repr

inductive HeapEvent where
  | malloc (size : UInt64)
  | free (ptr : UInt64)
  | store (addr : UInt64) (data : Bytes)

structure HeapRun where
  heap : Heap
  live : List LiveBlock

namespace HeapRun

/-- What the events do. A block that is returned is recorded as its header gives it. -/
inductive Next : HeapRun → HeapEvent → HeapRun → Prop
  | mallocNull {r : HeapRun} {size : UInt64} {fuel : Nat} {heap : Heap} (h : r.heap.malloc fuel size = .ok (0, heap)) :
      Next r (.malloc size) ⟨heap, r.live⟩
  | malloc {r : HeapRun} {size ptr : UInt64} {fuel : Nat} {heap : Heap} (hptr : ptr ≠ 0)
      (h : r.heap.malloc fuel size = .ok (ptr, heap)) :
      Next r (.malloc size) ⟨heap, r.live ++ [⟨⟨ptr - 16, heap.mem.u64 (ptr - 8)⟩, size⟩]⟩
  | free {r : HeapRun} {ptr : UInt64} :
      Next r (.free ptr) ⟨r.heap.free ptr, r.live.eraseP fun b => b.addr + 16 == ptr⟩
  | store {r : HeapRun} {addr : UInt64} {data : Bytes} :
      Next r (.store addr data) ⟨{ r.heap with mem := r.heap.mem.store addr data }, r.live⟩

/-- What callers may do: request sizes for which the arithmetic does not overflow, free what is allocated, and
write to the usable bytes of what is allocated. -/
def Permitted (r : HeapRun) : HeapEvent → Prop
  | .malloc size => size.toNat + 23 < 2 ^ 64 ∧ r.heap.heapPtr.toNat + (Heap.needed size).toNat < 2 ^ 64
  | .free ptr => ∃ b ∈ r.live, b.addr + 16 = ptr
  | .store addr data => ∃ b ∈ r.live, b.addr.toNat + 16 ≤ addr.toNat ∧ addr.toNat + data.length ≤ b.stop

end HeapRun

def heapSystem (pStart pEnd : UInt64) : System HeapRun HeapEvent where
  init r := (∃ s, r.heap = Heap.initHeap pStart pEnd s) ∧ r.live = []
  step := HeapRun.Next

/-! ### The free list -/

/-- The list that starts with this link goes through these blocks and ends. -/
def Linked (m : Memory) : UInt64 → List Block → Prop
  | link, [] => link = 0
  | link, b :: bs => link ≠ 0 ∧ link = b.addr ∧ Linked m (m.u64 b.addr) bs

namespace Linked

variable {m m' : Memory} {link link' : UInt64} {b p : Block} {bs front post post' : List Block}

theorem congr (h : Linked m link bs) (hsame : ∀ b ∈ bs, m'.u64 b.addr = m.u64 b.addr) : Linked m' link bs := by
  induction bs generalizing link with
  | nil => exact h
  | cons b bs ih =>
    refine ⟨h.1, h.2.1, ?_⟩
    rw [hsame b List.mem_cons_self]
    exact ih h.2.2 fun c hc => hsame c (List.mem_cons_of_mem _ hc)

theorem after (h : Linked m link (front ++ b :: post)) : Linked m (m.u64 b.addr) post := by
  induction front generalizing link with
  | nil => exact h.2.2
  | cons c front ih => exact ih h.2.2

theorem relink (h : Linked m link (front ++ p :: post)) (hfront : ∀ c ∈ front, m'.u64 c.addr = m.u64 c.addr)
    (hpost : Linked m' (m'.u64 p.addr) post') : Linked m' link (front ++ p :: post') := by
  induction front generalizing link with
  | nil => exact ⟨h.1, h.2.1, hpost⟩
  | cons c front ih =>
    refine ⟨h.1, h.2.1, ?_⟩
    rw [hfront c List.mem_cons_self]
    exact ih h.2.2 fun d hd => hfront d (List.mem_cons_of_mem _ hd)

theorem ne_zero (h : Linked m link (front ++ b :: post)) : b.addr ≠ 0 := by
  induction front generalizing link with
  | nil => exact h.2.1 ▸ h.1
  | cons c front ih => exact ih h.2.2

theorem length_eq {bs' : List Block} (h : Linked m link bs) (h' : Linked m link bs') : bs.length = bs'.length := by
  induction bs generalizing link bs' with
  | nil =>
    cases bs' with
    | nil => rfl
    | cons b bs' => exact absurd h h'.1
  | cons b bs ih =>
    cases bs' with
    | nil => exact absurd h' h.1
    | cons b' bs' =>
      have haddr : b.addr = b'.addr := h.2.1.symm.trans h'.2.1
      have hrest := h'.2.2
      rw [← haddr] at hrest
      rw [List.length_cons, List.length_cons, ih h.2.2 hrest]

section

variable (h : Linked m link (front ++ b :: post)) (hfront : ∀ c ∈ front, m'.u64 c.addr = m.u64 c.addr)
include h hfront

theorem suffix (h' : Linked m' link bs) : ∃ bs', Linked m' b.addr bs' ∧ bs'.length ≤ bs.length := by
  induction front generalizing link bs with
  | nil =>
    obtain ⟨-, rfl, -⟩ := h
    exact ⟨bs, h', Nat.le_refl _⟩
  | cons c front ih =>
    obtain ⟨hne, rfl, hrest⟩ := h
    cases bs with
    | nil => exact absurd h' hne
    | cons c' bs =>
      have hlink := h'.2.2
      rw [← h'.2.1, hfront c List.mem_cons_self] at hlink
      obtain ⟨bs', hbs', hle⟩ := ih hrest (fun d hd => hfront d (List.mem_cons_of_mem _ hd)) hlink
      exact ⟨bs', hbs', hle.trans (Nat.le_succ _)⟩

theorem no_circle (hlink : m'.u64 b.addr = link) (h' : Linked m' b.addr bs) : False := by
  cases bs with
  | nil => exact h.ne_zero h'
  | cons c bs =>
    have hrest := h'.2.2
    rw [← h'.2.1, hlink] at hrest
    obtain ⟨bs', hbs', hle⟩ := h.suffix hfront hrest
    have hlength := length_eq h' hbs'
    rw [List.length_cons] at hlength
    omega

end

end Linked

namespace Heap

/-- Where the link to the block behind `front` is, in a list whose first link is at `prev`. -/
def linkBehind (prev : Option UInt64) (front : List Block) : Option UInt64 :=
  match front.getLast? with
  | none => prev
  | some p => some p.addr

theorem linkBehind_cons (prev : Option UInt64) (b : Block) (front : List Block) :
    linkBehind prev (b :: front) = linkBehind (some b.addr) front := by
  unfold linkBehind
  rw [List.getLast?_cons]
  cases front.getLast? with
  | none => rfl
  | some p => rfl

theorem search_eq_some {s : Heap} {bs : List Block} {prev : Option UInt64} {fuel : Nat}
    {found : Option (Option UInt64 × UInt64)} (hlinked : Linked s.mem (s.linkAt prev) bs)
    (h : s.search size fuel prev = some found) : (found = none ∧ ∀ b ∈ bs, s.mem.u64 (b.addr + 8) < size) ∨
      ∃ front b post, bs = front ++ b :: post ∧ found = some (linkBehind prev front, b.addr) ∧
        size ≤ s.mem.u64 (b.addr + 8) := by
  induction bs generalizing prev fuel with
  | nil =>
    cases fuel with
    | zero => cases h
    | succ fuel =>
      rw [search, if_pos (show s.linkAt prev = 0 from hlinked)] at h
      exact .inl ⟨(Option.some.inj h).symm, nofun⟩
  | cons b bs ih =>
    cases fuel with
    | zero => cases h
    | succ fuel =>
      obtain ⟨hne, haddr, hrest⟩ := hlinked
      have hrest' : Linked s.mem (s.linkAt (some b.addr)) bs := hrest
      rw [search, if_neg hne, haddr] at h
      split_ifs at h with hsize
      · exact .inr ⟨[], b, bs, rfl, (Option.some.inj h).symm, hsize⟩
      · obtain ⟨hnone, hsmall⟩ | ⟨front, c, post, hbs, hfound, hlarge⟩ := ih hrest' h
        · exact .inl ⟨hnone, List.forall_mem_cons.mpr ⟨UInt64.not_le.mp hsize, hsmall⟩⟩
        · refine .inr ⟨b :: front, c, post, by rw [hbs]; rfl, ?_, hlarge⟩
          rw [hfound, linkBehind_cons]

/-- What a request is answered: the first block of the free list that is large enough, nothing, or the front of the
memory never handed out. -/
inductive Answer (s : Heap) (free : List Block) (size : UInt64) : UInt64 → Heap → Prop
  | taken {front post : List Block} {b : Block} (hfree : free = front ++ b :: post) (hlarge : needed size ≤ b.size) :
      Answer s free size (b.addr + 16) (s.setLink (s.mem.u64 b.addr) (linkBehind none front))
  | refused (hsmall : ∀ b ∈ free, b.size < needed size) (hroom : s.heapEnd < s.heapPtr + needed size) :
      Answer s free size 0 s
  | cut (hsmall : ∀ b ∈ free, b.size < needed size) (hroom : ¬s.heapEnd < s.heapPtr + needed size) :
      Answer s free size (s.heapPtr + 16)
        { s with mem := s.mem.store (s.heapPtr + 8) (u64ToLe (needed size)), heapPtr := s.heapPtr + needed size }

theorem search_isSome {s : Heap} (size : UInt64) {bs : List Block} {prev : Option UInt64} {fuel : Nat}
    (hlinked : Linked s.mem (s.linkAt prev) bs) (hfuel : bs.length < fuel) : (s.search size fuel prev).isSome := by
  induction bs generalizing prev fuel with
  | nil =>
    obtain ⟨fuel, rfl⟩ := Nat.exists_eq_succ_of_ne_zero (Nat.ne_of_gt hfuel)
    rw [search, if_pos (show s.linkAt prev = 0 from hlinked)]
    rfl
  | cons b bs ih =>
    obtain ⟨fuel, rfl⟩ := Nat.exists_eq_succ_of_ne_zero (Nat.ne_of_gt (Nat.zero_lt_of_lt hfuel))
    obtain ⟨hne, haddr, hrest⟩ := hlinked
    rw [search, if_neg hne, haddr]
    split_ifs
    · rfl
    · exact @ih (some b.addr) _ hrest (by simpa using hfuel)

end Heap

/-! ### The blocks -/

/-- Where blocks may be: aligned, with room for their header, between the start of the heap and both its end and
the memory that was never handed out. -/
structure Block.Within (pStart pEnd heapPtr : UInt64) (b : Block) : Prop where
  start : pStart.toNat ≤ b.addr.toNat
  stop : b.stop ≤ pEnd.toNat
  handedOut : b.stop ≤ heapPtr.toNat
  aligned : b.addr.toNat % 8 = 0
  header : 16 ≤ b.size.toNat

section

variable {pStart pEnd heapPtr : UInt64} (h : b.Within pStart pEnd heapPtr)
include h

theorem Block.Within.toNat_sizeAddr : (b.addr + 8).toNat = b.addr.toNat + 8 := by
  have hstop := h.stop
  have hheader := h.header
  have hend := pEnd.toNat_lt
  unfold Block.stop at hstop
  rw [UInt64.toNat_add]
  simp only [UInt64.reduceToNat]
  omega

theorem Block.Within.toNat_ptr : (b.addr + 16).toNat = b.addr.toNat + 16 := by
  have hstop := h.stop
  have hheader := h.header
  have hend := pEnd.toNat_lt
  unfold Block.stop at hstop
  rw [UInt64.toNat_add]
  simp only [UInt64.reduceToNat]
  omega

theorem Block.Within.ptr_ne_zero : b.addr + 16 ≠ 0 := fun hzero => by
  have hptr := h.toNat_ptr
  rw [hzero] at hptr
  simp at hptr

end

/-- The blocks of a heap, allocated or free: they lie apart, and their headers hold their sizes. -/
structure Blocks (pStart pEnd heapPtr : UInt64) (m : Memory) (bs : List Block) : Prop where
  within : ∀ b ∈ bs, b.Within pStart pEnd heapPtr
  apart : bs.Pairwise Block.Apart
  sizes : ∀ b ∈ bs, m.u64 (b.addr + 8) = b.size

namespace Blocks

variable {pStart pEnd heapPtr : UInt64} {m : Memory} {bs bs' : List Block}

theorem perm (h : Blocks pStart pEnd heapPtr m bs) (hperm : bs.Perm bs') : Blocks pStart pEnd heapPtr m bs' where
  within b hb := h.within b (hperm.mem_iff.mpr hb)
  apart := (hperm.pairwise_iff Block.Apart.symm).mp h.apart
  sizes b hb := h.sizes b (hperm.mem_iff.mpr hb)

theorem sublist (h : Blocks pStart pEnd heapPtr m bs) (hsub : bs'.Sublist bs) : Blocks pStart pEnd heapPtr m bs' where
  within b hb := h.within b (hsub.subset hb)
  apart := h.apart.sublist hsub
  sizes b hb := h.sizes b (hsub.subset hb)

theorem u64_store (hb : b.Within pStart pEnd heapPtr) {offset : UInt64} (hoffset : offset = 0 ∨ offset = 8)
    {addr : UInt64} {data : Bytes} (hfits : addr.toNat + data.length ≤ 2 ^ 64)
    (hmiss : addr.toNat + data.length ≤ b.addr.toNat + offset.toNat ∨ b.addr.toNat + offset.toNat + 8 ≤ addr.toNat) :
    (m.store addr data).u64 (b.addr + offset) = m.u64 (b.addr + offset) := by
  have hstop := hb.stop
  have hheader := hb.header
  have hend := pEnd.toNat_lt
  unfold Block.stop at hstop
  have hword : (b.addr + offset).toNat = b.addr.toNat + offset.toNat := by
    obtain rfl | rfl := hoffset
    · simp
    · exact hb.toNat_sizeAddr
  have hin : offset.toNat ≤ 8 := by
    obtain rfl | rfl := hoffset <;> decide
  exact Memory.u64_store_of_apart hfits (by omega) (by omega)

section

variable (h : Blocks pStart pEnd heapPtr m bs)
include h

theorem store {addr : UInt64} {data : Bytes} (hfits : addr.toNat + data.length ≤ 2 ^ 64)
    (hmiss : ∀ b ∈ bs, addr.toNat + data.length ≤ b.addr.toNat + 8 ∨ b.addr.toNat + 16 ≤ addr.toNat) :
    Blocks pStart pEnd heapPtr (m.store addr data) bs where
  within := h.within
  apart := h.apart
  sizes b hb := by
    rw [u64_store (h.within b hb) (.inr rfl) hfits (hmiss b hb)]
    exact h.sizes b hb

theorem eq_or_apart {c : Block} (hb : b ∈ bs) (hc : c ∈ bs) : c = b ∨ b.Apart c := by
  by_cases heq : c = b
  · exact .inl heq
  · exact .inr (h.apart.forall hb hc (Ne.symm heq))

theorem store_link {p : Block} (hp : p ∈ bs) (link : UInt64) :
    Blocks pStart pEnd heapPtr (m.store p.addr (u64ToLe link)) bs ∧
      ∀ c ∈ bs, p.Apart c → (m.store p.addr (u64ToLe link)).u64 c.addr = m.u64 c.addr := by
  have hwithin := h.within p hp
  have hstop := hwithin.stop
  have hheader := hwithin.header
  have hend := pEnd.toNat_lt
  unfold Block.stop at hstop
  have hfits : p.addr.toNat + (u64ToLe link).length ≤ 2 ^ 64 := by
    rw [length_u64ToLe]
    omega
  refine ⟨h.store hfits fun c hc => ?_, fun c hc hapart => ?_⟩
  · rw [length_u64ToLe]
    have hcheader := (h.within c hc).header
    obtain rfl | hapart := h.eq_or_apart hp hc
    · exact .inl (by omega)
    · unfold Block.Apart Block.stop at hapart
      omega
  · have hcheader := (h.within c hc).header
    have hword := u64_store (m := m) (h.within c hc) (.inl rfl) hfits (by
      rw [length_u64ToLe]
      unfold Block.Apart Block.stop at hapart
      simp only [UInt64.reduceToNat]
      omega)
    rwa [UInt64.add_zero] at hword

end

end Blocks

structure HeapInv (pStart pEnd : UInt64) (r : HeapRun) (free : List Block) : Prop where
  initilized : r.heap.initilized = true
  heapEnd : r.heap.heapEnd = pEnd
  start : pStart.toNat ≤ r.heap.heapPtr.toNat
  aligned : r.heap.heapPtr.toNat % 8 = 0
  linked : Linked r.heap.mem r.heap.freeList free
  blocks : Blocks pStart pEnd r.heap.heapPtr r.heap.mem (r.live.map LiveBlock.toBlock ++ free)
  usable : ∀ b ∈ r.live, b.requested.toNat + 16 ≤ b.size.toNat

namespace HeapInv

variable {pStart pEnd : UInt64} {r : HeapRun} {free : List Block}

theorem toNat_needed (h : size.toNat + 23 < 2 ^ 64) : (Heap.needed size).toNat = (size.toNat + 23) / 8 * 8 := by
  have hround : ((16 + size + 7) &&& ~~~7).toNat = (16 + size + 7).toNat / 2 ^ 3 * 2 ^ 3 :=
    @toNat_and_not_mask (16 + size + 7) 3 (by omega)
  have hsum : (16 + size + 7).toNat = size.toNat + 23 := by
    rw [UInt64.toNat_add, UInt64.toNat_add]
    simp only [UInt64.reduceToNat]
    omega
  rw [Heap.needed, hround, hsum]
  rfl

theorem take {front post : List Block} (h : HeapInv pStart pEnd r (front ++ b :: post))
    (hsize : size.toNat + 23 < 2 ^ 64) (hlarge : Heap.needed size ≤ b.size) : HeapInv pStart pEnd
      ⟨r.heap.setLink (r.heap.mem.u64 b.addr) (Heap.linkBehind none front), r.live ++ [⟨b, size⟩]⟩ (front ++ post) := by
  have hperm : (r.live.map LiveBlock.toBlock ++ (front ++ b :: post)).Perm
      ((r.live ++ [(⟨b, size⟩ : LiveBlock)]).map LiveBlock.toBlock ++ (front ++ post)) := by
    rw [List.map_append, List.append_assoc]
    exact List.perm_middle.append_left _
  have husable : ∀ c ∈ r.live ++ [(⟨b, size⟩ : LiveBlock)], c.requested.toNat + 16 ≤ c.size.toNat := by
    intro c hc
    obtain hc | hc := List.mem_append.mp hc
    · exact h.usable c hc
    · rw [List.mem_singleton.mp hc]
      have hle := UInt64.le_iff_toNat_le.mp hlarge
      rw [toNat_needed hsize] at hle
      dsimp only
      omega
  induction front using List.reverseRecOn with
  | nil =>
    obtain ⟨-, -, hpost⟩ := h.linked
    have hlink : Heap.linkBehind none [] = none := rfl
    rw [hlink, Heap.setLink]
    exact ⟨h.initilized, h.heapEnd, h.start, h.aligned, hpost, h.blocks.perm hperm, husable⟩
  | append_singleton front p _ =>
    have hlink : Heap.linkBehind none (front ++ [p]) = some p.addr := by
      rw [Heap.linkBehind, List.getLast?_concat]
    have hpmem : p ∈ r.live.map LiveBlock.toBlock ++ (front ++ [p] ++ b :: post) := by simp
    obtain ⟨hblocks, hsame⟩ := h.blocks.store_link hpmem (r.heap.mem.u64 b.addr)
    have hlinked : Linked r.heap.mem r.heap.freeList (front ++ p :: b :: post) := by
      simpa using h.linked
    have hpairwise : (front ++ p :: b :: post).Pairwise Block.Apart := by
      have hfree := (List.pairwise_append.mp h.blocks.apart).2.1
      simpa using hfree
    obtain ⟨-, hbehind, hbefore⟩ := List.pairwise_append.mp hpairwise
    have hpost : Linked (r.heap.mem.store p.addr (u64ToLe (r.heap.mem.u64 b.addr))) (r.heap.mem.u64 b.addr) post := by
      refine Linked.congr (Linked.after h.linked) fun c hc => hsame c (by simp [hc]) ?_
      exact (List.pairwise_cons.mp hbehind).1 c (List.mem_cons_of_mem _ hc)
    rw [hlink, Heap.setLink]
    refine ⟨h.initilized, h.heapEnd, h.start, h.aligned, ?_, hblocks.perm hperm, husable⟩
    rw [List.append_assoc]
    refine hlinked.relink (fun c hc => hsame c (by simp [hc]) (hbefore c hc p List.mem_cons_self).symm) ?_
    dsimp only
    rw [Memory.u64_store_self]
    exact hpost

theorem bump (h : HeapInv pStart pEnd r free) (hsize : size.toNat + 23 < 2 ^ 64)
    (hfits : r.heap.heapPtr.toNat + (Heap.needed size).toNat < 2 ^ 64)
    (hroom : r.heap.heapPtr.toNat + (Heap.needed size).toNat ≤ pEnd.toNat) : HeapInv pStart pEnd ⟨{ r.heap with
          mem := r.heap.mem.store (r.heap.heapPtr + 8) (u64ToLe (Heap.needed size))
          heapPtr := r.heap.heapPtr + Heap.needed size },
        r.live ++ [⟨⟨r.heap.heapPtr, Heap.needed size⟩, size⟩]⟩ free := by
  have hneeded := toNat_needed hsize
  have hptr : (r.heap.heapPtr + 8).toNat = r.heap.heapPtr.toNat + 8 := by
    rw [UInt64.toNat_add]
    simp only [UInt64.reduceToNat]
    omega
  have hptr' : (r.heap.heapPtr + Heap.needed size).toNat = r.heap.heapPtr.toNat + (Heap.needed size).toNat := by
    rw [UInt64.toNat_add, Nat.mod_eq_of_lt hfits]
  have hstore : (r.heap.heapPtr + 8).toNat + (u64ToLe (Heap.needed size)).length ≤ 2 ^ 64 := by
    rw [length_u64ToLe]
    omega
  have hbelow (b : Block) (hb : b ∈ r.live.map LiveBlock.toBlock ++ free) : b.addr.toNat + 16 ≤ r.heap.heapPtr.toNat := by
    have hhanded := (h.blocks.within b hb).handedOut
    have hheader := (h.blocks.within b hb).header
    unfold Block.stop at hhanded
    omega
  have hold := h.blocks.store hstore fun b hb => .inr (by have := hbelow b hb; omega)
  have hnew : Blocks pStart pEnd (r.heap.heapPtr + Heap.needed size)
      (r.heap.mem.store (r.heap.heapPtr + 8) (u64ToLe (Heap.needed size)))
      (⟨r.heap.heapPtr, Heap.needed size⟩ :: (r.live.map LiveBlock.toBlock ++ free)) := by
    refine ⟨?_, List.pairwise_cons.mpr ⟨fun b hb => ?_, hold.apart⟩, ?_⟩
    · rintro b hb
      obtain rfl | hb := List.mem_cons.mp hb
      · have hstart := h.start
        have haligned := h.aligned
        exact ⟨hstart, hroom, by rw [hptr']; exact Nat.le_refl _, haligned, by dsimp only; omega⟩
      · have hwithin := h.blocks.within b hb
        exact ⟨hwithin.start, hwithin.stop, by have := hwithin.handedOut; omega, hwithin.aligned, hwithin.header⟩
    · exact .inr (h.blocks.within b hb).handedOut
    · rintro b hb
      obtain rfl | hb := List.mem_cons.mp hb
      · exact Memory.u64_store_self _ _ _
      · exact hold.sizes b hb
  refine ⟨h.initilized, h.heapEnd, by rw [hptr']; have := h.start; omega,
    by rw [hptr']; have := h.aligned; omega, h.linked.congr fun b hb => ?_, hnew.perm ?_, fun c hc => ?_⟩
  · have hmem : b ∈ r.live.map LiveBlock.toBlock ++ free := List.mem_append_right _ hb
    have hword := Blocks.u64_store (m := r.heap.mem) (h.blocks.within b hmem) (.inl rfl) hstore
      (.inr (by have := hbelow b hmem; simp only [UInt64.reduceToNat]; omega))
    rwa [UInt64.add_zero] at hword
  · rw [List.map_append, List.append_assoc]
    exact List.perm_middle.symm
  · obtain hc | hc := List.mem_append.mp hc
    · exact h.usable c hc
    · rw [List.mem_singleton.mp hc]
      dsimp only
      omega

/-- An allocated block goes to the front of the free list. A block at address zero would make the list end there:
then it is lost, with all that was free. -/
theorem free_block {front back : List LiveBlock} {b : LiveBlock} (h : HeapInv pStart pEnd r free)
    (hlive : r.live = front ++ b :: back) : HeapInv pStart pEnd ⟨r.heap.free (b.addr + 16), front ++ back⟩
      (if b.addr = 0 then [] else b.toBlock :: free) := by
  have hmem : b.toBlock ∈ r.live.map LiveBlock.toBlock ++ free := by simp [hlive]
  have hptrNe : b.addr + 16 ≠ 0 := (h.blocks.within _ hmem).ptr_ne_zero
  have hrun : r.heap.free (b.addr + 16) =
      { r.heap with mem := r.heap.mem.store b.addr (u64ToLe r.heap.freeList), freeList := b.addr } := by
    rw [Heap.free, if_neg (by simp [hptrNe, h.initilized]), UInt64.add_sub_cancel]
  obtain ⟨hblocks, hsame⟩ := h.blocks.store_link hmem r.heap.freeList
  have hperm : (r.live.map LiveBlock.toBlock ++ free).Perm
      ((front ++ back).map LiveBlock.toBlock ++ b.toBlock :: free) := by
    rw [hlive, List.map_append, List.map_append, List.map_cons]
    refine (List.perm_middle.append_right _).trans ?_
    exact List.perm_middle.symm
  have husable : ∀ c ∈ front ++ back, c.requested.toNat + 16 ≤ c.size.toNat := fun c hc =>
    h.usable c (by rw [hlive]; simp only [List.mem_append, List.mem_cons] at hc ⊢; tauto)
  have hall := hblocks.perm hperm
  rw [hrun]
  by_cases hzero : b.addr = 0
  · rw [if_pos hzero]
    refine ⟨h.initilized, h.heapEnd, h.start, h.aligned, hzero, hall.sublist ?_, husable⟩
    rw [List.append_nil]
    exact List.sublist_append_left _ _
  · rw [if_neg hzero]
    refine ⟨h.initilized, h.heapEnd, h.start, h.aligned, ⟨hzero, rfl, ?_⟩, hall, husable⟩
    dsimp only
    rw [Memory.u64_store_self]
    refine h.linked.congr fun c hc => hsame c (List.mem_append_right _ hc) ?_
    exact (List.pairwise_cons.mp (List.pairwise_append.mp hall.apart).2.1).1 c hc

theorem store {b : LiveBlock} (h : HeapInv pStart pEnd r free) (hb : b ∈ r.live) {addr : UInt64} {data : Bytes}
    (hstart : b.addr.toNat + 16 ≤ addr.toNat) (hstop : addr.toNat + data.length ≤ b.stop) :
    HeapInv pStart pEnd ⟨{ r.heap with mem := r.heap.mem.store addr data }, r.live⟩ free := by
  have hmem : b.toBlock ∈ r.live.map LiveBlock.toBlock ++ free :=
    List.mem_append_left _ (List.mem_map_of_mem hb)
  have hbstop := (h.blocks.within _ hmem).stop
  have hend := pEnd.toNat_lt
  have hfits : addr.toNat + data.length ≤ 2 ^ 64 := by omega
  have hmiss (c : Block) (hc : c ∈ r.live.map LiveBlock.toBlock ++ free) :
      addr.toNat + data.length ≤ c.addr.toNat ∨ c.addr.toNat + 16 ≤ addr.toNat := by
    obtain rfl | hapart := h.blocks.eq_or_apart hmem hc
    · exact .inr hstart
    · unfold Block.Apart Block.stop at hapart
      unfold Block.stop at hstop
      omega
  refine ⟨h.initilized, h.heapEnd, h.start, h.aligned, h.linked.congr fun c hc => ?_,
    h.blocks.store hfits fun c hc => ?_, h.usable⟩
  · have hcmem : c ∈ r.live.map LiveBlock.toBlock ++ free := List.mem_append_right _ hc
    have hword := Blocks.u64_store (m := r.heap.mem) (h.blocks.within c hcmem) (.inl rfl) hfits
      (by have := hmiss c hcmem; simp only [UInt64.reduceToNat]; omega)
    rwa [UInt64.add_zero] at hword
  · have := hmiss c hc
    omega

section

variable (h : HeapInv pStart pEnd r free) {ptr : UInt64} {fuel : Nat} {heap : Heap}
include h

theorem malloc_answer (hrun : r.heap.malloc fuel size = .ok (ptr, heap)) : r.heap.Answer free size ptr heap := by
  unfold Heap.malloc at hrun
  rw [if_neg (by simp [h.initilized])] at hrun
  cases hsearch : r.heap.search (Heap.needed size) fuel none with
  | none =>
    rw [hsearch] at hrun
    cases hrun
  | some found =>
    rw [hsearch] at hrun
    have hsizes : ∀ b ∈ free, r.heap.mem.u64 (b.addr + 8) = b.size := fun b hb =>
      h.blocks.sizes b (List.mem_append_right _ hb)
    obtain ⟨rfl, hsmall⟩ | ⟨front, b, post, hfree, rfl, hlarge⟩ := Heap.search_eq_some h.linked hsearch
    · have hsmall : ∀ b ∈ free, b.size < Heap.needed size := fun b hb => hsizes b hb ▸ hsmall b hb
      dsimp only at hrun
      split_ifs at hrun with hroom
      · cases hrun
        exact .refused hsmall hroom
      · cases hrun
        exact .cut hsmall hroom
    · cases hrun
      rw [hsizes b (by simp [hfree])] at hlarge
      exact .taken hfree hlarge

theorem malloc_cases (hpermitted : r.Permitted (.malloc size)) (hrun : r.heap.malloc fuel size = .ok (ptr, heap)) :
    ptr = 0 ∧ heap = r.heap ∨
      ∃ b free', ptr = b.addr + 16 ∧ HeapInv pStart pEnd ⟨heap, r.live ++ [⟨b, size⟩]⟩ free' := by
  obtain ⟨hsize, hfits⟩ := hpermitted
  cases h.malloc_answer hrun with
  | refused => exact .inl ⟨rfl, rfl⟩
  | cut _ hroom =>
    rw [h.heapEnd, UInt64.lt_iff_toNat_lt, UInt64.toNat_add, Nat.mod_eq_of_lt hfits] at hroom
    exact .inr ⟨_, _, rfl, h.bump hsize hfits (Nat.le_of_not_lt hroom)⟩
  | taken hfree hlarge =>
    subst hfree
    exact .inr ⟨_, _, rfl, h.take hsize hlarge⟩

end

theorem next (h : HeapInv pStart pEnd r free) {e : HeapEvent} {r' : HeapRun} (hpermitted : r.Permitted e)
    (hnext : HeapRun.Next r e r') : ∃ free', HeapInv pStart pEnd r' free' := by
  cases hnext with
  | mallocNull hrun =>
    obtain ⟨-, rfl⟩ | ⟨b, free', hptr, hinv⟩ := h.malloc_cases hpermitted hrun
    · exact ⟨free, h⟩
    · exact absurd hptr.symm (hinv.blocks.within b (by simp)).ptr_ne_zero
  | malloc hne hrun =>
    obtain ⟨hzero, -⟩ | ⟨b, free', rfl, hinv⟩ := h.malloc_cases hpermitted hrun
    · exact absurd hzero hne
    · have hword : b.addr + 16 - 8 = b.addr + 8 := by
        rw [show (16 : UInt64) = 8 + 8 from rfl, ← UInt64.add_assoc, UInt64.add_sub_cancel]
      rw [UInt64.add_sub_cancel, hword, hinv.blocks.sizes b (by simp)]
      exact ⟨free', hinv⟩
  | @free ptr =>
    obtain ⟨b, hb, hptr⟩ := hpermitted
    obtain ⟨c, front, back, -, hc, hlive, herase⟩ :=
      List.exists_of_eraseP (p := fun b : LiveBlock => b.addr + 16 == ptr) hb (beq_iff_eq.mpr hptr)
    rw [herase, ← beq_iff_eq.mp hc]
    exact ⟨_, h.free_block hlive⟩
  | store =>
    obtain ⟨b, hb, hstart, hstop⟩ := hpermitted
    exact ⟨free, h.store hb hstart hstop⟩

theorem init {s : Heap} (haligned : pStart.toNat % 8 = 0) : HeapInv pStart pEnd ⟨s.initHeap pStart pEnd, []⟩ [] :=
  ⟨rfl, rfl, Nat.le_refl _, haligned, rfl, ⟨nofun, .nil, nofun⟩, nofun⟩

theorem nodup (h : HeapInv pStart pEnd r free) : (free.map Block.addr).Nodup := by
  have hblocks := h.blocks.sublist (List.sublist_append_right (r.live.map LiveBlock.toBlock) free)
  refine List.pairwise_map.mpr (hblocks.apart.imp_of_mem fun {b c} hb hc hapart heq => ?_)
  have hbheader := (hblocks.within b hb).header
  have hcheader := (hblocks.within c hc).header
  unfold Block.Apart Block.stop at hapart
  rw [heq] at hapart
  omega

theorem malloc_of_fuel (h : HeapInv pStart pEnd r free) (size : UInt64) {fuel : Nat} (hfuel : free.length < fuel) :
    ∃ ptr heap, r.heap.malloc fuel size = .ok (ptr, heap) := by
  have hlinked : Linked r.heap.mem (r.heap.linkAt none) free := h.linked
  obtain ⟨found, hfound⟩ := Option.isSome_iff_exists.mp (Heap.search_isSome (Heap.needed size) hlinked hfuel)
  unfold Heap.malloc
  rw [if_neg (by simp [h.initilized]), hfound]
  cases found with
  | some found => exact ⟨_, _, rfl⟩
  | none =>
    dsimp only
    split_ifs
    · exact ⟨_, _, rfl⟩
    · exact ⟨_, _, rfl⟩

end HeapInv

/-- What the heap promises: the free list is a list of blocks that ends and has no circle; every allocated block
lies in the heap, is aligned and has the bytes that were asked for; all blocks, allocated or free, and the memory
never handed out are pairwise disjoint; and every request returns. -/
structure HeapRun.Safe (pStart pEnd : UInt64) (r : HeapRun) (free : List Block) : Prop where
  linked : Linked r.heap.mem r.heap.freeList free
  sizes : ∀ b ∈ free, r.heap.mem.u64 (b.addr + 8) = b.size
  acyclic : (free.map Block.addr).Nodup
  inside : ∀ b ∈ r.live, pStart.toNat ≤ b.addr.toNat ∧ b.stop ≤ pEnd.toNat
  aligned : ∀ b ∈ r.live, (b.addr + 16).toNat % 8 = 0
  usable : ∀ b ∈ r.live, (b.addr + 16).toNat + b.requested.toNat ≤ b.stop
  disjoint : (r.live.map LiveBlock.toBlock ++ free).Pairwise Block.Apart
  tail : ∀ b ∈ r.live.map LiveBlock.toBlock ++ free, b.stop ≤ r.heap.heapPtr.toNat
  returns : ∀ size, ∃ fuel ptr heap, r.heap.malloc fuel size = .ok (ptr, heap)

/-- **Heap safety.** -/
theorem heap_is_safe (pStart pEnd : UInt64) (haligned : pStart.toNat % 8 = 0) (r : HeapRun)
    (hr : (heapSystem pStart pEnd).ReachedBy HeapRun.Permitted r) : ∃ free, r.Safe pStart pEnd free := by
  have hinv : ∃ free, HeapInv pStart pEnd r free := by
    refine hr.invariant (I := fun r => ∃ free, HeapInv pStart pEnd r free) (fun s hs => ?_)
      fun s e s' hs hpermitted hnext => ?_
    · obtain ⟨⟨heap, hheap⟩, hlive⟩ := hs
      obtain ⟨heap', live⟩ := s
      obtain rfl : heap' = heap.initHeap pStart pEnd := hheap
      obtain rfl : live = [] := hlive
      exact ⟨[], HeapInv.init haligned⟩
    · obtain ⟨free, hfree⟩ := hs
      exact hfree.next hpermitted hnext
  obtain ⟨free, h⟩ := hinv
  have hlive (b : LiveBlock) (hb : b ∈ r.live) : b.toBlock.Within pStart pEnd r.heap.heapPtr :=
    h.blocks.within _ (List.mem_append_left _ (List.mem_map_of_mem hb))
  refine ⟨free, h.linked, fun b hb => h.blocks.sizes b (List.mem_append_right _ hb), h.nodup,
    fun b hb => ⟨(hlive b hb).start, (hlive b hb).stop⟩, fun b hb => ?_, fun b hb => ?_, h.blocks.apart,
    fun b hb => (h.blocks.within b hb).handedOut, fun size => ⟨_, h.malloc_of_fuel size (Nat.lt_succ_self _)⟩⟩
  · have haddr := (hlive b hb).aligned
    rw [(hlive b hb).toNat_ptr]
    omega
  · have husable := h.usable b hb
    rw [(hlive b hb).toNat_ptr, Block.stop]
    omega

def firmwareHeap : Heap := Heap.initHeap 0x3000000 0x4000000 ⟨fun _ => 0, 0, 0, 0, false⟩

/-- The heap of the firmware after its first request. -/
theorem first_block_is_safe : ∃ r free, (heapSystem 0x3000000 0x4000000).ReachedBy HeapRun.Permitted r ∧
      r.live = [⟨⟨0x3000000, 24⟩, 8⟩] ∧ r.Safe 0x3000000 0x4000000 free := by
  have hmalloc : firmwareHeap.malloc 1 8 = .ok (0x3000010,
      { firmwareHeap with mem := firmwareHeap.mem.store 0x3000008 (u64ToLe 24), heapPtr := 0x3000018 }) := rfl
  have hpermitted : HeapRun.Permitted ⟨firmwareHeap, []⟩ (.malloc 8) := ⟨by decide, by decide⟩
  have hrun : (heapSystem 0x3000000 0x4000000).ReachedBy HeapRun.Permitted _ :=
    .step (.init ⟨⟨_, rfl⟩, rfl⟩) hpermitted (.malloc (by decide) hmalloc)
  obtain ⟨free, hsafe⟩ := heap_is_safe 0x3000000 0x4000000 (by decide) _ hrun
  exact ⟨_, free, hrun, by decide, hsafe⟩

end FerrumVM
