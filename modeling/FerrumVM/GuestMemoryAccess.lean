import FerrumVM.MemoryRegion

/-! What the nine accesses of the guest memory handle do. A region that ends below the address makes
the search overflow, unless a region earlier in the list already contains the range; with no such
region in the way every access reads, or overwrites, exactly the bytes of the region that contains the
range, reads zeros where none does, and writes nothing there. -/

namespace FerrumVM

open Base

variable {r : MemoryRegion}

/-- The bytes an access should read: those of the region that contains the range, or zeros. -/
def specLoad (rs : List MemoryRegion) (addr : UInt64) (length : Nat) : Bytes :=
  match rs.find? (fun r => r.Contains addr length) with
  | some r => window r.bytes (addr.toNat - r.memOffset.toNat) length
  | none => List.replicate length 0

/-- The regions after an access should have written `data`: in a region that contains the range the
bytes of the range are those of `data`, and every other byte of every region is as before. -/
structure Stored (rs rs' : List MemoryRegion) (addr : UInt64) (data : Bytes) : Prop where
  regions : rs'.length = rs.length
  geometry : ∀ (k : Nat) (r r' : MemoryRegion), rs[k]? = some r → rs'[k]? = some r' →
    r'.memOffset = r.memOffset ∧ r'.bytes.length = r.bytes.length ∧ r'.isNull = r.isNull
  bytes : ∀ (k : Nat) (r r' : MemoryRegion), rs[k]? = some r → rs'[k]? = some r' →
    ∀ i : Nat, r'.bytes[i]? =
    if r.Contains addr data.length ∧ addr.toNat ≤ r.memOffset.toNat + i ∧
        r.memOffset.toNat + i < addr.toNat + data.length
    then data[r.memOffset.toNat + i - addr.toNat]? else r.bytes[i]?

/-- No region that ends below the address stands in the list before one that contains the range. -/
def Unobstructed (rs : List MemoryRegion) (addr : UInt64) (length : Nat) : Prop :=
  ∀ before r after, rs = before ++ r :: after → r.EndsBefore addr → ∃ r' ∈ before, r'.Contains addr length

def DisjointRegions (rs : List MemoryRegion) : Prop :=
  rs.Pairwise fun r r' => r.memOffset.toNat + r.bytes.length ≤ r'.memOffset.toNat ∨
    r'.memOffset.toNat + r'.bytes.length ≤ r.memOffset.toNat

theorem unobstructed_nil (addr : UInt64) (length : Nat) : Unobstructed [] addr length := by
  intro before r after heq
  simp at heq

theorem unobstructed_cons {rs : List MemoryRegion} {addr : UInt64} {length : Nat} :
    Unobstructed (r :: rs) addr length ↔
      r.Contains addr length ∨ (¬r.EndsBefore addr ∧ Unobstructed rs addr length) := by
  constructor
  · intro h
    by_cases hc : r.Contains addr length
    · exact Or.inl hc
    · refine Or.inr ⟨fun hends => ?_, fun before r1 after heq hends => ?_⟩
      · obtain ⟨r', hmem, _⟩ := h [] r rs rfl hends
        exact absurd hmem (List.not_mem_nil)
      · obtain ⟨r', hmem, hr'⟩ := h (r :: before) r1 after (by rw [heq, List.cons_append]) hends
        rcases List.mem_cons.mp hmem with rfl | hmem
        · exact absurd hr' hc
        · exact ⟨r', hmem, hr'⟩
  · rintro h before r1 after heq hends
    cases before with
    | nil =>
      obtain ⟨rfl, rfl⟩ := List.cons.inj heq
      rcases h with hc | ⟨hno, _⟩
      · exact absurd hends hc.not_endsBefore
      · exact absurd hends hno
    | cons r2 before =>
      obtain ⟨rfl, htail⟩ := List.cons.inj heq
      rcases h with hc | ⟨_, hrest⟩
      · exact ⟨r, List.mem_cons_self, hc⟩
      · obtain ⟨r', hmem, hr'⟩ := hrest before r1 after htail hends
        exact ⟨r', List.mem_cons_of_mem _ hmem, hr'⟩

/-- Walking the list: either the region in hand answers the access, or it overflows, or the search
goes on to the rest. -/
theorem holds_cases (r : MemoryRegion) (rs : List MemoryRegion) (addr : UInt64) (length : Nat) :
    (r.Contains addr length ∧ r.holds addr length = .ok true ∧ Unobstructed (r :: rs) addr length) ∨
    (¬r.Contains addr length ∧ r.holds addr length = .error (.panic .overflow) ∧
      ¬Unobstructed (r :: rs) addr length) ∨ (¬r.Contains addr length ∧ r.holds addr length = .ok false ∧
      (Unobstructed (r :: rs) addr length ↔ Unobstructed rs addr length)) := by
  rw [r.holds_eq, unobstructed_cons]
  by_cases hc : r.Contains addr length
  · exact Or.inl ⟨hc, by rw [if_neg hc.not_endsBefore, decide_eq_true hc], Or.inl hc⟩
  · refine Or.inr ?_
    by_cases hends : r.EndsBefore addr
    · exact Or.inl ⟨hc, if_pos hends, fun h => h.elim hc fun h => h.1 hends⟩
    · refine Or.inr ⟨hc, by rw [if_neg hends, decide_eq_false hc], ?_⟩
      exact ⟨fun h => h.elim (fun h => absurd h hc) (·.2), fun h => Or.inr ⟨hends, h⟩⟩

section Search

variable {rs : List MemoryRegion} {addr : UInt64} {length : Nat}

theorem specLoad_cons_of_contains (hc : r.Contains addr length) :
    specLoad (r :: rs) addr length = window r.bytes (addr.toNat - r.memOffset.toNat) length := by
  have hfind : (r :: rs).find? (fun r => r.Contains addr length) = some r :=
    List.find?_cons_of_pos (by simpa using hc)
  rw [specLoad, hfind]

theorem specLoad_cons_of_not (hc : ¬r.Contains addr length) :
    specLoad (r :: rs) addr length = specLoad rs addr length := by
  have hfind : (r :: rs).find? (fun r => r.Contains addr length) =
      rs.find? (fun r => r.Contains addr length) := List.find?_cons_of_neg (by simpa using hc)
  rw [specLoad, hfind, specLoad]

theorem read_of_contains (hc : r.Contains addr length) (hnull : r.isNull = false) :
    r.read (r.offsetOf addr) length = some (window r.bytes (addr.toNat - r.memOffset.toNat) length) := by
  rw [MemoryRegion.read, if_pos (hc.inBounds hnull), hc.offset.1]

theorem readFixed_eq (hnull : ∀ r ∈ rs, r.isNull = false) :
    (Unobstructed rs addr length ∧ ∃ found, readFixed length addr rs = .ok found ∧
      found.getD (List.replicate length 0) = specLoad rs addr length) ∨
    (¬Unobstructed rs addr length ∧ readFixed length addr rs = .error (.panic .overflow)) := by
  induction rs with
  | nil => exact Or.inl ⟨unobstructed_nil addr length, none, rfl, rfl⟩
  | cons r rs ih =>
    have ih := ih fun r' hr' => hnull r' (List.mem_cons_of_mem _ hr')
    rcases holds_cases r rs addr length with ⟨hc, hholds, hclear⟩ | ⟨hc, hholds, hno⟩ | ⟨hc, hholds, hiff⟩
    · refine Or.inl ⟨hclear, some _, ?_, (specLoad_cons_of_contains hc).symm⟩
      rw [readFixed, hholds, Exec.ok_bind, if_pos rfl,
        read_of_contains hc (hnull r List.mem_cons_self)]
      rfl
    · refine Or.inr ⟨hno, ?_⟩
      rw [readFixed, hholds]
      rfl
    · rw [readFixed, hholds, Exec.ok_bind, if_neg Bool.false_ne_true, hiff,
        specLoad_cons_of_not hc]
      exact ih

/-- The zeros of a read that no region answers can be allocated. -/
def Allocates (rs : List MemoryRegion) (addr : UInt64) (length : Nat) : Prop :=
  length ≤ isizeMax ∨ ∃ r ∈ rs, r.Contains addr length

theorem allocates_cons_of_not (hc : ¬r.Contains addr length) :
    Allocates (r :: rs) addr length ↔ Allocates rs addr length := by
  simp [Allocates, hc]

theorem readAllocLoop_eq (hnull : ∀ r ∈ rs, r.isNull = false) : (Unobstructed rs addr length ∧
      ((Allocates rs addr length ∧ readAllocLoop length addr rs = .ok (specLoad rs addr length)) ∨
       (¬Allocates rs addr length ∧ readAllocLoop length addr rs = .error (.panic .capacity)))) ∨
    (¬Unobstructed rs addr length ∧ readAllocLoop length addr rs = .error (.panic .overflow)) := by
  induction rs with
  | nil =>
    refine Or.inl ⟨unobstructed_nil addr length, ?_⟩
    by_cases hlen : length ≤ isizeMax
    · exact Or.inl ⟨Or.inl hlen, if_pos hlen⟩
    · exact Or.inr ⟨by simpa [Allocates] using hlen, if_neg hlen⟩
  | cons r rs ih =>
    have ih := ih fun r' hr' => hnull r' (List.mem_cons_of_mem _ hr')
    rcases holds_cases r rs addr length with ⟨hc, hholds, hclear⟩ | ⟨hc, hholds, hno⟩ | ⟨hc, hholds, hiff⟩
    · refine Or.inl ⟨hclear, Or.inl ⟨Or.inr ⟨r, List.mem_cons_self, hc⟩, ?_⟩⟩
      rw [readAllocLoop, hholds, Exec.ok_bind, if_pos rfl,
        read_of_contains hc (hnull r List.mem_cons_self), specLoad_cons_of_contains hc]
      rfl
    · refine Or.inr ⟨hno, ?_⟩
      rw [readAllocLoop, hholds]
      rfl
    · rw [readAllocLoop, hholds, Exec.ok_bind, if_neg Bool.false_ne_true, hiff,
        specLoad_cons_of_not hc, allocates_cons_of_not hc]
      exact ih

end Search

/-! ### Writes -/

section Write

variable {rs : List MemoryRegion} {addr : UInt64} {data : Bytes}

theorem getElem?_write (hc : r.Contains addr data.length) (hnull : r.isNull = false)
    (i : Nat) : (r.write data (r.offsetOf addr)).bytes[i]? =
      if addr.toNat ≤ r.memOffset.toNat + i ∧ r.memOffset.toNat + i < addr.toNat + data.length
      then data[r.memOffset.toNat + i - addr.toNat]? else r.bytes[i]? := by
  obtain ⟨hoff, hroom⟩ := hc.offset
  have hin := hc.inBounds hnull
  have hstart := hc.1
  rw [MemoryRegion.write, dif_pos hin]
  show (splice r.bytes (r.offsetOf addr) data)[i]? = _
  rw [getElem?_splice hroom, hoff]
  split_ifs with h1 h2 h2
  · congr 1
    omega
  · omega
  · omega
  · rfl

/-- Leaving every region as it is stores nothing, which is right when no region contains the range or
there is nothing to store. -/
theorem Stored.refl (h : ∀ r ∈ rs, r.Contains addr data.length → data = []) : Stored rs rs addr data where
  regions := rfl
  geometry k r r' hr hr' := by
    obtain rfl := Option.some.inj (hr.symm.trans hr')
    exact ⟨rfl, rfl, rfl⟩
  bytes k r r' hr hr' i := by
    obtain rfl := Option.some.inj (hr.symm.trans hr')
    rw [if_neg]
    rintro ⟨hc, hlo, hhi⟩
    obtain rfl := h r (List.mem_of_getElem? hr) hc
    simp only [List.length_nil] at hhi
    omega

theorem Stored.cons {r' : MemoryRegion} {rs' : List MemoryRegion} (hhead : Stored [r] [r'] addr data)
    (htail : Stored rs rs' addr data) : Stored (r :: rs) (r' :: rs') addr data where
  regions := by rw [List.length_cons, List.length_cons, htail.regions]
  geometry k s s' hs hs' := by
    cases k with
    | zero => exact hhead.geometry 0 s s' hs hs'
    | succ k => exact htail.geometry k s s' hs hs'
  bytes k s s' hs hs' := by
    cases k with
    | zero => exact hhead.bytes 0 s s' hs hs'
    | succ k => exact htail.bytes k s s' hs hs'

theorem Stored.write (hc : r.Contains addr data.length) (hnull : r.isNull = false) :
    Stored [r] [r.write data (r.offsetOf addr)] addr data where
  regions := rfl
  geometry k s s' hs hs' := by
    cases k with
    | zero =>
      obtain rfl := Option.some.inj hs
      obtain rfl := Option.some.inj hs'
      exact ⟨by simp, by simp, by simp⟩
    | succ k => simp at hs
  bytes k s s' hs hs' i := by
    cases k with
    | zero =>
      obtain rfl := Option.some.inj hs
      obtain rfl := Option.some.inj hs'
      rw [getElem?_write hc hnull i]
      simp only [hc, true_and]
    | succ k => simp at hs

theorem eq_nil_of_contains_both {r' : MemoryRegion} (hdisj : r.memOffset.toNat + r.bytes.length ≤ r'.memOffset.toNat ∨
      r'.memOffset.toNat + r'.bytes.length ≤ r.memOffset.toNat)
    (hr : r.Contains addr data.length) (hr' : r'.Contains addr data.length) : data = [] := by
  unfold MemoryRegion.Contains at hr hr'
  exact List.length_eq_zero_iff.mp (by omega)

theorem writeLoop_eq (hnull : ∀ r ∈ rs, r.isNull = false) (hdisj : DisjointRegions rs) :
    (Unobstructed rs addr data.length ∧ ∃ rs', writeLoop data addr rs = .ok rs' ∧ Stored rs rs' addr data) ∨
    (¬Unobstructed rs addr data.length ∧ writeLoop data addr rs = .error (.panic .overflow)) := by
  induction rs with
  | nil => exact Or.inl ⟨unobstructed_nil addr _, [], rfl, .refl nofun⟩
  | cons r rs ih =>
    obtain ⟨hhead, htail⟩ := List.pairwise_cons.mp hdisj
    have ih := ih (fun r' hr' => hnull r' (List.mem_cons_of_mem _ hr')) htail
    rcases holds_cases r rs addr data.length with
      ⟨hc, hholds, hclear⟩ | ⟨hc, hholds, hno⟩ | ⟨hc, hholds, hiff⟩
    · refine Or.inl ⟨hclear, _, ?_, .cons (.write hc (hnull r List.mem_cons_self)) (.refl ?_)⟩
      · rw [writeLoop, hholds]
        rfl
      · exact fun r' hr' hc' => eq_nil_of_contains_both (hhead r' hr') hc hc'
    · refine Or.inr ⟨hno, ?_⟩
      rw [writeLoop, hholds]
      rfl
    · rw [writeLoop, hholds, hiff]
      have hkeep : Stored [r] [r] addr data := .refl fun r' hr' hc' => by
        rw [List.mem_singleton.mp hr'] at hc'
        exact absurd hc' hc
      rcases ih with ⟨hclear, rs', hloop, hstored⟩ | ⟨hno, hloop⟩
      · refine Or.inl ⟨hclear, r :: rs', ?_, .cons hkeep hstored⟩
        simp only [Exec.ok_bind, hloop]
        rfl
      · refine Or.inr ⟨hno, ?_⟩
        simp only [Exec.ok_bind, hloop]
        rfl

end Write

/-! ### The nine accesses -/

/-- An access of the handle with its argument besides the address. -/
inductive Access where
  | readByte
  | readU16
  | readU32
  | readU64
  | readGuestMemoryAlloc (len : Nat)
  | writeU8 (val : UInt8)
  | writeU16 (val : UInt16)
  | writeU32 (val : UInt32)
  | writeGuestMemory (data : Bytes)

namespace Access

/-- The number of bytes an access reads or writes. -/
def length : Access → Nat
  | .readByte => 1
  | .readU16 => 2
  | .readU32 => 4
  | .readU64 => 8
  | .readGuestMemoryAlloc len => len
  | .writeU8 _ => 1
  | .writeU16 _ => 2
  | .writeU32 _ => 4
  | .writeGuestMemory data => data.length

/-- The access returns, a read with the bytes it should read and a write with the bytes it should
write in place. -/
def Meets (h : VirtioGuestMemoryHandle) (addr : UInt64) : Access → Prop
  | .readByte => h.readByte addr = .ok (UInt8.ofNat (leNat ((specLoad h.mem addr 1).take 1)))
  | .readU16 => h.readU16 addr = .ok (u16FromLe (specLoad h.mem addr 2))
  | .readU32 => h.readU32 addr = .ok (u32FromLe (specLoad h.mem addr 4))
  | .readU64 => h.readU64 addr = .ok (u64FromLe (specLoad h.mem addr 8))
  | .readGuestMemoryAlloc len => h.readGuestMemoryAlloc addr len = .ok (specLoad h.mem addr len)
  | .writeU8 val => ∃ h', h.writeU8 addr val = .ok h' ∧ Stored h.mem h'.mem addr [val]
  | .writeU16 val => ∃ h', h.writeU16 addr val = .ok h' ∧ Stored h.mem h'.mem addr (u16ToLe val)
  | .writeU32 val => ∃ h', h.writeU32 addr val = .ok h' ∧ Stored h.mem h'.mem addr (u32ToLe val)
  | .writeGuestMemory data => ∃ h', h.writeGuestMemory addr data = .ok h' ∧ Stored h.mem h'.mem addr data

/-- No region that ends below the address is searched before one that contains the range, and a read
of no region asks for no more zeros than can be allocated. -/
def Reaches (h : VirtioGuestMemoryHandle) (addr : UInt64) (access : Access) : Prop :=
  Unobstructed h.mem addr access.length ∧
    match access with
    | .readGuestMemoryAlloc len => Allocates h.mem addr len
    | _ => True

end Access

section Accesses

variable {h : VirtioGuestMemoryHandle} {addr : UInt64}

theorem readFixed_decode_iff {β : Type} (decode : Bytes → β) (zero : β) (length : Nat)
    (hzero : decode (List.replicate length 0) = zero) (hnull : ∀ r ∈ h.mem, r.isNull = false) :
    (do match ← readFixed length addr h.mem with
        | some data => return decode data
        | none => return zero : Exec β) = .ok (decode (specLoad h.mem addr length)) ↔
      Unobstructed h.mem addr length := by
  rcases @readFixed_eq h.mem addr length hnull with ⟨hclear, found, hread, hfound⟩ | ⟨hno, hread⟩
  · refine iff_of_true ?_ hclear
    rw [hread, ← hfound]
    cases found with
    | none => exact congrArg Except.ok hzero.symm
    | some data => rfl
  · refine iff_of_false ?_ hno
    rw [hread]
    exact nofun

theorem writeLoopOf_stored_iff (data : Bytes) (hnull : ∀ r ∈ h.mem, r.isNull = false)
    (hdisj : DisjointRegions h.mem) : (∃ h', h.writeLoopOf addr data = .ok h' ∧ Stored h.mem h'.mem addr data) ↔
      Unobstructed h.mem addr data.length := by
  rcases @writeLoop_eq h.mem addr data hnull hdisj with ⟨hclear, rs', hloop, hstored⟩ | ⟨hno, hloop⟩
  · refine iff_of_true ⟨⟨rs'⟩, ?_, hstored⟩ hclear
    rw [VirtioGuestMemoryHandle.writeLoopOf, hloop]
    rfl
  · refine iff_of_false ?_ hno
    rintro ⟨h', hwrite, _⟩
    rw [VirtioGuestMemoryHandle.writeLoopOf, hloop] at hwrite
    cases hwrite

theorem readGuestMemoryAlloc_iff {len : Nat} (hlen : 1 ≤ len) (hnull : ∀ r ∈ h.mem, r.isNull = false) :
    h.readGuestMemoryAlloc addr len = .ok (specLoad h.mem addr len) ↔
      Unobstructed h.mem addr len ∧ Allocates h.mem addr len := by
  rw [VirtioGuestMemoryHandle.readGuestMemoryAlloc, if_neg (by omega)]
  rcases @readAllocLoop_eq h.mem addr len hnull with
    ⟨hclear, ⟨halloc, hread⟩ | ⟨halloc, hread⟩⟩ | ⟨hno, hread⟩
  · exact iff_of_true hread ⟨hclear, halloc⟩
  · refine iff_of_false ?_ fun hc => halloc hc.2
    rw [hread]
    exact nofun
  · refine iff_of_false ?_ fun hc => hno hc.1
    rw [hread]
    exact nofun

/-- **Guest memory accesses.** On pairwise disjoint, non-null regions an access returns what it should
exactly when no region that ends below the address is searched before one that contains the range,
and the zeros of an unanswered read can be allocated. -/
theorem access_meets_iff_reaches (h : VirtioGuestMemoryHandle) (hnull : ∀ r ∈ h.mem, r.isNull = false)
    (hdisj : DisjointRegions h.mem) (addr : UInt64) (access : Access)
    (hlen : ∀ len, access = .readGuestMemoryAlloc len → 1 ≤ len) : access.Meets h addr ↔ access.Reaches h addr := by
  cases access with
  | readByte =>
    exact (readFixed_decode_iff (fun d => UInt8.ofNat (leNat (d.take 1))) 0 1 (by decide) hnull).trans
      (and_iff_left trivial).symm
  | readU16 =>
    exact (readFixed_decode_iff u16FromLe 0 2 (by decide) hnull).trans
      (and_iff_left trivial).symm
  | readU32 =>
    exact (readFixed_decode_iff u32FromLe 0 4 (by decide) hnull).trans
      (and_iff_left trivial).symm
  | readU64 =>
    exact (readFixed_decode_iff u64FromLe 0 8 (by decide) hnull).trans
      (and_iff_left trivial).symm
  | readGuestMemoryAlloc len => exact readGuestMemoryAlloc_iff (hlen len rfl) hnull
  | writeU8 val =>
    exact (writeLoopOf_stored_iff [val] hnull hdisj).trans
      (and_iff_left trivial).symm
  | writeU16 val =>
    exact (writeLoopOf_stored_iff (u16ToLe val) hnull hdisj).trans
      (and_iff_left trivial).symm
  | writeU32 val =>
    exact (writeLoopOf_stored_iff (u32ToLe val) hnull hdisj).trans
      (and_iff_left trivial).symm
  | writeGuestMemory data =>
    exact (writeLoopOf_stored_iff data hnull hdisj).trans
      (and_iff_left trivial).symm

end Accesses

/-- A region of `size` zero bytes at `start`. -/
def zeroRegion (start : UInt64) (size : Nat) (h : size ≤ isizeMax) : MemoryRegion where
  isNull := false
  bytes := List.replicate size 0
  memOffset := start
  size_le := by rwa [List.length_replicate]

/-- Two disjoint regions, of which the second holds the address that the first ends below. -/
def twoRegions : VirtioGuestMemoryHandle :=
  ⟨[zeroRegion 0 4 (by decide), zeroRegion 16 4 (by decide)]⟩

theorem twoRegions_valid : (∀ r ∈ twoRegions.mem, r.isNull = false) ∧ DisjointRegions twoRegions.mem := by
  constructor
  · simp [twoRegions, zeroRegion]
  · simp only [DisjointRegions, twoRegions, List.pairwise_cons, List.mem_singleton, List.not_mem_nil,
      forall_eq, false_implies, implies_true, List.Pairwise.nil, and_true]
    exact Or.inl (by decide)

/-- The two bytes at the start of the second region cannot be read: the search overflows at the
first. -/
theorem readU16_second_region_overflows :
    ((∀ r ∈ twoRegions.mem, r.isNull = false) ∧ DisjointRegions twoRegions.mem) ∧
      twoRegions.readU16 16 = .error (.panic .overflow) ∧ ¬Access.readU16.Meets twoRegions 16 := by
  refine ⟨twoRegions_valid, by rfl, ?_⟩
  intro h
  have hread : twoRegions.readU16 16 = .error (.panic .overflow) := by rfl
  rw [Access.Meets, hread] at h
  cases h

/-- The first region answers the addresses in it. -/
theorem readU16_first_region_meets : Access.readU16.Meets twoRegions 2 := by
  refine (access_meets_iff_reaches twoRegions twoRegions_valid.1 twoRegions_valid.2 2 .readU16
    nofun).mpr ⟨?_, trivial⟩
  exact unobstructed_cons.mpr (Or.inl (by decide))

end FerrumVM
