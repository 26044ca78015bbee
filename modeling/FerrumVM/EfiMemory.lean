import Mathlib.Data.List.Induction
import FerrumVM.BaseSystem
import FerrumVM.MemMap

/-! The memory services of the firmware's EFI boot services, in `efi/uefi.c`: `efi_GetMemoryMap`, which turns
the firmware's copy of the memory map into descriptors with `memmap_to_uefi` of `mem/memmap.c`, and
`efi_AllocatePages`. The texts that both trace to the serial port are left out. -/

namespace FerrumVM

open Base

inductive EfiStatus where
  | success
  | invalidParameter
  | unsupported
  | bufferTooSmall
  | outOfResources
  | notFound
  deriving DecidableEq, Repr

namespace Efi

/-! ### The memory map -/

structure MemoryDescriptor where
  type : UInt32
  pad : UInt32
  physicalStart : UInt64
  virtualStart : UInt64
  numberOfPages : UInt64
  attributes : UInt64
  deriving DecidableEq, Repr

/-- `sizeof(EFI_MEMORY_DESCRIPTOR)`. -/
def descriptorSize : UInt64 := 40

def efiMemoryWb : UInt64 := 0x8
def efiMemoryRuntime : UInt64 := 0x8000000000000000

/-- The first page that starts in an entry, and the end of the last page that ends in it. -/
def pageStart (e : MemMap) : UInt64 := (e.start + 0xFFF) &&& ~~~0xFFF
def pageEnd (e : MemMap) : UInt64 := e.endAddr &&& ~~~0xFFF

def describe (e : MemMap) : Option MemoryDescriptor :=
  if pageEnd e ≤ pageStart e then none
  else some {
    type := e.memType
    pad := 0
    physicalStart := pageStart e
    virtualStart := 0
    numberOfPages := (pageEnd e - pageStart e) / 4096
    attributes := if e.memType = 5 ∨ e.memType = 6 then efiMemoryWb ||| efiMemoryRuntime else efiMemoryWb }

/-- The descriptors that are written to the buffer, in order; their number is what the function returns. -/
def memmapToUefi (copy : Firmware.MapCopy) (length : UInt32) : List MemoryDescriptor :=
  let room := UInt32.ofNat (length.toNat / descriptorSize.toNat)
  let maxEntries := if copy.memmapLength < room then copy.memmapLength else room
  ((List.range maxEntries.toNat).map fun i => copy.memmap.getD i default).filterMap describe

/-- What a call of `efi_GetMemoryMap` leaves in its arguments, and what it wrote to the buffer. -/
structure MapReply where
  status : EfiStatus
  memoryMapSize : UInt64
  mapKey : UInt64
  descriptorSize : UInt64
  descriptorVersion : UInt32
  written : List MemoryDescriptor
  deriving DecidableEq, Repr

/-- `hasBuffer` says that `MemoryMap` is not null; `given` holds the arguments as they are passed. -/
def efiGetMemoryMap (copy : Firmware.MapCopy) (mapKey : UInt64) (hasBuffer : Bool) (given : MapReply) : MapReply :=
  let requiredSize := copy.memmapLength.toUInt64 * descriptorSize
  if ¬hasBuffer ∨ given.memoryMapSize < requiredSize then
    { given with
      status := .bufferTooSmall
      memoryMapSize := requiredSize
      descriptorSize := descriptorSize
      written := [] }
  else
    { status := .success
      memoryMapSize := copy.memmapLength.toUInt64 * descriptorSize
      mapKey := mapKey
      descriptorSize := descriptorSize
      descriptorVersion := 1
      written := memmapToUefi copy requiredSize.toUInt32 }

theorem describe_eq_none_iff (e : MemMap) : describe e = none ↔ ¬pageStart e < pageEnd e := by
  unfold describe
  split_ifs with h
  · exact iff_of_true rfl (UInt64.not_lt.mpr h)
  · exact iff_of_false nofun (not_not.mpr (UInt64.not_le.mp h))

theorem length_filterMap_describe_eq_iff (entries : List MemMap) :
    (entries.filterMap describe).length = entries.length ↔ ∀ e ∈ entries, pageStart e < pageEnd e := by
  induction entries with
  | nil => simp
  | cons e entries ih =>
    rw [List.forall_mem_cons, ← ih, List.length_cons]
    by_cases hpage : pageStart e < pageEnd e
    · have hsome : (describe e).isSome := by
        rw [Option.isSome_iff_ne_none, ne_eq, describe_eq_none_iff, not_not]
        exact hpage
      obtain ⟨descriptor, hdescriptor⟩ := Option.isSome_iff_exists.mp hsome
      rw [List.filterMap_cons_some hdescriptor, List.length_cons]
      simp [hpage]
    · have hle := List.length_filterMap_le describe entries
      rw [List.filterMap_cons_none ((describe_eq_none_iff e).mpr hpage)]
      exact iff_of_false (by omega) fun h => hpage h.1

theorem memmapToUefi_of_injected {entries : List MemMap} (hlength : entries.length ≤ 32) (rest : List MemMap) :
    memmapToUefi ⟨entries ++ rest, UInt32.ofNat entries.length⟩
      ((UInt32.ofNat entries.length).toUInt64 * descriptorSize).toUInt32 = entries.filterMap describe := by
  have hcount : (UInt32.ofNat entries.length).toNat = entries.length := by
    rw [UInt32.toNat_ofNat', Nat.mod_eq_of_lt (by omega)]
  have hsize : ((UInt32.ofNat entries.length).toUInt64 * descriptorSize).toUInt32.toNat = entries.length * 40 := by
    simp only [UInt64.toNat_toUInt32, UInt64.toNat_mul, UInt32.toNat_toUInt64, hcount, descriptorSize,
      UInt64.reduceToNat]
    omega
  have hroom : UInt32.ofNat (entries.length * 40 / descriptorSize.toNat) = UInt32.ofNat entries.length := by
    rw [show descriptorSize.toNat = 40 from rfl, Nat.mul_div_cancel _ (by omega)]
  have hentries : (List.range entries.length).map (fun i => (entries ++ rest).getD i default) = entries := by
    apply List.ext_getElem
    · simp
    · intro i _ hi
      rw [List.getElem_map, List.getElem_range, List.getD_eq_getElem?_getD, List.getElem?_append_left hi,
        List.getElem?_eq_getElem hi, Option.getD_some]
  unfold memmapToUefi
  dsimp only
  rw [hsize, hroom, ite_self, hcount, hentries]

/-- **The memory map that is reported.** A successful call reports as many descriptors as it wrote exactly if
every entry of the map has a whole page: an entry without one is skipped, but counted. -/
theorem memory_map_exact_iff (entries : List MemMap) (m : Memory) (hlength : entries.length ≤ 32)
    (hplaced : m.load Firmware.memmapAddr (MemMap.encoded entries).length = MemMap.encoded entries)
    (copy : Firmware.MapCopy) (hcopy : copy.memmap.length = 32) (mapKey : UInt64) (hasBuffer : Bool) (given : MapReply)
    (hsuccess : (efiGetMemoryMap (Firmware.initMemmap m copy) mapKey hasBuffer given).status = .success) :
    (efiGetMemoryMap (Firmware.initMemmap m copy) mapKey hasBuffer given).memoryMapSize.toNat /
        (efiGetMemoryMap (Firmware.initMemmap m copy) mapKey hasBuffer given).descriptorSize.toNat =
        (efiGetMemoryMap (Firmware.initMemmap m copy) mapKey hasBuffer given).written.length ↔
      ∀ e ∈ entries, pageStart e < pageEnd e := by
  rw [Firmware.length_encoded] at hplaced
  rw [Firmware.initMemmap_of_injected hplaced hlength hcopy] at hsuccess ⊢
  unfold efiGetMemoryMap at hsuccess ⊢
  dsimp only at hsuccess ⊢
  split_ifs at hsuccess ⊢ with hfails
  dsimp only
  have hreported : ((UInt32.ofNat entries.length).toUInt64 * descriptorSize).toNat / descriptorSize.toNat =
      entries.length := by
    have hcount : (UInt32.ofNat entries.length).toNat = entries.length := by
      rw [UInt32.toNat_ofNat', Nat.mod_eq_of_lt (by omega)]
    simp only [UInt64.toNat_mul, UInt32.toNat_toUInt64, hcount, descriptorSize, UInt64.reduceToNat]
    omega
  rw [hreported, memmapToUefi_of_injected hlength, eq_comm]
  exact length_filterMap_describe_eq_iff entries

def memoryWith (entries : List MemMap) : Memory :=
  Memory.store (fun _ => 0) Firmware.memmapAddr (MemMap.encoded entries)

/-- A call with room for one descriptor, for a copy of the map in such a memory. -/
def oneDescriptorCall (entries : List MemMap) : MapReply :=
  efiGetMemoryMap (Firmware.initMemmap (memoryWith entries) ⟨List.replicate 32 default, 0⟩) 1 true
    ⟨.success, 40, 0, 0, 0, []⟩

/-- One page is reported as one descriptor. -/
theorem one_page_is_reported :
    (oneDescriptorCall [⟨0, 0x1000, 7⟩]).memoryMapSize.toNat / (oneDescriptorCall [⟨0, 0x1000, 7⟩]).descriptorSize.toNat =
      (oneDescriptorCall [⟨0, 0x1000, 7⟩]).written.length :=
  (memory_map_exact_iff [⟨0, 0x1000, 7⟩] (memoryWith [⟨0, 0x1000, 7⟩]) (by decide)
    (Memory.load_store_self _ _ (by decide)) ⟨List.replicate 32 default, 0⟩ (by decide) 1 true ⟨.success, 40, 0, 0, 0, []⟩
    (by decide)).mpr (by decide)

/-- The first entry of every map that is injected has no whole page: one descriptor is reported, none was written. -/
theorem vectors_are_reported_but_not_written : (oneDescriptorCall [⟨0, 0x500, 0⟩]).status = .success ∧
      (oneDescriptorCall [⟨0, 0x500, 0⟩]).memoryMapSize.toNat / (oneDescriptorCall [⟨0, 0x500, 0⟩]).descriptorSize.toNat = 1 ∧
      (oneDescriptorCall [⟨0, 0x500, 0⟩]).written = [] := by
  decide

/-! ### Pages -/

def allocateMaxAddress : UInt32 := 1
def allocateAddress : UInt32 := 2

/-- What the page allocator works on: memory, the next address it hands out, and the key of the map. -/
structure Pages where
  mem : Memory
  pgBump : UInt64
  mapKey : UInt64

def Pages.pgLimit (s : Pages) : UInt64 := Firmware.memmapRamTop s.mem

/-- The arguments of a call; `memory` is what the pointer argument points to, if it is not null. Any other type
than the two above asks for pages anywhere. -/
structure PageCall where
  type : UInt32
  pages : UInt64
  memory : Option UInt64
  deriving DecidableEq, Repr

namespace PageCall

def size (call : PageCall) : UInt64 := call.pages * 4096

/-- The highest page below a maximum that has room behind it, but none of the first two megabytes. -/
def below (max size : UInt64) : UInt64 :=
  if (max - size) &&& ~~~0xFFF < 0x200000 then 0x200000 else (max - size) &&& ~~~0xFFF

def anywhere (pgBump : UInt64) : UInt64 := (pgBump + 0xFFF) &&& ~~~0xFFF

def anyPages (call : PageCall) : Bool := call.type != allocateAddress && call.type != allocateMaxAddress

end PageCall

/-- The status, what the pointer argument points to after the call, and the state. -/
def efiAllocatePages (call : PageCall) (s : Pages) : EfiStatus × Option UInt64 × Pages :=
  match call.memory with
  | none => (.invalidParameter, none, s)
  | some memory =>
    if call.pages = 0 then (.invalidParameter, some memory, s)
    else if call.type = allocateAddress then
      if memory &&& 0xFFF ≠ 0 then (.invalidParameter, some memory, s)
      else if memory < 0x200000 then (.outOfResources, some memory, s)
      else if s.pgLimit < memory + call.size then (.outOfResources, some memory, s)
      else (.success, some memory, { s with mapKey := s.mapKey + 1 })
    else if call.type = allocateMaxAddress then
      if memory < call.size then (.outOfResources, some memory, s)
      else
        let addr := PageCall.below memory call.size
        if s.pgLimit < addr + call.size then (.outOfResources, some memory, s)
        else (.success, some addr, { s with mem := s.mem.fill addr call.size 0, mapKey := s.mapKey + 1 })
    else
      let addr := PageCall.anywhere s.pgBump
      if s.pgLimit < addr + call.size then (.outOfResources, some memory, s)
      else
        (.success, some addr,
          { mem := s.mem.fill addr call.size 0, pgBump := addr + call.size, mapKey := s.mapKey + 1 })

/-- A range that was handed out: whether the caller left its place open, its start and its end. -/
structure Grant where
  anyPages : Bool
  start : Nat
  stop : Nat
  deriving DecidableEq, Repr

def Grant.Apart (g g' : Grant) : Prop := g.stop ≤ g'.start ∨ g'.stop ≤ g.start

structure PageRun where
  pages : Pages
  granted : List Grant

namespace PageRun

def grant (call : PageCall) (addr : UInt64) : Grant :=
  ⟨call.anyPages, addr.toNat, addr.toNat + call.pages.toNat * 4096⟩

def next (r : PageRun) (call : PageCall) : PageRun :=
  match efiAllocatePages call r.pages with
  | (.success, some addr, s) => ⟨s, r.granted ++ [grant call addr]⟩
  | (_, _, s) => ⟨s, r.granted⟩

/-- Where the code puts a call that passes its checks; `none` for a call that does not. -/
def target (s : Pages) (call : PageCall) : Option UInt64 :=
  match call.memory with
  | none => none
  | some memory =>
    if call.pages = 0 then none
    else if call.type = allocateAddress then
      if memory &&& 0xFFF ≠ 0 ∨ memory < 0x200000 ∨ s.pgLimit < memory + call.size then none else some memory
    else if call.type = allocateMaxAddress then
      if memory < call.size ∨ s.pgLimit < PageCall.below memory call.size + call.size then none
      else some (PageCall.below memory call.size)
    else if s.pgLimit < PageCall.anywhere s.pgBump + call.size then none
    else some (PageCall.anywhere s.pgBump)

/-- A call was given a range: it is recorded, and the next address moves behind it if its place was left open. -/
structure Given (r : PageRun) (call : PageCall) (addr : UInt64) (r' : PageRun) : Prop where
  granted : r'.granted = r.granted ++ [grant call addr]
  pgBump : r'.pages.pgBump = if call.anyPages then addr + call.size else r.pages.pgBump
  place : call.anyPages = true → addr = PageCall.anywhere r.pages.pgBump

/-- A call that the checks refuse changes nothing, any other is given the range where the code puts it. -/
theorem next_cases (r : PageRun) (call : PageCall) : target r.pages call = none ∧ r.next call = r ∨
      ∃ addr, target r.pages call = some addr ∧ Given r call addr (r.next call) := by
  unfold target next efiAllocatePages
  cases call.memory with
  | none => exact .inl ⟨rfl, rfl⟩
  | some memory =>
    dsimp only
    by_cases hpages : call.pages = 0
    · exact .inl ⟨if_pos hpages, by rw [if_pos hpages]⟩
    simp only [if_neg hpages]
    by_cases haddress : call.type = allocateAddress
    · have hany : call.anyPages = false := by simp [PageCall.anyPages, haddress]
      simp only [if_pos haddress]
      by_cases halign : memory &&& 0xFFF ≠ 0
      · exact .inl ⟨if_pos (.inl halign), by rw [if_pos halign]⟩
      by_cases hlow : memory < 0x200000
      · exact .inl ⟨if_pos (.inr (.inl hlow)), by rw [if_neg halign, if_pos hlow]⟩
      by_cases hlimit : r.pages.pgLimit < memory + call.size
      · exact .inl ⟨if_pos (.inr (.inr hlimit)), by rw [if_neg halign, if_neg hlow, if_pos hlimit]⟩
      · refine .inr ⟨memory, if_neg (not_or.mpr ⟨halign, not_or.mpr ⟨hlow, hlimit⟩⟩), ?_⟩
        rw [if_neg halign, if_neg hlow, if_neg hlimit]
        exact ⟨rfl, by rw [hany]; rfl, fun h => absurd h (by simp [hany])⟩
    simp only [if_neg haddress]
    by_cases hmax : call.type = allocateMaxAddress
    · have hany : call.anyPages = false := by simp [PageCall.anyPages, hmax]
      simp only [if_pos hmax]
      by_cases hlow : memory < call.size
      · exact .inl ⟨if_pos (.inl hlow), by rw [if_pos hlow]⟩
      by_cases hlimit : r.pages.pgLimit < PageCall.below memory call.size + call.size
      · exact .inl ⟨if_pos (.inr hlimit), by rw [if_neg hlow, if_pos hlimit]⟩
      · refine .inr ⟨PageCall.below memory call.size, if_neg (not_or.mpr ⟨hlow, hlimit⟩), ?_⟩
        rw [if_neg hlow, if_neg hlimit]
        exact ⟨rfl, by rw [hany]; rfl, fun h => absurd h (by simp [hany])⟩
    · have hany : call.anyPages = true := by simp [PageCall.anyPages, haddress, hmax]
      simp only [if_neg hmax]
      by_cases hlimit : r.pages.pgLimit < PageCall.anywhere r.pages.pgBump + call.size
      · exact .inl ⟨if_pos hlimit, by rw [if_pos hlimit]⟩
      · refine .inr ⟨PageCall.anywhere r.pages.pgBump, if_neg hlimit, ?_⟩
        rw [if_neg hlimit]
        exact ⟨rfl, by rw [hany]; rfl, fun _ => rfl⟩

end PageRun

/-- The runs of the allocator, on any memory and so any memory map. -/
def pageSystem : System PageRun PageCall where
  init r := r.pages.pgBump = 0x4000000 ∧ r.granted = []
  step r call r' := r' = r.next call

namespace PageRun

variable {r : PageRun}

def Disjoint (r : PageRun) : Prop := r.granted.Pairwise Grant.Apart

/-- The range a call would be given is free: no range handed out meets it, other than ones whose place was left
open and which end at or below the next address, when the place of this one is left open too. -/
def Free (r : PageRun) (call : PageCall) : Prop :=
  ∀ addr, target r.pages call = some addr → ∀ g ∈ r.granted,
    g.anyPages = true ∧ call.anyPages = true ∧ g.stop ≤ r.pages.pgBump.toNat ∨ g.Apart (grant call addr)

def Aligned (r : PageRun) : Prop := r.pages.pgBump.toNat % 4096 = 0

theorem anywhere_of_aligned {pgBump : UInt64} (h : pgBump.toNat % 4096 = 0) : PageCall.anywhere pgBump = pgBump := by
  apply UInt64.toNat_inj.mp
  have hround : ((pgBump + 0xFFF) &&& ~~~0xFFF).toNat = (pgBump + 0xFFF).toNat / 2 ^ 12 * 2 ^ 12 :=
    @toNat_and_not_mask (pgBump + 0xFFF) 12 (by omega)
  have hlt := pgBump.toNat_lt
  rw [PageCall.anywhere, hround, UInt64.toNat_add]
  simp only [UInt64.reduceToNat]
  omega

theorem aligned_next {call : PageCall} (h : r.Aligned) : (r.next call).Aligned := by
  obtain ⟨-, hsame⟩ | ⟨addr, -, hgiven⟩ := next_cases r call
  · rwa [hsame]
  · rw [Aligned, hgiven.pgBump]
    split_ifs with hany
    · have haddr := hgiven.place hany
      rw [anywhere_of_aligned h] at haddr
      rw [haddr, UInt64.toNat_add, PageCall.size, UInt64.toNat_mul]
      unfold Aligned at h
      simp only [UInt64.reduceToNat]
      omega
    · exact h

theorem aligned_of_reachable (h : pageSystem.Reachable r) : r.Aligned := by
  refine h.invariant (fun s hs => ?_) fun s call s' hs hstep => ?_
  · rw [Aligned, hs.1]
    rfl
  · rw [show s' = s.next call from hstep]
    exact aligned_next hs

theorem disjoint_next_iff {call : PageCall} (haligned : r.Aligned) (h : r.Disjoint) :
    (r.next call).Disjoint ↔ r.Free call := by
  obtain ⟨hrefused, hsame⟩ | ⟨addr, htarget, hgiven⟩ := next_cases r call
  · rw [hsame]
    exact iff_of_true h fun addr haddr => by rw [hrefused] at haddr; cases haddr
  · have happend : (r.next call).Disjoint ↔ ∀ g ∈ r.granted, g.Apart (grant call addr) := by
      rw [Disjoint, hgiven.granted, List.pairwise_append]
      simp [show r.granted.Pairwise Grant.Apart from h]
    rw [happend]
    constructor
    · intro hapart addr' haddr' g hg
      obtain rfl := Option.some.inj (htarget.symm.trans haddr')
      exact .inr (hapart g hg)
    · intro hfree g hg
      obtain ⟨-, hany, hstop⟩ | hapart := hfree addr htarget g hg
      · -- Both places were left open: the new range starts at the next address.
        have haddr := hgiven.place hany
        rw [anywhere_of_aligned haligned] at haddr
        exact .inl (by rw [grant, haddr]; exact hstop)
      · exact hapart

theorem disjoint_of_next {call : PageCall} (h : (r.next call).Disjoint) : r.Disjoint := by
  obtain ⟨-, hsame⟩ | ⟨addr, -, hgiven⟩ := next_cases r call
  · rwa [hsame] at h
  · rw [Disjoint, hgiven.granted] at h
    exact (List.pairwise_append.mp h).1

theorem reachable_foldl (h : pageSystem.Reachable r) (calls : List PageCall) :
    pageSystem.Reachable (calls.foldl next r) := by
  induction calls generalizing r with
  | nil => exact h
  | cons call calls ih => exact ih (h.next rfl)

/-- A machine with conventional memory up to 256 MiB, before the first call. -/
def before : PageRun := ⟨⟨memoryWith [⟨0, 0x10000000, 7⟩], 0x4000000, 1⟩, []⟩

end PageRun

end Efi

end FerrumVM
