import FerrumVM.GuestMemoryAccess

/-! Guest memory as the devices use it: the eight accesses they make, over any memory. Two memories
are given. The handle is the one of the source, whose search may overflow; `Ram` has the same regions
with total accesses, which read zeros and write nothing outside every region, and the two agree
wherever the search of the handle goes through. -/

namespace FerrumVM

open Base MemoryRegion

variable {data : Bytes} {addr : UInt64} {rs : List MemoryRegion} {length : Nat} {r : MemoryRegion}

/-- The accesses of `VirtioGuestMemoryHandle` that the devices make. `inRam` tells whether the bytes
of a write land in a region. -/
class GuestMemory (M : Type) where
  readU16 : M → UInt64 → Exec UInt16
  readU32 : M → UInt64 → Exec UInt32
  readU64 : M → UInt64 → Exec UInt64
  readGuestMemoryAlloc : M → UInt64 → Nat → Exec Bytes
  writeU8 : M → UInt64 → UInt8 → Exec M
  writeU16 : M → UInt64 → UInt16 → Exec M
  writeU32 : M → UInt64 → UInt32 → Exec M
  writeGuestMemory : M → UInt64 → Bytes → Exec M
  inRam : M → UInt64 → Nat → Bool
  length_read {m : M} {addr : UInt64} {len : Nat} {data : Bytes} :
    readGuestMemoryAlloc m addr len = .ok data → data.length = len
  inRam_writeU8 {m m' : M} {addr : UInt64} {val : UInt8} : writeU8 m addr val = .ok m' → inRam m' = inRam m
  inRam_writeU16 {m m' : M} {addr : UInt64} {val : UInt16} :
    writeU16 m addr val = .ok m' → inRam m' = inRam m
  inRam_writeU32 {m m' : M} {addr : UInt64} {val : UInt32} :
    writeU32 m addr val = .ok m' → inRam m' = inRam m
  inRam_writeGuestMemory {m m' : M} {addr : UInt64} {data : Bytes} :
    writeGuestMemory m addr data = .ok m' → inRam m' = inRam m

/-- The first region that contains the range is mapped. -/
def landsIn (rs : List MemoryRegion) (addr : UInt64) (length : Nat) : Bool :=
  match rs.find? (fun r => r.Contains addr length) with
  | some r => !r.isNull
  | none => false

/-- Two lists of regions with the same places, whatever their bytes. -/
def SameGeometry (rs rs' : List MemoryRegion) : Prop :=
  List.Forall₂ (fun r r' : MemoryRegion => r'.memOffset = r.memOffset ∧
    r'.bytes.length = r.bytes.length ∧ r'.isNull = r.isNull) rs rs'

theorem SameGeometry.refl : ∀ rs : List MemoryRegion, SameGeometry rs rs
  | [] => .nil
  | _ :: rs => .cons ⟨rfl, rfl, rfl⟩ (SameGeometry.refl rs)

theorem sameGeometry_write (r : MemoryRegion) (rs : List MemoryRegion) (data : Bytes) (offset : Nat) :
    SameGeometry (r :: rs) (r.write data offset :: rs) :=
  .cons ⟨by simp, by simp, by simp⟩ (SameGeometry.refl rs)

theorem contains_congr {r' : MemoryRegion} (hoff : r'.memOffset = r.memOffset)
    (hlen : r'.bytes.length = r.bytes.length) (addr : UInt64) (length : Nat) :
    r'.Contains addr length ↔ r.Contains addr length := by
  rw [MemoryRegion.Contains, MemoryRegion.Contains, hoff, hlen]

theorem landsIn_cons_of_contains (hc : r.Contains addr length) : landsIn (r :: rs) addr length = !r.isNull := by
  have hfind : (r :: rs).find? (fun r => r.Contains addr length) = some r :=
    List.find?_cons_of_pos (by simpa using hc)
  rw [landsIn, hfind]

theorem landsIn_cons_of_not
    (hc : ¬r.Contains addr length) : landsIn (r :: rs) addr length = landsIn rs addr length := by
  have hfind : (r :: rs).find? (fun r => r.Contains addr length) =
      rs.find? (fun r => r.Contains addr length) := List.find?_cons_of_neg (by simpa using hc)
  rw [landsIn, hfind, landsIn]

theorem SameGeometry.landsIn_eq {rs' : List MemoryRegion} (h : SameGeometry rs rs') : landsIn rs' = landsIn rs := by
  funext addr length
  induction h with
  | nil => rfl
  | @cons r r' rs rs' hr _ ih =>
    obtain ⟨hoff, hlen, hnull⟩ := hr
    have hiff := contains_congr hoff hlen addr length
    by_cases hc : r.Contains addr length
    · rw [landsIn_cons_of_contains (hiff.mpr hc), landsIn_cons_of_contains hc, hnull]
    · rw [landsIn_cons_of_not (fun h => hc (hiff.mp h)), landsIn_cons_of_not hc]
      exact ih

/-! ### The handle -/

theorem writeLoop_geometry {rs' : List MemoryRegion}
    (h : writeLoop data addr rs = .ok rs') : SameGeometry rs rs' := by
  induction rs generalizing rs' with
  | nil =>
    cases h
    exact .nil
  | cons r rs ih =>
    rw [writeLoop, Exec.bind_eq_ok] at h
    obtain ⟨found, _, h⟩ := h
    cases found with
    | true =>
      cases h
      exact sameGeometry_write r rs data _
    | false =>
      obtain ⟨rest, hrest, h⟩ := Exec.bind_eq_ok.mp h
      cases h
      exact .cons ⟨rfl, rfl, rfl⟩ (ih hrest)

theorem writeLoopOf_geometry {h h' : VirtioGuestMemoryHandle}
    (hwrite : h.writeLoopOf addr data = .ok h') : SameGeometry h.mem h'.mem := by
  obtain ⟨rs', hloop, heq⟩ := Exec.bind_eq_ok.mp hwrite
  cases heq
  exact writeLoop_geometry hloop

theorem length_read_region {addr : Nat} (h : r.read addr length = some data) : data.length = length := by
  unfold MemoryRegion.read at h
  split_ifs at h with hin
  cases h
  exact length_window (MemoryRegion.inBounds_iff.mp hin).2

theorem length_readAllocLoop (h : readAllocLoop length addr rs = .ok data) : data.length = length := by
  induction rs with
  | nil =>
    rw [readAllocLoop, zeros] at h
    split_ifs at h
    cases h
    exact List.length_replicate
  | cons r rs ih =>
    rw [readAllocLoop, Exec.bind_eq_ok] at h
    obtain ⟨found, _, h⟩ := h
    cases found with
    | false => exact ih h
    | true =>
      rw [if_pos rfl] at h
      split at h
      · rename_i data' hread
        cases h
        exact length_read_region hread
      · exact ih h

instance : GuestMemory VirtioGuestMemoryHandle where
  readU16 := VirtioGuestMemoryHandle.readU16
  readU32 := VirtioGuestMemoryHandle.readU32
  readU64 := VirtioGuestMemoryHandle.readU64
  readGuestMemoryAlloc := VirtioGuestMemoryHandle.readGuestMemoryAlloc
  writeU8 := VirtioGuestMemoryHandle.writeU8
  writeU16 := VirtioGuestMemoryHandle.writeU16
  writeU32 := VirtioGuestMemoryHandle.writeU32
  writeGuestMemory := VirtioGuestMemoryHandle.writeGuestMemory
  inRam h := landsIn h.mem
  length_read {h addr len data} hread := by
    unfold VirtioGuestMemoryHandle.readGuestMemoryAlloc at hread
    split_ifs at hread with hlen
    · cases hread
      exact hlen.symm
    · exact length_readAllocLoop hread
  inRam_writeU8 hwrite := (writeLoopOf_geometry hwrite).landsIn_eq
  inRam_writeU16 hwrite := (writeLoopOf_geometry hwrite).landsIn_eq
  inRam_writeU32 hwrite := (writeLoopOf_geometry hwrite).landsIn_eq
  inRam_writeGuestMemory hwrite := (writeLoopOf_geometry hwrite).landsIn_eq

/-! ### Total memory -/

/-- Guest memory whose individual accesses are total. -/
structure Ram where
  regions : List MemoryRegion

namespace Ram

/-- Overwrite the range in the first region that contains it. -/
def storeIn (addr : UInt64) (data : Bytes) : List MemoryRegion → List MemoryRegion
  | [] => []
  | r :: rest =>
    if r.Contains addr data.length then r.write data (r.offsetOf addr) :: rest
    else r :: storeIn addr data rest

def load (m : Ram) (addr : UInt64) (length : Nat) : Bytes := specLoad m.regions addr length

def store (m : Ram) (addr : UInt64) (data : Bytes) : Ram := ⟨storeIn addr data m.regions⟩

def u16 (m : Ram) (addr : UInt64) : UInt16 := u16FromLe (m.load addr 2)
def u32 (m : Ram) (addr : UInt64) : UInt32 := u32FromLe (m.load addr 4)
def u64 (m : Ram) (addr : UInt64) : UInt64 := u64FromLe (m.load addr 8)

theorem storeIn_geometry (addr : UInt64) (data : Bytes) (rs : List MemoryRegion) :
    SameGeometry rs (storeIn addr data rs) := by
  induction rs with
  | nil => exact .nil
  | cons r rs ih =>
    unfold storeIn
    split_ifs
    · exact sameGeometry_write r rs data _
    · exact .cons ⟨rfl, rfl, rfl⟩ ih

theorem length_specLoad (rs : List MemoryRegion) (addr : UInt64) (length : Nat) :
    (specLoad rs addr length).length = length := by
  unfold specLoad
  split
  · rename_i r hfind
    have hc : r.Contains addr length := by simpa using List.find?_some hfind
    obtain ⟨hoff, hroom⟩ := hc.offset
    rw [← hoff]
    exact length_window hroom
  · exact List.length_replicate

@[simp] theorem length_load (m : Ram) (addr : UInt64) (length : Nat) :
    (m.load addr length).length = length := length_specLoad m.regions addr length

instance : GuestMemory Ram where
  readU16 m addr := .ok (m.u16 addr)
  readU32 m addr := .ok (m.u32 addr)
  readU64 m addr := .ok (m.u64 addr)
  readGuestMemoryAlloc m addr len := .ok (m.load addr len)
  writeU8 m addr val := .ok (m.store addr [val])
  writeU16 m addr val := .ok (m.store addr (u16ToLe val))
  writeU32 m addr val := .ok (m.store addr (u32ToLe val))
  writeGuestMemory m addr data := .ok (m.store addr data)
  inRam m := landsIn m.regions
  length_read hread := by
    cases hread
    exact length_load _ _ _
  inRam_writeU8 hwrite := by
    cases hwrite
    exact (storeIn_geometry _ _ _).landsIn_eq
  inRam_writeU16 hwrite := by
    cases hwrite
    exact (storeIn_geometry _ _ _).landsIn_eq
  inRam_writeU32 hwrite := by
    cases hwrite
    exact (storeIn_geometry _ _ _).landsIn_eq
  inRam_writeGuestMemory hwrite := by
    cases hwrite
    exact (storeIn_geometry _ _ _).landsIn_eq

/-! ### Loads after stores -/

theorem window_write {from' : UInt64} (hc : r.Contains addr data.length) (hfrom : r.Contains from' length)
    (hdisj : addr.toNat + data.length ≤ from'.toNat ∨ from'.toNat + length ≤ addr.toNat) :
    window (r.write data (r.offsetOf addr)).bytes (from'.toNat - r.memOffset.toNat) length =
      window r.bytes (from'.toNat - r.memOffset.toNat) length := by
  unfold write
  split_ifs
  · obtain ⟨hoff, hroom⟩ := hc.offset
    obtain ⟨hstart, _⟩ := hc
    obtain ⟨hstart', _⟩ := hfrom
    refine window_splice_of_disjoint hroom ?_
    omega
  · rfl

theorem specLoad_storeIn_of_disjoint {from' : UInt64}
    (hdisj : addr.toNat + data.length ≤ from'.toNat ∨ from'.toNat + length ≤ addr.toNat) (rs : List MemoryRegion) :
    specLoad (storeIn addr data rs) from' length = specLoad rs from' length := by
  induction rs with
  | nil => rfl
  | cons r rs ih =>
    unfold storeIn
    split_ifs with hc
    · have hiff := contains_congr (r.write_memOffset data (r.offsetOf addr))
        (r.length_write data (r.offsetOf addr)) from' length
      by_cases hfrom : r.Contains from' length
      · rw [specLoad_cons_of_contains (hiff.mpr hfrom), specLoad_cons_of_contains hfrom,
          write_memOffset, window_write hc hfrom hdisj]
      · rw [specLoad_cons_of_not (fun h => hfrom (hiff.mp h)), specLoad_cons_of_not hfrom]
    · by_cases hfrom : r.Contains from' length
      · rw [specLoad_cons_of_contains hfrom, specLoad_cons_of_contains hfrom]
      · rw [specLoad_cons_of_not hfrom, specLoad_cons_of_not hfrom, ih]

theorem load_store_of_disjoint {from' : UInt64} (m : Ram)
    (hdisj : addr.toNat + data.length ≤ from'.toNat ∨ from'.toNat + length ≤ addr.toNat) :
    (m.store addr data).load from' length = m.load from' length :=
  specLoad_storeIn_of_disjoint hdisj m.regions

theorem specLoad_storeIn_self (hland : landsIn rs addr data.length = true) :
    specLoad (storeIn addr data rs) addr data.length = data := by
  induction rs with
  | nil => cases hland
  | cons r rs ih =>
    unfold storeIn
    split_ifs with hc
    · rw [landsIn_cons_of_contains hc] at hland
      have hin := hc.inBounds (by simpa using hland)
      have hiff := contains_congr (r.write_memOffset data (r.offsetOf addr))
        (r.length_write data (r.offsetOf addr)) addr data.length
      rw [specLoad_cons_of_contains (hiff.mpr hc), write_memOffset,
        write, dif_pos hin, ← hc.offset.1]
      exact window_splice_self hc.offset.2
    · rw [landsIn_cons_of_not hc] at hland
      rw [specLoad_cons_of_not hc]
      exact ih hland

theorem load_store_self (m : Ram) (hland : landsIn m.regions addr data.length = true) :
    (m.store addr data).load addr data.length = data :=
  specLoad_storeIn_self hland

theorem storeIn_of_not_lands (h : data = [] ∨ landsIn rs addr data.length = false) : storeIn addr data rs = rs := by
  induction rs with
  | nil => rfl
  | cons r rs ih =>
    unfold storeIn
    split_ifs with hc
    · have hwrite : r.write data (r.offsetOf addr) = r := by
        unfold write
        split_ifs with hin
        · rcases h with rfl | hland
          · simp [splice]
          · rw [landsIn_cons_of_contains hc, (inBounds_iff.mp hin).1] at hland
            cases hland
        · rfl
      rw [hwrite]
    · rw [landsIn_cons_of_not hc] at h
      rw [ih h]

theorem store_of_not_lands {m : Ram}
    (h : data = [] ∨ landsIn m.regions addr data.length = false) : m.store addr data = m :=
  congrArg Ram.mk (storeIn_of_not_lands h)

/-! ### Agreement with the handle -/

variable {h : VirtioGuestMemoryHandle} {addr : UInt64}

theorem writeLoop_eq_storeIn
    (hclear : Unobstructed rs addr data.length) : writeLoop data addr rs = .ok (storeIn addr data rs) := by
  induction rs with
  | nil => rfl
  | cons r rs ih =>
    rcases holds_cases r rs addr data.length with ⟨hc, hholds, _⟩ | ⟨_, _, hno⟩ | ⟨hc, hholds, hiff⟩
    · rw [writeLoop, hholds, storeIn, if_pos hc]
      rfl
    · exact absurd hclear hno
    · rw [writeLoop, hholds, storeIn, if_neg hc]
      simp only [Exec.ok_bind, ih (hiff.mp hclear)]
      rfl

theorem writeLoopOf_eq_store (hclear : Unobstructed h.mem addr data.length) :
    h.writeLoopOf addr data = .ok ⟨((⟨h.mem⟩ : Ram).store addr data).regions⟩ := by
  rw [VirtioGuestMemoryHandle.writeLoopOf, writeLoop_eq_storeIn hclear]
  rfl

theorem readU16_eq_u16 (hnull : ∀ r ∈ h.mem, r.isNull = false) (hclear : Unobstructed h.mem addr 2) :
    h.readU16 addr = .ok ((⟨h.mem⟩ : Ram).u16 addr) :=
  (readFixed_decode_iff u16FromLe 0 2 (by decide) hnull).mpr hclear

end Ram

end FerrumVM
