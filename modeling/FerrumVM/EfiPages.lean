import FerrumVM.EfiMemory
import FerrumVM.FirmwarePaging

/-! What `efi_AllocatePages` of `efi/uefi.c` hands out: whether a range that it calls a success lies in memory that can
be used. The checks of the code compare words that may have wrapped around, with the top of RAM alone. -/

namespace FerrumVM

open Base Paging

namespace Firmware

def mapEntries (m : Memory) : List MemMap :=
  if headerMgkNum m ≠ memmapMgkNum then []
  else (List.range (min (headerLength m).toNat memmapMaxEntries.toNat)).map fun i => readEntry m (entryAddr (UInt32.ofNat i))

/-- Virtual addresses that `paging_init`, run in the memory `boot`, maps to themselves. -/
def IdentityMapped (boot : Memory) (v : UInt64) : Prop :=
  Canonical v ∧ walk (pagingInit boot).1 pml4Addr v = .mapped v

theorem identityMapped_iff (boot : Memory) (v : UInt64) :
    IdentityMapped boot v ↔ v.toNat < (ramGb boot).toNat * 2 ^ 30 := by
  have hcount := ramGb_le boot
  constructor
  · rintro ⟨hv, hwalk⟩
    rw [walk_pagingInit boot hv] at hwalk
    split_ifs at hwalk with hram hregister
    · exact hram
    · -- The registers of the devices lie elsewhere.
      have hsame := congrArg UInt64.toNat (Translation.mapped.inj hwalk)
      rw [UInt64.le_iff_toNat_le] at hregister
      rw [UInt64.toNat_add, UInt64.toNat_sub] at hsame
      simp only [UInt64.reduceToNat] at hsame hregister
      omega
  · intro hram
    have hv : Canonical v := .inl (by omega)
    exact ⟨hv, (walk_pagingInit boot hv).trans (if_pos hram)⟩

end Firmware

namespace Efi

def Conventional (entries : List MemMap) (start stop : Nat) : Prop :=
  ∀ a, start ≤ a → a < stop →
    ∃ e ∈ entries, e.memType = Firmware.efiConventionalMemory ∧ e.start.toNat ≤ a ∧ a < e.endAddr.toNat

namespace PageCall

def stop (call : PageCall) (addr : UInt64) : Nat := addr.toNat + call.pages.toNat * 4096

structure Usable (boot : Memory) (s : Pages) (call : PageCall) (addr : UInt64) : Prop where
  size : call.pages.toNat * 4096 < 2 ^ 64
  inside : 0x200000 ≤ addr.toNat ∧ call.stop addr ≤ (Firmware.memmapRamTop s.mem).toNat
  conventional : Conventional (Firmware.mapEntries s.mem) addr.toNat (call.stop addr)
  identity : ∀ v : UInt64, addr.toNat ≤ v.toNat → v.toNat < call.stop addr → Firmware.IdentityMapped boot v
  max : call.type = allocateMaxAddress → ∀ max, call.memory = some max → call.stop addr - 1 ≤ max.toNat

def place (s : Pages) (call : PageCall) (memory : UInt64) : UInt64 :=
  if call.type = allocateAddress then memory
  else if call.type = allocateMaxAddress then below memory call.size
  else anywhere s.pgBump

/-- The checks of the code, with sizes and ends that wrap around. -/
structure Passes (s : Pages) (call : PageCall) (memory : UInt64) : Prop where
  pages : call.pages ≠ 0
  address : call.type = allocateAddress → memory &&& 0xFFF = 0 ∧ 0x200000 ≤ memory
  max : call.type = allocateMaxAddress → call.size ≤ memory
  limit : call.place s memory + call.size ≤ s.pgLimit

structure Sound (boot : Memory) (s : Pages) (call : PageCall) (memory : UInt64) : Prop where
  fits : call.stop (call.place s memory) < 2 ^ 64
  above : 0x200000 ≤ (call.place s memory).toNat
  conventional : Conventional (Firmware.mapEntries s.mem) (call.place s memory).toNat (call.stop (call.place s memory))
  paged : call.stop (call.place s memory) ≤ (Firmware.ramGb boot).toNat * 2 ^ 30
  max : call.type = allocateMaxAddress → call.pages.toNat * 4096 + 0x1FFFFF ≤ memory.toNat

variable {boot : Memory} {s s' : Pages} {call : PageCall} {memory addr : UInt64}

theorem success_iff : (∃ s', efiAllocatePages call s = (.success, some addr, s')) ↔
    ∃ memory, call.memory = some memory ∧ call.Passes s memory ∧ call.place s memory = addr := by
  unfold efiAllocatePages
  cases hmemory : call.memory with
  | none => simp
  | some memory =>
    have hsome : (∃ memory', some memory = some memory' ∧ call.Passes s memory' ∧ call.place s memory' = addr) ↔
        call.Passes s memory ∧ call.place s memory = addr := by simp
    rw [hsome]
    dsimp only
    by_cases hpages : call.pages = 0
    · rw [if_pos hpages]
      exact iff_of_false (by simp) fun h => h.1.pages hpages
    rw [if_neg hpages]
    by_cases haddress : call.type = allocateAddress
    · have hplace : call.place s memory = memory := if_pos haddress
      rw [if_pos haddress, hplace]
      have hpasses : call.Passes s memory ↔
          memory &&& 0xFFF = 0 ∧ 0x200000 ≤ memory ∧ memory + call.size ≤ s.pgLimit := by
        constructor
        · intro h
          exact ⟨(h.address haddress).1, (h.address haddress).2, hplace ▸ h.limit⟩
        · rintro ⟨halign, hlow, hlimit⟩
          exact ⟨hpages, fun _ => ⟨halign, hlow⟩, fun hmax => absurd (haddress.symm.trans hmax) (by decide),
            by rw [hplace]; exact hlimit⟩
      rw [hpasses]
      split_ifs with halign hlow hlimit
      · exact iff_of_false (by simp) fun h => halign h.1.1
      · exact iff_of_false (by simp) fun h => absurd h.1.2.1 (UInt64.not_le.mpr hlow)
      · exact iff_of_false (by simp) fun h => absurd h.1.2.2 (UInt64.not_le.mpr hlimit)
      · simp [not_not.mp halign, UInt64.not_lt.mp hlow, UInt64.not_lt.mp hlimit]
    rw [if_neg haddress]
    by_cases hmax : call.type = allocateMaxAddress
    · have hplace : call.place s memory = below memory call.size := by rw [place, if_neg haddress, if_pos hmax]
      rw [if_pos hmax, hplace]
      have hpasses : call.Passes s memory ↔
          call.size ≤ memory ∧ below memory call.size + call.size ≤ s.pgLimit := by
        constructor
        · intro h
          exact ⟨h.max hmax, hplace ▸ h.limit⟩
        · rintro ⟨hsize, hlimit⟩
          exact ⟨hpages, fun h => absurd h haddress, fun _ => hsize, by rw [hplace]; exact hlimit⟩
      rw [hpasses]
      split_ifs with hsize hlimit
      · exact iff_of_false (by simp) fun h => absurd h.1.1 (UInt64.not_le.mpr hsize)
      · exact iff_of_false (by simp) fun h => absurd h.1.2 (UInt64.not_le.mpr hlimit)
      · simp [UInt64.not_lt.mp hsize, UInt64.not_lt.mp hlimit]
    · have hplace : call.place s memory = anywhere s.pgBump := by rw [place, if_neg haddress, if_neg hmax]
      rw [if_neg hmax, hplace]
      have hpasses : call.Passes s memory ↔ anywhere s.pgBump + call.size ≤ s.pgLimit := by
        constructor
        · intro h
          exact hplace ▸ h.limit
        · intro hlimit
          exact ⟨hpages, fun h => absurd h haddress, fun h => absurd h hmax, by rw [hplace]; exact hlimit⟩
      rw [hpasses]
      split_ifs with hlimit
      · exact iff_of_false (by simp) fun h => absurd h.1 (UInt64.not_le.mpr hlimit)
      · simp [UInt64.not_lt.mp hlimit]

theorem pos_of_passes (h : call.Passes s memory) : 0 < call.pages.toNat :=
  Nat.pos_of_ne_zero fun hzero => h.pages (UInt64.toNat_inj.mp hzero)

theorem place_of_max (htype : call.type = allocateMaxAddress) : call.place s memory = below memory call.size := by
  rw [place, if_neg (fun h => absurd (htype.symm.trans h) (by decide)), if_pos htype]

theorem le_below (max size : UInt64) : 0x200000 ≤ (below max size).toNat := by
  unfold below
  split_ifs with hlow
  · exact Nat.le_refl _
  · exact UInt64.le_iff_toNat_le.mp (UInt64.not_lt.mp hlow)

theorem below_add_le {max size : UInt64} (hsize : size ≤ max) (hroom : size.toNat + 0x1FFFFF ≤ max.toNat) :
    (below max size).toNat + size.toNat - 1 ≤ max.toNat := by
  have hround : ((max - size) &&& ~~~0xFFF).toNat = (max - size).toNat / 2 ^ 12 * 2 ^ 12 :=
    @toNat_and_not_mask (max - size) 12 (by omega)
  rw [UInt64.toNat_sub_of_le _ _ hsize] at hround
  unfold below
  split_ifs
  · simp only [UInt64.reduceToNat]
    omega
  · omega

theorem toNat_size (h : call.pages.toNat * 4096 < 2 ^ 64) : call.size.toNat = call.pages.toNat * 4096 := by
  rw [size, UInt64.toNat_mul]
  exact Nat.mod_eq_of_lt h

theorem usable_of_sound (hmemory : call.memory = some memory) (hpasses : call.Passes s memory)
    (hsound : call.Sound boot s memory) : call.Usable boot s (call.place s memory) := by
  have hfits := hsound.fits
  have hsize : call.pages.toNat * 4096 < 2 ^ 64 := by
    unfold stop at hfits
    omega
  have hend : (call.place s memory + call.size).toNat = call.stop (call.place s memory) := by
    rw [UInt64.toNat_add, toNat_size hsize]
    exact Nat.mod_eq_of_lt hfits
  refine ⟨hsize, ⟨hsound.above, hend ▸ UInt64.le_iff_toNat_le.mp hpasses.limit⟩, hsound.conventional,
    fun v _ hv => (Firmware.identityMapped_iff boot v).mpr (by have := hsound.paged; omega), ?_⟩
  intro htype max hmax
  obtain rfl := Option.some.inj (hmemory.symm.trans hmax)
  have hbelow := below_add_le (hpasses.max htype) (by rw [toNat_size hsize]; exact hsound.max htype)
  rwa [toNat_size hsize, ← place_of_max (s := s) htype] at hbelow

theorem sound_of_usable (hmemory : call.memory = some memory) (hpasses : call.Passes s memory)
    (husable : call.Usable boot s (call.place s memory)) : call.Sound boot s memory := by
  have hpos := pos_of_passes hpasses
  have hfits : call.stop (call.place s memory) < 2 ^ 64 :=
    lt_of_le_of_lt husable.inside.2 (UInt64.toNat_lt _)
  refine ⟨hfits, husable.inside.1, husable.conventional, ?_, ?_⟩
  · -- The last byte of the range is mapped.
    have hlast : (UInt64.ofNat (call.stop (call.place s memory) - 1)).toNat =
        call.stop (call.place s memory) - 1 :=
      UInt64.toNat_ofNat_of_lt' (show _ < 2 ^ 64 by omega)
    have hstart : (call.place s memory).toNat < call.stop (call.place s memory) := by
      unfold stop
      omega
    have hmapped := (Firmware.identityMapped_iff boot _).mp
      (husable.identity (UInt64.ofNat (call.stop (call.place s memory) - 1)) (by omega) (by omega))
    omega
  · intro htype
    have hmax := husable.max htype memory hmemory
    have hlow := le_below memory call.size
    rw [← place_of_max (s := s) htype] at hlow
    unfold stop at hmax
    omega

/-- **Page allocations are usable memory.** A range handed out by a successful call is usable exactly if, for a call
that passes the checks of the code, its range does not wrap around, lies above the first two megabytes, is
conventional memory byte by byte and was mapped, and for a maximum leaves room above the first two megabytes. -/
theorem granted_pages_usable_iff (boot : Memory) (s : Pages) (call : PageCall) :
    (∀ addr s', efiAllocatePages call s = (.success, some addr, s') → call.Usable boot s addr) ↔
      ∀ memory, call.memory = some memory → call.Passes s memory → call.Sound boot s memory := by
  constructor
  · intro h memory hmemory hpasses
    obtain ⟨s', hsuccess⟩ := success_iff.mpr ⟨memory, hmemory, hpasses, rfl⟩
    exact sound_of_usable hmemory hpasses (h _ s' hsuccess)
  · intro h addr s' hsuccess
    obtain ⟨memory, hmemory, hpasses, rfl⟩ := success_iff.mp ⟨s', hsuccess⟩
    exact usable_of_sound hmemory hpasses (h memory hmemory hpasses)

/-- A call for `2 ^ 52` pages, whose size in bytes is a multiple of `2 ^ 64`, in a machine with 3 GiB of RAM. -/
def everything : PageCall := ⟨allocateAddress, 0x10000000000000, some 0x200000⟩

def emptyHanded : Pages := ⟨Firmware.threeGib, 0x4000000, 0⟩

/-- It succeeds, although no memory is that large. -/
theorem everything_is_granted : ∃ addr s', efiAllocatePages everything emptyHanded = (.success, some addr, s') ∧
    ¬everything.Usable Firmware.threeGib emptyHanded addr := by
  obtain ⟨s', hsuccess⟩ : ∃ s', efiAllocatePages everything emptyHanded = (.success, some 0x200000, s') := by
    refine success_iff.mpr ⟨0x200000, rfl, ⟨by decide, fun _ => by decide, fun h => absurd h (by decide), ?_⟩, rfl⟩
    rw [Pages.pgLimit, show emptyHanded.mem = Firmware.threeGib from rfl, Firmware.ramTop_threeGib]
    decide
  exact ⟨0x200000, s', hsuccess, fun h => absurd h.size (by decide)⟩

end PageCall

end Efi

end FerrumVM
