import Mathlib.Data.List.Basic
import FerrumVM.BasePaging
import FerrumVM.MemMap

/-! The page tables that the firmware sets up before it enters long mode, `paging_init` of `headers/paging.h`. Twelve
tables at fixed addresses are cleared, linked and filled; the walk through them maps the RAM that the memory map tells
of to itself, and the highest 2 MiB to the device registers at 16 GiB. -/

namespace FerrumVM

open Base Paging

namespace Firmware

def pagePresent : UInt64 := (1 : UInt64) <<< 0
def pageWrite : UInt64 := (1 : UInt64) <<< 1
def pageHuge : UInt64 := (1 : UInt64) <<< 7
def pageUser : UInt64 := (1 : UInt64) <<< 2

def pml4Addr : UInt64 := 0x60000
def pdptAddr : UInt64 := 0x61000
def pd0Addr : UInt64 := 0x62000
def pd1Addr : UInt64 := 0x64000
def pd2Addr : UInt64 := 0x67000
def pd3Addr : UInt64 := 0x68000
def pd4Addr : UInt64 := 0x69000
def pd5Addr : UInt64 := 0x6A000
def pd6Addr : UInt64 := 0x6B000
def pd7Addr : UInt64 := 0x6C000
def pdpt2Addr : UInt64 := 0x65000
def pd9Addr : UInt64 := 0x66000

def gb : UInt64 := 0x40000000
def hugePage : UInt64 := 0x200000
def maxRamGb : UInt32 := 8

/-- The bits of an entry in which the address of a page stands. -/
def addrMask : UInt64 := 0x000FFFFFFFFFF000

def linkEntry (table : UInt64) : UInt64 := (table &&& addrMask) ||| pagePresent ||| pageWrite

def hugeEntry (addr : UInt64) : UInt64 := (addr &&& addrMask) ||| pagePresent ||| pageWrite ||| pageHuge ||| pageUser

def tables : List UInt64 :=
  [pml4Addr, pdptAddr, pd0Addr, pd1Addr, pd2Addr, pd3Addr, pd4Addr, pd5Addr, pd6Addr, pd7Addr, pdpt2Addr, pd9Addr]

def clearEntries (m : Memory) (i : Nat) : Memory := tables.foldl (fun m table => m.setEntry table i 0) m

def clearTables (m : Memory) : Memory := (List.range 512).foldl clearEntries m

def ramSizeBytes (m : Memory) : UInt64 := memmapRamTop m

/-- The number of GiB that are mapped, as `paging_init` computes it. -/
def ramGb (m : Memory) : UInt32 :=
  let ramGb := ((ramSizeBytes m + gb - 1) / gb).toUInt32
  let ramGb := if ramGb = 0 then 1 else ramGb
  if maxRamGb < ramGb then maxRamGb else ramGb

/-- `ram_pd`. -/
def ramPd : List UInt64 := [pd0Addr, pd1Addr, pd2Addr, pd3Addr, pd4Addr, pd5Addr, pd6Addr, pd7Addr]

/-- One round of the loop over the RAM: a directory is linked, and its entries map one GiB. -/
def mapGb (m : Memory) (i : Nat) : Memory :=
  let pdgb := ramPd.getD i 0
  let m := m.setEntry pdptAddr i (linkEntry pdgb)
  (List.range 512).foldl (fun m j => m.setEntry pdgb j (hugeEntry (UInt64.ofNat i * gb + UInt64.ofNat j * hugePage))) m

/-- The memory that `paging_init` leaves, and what it loads into `cr3`. -/
def pagingInit (m : Memory) : Memory × UInt64 :=
  let m := clearTables m
  let m := m.setEntry pml4Addr 0 (linkEntry pdptAddr)
  let m := (List.range (ramGb m).toNat).foldl mapGb m
  let m := m.setEntry pml4Addr 511 (linkEntry pdpt2Addr)
  let m := m.setEntry pdpt2Addr 511 (linkEntry pd9Addr)
  let m := m.setEntry pd9Addr 511 (hugeEntry 0x400000000)
  (m, pml4Addr &&& addrMask)

/-! ### The tables -/

variable {m : Memory} {table : UInt64} {i j : Nat}

section

variable (h : table ∈ tables)
include h

theorem place_of_mem : table.toNat % 2 ^ 12 = 0 ∧ 0x60000 ≤ table.toNat ∧ table.toNat < 0x70000 := by
  have hall : tables.all (fun t => t.toNat % 2 ^ 12 = 0 ∧ 0x60000 ≤ t.toNat ∧ t.toNat < 0x70000) = true := by decide
  exact of_decide_eq_true (List.all_eq_true.mp hall table h)

theorem aligned_of_mem : Aligned table := ⟨(place_of_mem h).1⟩

theorem entry_clearEntries (hi : i < 512) (hj : j < 512) :
    (clearEntries m i).entry table j = if j = i then 0 else m.entry table j := by
  have hfold (ts : List UInt64) (hts : ∀ t ∈ ts, Aligned t) (m : Memory) :
      (ts.foldl (fun m t => m.setEntry t i 0) m).entry table j =
        if table ∈ ts ∧ j = i then 0 else m.entry table j := by
    induction ts generalizing m with
    | nil => simp
    | cons t ts ih =>
      rw [List.foldl_cons, ih fun t ht => hts t (List.mem_cons_of_mem _ ht),
        entry_setEntry (hts t List.mem_cons_self) (aligned_of_mem h) hi hj]
      by_cases hji : j = i
      · by_cases hmem : table ∈ ts
        · simp [hji, hmem]
        · by_cases ht : table = t
          · simp [hji, ht]
          · simp [hmem, ht]
      · simp [hji]
  rw [clearEntries, hfold tables (fun t ht => aligned_of_mem ht) m]
  simp [h]

theorem entry_clearTables (hj : j < 512) : (clearTables m).entry table j = 0 := by
  have hfold (n : Nat) (hn : n ≤ 512) :
      ((List.range n).foldl clearEntries m).entry table j = if j < n then 0 else m.entry table j := by
    induction n with
    | zero => simp
    | succ n ih =>
      rw [List.range_succ, List.foldl_append, List.foldl_cons, List.foldl_nil, entry_clearEntries h (by omega) hj,
        ih (by omega)]
      by_cases hjn : j = n
      · simp [hjn]
      · have hlt : j < n + 1 ↔ j < n := by omega
        simp [hjn, hlt]
  rw [clearTables, hfold 512 (by omega), if_pos hj]

end

theorem ramPd_mem (h : i < 8) : ramPd.getD i 0 ∈ tables ∧ ramPd.getD i 0 ∈ ramPd ∧
    ramPd.getD i 0 ∉ [pml4Addr, pdptAddr, pdpt2Addr, pd9Addr] := by
  have hall : ∀ i < 8, ramPd.getD i 0 ∈ tables ∧ ramPd.getD i 0 ∈ ramPd ∧
      ramPd.getD i 0 ∉ [pml4Addr, pdptAddr, pdpt2Addr, pd9Addr] := by decide
  exact hall i h

theorem ramPd_ne_pdptAddr (h : i < 8) : ramPd.getD i 0 ≠ pdptAddr := by
  intro heq
  have hnotMem := (ramPd_mem h).2.2
  rw [heq] at hnotMem
  exact hnotMem (by decide)

theorem ramPd_inj (hi : i < 8) (hj : j < 8) : ramPd.getD i 0 = ramPd.getD j 0 ↔ i = j := by
  have hall : ∀ i < 8, ∀ j < 8, ramPd.getD i 0 = ramPd.getD j 0 ↔ i = j := by decide
  exact hall i hi j hj

def ramPage (i j : Nat) : UInt64 := UInt64.ofNat i * gb + UInt64.ofNat j * hugePage

theorem entry_mapGb (h : table ∈ tables) (hi : i < 8) (hj : j < 512) : (mapGb m i).entry table j =
      if table = ramPd.getD i 0 then hugeEntry (ramPage i j)
      else if table = pdptAddr ∧ j = i then linkEntry (ramPd.getD i 0) else m.entry table j := by
  have hpd := (ramPd_mem hi).1
  have hpdpt : pdptAddr ∈ tables := by decide
  unfold mapGb
  rw [entry_foldl_setEntry (aligned_of_mem hpd) (aligned_of_mem h) (Nat.le_refl _) hj,
    entry_setEntry (aligned_of_mem hpdpt) (aligned_of_mem h) (by omega) hj]
  simp only [hj, and_true]
  rfl

/-- The tables for RAM after some rounds of the loop, and the tables that the loop leaves alone. -/
structure RamMapped (m m' : Memory) (count : Nat) : Prop where
  links : ∀ j < 512, m'.entry pdptAddr j = if j < count then linkEntry (ramPd.getD j 0) else m.entry pdptAddr j
  pages : ∀ i < count, ∀ j < 512, m'.entry (ramPd.getD i 0) j = hugeEntry (ramPage i j)
  others : ∀ table ∈ tables, table ≠ pdptAddr → table ∉ ramPd → ∀ j < 512, m'.entry table j = m.entry table j

theorem ramMapped_foldl (m : Memory) {count : Nat} (hcount : count ≤ 8) :
    RamMapped m ((List.range count).foldl mapGb m) count := by
  induction count with
  | zero => exact ⟨fun j _ => by simp, nofun, fun _ _ _ _ _ _ => rfl⟩
  | succ n ih =>
    have hn : n < 8 := hcount
    obtain ⟨hlinks, hpages, hothers⟩ := ih (by omega)
    rw [List.range_succ, List.foldl_append, List.foldl_cons, List.foldl_nil]
    generalize (List.range n).foldl mapGb m = m' at hlinks hpages hothers
    refine ⟨fun j hj => ?_, fun i hi j hj => ?_, fun table hmem hpdpt hram j hj => ?_⟩
    · rw [entry_mapGb (by decide) hn hj, if_neg (ramPd_ne_pdptAddr hn).symm, hlinks j hj]
      by_cases hjn : j = n
      · simp [hjn]
      · have hlt : j < n + 1 ↔ j < n := by omega
        simp [hjn, hlt]
    · have hi8 : i < 8 := by omega
      rw [entry_mapGb (ramPd_mem hi8).1 hn hj]
      by_cases hin : i = n
      · rw [hin, if_pos rfl]
      · rw [if_neg (mt (ramPd_inj hi8 hn).mp hin), if_neg fun h => ramPd_ne_pdptAddr hi8 h.1, hpages i (by omega) j hj]
    · have hne : table ≠ ramPd.getD n 0 := by
        rintro rfl
        exact hram (ramPd_mem hn).2.1
      rw [entry_mapGb hmem hn hj, if_neg hne, if_neg fun h => hpdpt h.1, hothers table hmem hpdpt hram j hj]

/-! ### The memory map is read as it was -/

theorem sameBelow_setEntry (h : table ∈ tables) (hi : i < 512) (v : UInt64) :
    Memory.SameBelow 0x60000 m (m.setEntry table i v) := by
  have hplace := place_of_mem h
  have haddr := toNat_entryAddr (aligned_of_mem h) hi
  have hlength := length_u64ToLe v
  exact fun a ha => Memory.store_of_outside (by omega) (by omega)

theorem sameBelow_clearTables (m : Memory) : Memory.SameBelow 0x60000 m (clearTables m) := by
  have hround (ts : List UInt64) (hts : ∀ t ∈ ts, t ∈ tables) (i : Nat) (hi : i < 512) (m : Memory) :
      Memory.SameBelow 0x60000 m (ts.foldl (fun m t => m.setEntry t i 0) m) := by
    induction ts generalizing m with
    | nil => exact fun _ _ => rfl
    | cons t ts ih =>
      intro a ha
      rw [List.foldl_cons, ih (fun t ht => hts t (List.mem_cons_of_mem _ ht)) _ a ha]
      exact sameBelow_setEntry (hts t List.mem_cons_self) hi 0 a ha
  have hrounds (n : Nat) (hn : n ≤ 512) : Memory.SameBelow 0x60000 m ((List.range n).foldl clearEntries m) := by
    induction n with
    | zero => exact fun _ _ => rfl
    | succ n ih =>
      intro a ha
      rw [List.range_succ, List.foldl_append, List.foldl_cons, List.foldl_nil]
      exact (hround tables (fun _ => id) n hn _ a ha).trans (ih (by omega) a ha)
  exact hrounds 512 (Nat.le_refl _)

theorem memmapRamTop_of_sameBelow {m' : Memory} (h : Memory.SameBelow 0x60000 m m') : memmapRamTop m' = memmapRamTop m := by
  have hmgk : headerMgkNum m' = headerMgkNum m := Memory.u32_of_sameBelow h (by decide)
  have hlength : headerLength m' = headerLength m := Memory.u32_of_sameBelow h (by decide)
  have hentry (k : Nat) (hk : k < 32) :
      readEntry m' (entryAddr (UInt32.ofNat k)) = readEntry m (entryAddr (UInt32.ofNat k)) := by
    have haddr : (entryAddr (UInt32.ofNat k)).toNat = 0x7008 + 20 * k := by
      rw [entryAddr_eq (by omega), UInt64.toNat_add, UInt64.toNat_ofNat']
      simp only [memmapAddr, UInt64.reduceToNat]
      omega
    have hend : (entryAddr (UInt32.ofNat k) + 8).toNat = 0x7010 + 20 * k := by
      simp only [UInt64.toNat_add, haddr, UInt64.reduceToNat]
      omega
    have htype : (entryAddr (UInt32.ofNat k) + 16).toNat = 0x7018 + 20 * k := by
      simp only [UInt64.toNat_add, haddr, UInt64.reduceToNat]
      omega
    unfold readEntry
    rw [Memory.u64_of_sameBelow h (by omega), Memory.u64_of_sameBelow h (by omega), Memory.u32_of_sameBelow h (by omega)]
  unfold memmapRamTop
  rw [hmgk, hlength]
  by_cases habsent : headerMgkNum m ≠ memmapMgkNum ∨ headerLength m = 0
  · rw [if_pos habsent, if_pos habsent]
  · rw [if_neg habsent, if_neg habsent]
    refine List.foldl_ext _ _ _ fun top k hk => ?_
    have hmax : memmapMaxEntries.toNat = 32 := rfl
    have hklt := List.mem_range.mp hk
    split_ifs at hklt with hmany
    · rw [hentry k (by omega)]
    · rw [UInt32.not_lt, UInt32.le_iff_toNat_le] at hmany
      rw [hentry k (by omega)]

/-! ### The entries -/

theorem toNat_and_addrMask (x : UInt64) : (x &&& addrMask).toNat = x.toNat / 2 ^ 12 * 2 ^ 12 % 2 ^ 52 := by
  have hmask : addrMask = ~~~(UInt64.ofNat (2 ^ 12 - 1)) &&& UInt64.ofNat (2 ^ 52 - 1) := by decide
  rw [hmask, ← UInt64.and_assoc, UInt64.toNat_and, toNat_and_not_mask x (by decide)]
  exact Nat.and_two_pow_sub_one_eq_mod _ 52

theorem toNat_or_flags {x flags : UInt64} (hx : x.toNat % 2 ^ 12 = 0) (hflags : flags.toNat < 2 ^ 12) :
    (x ||| flags).toNat = x.toNat + flags.toNat := by
  have hquot : x.toNat = 2 ^ 12 * (x.toNat / 2 ^ 12) := by omega
  rw [UInt64.toNat_or, hquot, Nat.two_pow_add_eq_or_of_lt hflags]

theorem toNat_linkEntry {table : UInt64} (h : table.toNat % 2 ^ 12 = 0) (hlt : table.toNat < 2 ^ 52) :
    (linkEntry table).toNat = table.toNat + 3 := by
  have hflags : linkEntry table = (table &&& addrMask) ||| 3 := UInt64.or_assoc ..
  have hmask := toNat_and_addrMask table
  rw [hflags, toNat_or_flags (by omega) (by decide)]
  show _ + 3 = _
  omega

theorem toNat_hugeEntry (addr : UInt64) (h : addr.toNat % 2 ^ 12 = 0) (hlt : addr.toNat < 2 ^ 52) :
    (hugeEntry addr).toNat = addr.toNat + 0x87 := by
  have hflags : hugeEntry addr = (addr &&& addrMask) ||| 0x87 := by
    unfold hugeEntry
    rw [UInt64.or_assoc, UInt64.or_assoc, UInt64.or_assoc]
    rfl
  have hmask := toNat_and_addrMask addr
  rw [hflags, toNat_or_flags (by omega) (by decide)]
  show _ + 0x87 = _
  omega

theorem leads_linkEntry (h : table ∈ tables) : Leads (linkEntry table) table := by
  have hplace := place_of_mem h
  have hentry := toNat_linkEntry hplace.1 (by omega)
  refine ⟨?_, ?_, ?_⟩
  · unfold present bits
    omega
  · unfold large bits
    omega
  · apply UInt64.toNat_inj.mp
    rw [frame, bits, UInt64.toNat_ofNat', hentry]
    omega

theorem mapsHuge_hugeEntry {addr : UInt64} (h : addr.toNat % 2 ^ 21 = 0) (hlt : addr.toNat < 2 ^ 52) :
    MapsHuge (hugeEntry addr) addr := by
  have hentry := toNat_hugeEntry addr (by omega) hlt
  refine ⟨?_, ?_, ?_, ?_⟩
  · unfold present bits
    omega
  · unfold large bits
    omega
  · unfold bits
    omega
  · unfold bits
    omega

/-! ### What is mapped -/

structure Mapped (m : Memory) (count : Nat) : Prop where
  root : ∀ j < 512, m.entry pml4Addr j =
    if j = 0 then linkEntry pdptAddr else if j = 511 then linkEntry pdpt2Addr else 0
  links : ∀ j < 512, m.entry pdptAddr j = if j < count then linkEntry (ramPd.getD j 0) else 0
  pages : ∀ i < count, ∀ j < 512, m.entry (ramPd.getD i 0) j = hugeEntry (ramPage i j)
  link : ∀ j < 512, m.entry pdpt2Addr j = if j = 511 then linkEntry pd9Addr else 0
  page : ∀ j < 512, m.entry pd9Addr j = if j = 511 then hugeEntry 0x400000000 else 0

theorem ramGb_le (m : Memory) : (ramGb m).toNat ≤ 8 := by
  have hmax : maxRamGb.toNat = 8 := rfl
  unfold ramGb
  dsimp only
  generalize (if ((ramSizeBytes m + gb - 1) / gb).toUInt32 = 0 then 1 else ((ramSizeBytes m + gb - 1) / gb).toUInt32) = n
  split_ifs with h
  · exact Nat.le_refl _
  · rw [UInt32.not_lt, UInt32.le_iff_toNat_le] at h
    omega

theorem mapped_pagingInit (m : Memory) : Mapped (pagingInit m).1 (ramGb m).toNat := by
  have hpml4 : pml4Addr ∈ tables := by decide
  have hpdpt2 : pdpt2Addr ∈ tables := by decide
  have hpd9 : pd9Addr ∈ tables := by decide
  have hsame : Memory.SameBelow 0x60000 m ((clearTables m).setEntry pml4Addr 0 (linkEntry pdptAddr)) := fun a ha =>
    (sameBelow_setEntry hpml4 (by omega) _ a ha).trans (sameBelow_clearTables m a ha)
  have hgb : ramGb ((clearTables m).setEntry pml4Addr 0 (linkEntry pdptAddr)) = ramGb m := by
    unfold ramGb ramSizeBytes
    rw [memmapRamTop_of_sameBelow hsame]
  have hclear (table : UInt64) (h : table ∈ tables) (j : Nat) (hj : j < 512) :
      ((clearTables m).setEntry pml4Addr 0 (linkEntry pdptAddr)).entry table j =
        if table = pml4Addr ∧ j = 0 then linkEntry pdptAddr else 0 := by
    rw [entry_setEntry (aligned_of_mem hpml4) (aligned_of_mem h) (by omega) hj, entry_clearTables h hj]
  unfold pagingInit
  dsimp only
  rw [hgb]
  have hram := ramMapped_foldl ((clearTables m).setEntry pml4Addr 0 (linkEntry pdptAddr)) (ramGb_le m)
  generalize (List.range (ramGb m).toNat).foldl mapGb _ = m' at hram
  have hlast (table : UInt64) (h : table ∈ tables) (j : Nat) (hj : j < 512) :
      (((m'.setEntry pml4Addr 511 (linkEntry pdpt2Addr)).setEntry pdpt2Addr 511 (linkEntry pd9Addr)).setEntry pd9Addr 511
        (hugeEntry 0x400000000)).entry table j =
        if table = pd9Addr ∧ j = 511 then hugeEntry 0x400000000
        else if table = pdpt2Addr ∧ j = 511 then linkEntry pd9Addr
        else if table = pml4Addr ∧ j = 511 then linkEntry pdpt2Addr else m'.entry table j := by
    rw [entry_setEntry (aligned_of_mem hpd9) (aligned_of_mem h) (by omega) hj,
      entry_setEntry (aligned_of_mem hpdpt2) (aligned_of_mem h) (by omega) hj,
      entry_setEntry (aligned_of_mem hpml4) (aligned_of_mem h) (by omega) hj]
  have hroot : pml4Addr ≠ pdpt2Addr ∧ pml4Addr ≠ pd9Addr ∧ pdptAddr ≠ pml4Addr := by decide
  have hlinks : pdptAddr ≠ pdpt2Addr ∧ pdptAddr ≠ pd9Addr ∧ pdpt2Addr ≠ pd9Addr := by decide
  refine ⟨fun j hj => ?_, fun j hj => ?_, fun i hi j hj => ?_, fun j hj => ?_, fun j hj => ?_⟩
  · rw [hlast pml4Addr hpml4 j hj, hram.others pml4Addr hpml4 (by decide) (by decide) j hj, hclear pml4Addr hpml4 j hj]
    by_cases hzero : j = 0 <;> simp [hzero, hroot]
  · rw [hlast pdptAddr (by decide) j hj, hram.links j hj, hclear pdptAddr (by decide) j hj]
    simp [hroot, hlinks]
  · have hplace := ramPd_mem (i := i) (by have := ramGb_le m; omega)
    simp only [List.mem_cons, List.not_mem_nil, or_false, not_or] at hplace
    obtain ⟨hmem, -, hpml4', -, hpdpt2', hpd9'⟩ := hplace
    rw [hlast _ hmem j hj, if_neg fun h => hpd9' h.1, if_neg fun h => hpdpt2' h.1, if_neg fun h => hpml4' h.1,
      hram.pages i hi j hj]
  · rw [hlast pdpt2Addr hpdpt2 j hj, hram.others pdpt2Addr hpdpt2 (by decide) (by decide) j hj,
      hclear pdpt2Addr hpdpt2 j hj]
    simp [hroot.1.symm, hlinks]
  · rw [hlast pd9Addr hpd9 j hj, hram.others pd9Addr hpd9 (by decide) (by decide) j hj, hclear pd9Addr hpd9 j hj]
    simp [hroot.2.1.symm, hlinks.2.2.symm]

/-- The number of GiB that hold the RAM, from one to eight. -/
def coveringGb (top : Nat) : Nat := min 8 (max 1 ((top + (2 ^ 30 - 1)) / 2 ^ 30))

theorem toNat_ramGb (h : (memmapRamTop m).toNat < 2 ^ 61) : (ramGb m).toNat = coveringGb (memmapRamTop m).toNat := by
  have hgb : gb.toNat = 2 ^ 30 := rfl
  have hsum : (ramSizeBytes m + gb - 1).toNat = (memmapRamTop m).toNat + (2 ^ 30 - 1) := by
    rw [UInt64.toNat_sub, UInt64.toNat_add, hgb, UInt64.toNat_one, ramSizeBytes]
    omega
  have hquot : ((ramSizeBytes m + gb - 1) / gb).toUInt32.toNat = ((memmapRamTop m).toNat + (2 ^ 30 - 1)) / 2 ^ 30 := by
    rw [UInt64.toNat_toUInt32, UInt64.toNat_div, hsum, hgb]
    omega
  unfold ramGb coveringGb
  dsimp only
  generalize ((ramSizeBytes m + gb - 1) / gb).toUInt32 = n at hquot
  rw [← hquot]
  have hzero : n = 0 ↔ n.toNat = 0 := UInt32.toNat_inj.symm
  have hmax (k : UInt32) : maxRamGb < k ↔ 8 < k.toNat := UInt32.lt_iff_toNat_lt
  have height : maxRamGb.toNat = 8 := rfl
  by_cases hn : n = 0
  · subst hn
    rfl
  · rw [if_neg hn]
    split_ifs with hlarge
    · have := (hmax n).mp hlarge
      omega
    · have := mt (hmax n).mpr hlarge
      have := mt hzero.mpr hn
      omega

/-! ### The walk -/

theorem toNat_ramPage (hi : i < 8) (hj : j < 512) : (ramPage i j).toNat = i * 2 ^ 30 + j * 2 ^ 21 := by
  have hgb : gb.toNat = 2 ^ 30 := rfl
  have hhuge : hugePage.toNat = 2 ^ 21 := rfl
  rw [ramPage, UInt64.toNat_add, UInt64.toNat_mul, UInt64.toNat_mul, UInt64.toNat_ofNat', UInt64.toNat_ofNat', hgb, hhuge]
  omega

section Walk

variable {count : Nat} {v : UInt64}

theorem walkPdpt_ram (h : Mapped m count) (hcount : count ≤ 8) (hv : v.toNat < 2 ^ 39) :
    walkPdpt m pdptAddr v = if v.toNat < count * 2 ^ 30 then .mapped v else .notPresent := by
  have hindex : bits v 30 9 = v.toNat / 2 ^ 30 := by
    unfold bits
    omega
  have hentry := h.links (bits v 30 9) (bits_lt v 30)
  by_cases hram : bits v 30 9 < count
  · have hpd := h.pages _ hram (bits v 21 9) (bits_lt v 21)
    have haddr := toNat_ramPage (Nat.lt_of_lt_of_le hram hcount) (bits_lt v 21)
    have hpage : bits v 21 9 = v.toNat / 2 ^ 21 % 512 := rfl
    rw [if_pos hram] at hentry
    rw [walkPdpt_of_leads (hentry ▸ leads_linkEntry (ramPd_mem (by omega)).1),
      walkPd_of_mapsHuge (hpd ▸ mapsHuge_hugeEntry (by omega) (by omega)), if_pos (by omega)]
    have hsum : (ramPage (bits v 30 9) (bits v 21 9)).toNat + v.toNat % 2 ^ 21 = v.toNat := by omega
    rw [hsum, UInt64.ofNat_toNat]
  · rw [if_neg hram] at hentry
    rw [walkPdpt_of_zero hentry, if_neg (by omega)]

theorem registerAddr_eq (hv : 2 ^ 64 - 2 ^ 21 ≤ v.toNat) :
    UInt64.ofNat ((0x400000000 : UInt64).toNat + v.toNat % 2 ^ 21) = 0x400000000 + (v - 0xFFFFFFFFFFE00000) := by
  have hlt := v.toNat_lt
  apply UInt64.toNat_inj.mp
  rw [UInt64.toNat_ofNat', UInt64.toNat_add, UInt64.toNat_sub]
  simp only [UInt64.reduceToNat]
  omega

theorem walkPdpt_registers (h : Mapped m count) (hv : 2 ^ 64 - 2 ^ 39 ≤ v.toNat) :
    walkPdpt m pdpt2Addr v = if 0xFFFFFFFFFFE00000 ≤ v then .mapped (0x400000000 + (v - 0xFFFFFFFFFFE00000))
      else .notPresent := by
  have hlt := v.toNat_lt
  have hbase : 0xFFFFFFFFFFE00000 ≤ v ↔ 2 ^ 64 - 2 ^ 21 ≤ v.toNat := UInt64.le_iff_toNat_le
  have hlink := h.link (bits v 30 9) (bits_lt v 30)
  have hpage := h.page (bits v 21 9) (bits_lt v 21)
  have hthird : bits v 30 9 = v.toNat / 2 ^ 30 % 512 := rfl
  have hsecond : bits v 21 9 = v.toNat / 2 ^ 21 % 512 := rfl
  by_cases hi : bits v 30 9 = 511
  · rw [if_pos hi] at hlink
    rw [walkPdpt_of_leads (hlink ▸ leads_linkEntry (by decide))]
    by_cases hj : bits v 21 9 = 511
    · rw [if_pos hj] at hpage
      rw [walkPd_of_mapsHuge (hpage ▸ mapsHuge_hugeEntry (by decide) (by decide)), registerAddr_eq (by omega),
        if_pos (hbase.mpr (by omega))]
    · rw [if_neg hj] at hpage
      rw [walkPd_of_zero hpage, if_neg (mt hbase.mp (by omega))]
  · rw [if_neg hi] at hlink
    rw [walkPdpt_of_zero hlink, if_neg (mt hbase.mp (by omega))]

theorem walk_pagingInit (m : Memory) (hv : Canonical v) : walk (pagingInit m).1 pml4Addr v =
      if v.toNat < (ramGb m).toNat * 2 ^ 30 then .mapped v
      else if 0xFFFFFFFFFFE00000 ≤ v then .mapped (0x400000000 + (v - 0xFFFFFFFFFFE00000))
      else .notPresent := by
  have h := mapped_pagingInit m
  have hcount := ramGb_le m
  generalize (ramGb m).toNat = count at h hcount
  have hlt := v.toNat_lt
  have hbase : 0xFFFFFFFFFFE00000 ≤ v ↔ 2 ^ 64 - 2 ^ 21 ≤ v.toNat := UInt64.le_iff_toNat_le
  have hroot := h.root (bits v 39 9) (bits_lt v 39)
  have hindex : bits v 39 9 = v.toNat / 2 ^ 39 % 512 := rfl
  unfold Canonical at hv
  by_cases hlow : bits v 39 9 = 0
  · rw [if_pos hlow] at hroot
    rw [walk_of_leads (hroot ▸ leads_linkEntry (by decide)), walkPdpt_ram h hcount (by omega),
      if_neg (c := 0xFFFFFFFFFFE00000 ≤ v) (mt hbase.mp (by omega))]
  · rw [if_neg hlow] at hroot
    rw [if_neg (c := v.toNat < count * 2 ^ 30) (by omega)]
    by_cases hhigh : bits v 39 9 = 511
    · rw [if_pos hhigh] at hroot
      rw [walk_of_leads (hroot ▸ leads_linkEntry (by decide)), walkPdpt_registers h (by omega)]
    · rw [if_neg hhigh] at hroot
      rw [walk_of_zero hroot, if_neg (mt hbase.mp (by omega))]

/-- **Early paging is the intended map.** RAM up to eight GiB is mapped to itself, the highest 2 MiB to the registers
of the devices, and nothing else is mapped. -/
theorem paging_is_intended (m : Memory) (v : UInt64) (htop : (memmapRamTop m).toNat < 2 ^ 61) (hv : Canonical v) :
    walk (pagingInit m).1 pml4Addr v =
      if v.toNat < coveringGb (memmapRamTop m).toNat * 2 ^ 30 then .mapped v
      else if 0xFFFFFFFFFFE00000 ≤ v then .mapped (0x400000000 + (v - 0xFFFFFFFFFFE00000))
      else .notPresent := by
  rw [walk_pagingInit m hv, toNat_ramGb htop]

/-- A memory map with 3 GiB of RAM, in a memory that is zero elsewhere. -/
def threeGib : Memory :=
  Memory.store (fun _ => 0) memmapAddr (MemMap.encoded [⟨0, 0xC0000000, efiConventionalMemory⟩])

theorem ramTop_threeGib : memmapRamTop threeGib = 0xC0000000 := by decide

/-- The last byte of 3 GiB of RAM is mapped, and the byte behind it is not. -/
theorem three_gib_are_mapped : walk (pagingInit threeGib).1 pml4Addr 0xBFFFFFFF = .mapped 0xBFFFFFFF ∧
    walk (pagingInit threeGib).1 pml4Addr 0xC0000000 = .notPresent := by
  have htop : (memmapRamTop threeGib).toNat < 2 ^ 61 := by
    rw [ramTop_threeGib]
    decide
  refine ⟨?_, ?_⟩
  · rw [paging_is_intended threeGib _ htop (Or.inl (by decide)), ramTop_threeGib]
    decide
  · rw [paging_is_intended threeGib _ htop (Or.inl (by decide)), ramTop_threeGib]
    decide

end Walk

end Firmware

end FerrumVM
