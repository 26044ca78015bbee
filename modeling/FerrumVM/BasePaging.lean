import FerrumVM.BaseMemory

/-! Page tables of x86-64 in flat memory: entries of a table, and the walk of four levels from a root table to the
physical address of a virtual one. -/

namespace Base

namespace Memory

def entry (m : Memory) (table : UInt64) (i : Nat) : UInt64 := m.u64 (table + UInt64.ofNat (8 * i))

def setEntry (m : Memory) (table : UInt64) (i : Nat) (v : UInt64) : Memory :=
  m.store (table + UInt64.ofNat (8 * i)) (u64ToLe v)

end Memory

namespace Paging

/-- A page of its own. -/
structure Aligned (table : UInt64) : Prop where
  offset : table.toNat % 2 ^ 12 = 0

section Tables

variable {m : Memory} {table table' : UInt64} {i j : Nat}

theorem toNat_entryAddr (h : Aligned table) (hi : i < 512) :
    (table + UInt64.ofNat (8 * i)).toNat = table.toNat + 8 * i := by
  have hmod := h.offset
  have hlt := table.toNat_lt
  rw [UInt64.toNat_add, UInt64.toNat_ofNat', Nat.mod_eq_of_lt (a := 8 * i) (by omega), Nat.mod_eq_of_lt (by omega)]

/-- **Entries do not overlap.** -/
theorem entry_setEntry (h : Aligned table) (h' : Aligned table') (hi : i < 512) (hj : j < 512) (v : UInt64) :
    (m.setEntry table i v).entry table' j = if table' = table ∧ j = i then v else m.entry table' j := by
  unfold Memory.entry Memory.setEntry
  by_cases heq : table' = table ∧ j = i
  · rw [if_pos heq, heq.1, heq.2, Memory.u64_store_self]
  · rw [if_neg heq]
    have hmod := h.offset
    have hmod' := h'.offset
    have hlt := table.toNat_lt
    have hlt' := table'.toNat_lt
    have hne : table'.toNat ≠ table.toNat ∨ j ≠ i := by
      by_contra hboth
      rw [not_or, not_not, not_not] at hboth
      exact heq ⟨UInt64.toNat_inj.mp hboth.1, hboth.2⟩
    have haddr := toNat_entryAddr h hi
    have haddr' := toNat_entryAddr h' hj
    have hlength := length_u64ToLe v
    exact Memory.u64_store_of_apart (by omega) (by omega) (by omega)

theorem entry_foldl_setEntry (h : Aligned table) (h' : Aligned table') {n : Nat} (hn : n ≤ 512) (hj : j < 512)
    (f : Nat → UInt64) : ((List.range n).foldl (fun m i => m.setEntry table i (f i)) m).entry table' j =
      if table' = table ∧ j < n then f j else m.entry table' j := by
  induction n with
  | zero => simp
  | succ n ih =>
    rw [List.range_succ, List.foldl_append, List.foldl_cons, List.foldl_nil, entry_setEntry h h' (by omega) hj,
      ih (by omega)]
    by_cases htable : table' = table
    · by_cases hjn : j = n
      · simp [htable, hjn]
      · have hlt : j < n + 1 ↔ j < n := by omega
        simp [htable, hjn, hlt]
    · simp [htable]

end Tables

/-! ### The walk -/

/-- What a walk comes to. -/
inductive Translation where
  | mapped (physical : UInt64)
  | notPresent
  /-- A bit is set that must be zero. -/
  | reserved
  deriving DecidableEq, Repr

def bits (e : UInt64) (low width : Nat) : Nat := e.toNat / 2 ^ low % 2 ^ width

def present (e : UInt64) : Prop := bits e 0 1 = 1

/-- The entry maps a page itself. -/
def large (e : UInt64) : Prop := bits e 7 1 = 1

instance (e : UInt64) : Decidable (present e) := inferInstanceAs (Decidable (_ = _))
instance (e : UInt64) : Decidable (large e) := inferInstanceAs (Decidable (_ = _))

def frame (e : UInt64) : UInt64 := UInt64.ofNat (bits e 12 40 * 2 ^ 12)

/-- The address in the page of `2 ^ width` bytes that an entry maps. -/
def inPage (e v : UInt64) (width : Nat) : Translation :=
  .mapped (UInt64.ofNat (bits e width (52 - width) * 2 ^ width + bits v 0 width))

def walkPt (m : Memory) (table v : UInt64) : Translation :=
  let pte := m.entry table (bits v 12 9)
  if ¬present pte then .notPresent else inPage pte v 12

/-- A page directory may map pages of 2 MiB, which start at a multiple of their size. -/
def walkPd (m : Memory) (table v : UInt64) : Translation :=
  let pde := m.entry table (bits v 21 9)
  if ¬present pde then .notPresent
  else if large pde then if bits pde 13 8 ≠ 0 then .reserved else inPage pde v 21
  else walkPt m (frame pde) v

def walkPdpt (m : Memory) (table v : UInt64) : Translation :=
  let pdpte := m.entry table (bits v 30 9)
  if ¬present pdpte then .notPresent
  else if large pdpte then if bits pdpte 13 17 ≠ 0 then .reserved else inPage pdpte v 30
  else walkPd m (frame pdpte) v

def walk (m : Memory) (root v : UInt64) : Translation :=
  let pml4e := m.entry root (bits v 39 9)
  if ¬present pml4e then .notPresent
  else if large pml4e then .reserved
  else walkPdpt m (frame pml4e) v

/-- The upper bits are copies of bit 47. -/
def Canonical (v : UInt64) : Prop := v.toNat < 2 ^ 47 ∨ 2 ^ 64 - 2 ^ 47 ≤ v.toNat

structure Leads (e table : UInt64) : Prop where
  present : present e
  not_large : ¬large e
  frame_eq : frame e = table

/-- The entry of a directory maps the page of 2 MiB that starts at an address. -/
structure MapsHuge (e addr : UInt64) : Prop where
  present : present e
  large : large e
  reserved_eq : bits e 13 8 = 0
  page_eq : bits e 21 31 * 2 ^ 21 = addr.toNat

section Walk

variable {m : Memory} {root table table' v addr : UInt64}

theorem bits_lt (v : UInt64) (low : Nat) : bits v low 9 < 512 := Nat.mod_lt _ (by decide)

theorem not_present_zero : ¬present 0 := by decide

theorem walk_of_leads (h : Leads (m.entry root (bits v 39 9)) table) : walk m root v = walkPdpt m table v := by
  unfold walk
  rw [if_neg (not_not.mpr h.present), if_neg h.not_large, h.frame_eq]

theorem walk_of_zero (h : m.entry root (bits v 39 9) = 0) : walk m root v = .notPresent := by
  unfold walk
  rw [h, if_pos not_present_zero]

theorem walkPdpt_of_leads (h : Leads (m.entry table (bits v 30 9)) table') :
    walkPdpt m table v = walkPd m table' v := by
  unfold walkPdpt
  rw [if_neg (not_not.mpr h.present), if_neg h.not_large, h.frame_eq]

theorem walkPdpt_of_zero (h : m.entry table (bits v 30 9) = 0) : walkPdpt m table v = .notPresent := by
  unfold walkPdpt
  rw [h, if_pos not_present_zero]

theorem walkPd_of_mapsHuge (h : MapsHuge (m.entry table (bits v 21 9)) addr) :
    walkPd m table v = .mapped (UInt64.ofNat (addr.toNat + v.toNat % 2 ^ 21)) := by
  unfold walkPd
  rw [if_neg (not_not.mpr h.present), if_pos h.large, if_neg (not_not.mpr h.reserved_eq), inPage, h.page_eq]
  simp [bits]

theorem walkPd_of_zero (h : m.entry table (bits v 21 9) = 0) : walkPd m table v = .notPresent := by
  unfold walkPd
  rw [h, if_pos not_present_zero]

end Walk

end Paging

end Base
