import FerrumVM.RingProtocol

/-! Ranges of guest memory. Two ranges lie apart when no byte belongs to both; a change of memory is
framed by the ranges it writes, and what lies apart from them all is as it was. These are the rules by
which what a device stores for one chain is known to leave the rings and the other chains alone. -/

namespace FerrumVM

open Base

/-- No byte of the `n` from `a` on is one of the `k` from `b` on. -/
def Apart (a : UInt64) (n : Nat) (b : UInt64) (k : Nat) : Prop :=
  a.toNat + n ≤ b.toNat ∨ b.toNat + k ≤ a.toNat

instance (a : UInt64) (n : Nat) (b : UInt64) (k : Nat) : Decidable (Apart a n b k) :=
  inferInstanceAs (Decidable (_ ∨ _))

theorem Apart.symm {a b : UInt64} {n k : Nat} (h : Apart a n b k) : Apart b k a n := Or.symm h

/-- The `k` bytes from `b` on are among the `n` from `a` on. -/
def Covers (a : UInt64) (n : Nat) (b : UInt64) (k : Nat) : Prop :=
  a.toNat ≤ b.toNat ∧ b.toNat + k ≤ a.toNat + n

theorem Apart.of_covers {a b b' : UInt64} {n k k' : Nat} (h : Apart a n b k) (hin : Covers b k b' k') :
    Apart a n b' k' := by
  unfold Apart Covers at *
  omega

theorem Covers.refl (a : UInt64) (n : Nat) : Covers a n a n := ⟨le_rfl, le_rfl⟩

theorem Covers.trans {a b c : UInt64} {n k j : Nat} (h : Covers a n b k) (h' : Covers b k c j) : Covers a n c j := by
  unfold Covers at *
  omega

theorem Covers.offset {a : UInt64} {n o k : Nat} (hfit : a.toNat + n ≤ 2 ^ 64) (hk : 0 < k)
    (hin : o + k ≤ n) : Covers a n (a + UInt64.ofNat o) k := by
  have hsum : (a + UInt64.ofNat o).toNat = a.toNat + o := by
    rw [UInt64.toNat_add, UInt64.toNat_ofNat', Nat.mod_eq_of_lt (by omega : o < 2 ^ 64), Nat.mod_eq_of_lt (by omega)]
  unfold Covers
  omega

namespace Ram

variable {m m' m'' : Ram} {addr from' : UInt64} {n k : Nat} {data : Bytes} {ranges : List (UInt64 × Nat)}

/-! ### What a change leaves -/

/-- Only bytes of the ranges have changed, and the same addresses are backed as before. -/
structure Frame (ranges : List (UInt64 × Nat)) (m m' : Ram) : Prop where
  lands : landsIn m'.regions = landsIn m.regions
  load : ∀ addr n, (∀ r ∈ ranges, Apart r.1 r.2 addr n) → m'.load addr n = m.load addr n

theorem Frame.refl (ranges : List (UInt64 × Nat)) (m : Ram) : Frame ranges m m := ⟨rfl, fun _ _ _ => rfl⟩

theorem Frame.store (m : Ram) (addr : UInt64) (data : Bytes) : Frame [(addr, data.length)] m (m.store addr data) where
  lands := (storeIn_geometry addr data m.regions).landsIn_eq
  load _ _ happart := load_store_of_disjoint m (happart _ (List.mem_singleton_self _))

theorem Frame.mono {ranges' : List (UInt64 × Nat)} (h : Frame ranges m m')
    (hsub : ∀ r ∈ ranges, ∃ r' ∈ ranges', Covers r'.1 r'.2 r.1 r.2) : Frame ranges' m m' where
  lands := h.lands
  load addr n happart := by
    refine h.load addr n fun r hr => ?_
    obtain ⟨r', hr', hin⟩ := hsub r hr
    exact ((happart r' hr').symm.of_covers hin).symm

theorem Frame.trans (h : Frame ranges m m') (h' : Frame ranges m' m'') : Frame ranges m m'' where
  lands := h'.lands.trans h.lands
  load addr n happart := (h'.load addr n happart).trans (h.load addr n happart)

theorem Frame.weaken {ranges' : List (UInt64 × Nat)} (h : Frame ranges m m') (hsub : ranges ⊆ ranges') :
    Frame ranges' m m' :=
  h.mono fun r hr => ⟨r, hsub hr, .refl _ _⟩

/-! ### What two memories share -/

def Agree (addr : UInt64) (n : Nat) (m m' : Ram) : Prop :=
  ∀ from' k, Covers addr n from' k → m'.load from' k = m.load from' k

section

variable (h : Agree addr n m m')
include h

theorem Agree.trans (h' : Agree addr n m' m'') : Agree addr n m m'' :=
  fun from' k hin => (h' from' k hin).trans (h from' k hin)

theorem Agree.load_eq : m'.load addr n = m.load addr n := h addr n (.refl _ _)

theorem Agree.u16 (hin : Covers addr n from' 2) : m'.u16 from' = m.u16 from' := by
  rw [Ram.u16, h from' 2 hin, Ram.u16]

theorem Agree.u32 (hin : Covers addr n from' 4) : m'.u32 from' = m.u32 from' := by
  rw [Ram.u32, h from' 4 hin, Ram.u32]

theorem Agree.u64 (hin : Covers addr n from' 8) : m'.u64 from' = m.u64 from' := by
  rw [Ram.u64, h from' 8 hin, Ram.u64]

end

theorem Frame.agree (h : Frame ranges m m') (happart : ∀ r ∈ ranges, Apart r.1 r.2 addr n) : Agree addr n m m' :=
  fun from' k hin => h.load from' k fun r hr => (happart r hr).of_covers hin

/-! ### Ranges in RAM -/

/-- The range does not pass the end of the address space, and what is stored in a part of it lands. -/
structure Holds (m : Ram) (addr : UInt64) (n : Nat) : Prop where
  fits : addr.toNat + n ≤ 2 ^ 64
  lands : ∀ from' k, 0 < k → Covers addr n from' k → landsIn m.regions from' k = true

theorem Holds.congr (h : Holds m addr n) (hlands : landsIn m'.regions = landsIn m.regions) : Holds m' addr n :=
  ⟨h.fits, fun from' k hk hin => by rw [hlands]; exact h.lands from' k hk hin⟩

theorem Holds.frame (h : Holds m addr n) (hframe : Frame ranges m m') : Holds m' addr n := h.congr hframe.lands

theorem Holds.sub (h : Holds m addr n) (hin : Covers addr n from' k) : Holds m from' k where
  fits := by
    have hfits := h.fits
    unfold Covers at hin
    omega
  lands at' j hj hsub := by
    refine h.lands at' j hj ?_
    unfold Covers at *
    omega

theorem Holds.load_store (h : Holds m addr n) (hlen : data.length = n) : (m.store addr data).load addr n = data := by
  subst hlen
  cases hdata : data with
  | nil => exact List.eq_nil_of_length_eq_zero (length_load _ _ _)
  | cons b bs =>
    rw [← hdata]
    refine load_store_self m (h.lands addr data.length ?_ (.refl _ _))
    simp [hdata]

theorem holds_of_contains {r : MemoryRegion} (hnull : r.isNull = false)
    (hend : r.memOffset.toNat + r.bytes.length ≤ 2 ^ 64) (hc : r.Contains addr n) : Holds ⟨[r]⟩ addr n where
  fits := by
    obtain ⟨_, hroom⟩ := hc
    omega
  lands from' k _ hin := by
    have hsub : r.Contains from' k := by
      obtain ⟨hstart, hroom⟩ := hc
      obtain ⟨hlo, hhi⟩ := hin
      exact ⟨by omega, by omega⟩
    rw [landsIn_cons_of_contains hsub, hnull]
    rfl

/-! ### Disjoint regions -/

def Flat (m : Ram) : Prop := m.regions.Pairwise fun r r' => ∀ a : UInt64, ¬(r.Contains a 1 ∧ r'.Contains a 1)

theorem exists_of_mem_geometry {rs rs' : List MemoryRegion} (h : SameGeometry rs rs') :
    ∀ r' ∈ rs', ∃ r ∈ rs, ∀ a n, r'.Contains a n ↔ r.Contains a n := by
  induction h with
  | nil => exact nofun
  | @cons r r' _ _ hr _ ih =>
    intro s' hs'
    rcases List.mem_cons.mp hs' with rfl | hs'
    · exact ⟨r, List.mem_cons_self, contains_congr hr.1 hr.2.1⟩
    · obtain ⟨s, hs, hsame⟩ := ih s' hs'
      exact ⟨s, List.mem_cons_of_mem _ hs, hsame⟩

theorem Flat.congr (h : Flat m) (hgeometry : SameGeometry m.regions m'.regions) : Flat m' := by
  unfold Flat at h ⊢
  generalize m.regions = rs at h hgeometry
  generalize m'.regions = rs' at hgeometry
  induction hgeometry with
  | nil => exact .nil
  | @cons r r' rs rs' hr hrest ih =>
    obtain ⟨hothers, hrs⟩ := List.pairwise_cons.mp h
    refine List.pairwise_cons.mpr ⟨fun s' hs' a hboth => ?_, ih hrs⟩
    obtain ⟨s, hs, hsame⟩ := exists_of_mem_geometry hrest s' hs'
    exact hothers s hs a ⟨(contains_congr hr.1 hr.2.1 a 1).mp hboth.1, (hsame a 1).mp hboth.2⟩

theorem Flat.store (h : Flat m) (addr : UInt64) (data : Bytes) : Flat (m.store addr data) :=
  h.congr (storeIn_geometry addr data m.regions)

theorem exists_contains_of_lands {rs : List MemoryRegion} (h : landsIn rs addr n = true) :
    ∃ r ∈ rs, r.Contains addr n := by
  unfold landsIn at h
  split at h
  · next r hfind => exact ⟨r, List.mem_of_find?_eq_some hfind, by simpa using List.find?_some hfind⟩
  · cases h

theorem specLoad_append {rs : List MemoryRegion} (hflat : Flat ⟨rs⟩) {k : Nat} (hn : 0 < n) (hk : 0 < k)
    (hfits : addr.toNat + n < 2 ^ 64) (hlands : landsIn rs addr (n + k) = true) :
    specLoad rs addr (n + k) = specLoad rs addr n ++ specLoad rs (addr + UInt64.ofNat n) k := by
  have hnext : (addr + UInt64.ofNat n).toNat = addr.toNat + n := by
    rw [UInt64.toNat_add, UInt64.toNat_ofNat', Nat.mod_eq_of_lt (by omega : n < 2 ^ 64), Nat.mod_eq_of_lt hfits]
  induction rs with
  | nil => cases hlands
  | cons r rs ih =>
    obtain ⟨hothers, hrs⟩ := List.pairwise_cons.mp hflat
    by_cases hc : r.Contains addr (n + k)
    · obtain ⟨hstart, hroom⟩ := hc
      have hfirst : r.Contains addr n := ⟨hstart, by omega⟩
      have hsecond : r.Contains (addr + UInt64.ofNat n) k := ⟨by omega, by omega⟩
      rw [specLoad_cons_of_contains ⟨hstart, hroom⟩, specLoad_cons_of_contains hfirst,
        specLoad_cons_of_contains hsecond, window_add, hnext, Nat.sub_add_comm hstart]
    · -- the range lies in a later region, so this one has no byte of it
      rw [landsIn_cons_of_not hc] at hlands
      obtain ⟨r', hr', hin⟩ := exists_contains_of_lands hlands
      unfold MemoryRegion.Contains at hin
      have hfirst : ¬r.Contains addr n := fun hown =>
        hothers r' hr' addr ⟨⟨hown.1, by have := hown.2; omega⟩, ⟨hin.1, by omega⟩⟩
      have hsecond : ¬r.Contains (addr + UInt64.ofNat n) k := fun hown =>
        hothers r' hr' _ ⟨⟨hown.1, by have := hown.2; omega⟩, ⟨by omega, by omega⟩⟩
      rw [specLoad_cons_of_not hc, specLoad_cons_of_not hfirst, specLoad_cons_of_not hsecond]
      exact ih hrs hlands

/-- **A range is read in parts** where no two regions overlap. -/
theorem Flat.load_append (hflat : Flat m) {k : Nat} (hheld : Holds m addr (n + k)) :
    m.load addr (n + k) = m.load addr n ++ m.load (addr + UInt64.ofNat n) k := by
  have hzero (a : UInt64) : m.load a 0 = [] := List.eq_nil_of_length_eq_zero (length_load _ _ _)
  rcases Nat.eq_zero_or_pos n with rfl | hn
  · rw [hzero, Nat.zero_add, List.nil_append, show addr + UInt64.ofNat 0 = addr from UInt64.add_zero addr]
  rcases Nat.eq_zero_or_pos k with rfl | hk
  · rw [hzero, Nat.add_zero, List.append_nil]
  have hfits := hheld.fits
  exact specLoad_append hflat hn hk (by omega) (hheld.lands addr (n + k) (by omega) (.refl _ _))

end Ram

end FerrumVM
