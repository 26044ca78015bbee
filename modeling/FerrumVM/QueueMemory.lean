import FerrumVM.PublishedChains

/-! A queue and the buffers of its chains in memory: the descriptor table with the rings, and lists of stores.
-/

namespace FerrumVM

open Base Program

def Ram.storeAll (m : Ram) (writes : List (UInt64 × Bytes)) : Ram :=
  writes.foldl (fun m w => m.store w.1 w.2) m

namespace Ram

variable {m : Ram} {writes : List (UInt64 × Bytes)}

theorem frame_storeAll (m : Ram) (writes : List (UInt64 × Bytes)) :
    Frame (writes.map fun w => (w.1, w.2.length)) m (m.storeAll writes) := by
  induction writes generalizing m with
  | nil => exact .refl _ m
  | cons w writes ih =>
    have hfirst : Frame ((w :: writes).map fun w => (w.1, w.2.length)) m (m.store w.1 w.2) :=
      (Frame.store m w.1 w.2).weaken (by simp)
    exact hfirst.trans ((ih _).weaken (by simp))

theorem load_storeAll (hheld : ∀ w ∈ writes, m.Holds w.1 w.2.length)
    (hapart : writes.Pairwise fun w w' => Apart w.1 w.2.length w'.1 w'.2.length) :
    ∀ w ∈ writes, (m.storeAll writes).load w.1 w.2.length = w.2 := by
  induction writes generalizing m with
  | nil => exact nofun
  | cons first writes ih =>
    obtain ⟨hfirst, hrest⟩ := List.pairwise_cons.mp hapart
    have hheld' (w) (hw : w ∈ writes) : (m.store first.1 first.2).Holds w.1 w.2.length :=
      (hheld w (List.mem_cons_of_mem _ hw)).frame (Frame.store m first.1 first.2)
    intro w hw
    rcases List.mem_cons.mp hw with rfl | hw
    · refine ((frame_storeAll (m.store w.1 w.2) writes).load w.1 w.2.length fun r hr => ?_).trans ?_
      · obtain ⟨w', hw', rfl⟩ := List.mem_map.mp hr
        exact (hfirst w' hw').symm
      · exact (hheld w List.mem_cons_self).load_store rfl
    · exact ih hheld' hrest w hw

end Ram

/-! ### Stores in blocks -/

abbrev StoresApart (w w' : UInt64 × Bytes) : Prop := Apart w.1 w.2.length w'.1 w'.2.length

def Within (r : UInt64 × Nat) (block : List (UInt64 × Bytes)) : Prop := ∀ w ∈ block, Covers r.1 r.2 w.1 w.2.length

theorem Within.apart {r r' : UInt64 × Nat} {block block' : List (UInt64 × Bytes)} (h : Within r block)
    (h' : Within r' block') (hapart : Apart r.1 r.2 r'.1 r'.2) : ∀ w ∈ block, ∀ w' ∈ block', StoresApart w w' :=
  fun w hw w' hw' => ((hapart.of_covers (h' w' hw')).symm.of_covers (h w hw)).symm

/-- Blocks of stores, each in a range of its own; the ranges lie in RAM, apart from one another. -/
structure Ram.Laid (m : Ram) (ranges : List (UInt64 × Nat)) (blocks : List (List (UInt64 × Bytes))) : Prop where
  within : List.Forall₂ Within ranges blocks
  apart : ranges.Pairwise fun r r' => Apart r.1 r.2 r'.1 r'.2
  inner : ∀ block ∈ blocks, block.Pairwise StoresApart
  held : ∀ r ∈ ranges, m.Holds r.1 r.2

namespace Ram

variable {m : Ram} {ranges : List (UInt64 × Nat)} {blocks : List (List (UInt64 × Bytes))}

theorem exists_within (h : List.Forall₂ Within ranges blocks) : ∀ block ∈ blocks, ∃ r ∈ ranges, Within r block := by
  induction h with
  | nil => exact nofun
  | @cons r block _ _ hfirst _ ih =>
    intro block' hblock'
    rcases List.mem_cons.mp hblock' with rfl | hblock'
    · exact ⟨r, List.mem_cons_self, hfirst⟩
    · obtain ⟨r', hr', hin⟩ := ih block' hblock'
      exact ⟨r', List.mem_cons_of_mem _ hr', hin⟩

theorem pairwise_flatten (h : List.Forall₂ Within ranges blocks)
    (hapart : ranges.Pairwise fun r r' => Apart r.1 r.2 r'.1 r'.2)
    (hinner : ∀ block ∈ blocks, block.Pairwise StoresApart) : blocks.flatten.Pairwise StoresApart := by
  induction h with
  | nil => exact .nil
  | @cons r block ranges blocks hfirst hrest ih =>
    obtain ⟨hothers, hranges⟩ := List.pairwise_cons.mp hapart
    rw [List.flatten_cons]
    refine List.pairwise_append.mpr ⟨hinner _ List.mem_cons_self,
      ih hranges fun b hb => hinner b (List.mem_cons_of_mem _ hb), fun w hw w' hw' => ?_⟩
    obtain ⟨block', hblock', hw'⟩ := List.mem_flatten.mp hw'
    obtain ⟨r', hr', hin⟩ := exists_within hrest block' hblock'
    exact hfirst.apart hin (hothers r' hr') w hw w' hw'

theorem Laid.frame (h : m.Laid ranges blocks) : Frame ranges m (m.storeAll blocks.flatten) := by
  refine (frame_storeAll m blocks.flatten).mono fun p hp => ?_
  obtain ⟨w, hw, rfl⟩ := List.mem_map.mp hp
  obtain ⟨block, hblock, hw⟩ := List.mem_flatten.mp hw
  obtain ⟨r, hr, hin⟩ := exists_within h.within block hblock
  exact ⟨r, hr, hin w hw⟩

theorem Laid.load (h : m.Laid ranges blocks) :
    ∀ block ∈ blocks, ∀ w ∈ block, (m.storeAll blocks.flatten).load w.1 w.2.length = w.2 := by
  intro block hblock w hw
  refine load_storeAll (fun w' hw' => ?_) (pairwise_flatten h.within h.apart h.inner) w
    (List.mem_flatten.mpr ⟨block, hblock, hw⟩)
  obtain ⟨block', hblock', hw'⟩ := List.mem_flatten.mp hw'
  obtain ⟨r, hr, hin⟩ := exists_within h.within block' hblock'
  exact (h.held r hr).sub (hin w' hw')

end Ram

/-! ### The queue in memory -/

namespace VirtioQueue

variable {q : VirtioQueue} {m m' : Ram} {index : UInt16}

def tableBytes (q : VirtioQueue) : Nat := 16 * q.size.toNat

def parts (q : VirtioQueue) : List (UInt64 × Nat) :=
  [(q.descAddr, q.tableBytes), (q.availAddr, q.availBytes), (q.usedAddr, q.usedBytes)]

theorem table_mem (q : VirtioQueue) : (q.descAddr, q.tableBytes) ∈ q.parts := List.mem_cons_self

theorem avail_mem (q : VirtioQueue) : (q.availAddr, q.availBytes) ∈ q.parts :=
  List.mem_cons_of_mem _ List.mem_cons_self

theorem used_mem (q : VirtioQueue) : (q.usedAddr, q.usedBytes) ∈ q.parts :=
  List.mem_cons_of_mem _ (List.mem_cons_of_mem _ List.mem_cons_self)

/-- The descriptor table and the rings lie in RAM, and what the device writes is apart from what it reads. -/
structure QueueHeld (q : VirtioQueue) (m : Ram) : Prop extends q.RingsHeld m where
  table : m.Holds q.descAddr q.tableBytes
  table_apart : Apart q.descAddr q.tableBytes q.usedAddr q.usedBytes

theorem QueueHeld.frame {ranges : List (UInt64 × Nat)} (h : q.QueueHeld m) (hframe : Ram.Frame ranges m m') :
    q.QueueHeld m' :=
  ⟨h.toRingsHeld.frame hframe, h.table.frame hframe, h.table_apart⟩

theorem QueueHeld.moved (h : q.QueueHeld m) (lastAvailIdx lastUsedIdx : UInt16) :
    QueueHeld { q with lastAvailIdx, lastUsedIdx } m :=
  ⟨h.toRingsHeld.moved lastAvailIdx lastUsedIdx, h.table, h.table_apart⟩

theorem QueueHeld.descSafe (h : q.QueueHeld m) (hindex : index.toNat < q.size.toNat) : q.DescSafe index := by
  have hfits := h.table.fits
  unfold tableBytes at hfits
  unfold DescSafe
  omega

theorem descAt_of_agree (hsafe : q.DescSafe index) (hindex : index.toNat < q.size.toNat)
    (hagree : Ram.Agree q.descAddr q.tableBytes m m') : q.descAt m' index = q.descAt m index := by
  have hoff := toNat_descOffset index
  unfold DescSafe at hsafe
  have hbase := toNat_add_of_lt (show q.descAddr.toNat + (index.toUInt64 * 16).toNat < 2 ^ 64 by omega)
  have hentry : Covers q.descAddr q.tableBytes (q.descAddr + index.toUInt64 * 16) 16 := by
    unfold Covers tableBytes
    omega
  have hfield (o : UInt64) (k : Nat) (ho : o.toNat ≤ 14) (hin : o.toNat + k ≤ 16) :
      Covers q.descAddr q.tableBytes (q.descAddr + index.toUInt64 * 16 + o) k := by
    have hat := toNat_add_of_lt (show (q.descAddr + index.toUInt64 * 16).toNat + o.toNat < 2 ^ 64 by omega)
    unfold Covers at hentry ⊢
    omega
  have haddr : m'.u64 (q.descAddr + index.toUInt64 * 16) = m.u64 (q.descAddr + index.toUInt64 * 16) :=
    hagree.u64 (hentry.trans ⟨le_rfl, by omega⟩)
  have hlen : m'.u32 (q.descAddr + index.toUInt64 * 16 + 8) = m.u32 (q.descAddr + index.toUInt64 * 16 + 8) :=
    hagree.u32 (hfield 8 4 (by decide) (by decide))
  have hflags : m'.u16 (q.descAddr + index.toUInt64 * 16 + 12) = m.u16 (q.descAddr + index.toUInt64 * 16 + 12) :=
    hagree.u16 (hfield 12 2 (by decide) (by decide))
  have hnext : m'.u16 (q.descAddr + index.toUInt64 * 16 + 14) = m.u16 (q.descAddr + index.toUInt64 * 16 + 14) :=
    hagree.u16 (hfield 14 2 (by decide) (by decide))
  unfold descAt
  rw [haddr, hlen, hflags, hnext]

/-- The stores that lay out an entry of the table, field by field. -/
def descFields (table : UInt64) (index : UInt16) (desc : VirtqDesc) : List (UInt64 × Bytes) :=
  [(table + index.toUInt64 * 16, u64ToLe desc.addr), (table + index.toUInt64 * 16 + 8, u32ToLe desc.len),
    (table + index.toUInt64 * 16 + 12, u16ToLe desc.flags), (table + index.toUInt64 * 16 + 14, u16ToLe desc.next)]

section

variable {table : UInt64} (desc : VirtqDesc) (hfits : (table + index.toUInt64 * 16).toNat + 16 ≤ 2 ^ 64)
include hfits

theorem descFields_within : Within (table + index.toUInt64 * 16, 16) (descFields table index desc) := by
  intro w hw
  simp only [descFields, List.mem_cons, List.not_mem_nil, or_false] at hw
  rcases hw with rfl | rfl | rfl | rfl
  · exact ⟨le_rfl, by simp⟩
  · exact Covers.offset (o := 8) hfits (by simp) (by simp)
  · exact Covers.offset (o := 12) hfits (by simp) (by simp)
  · exact Covers.offset (o := 14) hfits (by simp) (by simp)

theorem pairwise_descFields : (descFields table index desc).Pairwise StoresApart := by
  have hat (o : UInt64) (ho : o.toNat < 16) :
      (table + index.toUInt64 * 16 + o).toNat = (table + index.toUInt64 * 16).toNat + o.toNat :=
    toNat_add_of_lt (by omega)
  have hlen := hat 8 (by decide)
  have hflags := hat 12 (by decide)
  have hnext := hat 14 (by decide)
  simp only [descFields, List.pairwise_cons, List.mem_cons, List.not_mem_nil, or_false, forall_eq_or_imp, forall_eq,
    StoresApart, Apart, length_u64ToLe, length_u32ToLe, length_u16ToLe, hlen, hflags, hnext, UInt64.reduceToNat]
  simp

end

theorem descAt_of_fields {desc : VirtqDesc}
    (h : ∀ w ∈ descFields q.descAddr index desc, m.load w.1 w.2.length = w.2) : q.descAt m index = desc := by
  have haddr := h _ List.mem_cons_self
  have hlen := h _ (List.mem_cons_of_mem _ List.mem_cons_self)
  have hflags := h _ (List.mem_cons_of_mem _ (List.mem_cons_of_mem _ List.mem_cons_self))
  have hnext := h _ (List.mem_cons_of_mem _ (List.mem_cons_of_mem _ (List.mem_cons_of_mem _ List.mem_cons_self)))
  rw [length_u64ToLe] at haddr
  rw [length_u32ToLe] at hlen
  rw [length_u16ToLe] at hflags hnext
  unfold descAt Ram.u64 Ram.u32 Ram.u16
  rw [haddr, hlen, hflags, hnext, u64FromLe_toLe, u32FromLe_toLe, u16FromLe_toLe, u16FromLe_toLe]

end VirtioQueue

section Push

variable {D : Type} {t : Ctx D Ram}

def Ctx.retire (t : Ctx D Ram) (head : UInt16) (len : UInt32) : Ctx D Ram where
  dev := t.dev
  queue := { t.queue with lastUsedIdx := t.queue.lastUsedIdx + 1 }
  mem := t.queue.pushedTo t.mem head len
  log := t.log ++ [.retired head len]

theorem finish_held {α : Type} (h : t.queue.RingsHeld t.mem) (head : UInt16) (len : UInt32) (a : α) :
    (do Serve.pushUsed head len; return a : Serve D Ram α) t = .ok a (t.retire head len) :=
  bind_of_ok (act_eq_ok.mpr (Exec.bind_eq_ok.mpr ⟨_, h.pushSafe.pushUsed_eq h.size_ne t.mem head len, rfl⟩))

end Push

end FerrumVM
