import FerrumVM.EfiMemory

/-! The conversion of the memory map to descriptors by `memmap_to_uefi` of `mem/memmap.c`, with its buffer and its
counter: each entry considered that has a whole page gives one descriptor, of exactly its whole pages. -/

namespace FerrumVM

open Base

def MemMap.HasPage (e : MemMap) (p : Nat) : Prop := e.start.toNat ≤ p * 4096 ∧ p * 4096 + 4096 ≤ e.endAddr.toNat

instance (e : MemMap) : Decidable (∃ p, e.HasPage p) :=
  decidable_of_iff ((e.start.toNat + 4095) / 4096 * 4096 + 4096 ≤ e.endAddr.toNat) <| by
    unfold MemMap.HasPage
    constructor
    · intro h
      exact ⟨(e.start.toNat + 4095) / 4096, by omega⟩
    · rintro ⟨p, h⟩
      omega

def MemMap.Apart (e e' : MemMap) : Prop :=
  ∀ a, ¬((e.start.toNat ≤ a ∧ a < e.endAddr.toNat) ∧ e'.start.toNat ≤ a ∧ a < e'.endAddr.toNat)

namespace Efi

variable {copy : Firmware.MapCopy}

/-! ### The buffer -/

structure DescriptorBuf where
  buf : Nat → MemoryDescriptor
  out : UInt32

/-- A round of the loop of `memmap_to_uefi`. -/
def DescriptorBuf.put (s : DescriptorBuf) (e : MemMap) : DescriptorBuf :=
  match describe e with
  | none => s
  | some descriptor => ⟨Function.update s.buf s.out.toNat descriptor, s.out + 1⟩

/-- `memmap_to_uefi` on a buffer. -/
def memmapToUefiIn (copy : Firmware.MapCopy) (length : UInt32) (buf : Nat → MemoryDescriptor) : DescriptorBuf :=
  let room := UInt32.ofNat (length.toNat / descriptorSize.toNat)
  let maxEntries := if copy.memmapLength < room then copy.memmapLength else room
  (List.range maxEntries.toNat).foldl (fun s i => s.put (copy.memmap.getD i default)) ⟨buf, 0⟩

/-- The buffer after descriptors were put behind those that are in it. -/
structure DescriptorBuf.Extends (s s' : DescriptorBuf) (written : List MemoryDescriptor) : Prop where
  out : s'.out.toNat = s.out.toNat + written.length
  written : ∀ k descriptor, written[k]? = some descriptor → s'.buf (s.out.toNat + k) = descriptor
  below : ∀ k < s.out.toNat, s'.buf k = s.buf k
  above : ∀ k, s'.out.toNat ≤ k → s'.buf k = s.buf k

theorem DescriptorBuf.extends_foldl (entries : List MemMap) (s : DescriptorBuf)
    (hfew : s.out.toNat + entries.length < 2 ^ 32) :
    s.Extends (entries.foldl put s) (entries.filterMap describe) := by
  induction entries generalizing s with
  | nil => exact ⟨rfl, nofun, fun _ _ => rfl, fun _ _ => rfl⟩
  | cons e entries ih =>
    rw [List.length_cons] at hfew
    rw [List.foldl_cons, put]
    cases hdescribe : describe e with
    | none =>
      rw [List.filterMap_cons_none hdescribe]
      exact ih s (by omega)
    | some descriptor =>
      have hout : (s.out + 1).toNat = s.out.toNat + 1 := by
        rw [UInt32.toNat_add, UInt32.toNat_one, Nat.mod_eq_of_lt (by omega)]
      have hrest := ih ⟨Function.update s.buf s.out.toNat descriptor, s.out + 1⟩ (by dsimp only; omega)
      rw [List.filterMap_cons_some hdescribe]
      dsimp only
      refine ⟨?_, fun k d hk => ?_, fun k hk => ?_, fun k hk => ?_⟩
      · rw [hrest.out, hout, List.length_cons]
        omega
      · cases k with
        | zero =>
          refine (hrest.below _ (by dsimp only; omega)).trans ?_
          exact (Function.update_self _ _ _).trans (Option.some.inj hk)
        | succ k =>
          have hnext := hrest.written k d hk
          rw [hout] at hnext
          rw [← hnext, Nat.add_assoc, Nat.add_comm 1 k]
      · refine (hrest.below k (by dsimp only; omega)).trans ?_
        exact Function.update_of_ne (Nat.ne_of_lt hk) _ _
      · have hend := hrest.out
        rw [hout] at hend
        refine (hrest.above k hk).trans ?_
        exact Function.update_of_ne (show k ≠ s.out.toNat by omega) _ _

def considered (copy : Firmware.MapCopy) (length : UInt32) : List MemMap :=
  copy.memmap.take (min copy.memmapLength.toNat (length.toNat / 40))

theorem range_considered (hcount : copy.memmapLength.toNat ≤ copy.memmap.length) (length : UInt32) :
    (List.range (if copy.memmapLength < UInt32.ofNat (length.toNat / descriptorSize.toNat) then copy.memmapLength
      else UInt32.ofNat (length.toNat / descriptorSize.toNat)).toNat).map (fun i => copy.memmap.getD i default) =
      considered copy length := by
  have hroom : (UInt32.ofNat (length.toNat / descriptorSize.toNat)).toNat = length.toNat / 40 := by
    have hlt := length.toNat_lt
    rw [show descriptorSize.toNat = 40 from rfl, UInt32.toNat_ofNat', Nat.mod_eq_of_lt (by omega)]
  have hmin : (if copy.memmapLength < UInt32.ofNat (length.toNat / descriptorSize.toNat) then copy.memmapLength
      else UInt32.ofNat (length.toNat / descriptorSize.toNat)).toNat =
      min copy.memmapLength.toNat (length.toNat / 40) := by
    split_ifs with h
    · rw [UInt32.lt_iff_toNat_lt, hroom] at h
      omega
    · rw [UInt32.lt_iff_toNat_lt, hroom] at h
      omega
  rw [hmin, considered]
  apply List.ext_getElem
  · rw [List.length_map, List.length_range, List.length_take]
    omega
  · intro i _ hi
    rw [List.length_take] at hi
    rw [List.getElem_map, List.getElem_range, List.getElem_take, List.getD_eq_getElem?_getD,
      List.getElem?_eq_getElem (by omega), Option.getD_some]

theorem memmapToUefi_eq (hcount : copy.memmapLength.toNat ≤ copy.memmap.length)
    (length : UInt32) : memmapToUefi copy length = (considered copy length).filterMap describe := by
  rw [memmapToUefi, range_considered hcount]

theorem memmapToUefiIn_extends (hcount : copy.memmapLength.toNat ≤ 32)
    (harray : copy.memmap.length = 32) (length : UInt32) (buf : Nat → MemoryDescriptor) :
    DescriptorBuf.Extends ⟨buf, 0⟩ (memmapToUefiIn copy length buf) (memmapToUefi copy length) := by
  have hcount' : copy.memmapLength.toNat ≤ copy.memmap.length := hcount.trans harray.ge
  have hfold : memmapToUefiIn copy length buf = (considered copy length).foldl DescriptorBuf.put ⟨buf, 0⟩ := by
    rw [← range_considered hcount', List.foldl_map]
    rfl
  rw [hfold, memmapToUefi_eq hcount']
  refine DescriptorBuf.extends_foldl _ _ ?_
  rw [considered, List.length_take, UInt32.toNat_zero]
  omega

/-! ### The descriptors -/

def MemoryDescriptor.Has (descriptor : MemoryDescriptor) (a : Nat) : Prop :=
  descriptor.physicalStart.toNat ≤ a ∧
    a < descriptor.physicalStart.toNat + descriptor.numberOfPages.toNat * 4096

structure MemoryDescriptor.Of (e : MemMap) (descriptor : MemoryDescriptor) : Prop where
  aligned : descriptor.physicalStart.toNat % 4096 = 0
  pages : ∀ a, descriptor.Has a ↔ ∃ p, e.HasPage p ∧ p * 4096 ≤ a ∧ a < p * 4096 + 4096
  type : descriptor.type = e.memType
  runtime : descriptor.attributes &&& efiMemoryRuntime ≠ 0 ↔ e.memType = 5 ∨ e.memType = 6

section Pages

variable {e : MemMap}

theorem toNat_pageStart (h : e.start.toNat + 0xFFF < 2 ^ 64) :
    (pageStart e).toNat = (e.start.toNat + 4095) / 4096 * 4096 := by
  have hround : ((e.start + 0xFFF) &&& ~~~0xFFF).toNat = (e.start + 0xFFF).toNat / 2 ^ 12 * 2 ^ 12 :=
    @toNat_and_not_mask (e.start + 0xFFF) 12 (by omega)
  rw [pageStart, hround, toNat_add_of_lt h]
  rfl

theorem toNat_pageEnd : (pageEnd e).toNat = e.endAddr.toNat / 4096 * 4096 :=
  @toNat_and_not_mask e.endAddr 12 (by omega)

theorem describe_cases (h : e.start.toNat + 0xFFF < 2 ^ 64) : (describe e = none ∧ ¬∃ p, e.HasPage p) ∨
      ∃ descriptor, describe e = some descriptor ∧ (∃ p, e.HasPage p) ∧ descriptor.Of e := by
  have hstart := toNat_pageStart h
  have hend := @toNat_pageEnd e
  unfold describe
  by_cases hempty : pageEnd e ≤ pageStart e
  · refine .inl ⟨if_pos hempty, ?_⟩
    rw [UInt64.le_iff_toNat_le, hstart, hend] at hempty
    rintro ⟨p, hp⟩
    unfold MemMap.HasPage at hp
    omega
  · refine .inr ⟨_, if_neg hempty, ?_, ?_, fun a => ?_, rfl, ?_⟩
    · rw [UInt64.le_iff_toNat_le, hstart, hend] at hempty
      refine ⟨(e.start.toNat + 4095) / 4096, ?_⟩
      unfold MemMap.HasPage
      omega
    · dsimp only
      omega
    · have hle : pageStart e ≤ pageEnd e := UInt64.le_of_lt (UInt64.not_le.mp hempty)
      have hcount : ((pageEnd e - pageStart e) / 4096).toNat =
          e.endAddr.toNat / 4096 - (e.start.toNat + 4095) / 4096 := by
        rw [UInt64.toNat_div, UInt64.toNat_sub_of_le _ _ hle, hstart, hend, ← Nat.sub_mul]
        exact Nat.mul_div_cancel _ (by decide)
      rw [UInt64.le_iff_toNat_le, hstart, hend] at hempty
      simp only [MemoryDescriptor.Has, hcount, hstart, MemMap.HasPage]
      constructor
      · intro ha
        exact ⟨a / 4096, by omega⟩
      · rintro ⟨p, hp⟩
        omega
    · dsimp only
      split_ifs with htype
      · exact iff_of_true (by decide) htype
      · exact iff_of_false (by decide) htype

theorem forall₂_describe {entries : List MemMap} (h : ∀ e ∈ entries, e.start.toNat + 0xFFF < 2 ^ 64) :
    List.Forall₂ (fun e descriptor => descriptor.Of e) (entries.filter fun e => ∃ p, e.HasPage p)
      (entries.filterMap describe) := by
  induction entries with
  | nil => exact .nil
  | cons e entries ih =>
    obtain ⟨hnone, hpage⟩ | ⟨descriptor, hsome, hpage, hof⟩ := describe_cases (h e List.mem_cons_self)
    · rw [List.filterMap_cons_none hnone, List.filter_cons_of_neg (by simpa using hpage)]
      exact ih fun e' he' => h e' (List.mem_cons_of_mem _ he')
    · rw [List.filterMap_cons_some hsome, List.filter_cons_of_pos (by simpa using hpage)]
      exact .cons hof (ih fun e' he' => h e' (List.mem_cons_of_mem _ he'))

end Pages

theorem pairwise_describe {entries : List MemMap} (h : ∀ e ∈ entries, e.start.toNat + 0xFFF < 2 ^ 64)
    (hapart : entries.Pairwise MemMap.Apart) :
    (entries.filterMap describe).Pairwise fun descriptor next => ∀ a, ¬(descriptor.Has a ∧ next.Has a) := by
  have hinside : ∀ e ∈ entries, ∀ descriptor, describe e = some descriptor → ∀ a, descriptor.Has a →
      e.start.toNat ≤ a ∧ a < e.endAddr.toNat := by
    intro e he descriptor hdescriptor a ha
    obtain ⟨hnone, -⟩ | ⟨descriptor', hsome, -, hof⟩ := describe_cases (h e he)
    · rw [hnone] at hdescriptor
      cases hdescriptor
    · cases hsome.symm.trans hdescriptor
      obtain ⟨p, hpage, hp⟩ := (hof.pages a).mp ha
      unfold MemMap.HasPage at hpage
      omega
  refine List.pairwise_filterMap.mpr (hapart.imp_of_mem fun {e e'} he he' hapart => ?_)
  intro descriptor hdescriptor next hnext a ha
  exact hapart a ⟨hinside e he descriptor hdescriptor a ha.1, hinside e' he' next hnext a ha.2⟩

/-- **Descriptors.** The call writes, in order, one descriptor for each entry considered that has a whole page, of
exactly its whole pages; it returns how many these are, which is no more than the buffer has room for; and entries that
lie apart have descriptors that lie apart. -/
theorem memmap_to_uefi_converts (copy : Firmware.MapCopy) (harray : copy.memmap.length = 32)
    (hcount : copy.memmapLength.toNat ≤ 32) (length : UInt32)
    (hstart : ∀ e ∈ considered copy length, e.start.toNat + 0xFFF < 2 ^ 64) (buf : Nat → MemoryDescriptor) :
    ∃ written : List MemoryDescriptor, (memmapToUefiIn copy length buf).out.toNat = written.length ∧
      (∀ k descriptor, written[k]? = some descriptor → (memmapToUefiIn copy length buf).buf k = descriptor) ∧
      (∀ k, written.length ≤ k → (memmapToUefiIn copy length buf).buf k = buf k) ∧
      List.Forall₂ (fun e descriptor => descriptor.Of e)
        ((considered copy length).filter fun e => ∃ p, e.HasPage p) written ∧ written.length ≤ length.toNat / 40 ∧
      ((considered copy length).Pairwise MemMap.Apart →
        written.Pairwise fun descriptor next => ∀ a, ¬(descriptor.Has a ∧ next.Has a)) := by
  have hextends := memmapToUefiIn_extends hcount harray length buf
  have hout : (memmapToUefiIn copy length buf).out.toNat = (memmapToUefi copy length).length := by
    rw [hextends.out, UInt32.toNat_zero, Nat.zero_add]
  have hwritten := memmapToUefi_eq (hcount.trans harray.ge) length
  refine ⟨memmapToUefi copy length, hout, fun k descriptor hk => ?_, fun k hk => ?_, ?_, ?_, fun hapart => ?_⟩
  · rw [← hextends.written k descriptor hk, UInt32.toNat_zero, Nat.zero_add]
  · exact hextends.above k (hout.trans_le hk)
  · rw [hwritten]
    exact forall₂_describe hstart
  · have hle := List.length_filterMap_le describe (considered copy length)
    have hconsidered : (considered copy length).length ≤ length.toNat / 40 := by
      rw [considered, List.length_take]
      omega
    rw [hwritten]
    omega
  · rw [hwritten]
    exact pairwise_describe hstart hapart

/-- A map of two entries of which one has a page, and a buffer with room for both. -/
def twoEntries : Firmware.MapCopy := ⟨[⟨0, 0x500, 0⟩, ⟨0x500, 0x2100, 7⟩] ++ List.replicate 30 default, 2⟩

/-- The second entry gives the first descriptor. -/
theorem second_entry_is_described : (memmapToUefiIn twoEntries 80 fun _ => ⟨0, 0, 0, 0, 0, 0⟩).out = 1 ∧
      ∃ descriptor, (memmapToUefiIn twoEntries 80 fun _ => ⟨0, 0, 0, 0, 0, 0⟩).buf 0 = descriptor ∧
        descriptor.Of ⟨0x500, 0x2100, 7⟩ := by
  obtain ⟨written, hout, hbuf, -, hall, -⟩ := memmap_to_uefi_converts twoEntries (by decide) (by decide) 80
    (by decide) fun _ => ⟨0, 0, 0, 0, 0, 0⟩
  have hfilter : (considered twoEntries 80).filter (fun e => ∃ p, e.HasPage p) = [⟨0x500, 0x2100, 7⟩] := by decide
  rw [hfilter] at hall
  cases hall with
  | cons hof _ => exact ⟨by decide, _, hbuf 0 _ rfl, hof⟩

end Efi

end FerrumVM
