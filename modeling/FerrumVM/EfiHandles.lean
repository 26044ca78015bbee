import Mathlib.Data.List.Perm.Subperm
import FerrumVM.EfiProtocols
import FerrumVM.FirmwareHeap

/-! The two calls of `efi/uefi.c` that look for handles. `efi_LocateHandle` goes through the protocol database;
`efi_LocateHandleBuffer` answers with one handle, whatever is registered. -/

namespace FerrumVM

open Base

namespace Efi

/-- The loop over the entries, with the handles that were found so far. -/
def matchLoop (guid : EfiGuid) : List ProtocolEntry → List UInt64 → List UInt64
  | [], found => found
  | entry :: entries, found =>
    if ¬efiGuidMatch entry.guid guid then matchLoop guid entries found
    else if found.any (· == entry.handle) then matchLoop guid entries found
    else matchLoop guid entries (found ++ [entry.handle])

def ProtocolDb.found (db : ProtocolDb) (guid : EfiGuid) : List UInt64 := matchLoop guid db.entries []

/-- `Buffer[i] = matches[i]`, from an index on. -/
def writeHandles (i : Nat) : List UInt64 → (Nat → UInt64) → Nat → UInt64
  | [], words => words
  | handle :: handles, words => writeHandles (i + 1) handles (Function.update words i handle)

/-- A buffer is the words from its address on. The result is the status, what `*BufferSize` holds then, and the
buffer. -/
def efiLocateHandle (db : ProtocolDb) (guid : EfiGuid) (bufferSize : Option UInt64) (buffer : Option (Nat → UInt64)) :
    EfiStatus × Option UInt64 × Option (Nat → UInt64) :=
  match bufferSize with
  | none => (.invalidParameter, none, buffer)
  | some size =>
    let found := db.found guid
    if found.length = 0 then (.notFound, some 0, buffer)
    else
      let required := UInt64.ofNat found.length * 8
      match buffer with
      | none => (.bufferTooSmall, some required, none)
      | some words =>
        if size < required then (.bufferTooSmall, some required, some words)
        else (.success, some required, some (writeHandles 0 found words))

/-- `fakeHandle` is the address of `gFakeHandleData`. The result is the status, what is written to `*count` and `*buf`,
and the heap. -/
def efiLocateHandleBuffer (fuel : Nat) (fakeHandle : UInt64) (hasCount hasBuf : Bool) (s : Heap) :
    Exec (EfiStatus × Option UInt64 × Option UInt64 × Heap) := do
  if ¬hasCount ∨ ¬hasBuf then return (.invalidParameter, none, none, s)
  else
    let (buf, heap) ← s.malloc fuel 8
    if buf = 0 then return (.outOfResources, some 1, some 0, heap)
    else return (.success, some 1, some buf, { heap with mem := heap.mem.store buf (u64ToLe fakeHandle) })

/-! ### The handles with a GUID -/

/-- The handles that were registered with the GUID, one for each entry. -/
def ProtocolDb.registered (db : ProtocolDb) (guid : EfiGuid) : List UInt64 :=
  (db.entries.filter (·.guid = guid)).map (·.handle)

/-- The distinct ones of the handles, in the order in which they were first registered. -/
structure Distinct (registered handles : List UInt64) : Prop where
  mem : ∀ handle, handle ∈ handles ↔ handle ∈ registered
  order : handles.Pairwise fun a b => registered.idxOf a < registered.idxOf b

variable {db : ProtocolDb} {guid : EfiGuid} {registered handles : List UInt64}

theorem Distinct.snoc (h : Distinct registered handles) (handle : UInt64) :
    Distinct (registered ++ [handle]) (if handle ∈ handles then handles else handles ++ [handle]) := by
  have hkept {a : UInt64} (ha : a ∈ handles) : (registered ++ [handle]).idxOf a = registered.idxOf a :=
    List.idxOf_append_of_mem ((h.mem a).mp ha)
  have horder : handles.Pairwise fun a b => (registered ++ [handle]).idxOf a < (registered ++ [handle]).idxOf b :=
    h.order.imp_of_mem fun ha hb hlt => by rwa [hkept ha, hkept hb]
  split_ifs with hmem
  · refine ⟨fun a => ?_, horder⟩
    rw [List.mem_append, List.mem_singleton, h.mem]
    exact ⟨.inl, fun ha => ha.elim id fun heq => heq ▸ (h.mem handle).mp hmem⟩
  · refine ⟨fun a => by simp [h.mem], List.pairwise_append.mpr ⟨horder, List.pairwise_singleton _ _, ?_⟩⟩
    intro a ha b hb
    obtain rfl := List.mem_singleton.mp hb
    rw [hkept ha, List.idxOf_append_of_notMem (mt (h.mem b).mpr hmem)]
    exact Nat.lt_add_right _ (List.idxOf_lt_length_iff.mpr ((h.mem a).mp ha))

theorem Distinct.length_le (h : Distinct registered handles) : handles.length ≤ registered.length := by
  have hnodup : handles.Nodup := h.order.imp fun {a b} hlt (heq : a = b) => absurd hlt (heq ▸ Nat.lt_irrefl _)
  exact (List.subperm_of_subset hnodup fun a ha => (h.mem a).mp ha).length_le

theorem distinct_matchLoop {entries : List ProtocolEntry} (h : Distinct registered handles) :
    Distinct (registered ++ (entries.filter (·.guid = guid)).map (·.handle)) (matchLoop guid entries handles) := by
  induction entries generalizing registered handles with
  | nil => simpa [matchLoop] using h
  | cons entry entries ih =>
    have hany : (handles.any (· == entry.handle)) = true ↔ entry.handle ∈ handles := by simp
    simp only [matchLoop, efiGuidMatch_iff, hany]
    by_cases hguid : entry.guid = guid
    · rw [if_neg (not_not.mpr hguid), ← apply_ite (matchLoop guid entries)]
      simpa [hguid] using ih (h.snoc entry.handle)
    · simpa [hguid] using ih h

theorem writeHandles_apply (handles : List UInt64) (i j : Nat) (words : Nat → UInt64) :
    writeHandles i handles words j = if j < i then words j else handles[j - i]?.getD (words j) := by
  induction handles generalizing i words with
  | nil => simp [writeHandles]
  | cons handle handles ih =>
    rw [writeHandles, ih]
    rcases Nat.lt_trichotomy j i with hlt | rfl | hgt
    · simp [hlt, Nat.lt_succ_of_lt hlt, Function.update_of_ne (Nat.ne_of_lt hlt)]
    · simp
    · have hsub : j - i = j - (i + 1) + 1 := by omega
      rw [if_neg (by omega), if_neg (by omega), Function.update_of_ne (by omega), hsub, List.getElem?_cons_succ]

/-! ### Locating handles -/

theorem distinct_found (db : ProtocolDb) (guid : EfiGuid) :
    Distinct (db.registered guid) (db.found guid) :=
  @distinct_matchLoop guid [] [] db.entries ⟨fun _ => Iff.rfl, .nil⟩

theorem length_found_le (db : ProtocolDb) (guid : EfiGuid) : (db.found guid).length ≤ maxProtocols := by
  refine (distinct_found db guid).length_le.trans (le_trans ?_ db.count_le)
  rw [ProtocolDb.registered, List.length_map]
  exact List.length_filter_le _ _

theorem found_eq_nil_iff : db.found guid = [] ↔ ∀ entry ∈ db.entries, entry.guid ≠ guid := by
  rw [List.eq_nil_iff_forall_not_mem]
  simp only [(distinct_found db guid).mem, ProtocolDb.registered, List.mem_map, List.mem_filter, decide_eq_true_eq]
  exact ⟨fun h entry hentry hguid => h entry.handle ⟨entry, ⟨hentry, hguid⟩, rfl⟩,
    fun h _ ⟨entry, hentry, _⟩ => h entry hentry.1 hentry.2⟩

theorem toNat_required {n : Nat} (h : n ≤ maxProtocols) : (UInt64.ofNat n * 8).toNat = 8 * n := by
  unfold maxProtocols at h
  rw [UInt64.toNat_mul, UInt64.toNat_ofNat']
  change n % 2 ^ 64 * 8 % 2 ^ 64 = _
  omega

theorem efiLocateHandle_of_room {size : UInt64} (words : Nat → UInt64) (hsome : db.found guid ≠ [])
    (hroom : 8 * (db.found guid).length ≤ size.toNat) :
    efiLocateHandle db guid (some size) (some words) =
      (.success, some (UInt64.ofNat (db.found guid).length * 8),
        some (writeHandles 0 (db.found guid) words)) := by
  refine (if_neg (mt List.length_eq_zero_iff.mp hsome)).trans (if_neg (UInt64.not_lt.mpr ?_))
  rwa [UInt64.le_iff_toNat_le, toNat_required (length_found_le db guid)]

/-- **Locating handles.** Without an entry for the GUID there is nothing to find. Else the call asks for a buffer with
room for the distinct handles, or puts them in it, in the order of their registration. The local array has room. -/
theorem locate_handle_exact (db : ProtocolDb) (guid : EfiGuid) (size : UInt64) (buffer : Option (Nat → UInt64)) :
    ∃ handles, Distinct (db.registered guid) handles ∧ handles.length ≤ maxProtocols ∧
      ((efiLocateHandle db guid (some size) buffer).1 = .notFound ↔ ∀ entry ∈ db.entries, entry.guid ≠ guid) ∧
      ((∀ entry ∈ db.entries, entry.guid ≠ guid) →
        efiLocateHandle db guid (some size) buffer = (.notFound, some 0, buffer)) ∧
      ((∃ entry ∈ db.entries, entry.guid = guid) → ∃ required : UInt64, required.toNat = 8 * handles.length ∧
        (efiLocateHandle db guid (some size) buffer = (.bufferTooSmall, some required, buffer) ↔
          buffer = none ∨ size.toNat < 8 * handles.length) ∧
        ∀ words, buffer = some words → 8 * handles.length ≤ size.toNat →
          ∃ words', efiLocateHandle db guid (some size) buffer = (.success, some required, some words') ∧
            ∀ i, words' i = handles[i]?.getD (words i)) := by
  refine ⟨_, distinct_found db guid, length_found_le db guid, ?_⟩
  have hnil : (db.found guid).length = 0 ↔ ∀ entry ∈ db.entries, entry.guid ≠ guid :=
    List.length_eq_zero_iff.trans found_eq_nil_iff
  have hrequired := toNat_required (length_found_le db guid)
  by_cases hnone : ∀ entry ∈ db.entries, entry.guid ≠ guid
  · have hrun : efiLocateHandle db guid (some size) buffer = (.notFound, some 0, buffer) := if_pos (hnil.mpr hnone)
    exact ⟨iff_of_true (by rw [hrun]) hnone, fun _ => hrun, fun ⟨entry, h, hguid⟩ => absurd hguid (hnone entry h)⟩
  have hsome := mt hnil.mp hnone
  cases buffer with
  | none =>
    have hrun : efiLocateHandle db guid (some size) none = (.bufferTooSmall, some _, none) := if_neg hsome
    exact ⟨iff_of_false (by rw [hrun]; nofun) hnone, fun h => absurd h hnone,
      fun _ => ⟨_, hrequired, iff_of_true hrun (.inl rfl), nofun⟩⟩
  | some words =>
    by_cases hsmall : size < UInt64.ofNat (db.found guid).length * 8
    · have hrun : efiLocateHandle db guid (some size) (some words) = (.bufferTooSmall, some _, some words) :=
        (if_neg hsome).trans (if_pos hsmall)
      rw [UInt64.lt_iff_toNat_lt, hrequired] at hsmall
      exact ⟨iff_of_false (by rw [hrun]; nofun) hnone, fun h => absurd h hnone,
        fun _ => ⟨_, hrequired, iff_of_true hrun (.inr hsmall), fun _ _ hle => absurd hle (Nat.not_le.mpr hsmall)⟩⟩
    · rw [UInt64.lt_iff_toNat_lt, hrequired] at hsmall
      have hrun := efiLocateHandle_of_room words (mt List.length_eq_zero_iff.mpr hsome) (Nat.not_lt.mp hsmall)
      refine ⟨iff_of_false (by rw [hrun]; nofun) hnone, fun h => absurd h hnone, fun _ => ⟨_, hrequired, ?_, ?_⟩⟩
      · exact iff_of_false (by rw [hrun]; nofun) (by simpa using hsmall)
      · rintro _ ⟨rfl⟩ _
        refine ⟨_, hrun, fun i => ?_⟩
        rw [writeHandles_apply, if_neg (Nat.not_lt_zero i), Nat.sub_zero]

/-! ### Locating handles in a buffer of the firmware -/

/-- The handles that `efi_LocateHandle` finds, given a buffer with room for a whole table of them. -/
def located (db : ProtocolDb) (guid : EfiGuid) : Option (List UInt64) :=
  match efiLocateHandle db guid (some 512) (some fun _ => 0) with
  | (.success, some size, some words) => some ((List.range (size.toNat / 8)).map words)
  | _ => none

def handlesAt (mem : Memory) (buf count : UInt64) : List UInt64 :=
  (List.range count.toNat).map fun i => mem.u64 (buf + 8 * UInt64.ofNat i)

theorem located_eq_some_iff : located db guid = some handles ↔ handles ≠ [] ∧ db.found guid = handles := by
  have hle := length_found_le db guid
  by_cases hnone : db.found guid = []
  · have hrun : efiLocateHandle db guid (some 512) (some fun _ => 0) = (.notFound, some 0, some fun _ => 0) :=
      if_pos (by rw [hnone]; rfl)
    rw [located, hrun, hnone]
    exact iff_of_false nofun fun h => h.1 h.2.symm
  · have hall : (List.range (db.found guid).length).map
        (writeHandles 0 (db.found guid) fun _ => 0) = db.found guid :=
      List.ext_getElem (by simp) fun i _ hi => by simp [writeHandles_apply, List.getElem?_eq_getElem hi]
    unfold maxProtocols at hle
    rw [located, efiLocateHandle_of_room _ hnone (by change _ ≤ 512; omega)]
    simp only [toNat_required (length_found_le db guid), Nat.mul_div_cancel_left _ (by decide : 0 < 8), hall,
      Option.some.injEq]
    exact ⟨fun h => ⟨h ▸ hnone, h⟩, fun h => h.2⟩

theorem found_eq_singleton_iff {handle : UInt64} : db.found guid = [handle] ↔
    (∃ entry ∈ db.entries, entry.guid = guid) ∧ ∀ entry ∈ db.entries, entry.guid = guid → entry.handle = handle := by
  have hdistinct := distinct_found db guid
  have hmem (a : UInt64) : a ∈ db.found guid ↔ ∃ entry ∈ db.entries, entry.guid = guid ∧ entry.handle = a := by
    simp [hdistinct.mem, ProtocolDb.registered, and_assoc]
  constructor
  · intro h
    rw [h] at hmem
    obtain ⟨entry, hentry, hguid, _⟩ := (hmem handle).mp (List.mem_singleton_self _)
    exact ⟨⟨entry, hentry, hguid⟩, fun entry hentry hguid => by simpa using (hmem entry.handle).mpr ⟨entry, hentry, hguid, rfl⟩⟩
  · rintro ⟨⟨entry, hentry, hguid⟩, hall⟩
    have heq (a : UInt64) (ha : a ∈ db.found guid) : a = handle := by
      obtain ⟨entry, hentry, hguid, rfl⟩ := (hmem a).mp ha
      exact hall entry hentry hguid
    have horder := hdistinct.order
    cases hfound : db.found guid with
    | nil => exact absurd hfound (fun h => found_eq_nil_iff.mp h entry hentry hguid)
    | cons a rest =>
      rw [hfound] at heq horder
      cases rest with
      | nil => rw [heq a List.mem_cons_self]
      | cons b rest =>
        have hlt := List.rel_of_pairwise_cons horder (List.mem_cons_self (a := b))
        rw [heq a List.mem_cons_self, heq b (by simp)] at hlt
        exact absurd hlt (Nat.lt_irrefl _)

variable {fuel : Nat} {fakeHandle : UInt64} {hasCount hasBuf : Bool} {s s' : Heap} {status : EfiStatus}
  {count buf : Option UInt64}

theorem efiLocateHandleBuffer_eq_ok
    (h : efiLocateHandleBuffer fuel fakeHandle hasCount hasBuf s = .ok (status, count, buf, s')) :
    status ≠ .success ∨ count = some 1 ∧ ∃ ptr, buf = some ptr ∧ handlesAt s'.mem ptr 1 = [fakeHandle] := by
  unfold efiLocateHandleBuffer at h
  split_ifs at h
  · cases h
    exact .inl nofun
  · obtain ⟨⟨ptr, heap⟩, _, h⟩ := Exec.bind_eq_ok.mp h
    dsimp only at h
    split_ifs at h
    · cases h
      exact .inl nofun
    · cases h
      refine .inr ⟨rfl, ptr, rfl, ?_⟩
      show [Memory.u64 _ (ptr + 8 * 0)] = _
      rw [UInt64.mul_zero, UInt64.add_zero, Memory.u64_store_self]

/-- **The two calls agree** exactly if the second one fails, or the handle that it always answers with is the one
handle that is registered with the GUID. -/
theorem locate_handle_buffer_agrees_iff (db : ProtocolDb) (guid : EfiGuid)
    (hrun : efiLocateHandleBuffer fuel fakeHandle hasCount hasBuf s = .ok (status, count, buf, s')) :
    (status = .success → ∃ n ptr, count = some n ∧ buf = some ptr ∧ located db guid = some (handlesAt s'.mem ptr n)) ↔
      status ≠ .success ∨ (∃ entry ∈ db.entries, entry.guid = guid) ∧
        ∀ entry ∈ db.entries, entry.guid = guid → entry.handle = fakeHandle := by
  rcases efiLocateHandleBuffer_eq_ok hrun with hfails | ⟨rfl, ptr, rfl, hhandles⟩
  · exact iff_of_true (fun h => absurd h hfails) (.inl hfails)
  · rw [← found_eq_singleton_iff, ← imp_iff_not_or]
    refine imp_congr_right fun _ => ?_
    constructor
    · rintro ⟨_, _, ⟨rfl⟩, ⟨rfl⟩, hlocated⟩
      rw [hhandles] at hlocated
      exact (located_eq_some_iff.mp hlocated).2
    · intro hfound
      exact ⟨1, ptr, rfl, rfl, hhandles ▸ located_eq_some_iff.mpr ⟨by simp, hfound⟩⟩

/-- The handle is registered with the GUID, and no other is. -/
theorem registered_handle_is_answered : ∃ ptr s',
    efiLocateHandleBuffer 1 0x5000 true true firmwareHeap = .ok (.success, some 1, some ptr, s') ∧
      located (.append .empty ⟨0x5000, loadedImageProtocolGuid, 0⟩) loadedImageProtocolGuid =
        some (handlesAt s'.mem ptr 1) := by
  have hrun : efiLocateHandleBuffer 1 0x5000 true true firmwareHeap = .ok (.success, some 1, some 0x3000010, _) := rfl
  obtain ⟨_, _, ⟨rfl⟩, ⟨rfl⟩, hlocated⟩ := (locate_handle_buffer_agrees_iff
    (.append .empty ⟨0x5000, loadedImageProtocolGuid, 0⟩) loadedImageProtocolGuid hrun).mpr (.inr (by decide)) rfl
  exact ⟨_, _, hrun, hlocated⟩

/-- Nothing is registered, and the call answers with a handle. -/
theorem unregistered_handle_is_answered : ∃ ptr s',
    efiLocateHandleBuffer 1 0x5000 true true firmwareHeap = .ok (.success, some 1, some ptr, s') ∧
      located .empty loadedImageProtocolGuid = none :=
  ⟨_, _, rfl, rfl⟩

end Efi

end FerrumVM
