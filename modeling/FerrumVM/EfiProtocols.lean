import FerrumVM.EfiMemory

/-! The protocol database of the firmware's EFI boot services, in `efi/uefi.c`: entries are only ever added at the end,
a lookup takes the first entry for a handle and a GUID, and the table has a fixed number of places. Whether an
interface is found after it was installed depends on what stands in the table. -/

namespace FerrumVM

open Base

structure EfiGuid where
  data1 : UInt32
  data2 : UInt16
  data3 : UInt16
  data4 : Vector UInt8 8
  deriving DecidableEq, Repr

namespace EfiGuid

def toBytes (guid : EfiGuid) : Bytes :=
  u32ToLe guid.data1 ++ (u16ToLe guid.data2 ++ (u16ToLe guid.data3 ++ guid.data4.toList))

theorem toBytes_inj {a b : EfiGuid} : a.toBytes = b.toBytes ↔ a = b := by
  refine ⟨fun h => ?_, fun h => h ▸ rfl⟩
  obtain ⟨h1, h⟩ := List.append_inj h (by simp)
  obtain ⟨h2, h⟩ := List.append_inj h (by simp)
  obtain ⟨h3, h4⟩ := List.append_inj h (by simp)
  have hdata1 := congrArg u32FromLe h1
  have hdata2 := congrArg u16FromLe h2
  have hdata3 := congrArg u16FromLe h3
  rw [u32FromLe_toLe, u32FromLe_toLe] at hdata1
  rw [u16FromLe_toLe, u16FromLe_toLe] at hdata2 hdata3
  cases a
  cases b
  exact EfiGuid.mk.injEq .. ▸ ⟨hdata1, hdata2, hdata3, Vector.toList_inj.mp h4⟩

end EfiGuid

namespace Efi

/-- `gEfiLoadedImageProtocolGuid2`. -/
def loadedImageProtocolGuid : EfiGuid :=
  ⟨0x5B1B31A1, 0x9562, 0x11D2, #v[0x8E, 0x3F, 0x00, 0xA0, 0xC9, 0x69, 0x72, 0x3B]⟩

def maxProtocols : Nat := 64

def efiGuidMatch (a b : EfiGuid) : Bool := memcmp a.toBytes b.toBytes == 0

theorem efiGuidMatch_iff {a b : EfiGuid} : efiGuidMatch a b = true ↔ a = b := by
  unfold efiGuidMatch
  rw [beq_iff_eq, memcmp_eq_zero_iff (by simp [EfiGuid.toBytes]), EfiGuid.toBytes_inj]

structure ProtocolEntry where
  handle : UInt64
  guid : EfiGuid
  iface : UInt64
  deriving DecidableEq, Repr

/-- `gProtocolDB` up to `gProtocolCount`. -/
structure ProtocolDb where
  entries : List ProtocolEntry
  count_le : entries.length ≤ maxProtocols

namespace ProtocolDb

def empty : ProtocolDb := ⟨[], Nat.zero_le _⟩

/-- A new entry behind the others, if there is a place left. -/
def append (db : ProtocolDb) (entry : ProtocolEntry) : ProtocolDb :=
  if h : db.entries.length < maxProtocols then
    ⟨db.entries ++ [entry], by rw [List.length_append]; exact h⟩
  else db

end ProtocolDb

/-- A null pointer is `none`; the result is the status, what `*Handle` holds then, and the table. -/
def efiInstallProtocolInterface (db : ProtocolDb) (handle : Option UInt64) (protocol : Option EfiGuid)
    (interface _devicePath : UInt64) : EfiStatus × Option UInt64 × ProtocolDb :=
  let handle := handle.map fun h => if h = 0 then 4 else h
  match handle, protocol with
  | some h, some guid => (.success, handle, db.append ⟨h, guid, interface⟩)
  | _, _ => (.success, handle, db)

/-- The loop of `efi_find_protocol`. -/
def findLoop (handle : UInt64) (guid : EfiGuid) : List ProtocolEntry → UInt64
  | [] => 0
  | entry :: entries =>
    if entry.handle = handle ∧ efiGuidMatch entry.guid guid then entry.iface else findLoop handle guid entries

def efiFindProtocol (db : ProtocolDb) (handle : UInt64) (guid : Option EfiGuid) : UInt64 :=
  match guid with
  | none => 0
  | some guid => findLoop handle guid db.entries

def efiRegisterProtocol (db : ProtocolDb) (handle : UInt64) (guid : EfiGuid) (iface : UInt64) : ProtocolDb :=
  db.append ⟨handle, guid, iface⟩

/-- `atNull` is the GUID at address zero, which is mapped and to which a null pointer leads. The result is the status
and what is written to `*interface`, which has a place if `hasInterface`. -/
def efiHandleProtocol (db : ProtocolDb) (loadedImageInstance : UInt64) (atNull : EfiGuid) (handle : UInt64)
    (protocol : Option EfiGuid) (hasInterface : Bool) : EfiStatus × Option UInt64 :=
  if handle = 0 ∨ ¬hasInterface then (.invalidParameter, none)
  else
    let found := efiFindProtocol db handle protocol
    if found ≠ 0 then (.success, some found)
    else if loadedImageInstance ≠ 0 ∧ efiGuidMatch (protocol.getD atNull) loadedImageProtocolGuid then
      (.success, some loadedImageInstance)
    else (.unsupported, some 0)

/-! ### What a lookup finds -/

def ProtocolEntry.isFor (handle : UInt64) (guid : EfiGuid) (entry : ProtocolEntry) : Bool :=
  entry.handle == handle && entry.guid == guid

theorem ProtocolEntry.isFor_iff {handle : UInt64} {guid : EfiGuid} {entry : ProtocolEntry} :
    entry.isFor handle guid = true ↔ entry.handle = handle ∧ efiGuidMatch entry.guid guid = true := by
  rw [efiGuidMatch_iff, isFor, Bool.and_eq_true, beq_iff_eq, beq_iff_eq]

theorem findLoop_eq (handle : UInt64) (guid : EfiGuid) (entries : List ProtocolEntry) :
    findLoop handle guid entries = ((entries.find? (·.isFor handle guid)).map (·.iface)).getD 0 := by
  induction entries with
  | nil => rfl
  | cons entry entries ih =>
    unfold findLoop
    rw [List.find?_cons]
    by_cases hfor : entry.isFor handle guid = true
    · rw [if_pos (ProtocolEntry.isFor_iff.mp hfor), hfor]
      rfl
    · rw [if_neg (mt ProtocolEntry.isFor_iff.mpr hfor), Bool.eq_false_iff.mpr hfor]
      exact ih

theorem ProtocolDb.entries_append (db : ProtocolDb) (entry : ProtocolEntry) : (db.append entry).entries =
      if db.entries.length < maxProtocols then db.entries ++ [entry] else db.entries := by
  unfold append
  split_ifs <;> rfl

/-- What a lookup finds right after an interface was added: an older entry hides the new one. -/
theorem findProtocol_append (db : ProtocolDb) (handle : UInt64) (guid : EfiGuid) (iface : UInt64) :
    efiFindProtocol (db.append ⟨handle, guid, iface⟩) handle (some guid) =
      match db.entries.find? (·.isFor handle guid) with
      | some entry => entry.iface
      | none => if db.entries.length < maxProtocols then iface else 0 := by
  have hnew : ProtocolEntry.isFor handle guid ⟨handle, guid, iface⟩ = true := by simp [ProtocolEntry.isFor]
  show findLoop handle guid _ = _
  rw [findLoop_eq, db.entries_append]
  cases hfind : db.entries.find? (·.isFor handle guid) with
  | some entry => split_ifs <;> simp [List.find?_append, hfind]
  | none => split_ifs <;> simp [List.find?_append, hfind, hnew]

theorem handleProtocol_eq_success_iff {db : ProtocolDb} {loadedImageInstance handle iface : UInt64} {atNull guid : EfiGuid}
    (hhandle : handle ≠ 0) (hiface : iface ≠ 0) :
    efiHandleProtocol db loadedImageInstance atNull handle (some guid) true = (.success, some iface) ↔
      efiFindProtocol db handle (some guid) = iface ∨ efiFindProtocol db handle (some guid) = 0 ∧
        guid = loadedImageProtocolGuid ∧ loadedImageInstance = iface := by
  unfold efiHandleProtocol
  rw [if_neg (by simpa using hhandle)]
  generalize efiFindProtocol db handle (some guid) = found
  by_cases hfound : found = 0
  · subst hfound
    rw [if_neg (not_not.mpr rfl)]
    by_cases himage : loadedImageInstance ≠ 0 ∧ guid = loadedImageProtocolGuid
    · rw [if_pos ⟨himage.1, efiGuidMatch_iff.mpr himage.2⟩]
      simp [himage.2, hiface.symm]
    · rw [if_neg (fun h => himage ⟨h.1, efiGuidMatch_iff.mp h.2⟩)]
      refine iff_of_false nofun ?_
      rintro (hzero | ⟨-, hguid, rfl⟩)
      · exact hiface hzero.symm
      · exact himage ⟨hiface, hguid⟩
  · simp [hfound]

/-! ### Installing an interface -/

inductive ProtocolCall where
  | register (handle : UInt64) (guid : EfiGuid) (iface : UInt64)
  | install (handle : Option UInt64) (protocol : Option EfiGuid) (interface devicePath : UInt64)

namespace ProtocolDb

def perform (db : ProtocolDb) : ProtocolCall → ProtocolDb
  | .register handle guid iface => efiRegisterProtocol db handle guid iface
  | .install handle protocol interface devicePath =>
    (efiInstallProtocolInterface db handle protocol interface devicePath).2.2

def after (calls : List ProtocolCall) : ProtocolDb := calls.foldl perform empty

/-- An interface that is installed is found under its handle afterwards, and a handle that is made for it is new. -/
def Installs (db : ProtocolDb) (loadedImageInstance : UInt64) (atNull : EfiGuid) (handle : UInt64) (guid : EfiGuid)
    (iface devicePath : UInt64) : Prop :=
  ∃ status handle' db', efiInstallProtocolInterface db (some handle) (some guid) iface devicePath =
      (status, some handle', db') ∧
    (status = .success →
      efiHandleProtocol db' loadedImageInstance atNull handle' (some guid) true = (.success, some iface)) ∧
    (handle = 0 → ∀ entry ∈ db.entries, entry.handle ≠ handle')

def installHandle (handle : UInt64) : UInt64 := if handle = 0 then 4 else handle

/-- An interface for the GUID would be found: no entry hides it and there is a place for it, or the entry that hides it
has the same interface. The image that is loaded is found where there is no interface. -/
def Shows (db : ProtocolDb) (loadedImageInstance handle : UInt64) (guid : EfiGuid) (iface : UInt64) : Prop :=
  match db.entries.find? (·.isFor handle guid) with
  | some entry => entry.iface = iface ∨ entry.iface = 0 ∧ guid = loadedImageProtocolGuid ∧ loadedImageInstance = iface
  | none => db.entries.length < maxProtocols ∨ guid = loadedImageProtocolGuid ∧ loadedImageInstance = iface

theorem installHandle_ne_zero (handle : UInt64) : installHandle handle ≠ 0 := by
  unfold installHandle
  split_ifs with h
  · decide
  · exact h

theorem install_eq (db : ProtocolDb) (handle : UInt64) (guid : EfiGuid) (iface devicePath : UInt64) :
    efiInstallProtocolInterface db (some handle) (some guid) iface devicePath =
      (.success, some (installHandle handle), db.append ⟨installHandle handle, guid, iface⟩) := rfl

/-- **An interface is found after it was installed** exactly if the table shows it, and a handle is new exactly if no
entry has the handle 4, which every call takes. -/
theorem install_is_handled_iff (calls : List ProtocolCall) (loadedImageInstance : UInt64) (atNull : EfiGuid)
    (handle : UInt64) (guid : EfiGuid) {iface : UInt64} (devicePath : UInt64) (hiface : iface ≠ 0) :
    (after calls).Installs loadedImageInstance atNull handle guid iface devicePath ↔
      (after calls).Shows loadedImageInstance (installHandle handle) guid iface ∧
        (handle = 0 → ∀ entry ∈ (after calls).entries, entry.handle ≠ 4) := by
  generalize after calls = db
  have hfound : efiHandleProtocol (db.append ⟨installHandle handle, guid, iface⟩) loadedImageInstance atNull
      (installHandle handle) (some guid) true = (.success, some iface) ↔
      db.Shows loadedImageInstance (installHandle handle) guid iface := by
    rw [handleProtocol_eq_success_iff (installHandle_ne_zero handle) hiface, findProtocol_append, Shows]
    cases db.entries.find? (·.isFor (installHandle handle) guid) with
    | some entry => rfl
    | none =>
      by_cases hroom : db.entries.length < maxProtocols
      · simp [hroom]
      · simp [hroom, hiface.symm]
  have hnew : (handle = 0 → ∀ entry ∈ db.entries, entry.handle ≠ installHandle handle) ↔
      (handle = 0 → ∀ entry ∈ db.entries, entry.handle ≠ 4) := by
    refine forall_congr' fun hzero => ?_
    rw [hzero]
    rfl
  rw [← hfound, ← hnew]
  constructor
  · rintro ⟨status, handle', db', hrun, hhandled, hfresh⟩
    rw [install_eq] at hrun
    cases hrun
    exact ⟨hhandled rfl, hfresh⟩
  · rintro ⟨hhandled, hfresh⟩
    exact ⟨_, _, _, install_eq db handle guid iface devicePath, fun _ => hhandled, hfresh⟩

/-- In the empty table the first interface is found, under a new handle. -/
theorem first_install_is_handled : empty.Installs 0 loadedImageProtocolGuid 0 loadedImageProtocolGuid 0x1000 0 :=
  (install_is_handled_iff [] 0 loadedImageProtocolGuid 0 loadedImageProtocolGuid 0 (by decide)).mpr
    ⟨Or.inl (by decide), nofun⟩

/-- The second handle that is made is the first one again. -/
theorem second_handle_is_not_new : ¬∀ calls loadedImageInstance atNull handle guid iface devicePath, iface ≠ 0 →
    (after calls).Installs loadedImageInstance atNull handle guid iface devicePath := by
  intro h
  obtain ⟨status, handle', db', hrun, -, hnew⟩ :=
    h [.install (some 0) (some loadedImageProtocolGuid) 0x1000 0] 0 loadedImageProtocolGuid 0 loadedImageProtocolGuid
      0x2000 0 (by decide)
  cases hrun
  exact hnew rfl _ (List.mem_singleton_self _) rfl

end ProtocolDb

end Efi

end FerrumVM
