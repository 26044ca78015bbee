import FerrumVM.HostOs

/-! A host with a disk image: one file, which is a byte array with a cursor. A read past the end fails, a
write past the end makes the file grow, with zeros in between, as far as the host lets a file grow. -/

namespace FerrumVM

open Base

/-- A host whose random source gives zeros and on which every other call fails. -/
def HostOs.idle (World File : Type) : HostOs where
  World := World
  File := File
  randBytes n w := (.zeros n, w)
  seek _ _ w := (.error .other, w)
  readExact _ _ w := (.error .other, w)
  read _ _ w := (.error .other, w)
  writeAll _ _ w := (.error .other, w)
  setLen _ _ w := (.error .other, w)
  fsync _ w := w
  openFile _ _ w := (.error .other, w)
  metadata _ w := (.error .notFound, w)
  symlinkMetadata _ w := (.error .notFound, w)
  readDir _ w := (.error .notFound, w)
  createDir _ w := (.error .other, w)
  setPermissions _ _ w := (.error .other, w)
  symlink _ _ w := (.error .other, w)
  removeFile _ w := (.error .notFound, w)
  removeDir _ w := (.error .notFound, w)
  rename _ _ w := (.error .notFound, w)
  readLink _ w := (.error .notFound, w)
  tapSend _ w := (.error .other, w)
  tapRecv w := (.error .wouldBlock, w)

structure DiskLimits where
  /-- The greatest offset that can be sought. -/
  seekMax : Nat
  /-- The greatest size of a file. -/
  sizeMax : Nat
  /-- An `off_t` has 64 bits and a sign. -/
  seekMax_le : seekMax ≤ isizeMax
  sizeMax_le : sizeMax ≤ seekMax

structure DiskFile where
  contents : Bytes
  cursor : Nat
  deriving DecidableEq, Repr

namespace DiskFile

/-- `contents` with the bytes from `offset` on replaced by `data`, filled up with zeros if it ends before. -/
def overwrite (contents : Bytes) (offset : Nat) (data : Bytes) : Bytes :=
  if data = [] then contents
  else splice (contents ++ List.replicate (offset + data.length - contents.length) 0) offset data

def seek (limits : DiskLimits) (offset : UInt64) (f : DiskFile) : Except IoErrorKind Unit × DiskFile :=
  if offset.toNat ≤ limits.seekMax then (.ok (), { f with cursor := offset.toNat }) else (.error .other, f)

/-- A read of nothing succeeds even past the end. -/
def readExact (n : Nat) (f : DiskFile) : Except IoErrorKind (BytesOf n) × DiskFile :=
  if h : n = 0 ∨ f.cursor + n ≤ f.contents.length then
    (.ok ⟨window f.contents f.cursor n, by
      rcases h with rfl | hle
      · simp [window]
      · exact length_window hle⟩, { f with cursor := f.cursor + n })
  else (.error .other, { f with cursor := max f.cursor f.contents.length })

/-- A write that would make the file too long puts down what fits before it fails. -/
def writeAll (limits : DiskLimits) (data : Bytes) (f : DiskFile) : Except IoErrorKind Unit × DiskFile :=
  let part := data.take (limits.sizeMax - f.cursor)
  (if part.length = data.length then .ok () else .error .other,
    { contents := overwrite f.contents f.cursor part, cursor := f.cursor + part.length })

end DiskFile

def HostOs.disk (limits : DiskLimits) : HostOs :=
  { HostOs.idle DiskFile Unit with
    seek := fun _ => DiskFile.seek limits
    readExact := fun _ => DiskFile.readExact
    writeAll := fun _ => DiskFile.writeAll limits }

namespace DiskFile

variable {contents data : Bytes} {offset : Nat}

@[simp] theorem overwrite_nil : overwrite contents offset [] = contents := if_pos rfl

theorem overwrite_inside (h : offset + data.length ≤ contents.length) :
    overwrite contents offset data = splice contents offset data := by
  unfold overwrite
  split_ifs with hnil
  · simp [hnil, splice]
  · rw [Nat.sub_eq_zero_of_le h, List.replicate_zero, List.append_nil]

theorem length_overwrite (contents : Bytes) (offset : Nat) (h : data ≠ []) :
    (overwrite contents offset data).length = max contents.length (offset + data.length) := by
  unfold overwrite
  rw [if_neg h, length_splice (by simp; omega), List.length_append, List.length_replicate]
  omega

def Has (contents : Bytes) (offset : Nat) (data : Bytes) : Prop :=
  data = [] ∨ offset + data.length ≤ contents.length ∧ window contents offset data.length = data

theorem overwrite_eq_self_iff : overwrite contents offset data = contents ↔ Has contents offset data := by
  unfold Has
  by_cases hnil : data = []
  · simp [hnil]
  rw [or_iff_right hnil]
  constructor
  · intro h
    have hlength := length_overwrite contents offset hnil
    rw [h] at hlength
    have hinside : offset + data.length ≤ contents.length := by omega
    rw [overwrite_inside hinside] at h
    refine ⟨hinside, ?_⟩
    calc window contents offset data.length = window (splice contents offset data) offset data.length := by rw [h]
      _ = data := window_splice_self hinside
  · rintro ⟨hinside, hwindow⟩
    rw [overwrite_inside hinside]
    calc splice contents offset data
        = contents.take offset ++ (window contents offset data.length ++ contents.drop (offset + data.length)) := by
          rw [hwindow, splice, List.append_assoc]
      _ = contents := by
          rw [window, ← List.drop_drop, List.take_append_drop, List.take_append_drop]

end DiskFile

end FerrumVM
