import FerrumVM.FolderRuns
import Mathlib.Logic.Function.Basic

/-! WRITE and READ on the wire. The server takes the payload of a WRITE from offset 24 of the body, where it
stands up to minor version 8 of the protocol; from version 9 on there are sixteen more bytes in front of it,
which then go into the file while as many bytes at the end are left out. Files are byte arrays. -/

namespace FerrumVM

open Base Program HostOs

namespace DiskFile

variable {contents data data' : Bytes} {offset : Nat}

theorem window_overwrite (contents : Bytes) (offset : Nat) (h : data ≠ []) :
    window (overwrite contents offset data) offset data.length = data := by
  unfold overwrite
  rw [if_neg h]
  refine window_splice_self ?_
  rw [List.length_append, List.length_replicate]
  omega

theorem overwrite_inj (hlength : data.length = data'.length) :
    overwrite contents offset data = overwrite contents offset data' ↔ data = data' := by
  refine ⟨fun h => ?_, fun h => h ▸ rfl⟩
  by_cases hnil : data = []
  · rw [hnil, List.length_nil] at hlength
    rw [hnil, List.eq_nil_of_length_eq_zero hlength.symm]
  · have hnil' : data' ≠ [] := by
      intro hnil'
      rw [hnil', List.length_nil] at hlength
      exact hnil (List.eq_nil_of_length_eq_zero hlength)
    rw [← window_overwrite contents offset hnil, h, hlength, window_overwrite _ _ hnil']

theorem overwrite_eq_iff {start : Nat} (hlength : data'.length = data.length)
    (hstart : start = contents.length ∨ start = offset) :
    overwrite contents start data' = overwrite contents offset data ↔
      (data = [] ∨ start = offset) ∧ data' = data := by
  by_cases hnil : data = []
  · rw [hnil, List.length_nil] at hlength
    simp [hnil, List.eq_nil_of_length_eq_zero hlength]
  have hnil' : data' ≠ [] := fun h => hnil (List.eq_nil_of_length_eq_zero (by rw [← hlength, h, List.length_nil]))
  rw [or_iff_right hnil]
  constructor
  · intro h
    have hsame := congrArg List.length h
    rw [length_overwrite _ _ hnil, length_overwrite _ _ hnil'] at hsame
    have hpos := List.length_pos_of_ne_nil hnil
    have hplace : start = offset := by omega
    rw [hplace, overwrite_inj hlength] at h
    exact ⟨hplace, h⟩
  · rintro ⟨rfl, rfl⟩
    rfl

/-- `read`: as many bytes as there are, up to the length of the buffer. -/
def read (n : Nat) (f : DiskFile) : Except IoErrorKind { bs : Bytes // bs.length ≤ n } × DiskFile :=
  let buf := window f.contents f.cursor n
  (.ok ⟨buf, by simp [buf, window]⟩, { f with cursor := f.cursor + buf.length })

end DiskFile

/-! ### Open files -/

/-- An open file: the file that it is of, its own cursor, and how it was opened. -/
structure OpenFile where
  file : Nat
  cursor : Nat
  read : Bool
  write : Bool
  append : Bool
  deriving DecidableEq, Repr

structure FileStore where
  contents : Nat → Bytes
  cursors : Nat → Nat
  /-- The file that a path names. -/
  named : PathBuf → Option Nat
  /-- The next cursor that is free. -/
  next : Nat

namespace FileStore

variable {α : Type} {f : OpenFile} {call : DiskFile → α × DiskFile} {w : FileStore}

def view (w : FileStore) (f : OpenFile) : DiskFile := ⟨w.contents f.file, w.cursors f.cursor⟩

def onFile (f : OpenFile) (call : DiskFile → α × DiskFile) (w : FileStore) : α × FileStore :=
  let (a, after) := call (w.view f)
  (a, { w with
    contents := Function.update w.contents f.file after.contents
    cursors := Function.update w.cursors f.cursor after.cursor })

theorem view_onFile : (onFile f call w).2.view f = (call (w.view f)).2 := by
  unfold onFile view
  simp only [Function.update_self]

theorem contents_onFile :
    (onFile f call w).2.contents = Function.update w.contents f.file (call (w.view f)).2.contents := rfl

end FileStore

/-- Where a write starts: a file that was opened for appending goes to its end first. -/
def OpenFile.place (f : OpenFile) (d : DiskFile) : DiskFile :=
  if f.append then { d with cursor := d.contents.length } else d

def HostOs.store (limits : DiskLimits) : HostOs :=
  { HostOs.idle FileStore OpenFile with
    seek := fun f offset => FileStore.onFile f (DiskFile.seek limits offset)
    read := fun f n (w : FileStore) =>
      if f.read then FileStore.onFile f (DiskFile.read n) w else (.error .other, w)
    writeAll := fun f data (w : FileStore) =>
      if f.write then FileStore.onFile f (fun d => DiskFile.writeAll limits data (f.place d)) w
      -- No call is made for an empty buffer.
      else (if data = [] then .ok () else .error .other, w)
    openFile := fun options path (w : FileStore) =>
      match w.named path with
      | some file =>
        if options.createNew then (.error .alreadyExists, w)
        else (.ok ⟨file, w.next, options.read, options.write || options.append, options.append⟩,
          { w with
            contents := if options.truncate then Function.update w.contents file [] else w.contents
            cursors := Function.update w.cursors w.next 0
            next := w.next + 1 })
      | none => (.error .notFound, w) }

namespace SharedFolder

/-! ### The two handlers -/

section AnyHost

variable {H : HostOs} {s t : SharedFolder H} {header : FuseInHeader} {body reply : Bytes} {file : H.File}

theorem dispatch_eq_ok_iff {r : Except Errno Bytes} :
    dispatch header body s = .ok r t ↔ (answered header body s).1 = some r ∧ (answered header body s).2 = t := by
  unfold answered
  cases dispatch header body s with
  | ok r' t' => simp
  | error e t' => simp

def written (body : Bytes) : Bytes := (body.drop 24).take (min (u32Field body 16).toNat (body.drop 24).length)

theorem write_eq_ok_iff (hop : FuseOpcode.ofNumber header.opcode = .write) (hlen : 24 ≤ body.length)
    (hopen : s.openFiles.lookup (u64Field body 0) = some file) : dispatch header body s = .ok (.ok reply) t ↔
      s.Gives (H.seek file (u64Field body 8)) () ∧
        (s.called (H.seek file (u64Field body 8))).Gives (H.writeAll file (written body)) () ∧
        u32ToLe (UInt32.ofNat (written body).length) ++ u32ToLe 0 = reply ∧
        (s.called (H.seek file (u64Field body 8))).called (H.writeAll file (written body)) = t := by
  rw [dispatch_eq_ok_iff]
  refine after_handle (P := fun r t' => (r = some (.ok reply) ∧ t' = t) ↔ _) |>.mp ?_
  unfold handle
  rw [hop]
  show After (write body) s _
  have hsize : (written body).length = min (u32Field body 16).toNat (body.drop 24).length := by
    unfold written
    rw [List.length_take]
    omega
  refine after_u64At.mpr ⟨fun h => absurd hlen (by omega), fun _ => ?_⟩
  refine after_u64At.mpr ⟨fun h => absurd hlen (by omega), fun _ => ?_⟩
  refine after_u32At.mpr ⟨fun h => absurd hlen (by omega), fun _ => ?_⟩
  refine after_rest.mpr ⟨fun h => absurd hlen h, fun _ => after_get.mpr ?_⟩
  refine after_okOr.mpr ⟨fun h => ?_, fun file' hfile => ?_⟩
  · rw [hopen] at h
    exact absurd h nofun
  · cases hopen.symm.trans hfile
    refine after_hostCall.mpr ⟨fun kind hfails => ?_, fun _ hsought => ?_⟩
    · refine ⟨fun h => absurd h.1 nofun, fun h => ?_⟩
      exact absurd (hfails.symm.trans h.1) nofun
    refine after_hostCall.mpr ⟨fun kind hfails => ?_, fun _ hwritten => ?_⟩
    · refine ⟨fun h => absurd h.1 nofun, fun h => ?_⟩
      exact absurd (hfails.symm.trans h.2.1) nofun
    · rw [hsize]
      refine ⟨fun h => ⟨hsought, hwritten, ?_, h.2⟩, fun h => ⟨?_, h.2.2.2⟩⟩
      · cases h.1
        rfl
      · rw [← h.2.2.1]

theorem read_eq_ok_iff (hop : FuseOpcode.ofNumber header.opcode = .read) (hlen : 20 ≤ body.length)
    (hopen : s.openFiles.lookup (u64Field body 0) = some file) : dispatch header body s = .ok (.ok reply) t ↔
      s.Gives (H.seek file (u64Field body 8)) () ∧
        ∃ buf, (s.called (H.seek file (u64Field body 8))).Gives (H.read file (u32Field body 16).toNat) buf ∧
          buf.val = reply ∧
          (s.called (H.seek file (u64Field body 8))).called (H.read file (u32Field body 16).toNat) = t := by
  rw [dispatch_eq_ok_iff]
  refine after_handle (P := fun r t' => (r = some (.ok reply) ∧ t' = t) ↔ _) |>.mp ?_
  unfold handle
  rw [hop]
  show After (read body) s _
  refine after_u64At.mpr ⟨fun h => absurd hlen (by omega), fun _ => ?_⟩
  refine after_u64At.mpr ⟨fun h => absurd hlen (by omega), fun _ => ?_⟩
  refine after_u32At.mpr ⟨fun h => absurd hlen (by omega), fun _ => after_get.mpr ?_⟩
  refine after_okOr.mpr ⟨fun h => ?_, fun file' hfile => ?_⟩
  · rw [hopen] at h
    exact absurd h nofun
  · cases hopen.symm.trans hfile
    refine after_hostCall.mpr ⟨fun kind hfails => ?_, fun _ hsought => ?_⟩
    · refine ⟨fun h => absurd h.1 nofun, fun h => ?_⟩
      exact absurd (hfails.symm.trans h.1) nofun
    refine after_hostCall.mpr ⟨fun kind hfails => ?_, fun buf hread => ?_⟩
    · refine ⟨fun h => absurd h.1 nofun, fun h => ?_⟩
      obtain ⟨_, buf, hbuf, _⟩ := h
      exact absurd (hfails.symm.trans hbuf) nofun
    · refine ⟨fun h => ⟨hsought, buf, hread, ?_, h.2⟩, fun h => ?_⟩
      · cases h.1
        rfl
      · obtain ⟨_, buf', hbuf, rfl, ht⟩ := h
        cases hread.symm.trans hbuf
        exact ⟨rfl, ht⟩

end AnyHost

/-! ### Calls on the files of the host -/

section Store

variable {limits : DiskLimits} {s t : SharedFolder (HostOs.store limits)} {file : OpenFile} {offset : UInt64}
  {data : Bytes} {n : Nat}

def stored (s : SharedFolder (HostOs.store limits)) : FileStore := s.host
def opened (s : SharedFolder (HostOs.store limits)) (fh : UInt64) : Option OpenFile := s.openFiles.lookup fh

theorem gives_seek : s.Gives ((store limits).seek file offset) () ↔ offset.toNat ≤ limits.seekMax := by
  show (DiskFile.seek limits offset (s.stored.view file)).1 = .ok () ↔ _
  unfold DiskFile.seek
  split_ifs with h <;> simp [h]

theorem view_seek (h : offset.toNat ≤ limits.seekMax) :
    (s.called ((store limits).seek file offset)).stored.view file = ⟨s.stored.contents file.file, offset.toNat⟩ := by
  show (FileStore.onFile file (DiskFile.seek limits offset) s.stored).2.view file = _
  rw [FileStore.view_onFile]
  unfold DiskFile.seek
  rw [if_pos h]
  rfl

theorem contents_seek : (s.called ((store limits).seek file offset)).stored.contents = s.stored.contents := by
  show (FileStore.onFile file (DiskFile.seek limits offset) s.stored).2.contents = _
  rw [FileStore.contents_onFile]
  have hsame (d : DiskFile) : (DiskFile.seek limits offset d).2.contents = d.contents := by
    unfold DiskFile.seek
    split_ifs <;> rfl
  rw [hsame]
  exact Function.update_eq_self _ _

theorem gives_writeAll (hwrite : file.write = true) : s.Gives ((store limits).writeAll file data) () ↔
      data.length ≤ limits.sizeMax - (file.place (s.stored.view file)).cursor := by
  have hcall : ((store limits).writeAll file data s.host) =
      FileStore.onFile file (fun d => DiskFile.writeAll limits data (file.place d)) s.stored := if_pos hwrite
  unfold Gives
  rw [hcall]
  show (DiskFile.writeAll limits data (file.place (s.stored.view file))).1 = .ok () ↔ _
  unfold DiskFile.writeAll
  dsimp only
  rw [List.length_take]
  split_ifs with h <;> simp <;> omega

theorem contents_writeAll (hwrite : file.write = true)
    (hfits : data.length ≤ limits.sizeMax - (file.place (s.stored.view file)).cursor) :
    (s.called ((store limits).writeAll file data)).stored.contents = Function.update s.stored.contents file.file
        (DiskFile.overwrite (s.stored.contents file.file) (file.place (s.stored.view file)).cursor data) := by
  have hcall : ((store limits).writeAll file data s.host) =
      FileStore.onFile file (fun d => DiskFile.writeAll limits data (file.place d)) s.stored := if_pos hwrite
  have hcontents : (file.place (s.stored.view file)).contents = s.stored.contents file.file := by
    unfold OpenFile.place
    split_ifs <;> rfl
  show ((store limits).writeAll file data s.host).2.contents = _
  rw [hcall, FileStore.contents_onFile]
  unfold DiskFile.writeAll
  dsimp only
  rw [List.take_of_length_le hfits, hcontents]

theorem gives_read (hread : file.read = true) {buf : { bs : Bytes // bs.length ≤ n }} :
    s.Gives ((store limits).read file n) buf ↔
      window (s.stored.view file).contents (s.stored.view file).cursor n = buf.val := by
  have hcall : ((store limits).read file n s.host) = FileStore.onFile file (DiskFile.read n) s.stored :=
    if_pos hread
  unfold Gives
  rw [hcall]
  show Except.ok _ = Except.ok buf ↔ _
  rw [Except.ok.injEq, Subtype.ext_iff]

end Store

/-! ### On the wire -/

structure FuseWriteIn where
  fh : UInt64
  offset : UInt64
  writeFlags : UInt32
  lockOwner : UInt64
  flags : UInt32
  padding : UInt32
  payload : Bytes
  /-- The size has its own field, of 32 bits. -/
  size_lt : payload.length < 2 ^ 32

namespace FuseWriteIn

def added (w : FuseWriteIn) (minor : UInt32) : Bytes :=
  if minor < 9 then [] else u64ToLe w.lockOwner ++ (u32ToLe w.flags ++ u32ToLe w.padding)

def toBytes (w : FuseWriteIn) (minor : UInt32) : Bytes :=
  u64ToLe w.fh ++ (u64ToLe w.offset ++ (u32ToLe (UInt32.ofNat w.payload.length) ++
    (u32ToLe w.writeFlags ++ (w.added minor ++ w.payload))))

end FuseWriteIn

/-- The body of a READ; what follows the size depends on the version, and is not looked at. -/
def readIn (fh offset : UInt64) (size : Nat) (rest : Bytes) : Bytes :=
  u64ToLe fh ++ (u64ToLe offset ++ (u32ToLe (UInt32.ofNat size) ++ rest))

/-- The fields of the body come out as they went in, except that the server takes the payload to begin where the
fields of version 9 stand. -/
theorem fields_toBytes (w : FuseWriteIn) (minor : UInt32) :
    u64Field (w.toBytes minor) 0 = w.fh ∧ u64Field (w.toBytes minor) 8 = w.offset ∧ 24 ≤ (w.toBytes minor).length ∧
      written (w.toBytes minor) = (w.added minor ++ w.payload).take w.payload.length := by
  have hsize : u32Field (w.toBytes minor) 16 = UInt32.ofNat w.payload.length := by
    unfold FuseWriteIn.toBytes
    rw [← List.append_assoc]
    exact u32Field_append _ (by simp) _ _
  have hdrop : (w.toBytes minor).drop 24 = w.added minor ++ w.payload := by
    unfold FuseWriteIn.toBytes
    simp only [← List.append_assoc]
    rw [List.append_assoc _ (w.added minor)]
    exact List.drop_left' (by simp)
  refine ⟨u64Field_append [] rfl _ _, u64Field_append (u64ToLe w.fh) (by simp) _ _, ?_, ?_⟩
  · unfold FuseWriteIn.toBytes
    simp only [List.length_append, length_u64ToLe, length_u32ToLe]
    omega
  · unfold written
    rw [hsize, hdrop, UInt32.toNat_ofNat_of_lt' w.size_lt, List.length_append, Nat.min_eq_left (Nat.le_add_left _ _)]

theorem fields_readIn (fh offset : UInt64) {size : Nat} (hsize : size < 2 ^ 32) (rest : Bytes) :
    u64Field (readIn fh offset size rest) 0 = fh ∧ u64Field (readIn fh offset size rest) 8 = offset ∧
      20 ≤ (readIn fh offset size rest).length ∧ (u32Field (readIn fh offset size rest) 16).toNat = size := by
  have hfield : u32Field (readIn fh offset size rest) 16 = UInt32.ofNat size := by
    unfold readIn
    rw [← List.append_assoc]
    exact u32Field_append _ (by simp) _ _
  refine ⟨u64Field_append [] rfl _ _, u64Field_append (u64ToLe fh) (by simp) _ _, ?_, ?_⟩
  · unfold readIn
    simp only [List.length_append, length_u64ToLe, length_u32ToLe]
    omega
  · rw [hfield, UInt32.toNat_ofNat_of_lt' hsize]

section RoundTrip

variable {limits : DiskLimits} {s t : SharedFolder (HostOs.store limits)} {file : OpenFile} {offset : UInt64}

def minor (s : SharedFolder (HostOs.store limits)) : UInt32 := s.protoMinor.getD fuseKernelMinorVersion

/-- The WRITE stores its payload at its offset, changes nothing else, and reports its size; a READ of as many bytes
then gives it back. -/
def RoundTrip (s : SharedFolder (HostOs.store limits)) (file : OpenFile) (w : FuseWriteIn)
    (header readHeader : FuseInHeader) (rest : Bytes) : Prop :=
  ∃ t, dispatch header (w.toBytes s.minor) s =
      .ok (.ok (u32ToLe (UInt32.ofNat w.payload.length) ++ u32ToLe 0)) t ∧
    t.stored.contents = Function.update s.stored.contents file.file
      (DiskFile.overwrite (s.stored.contents file.file) w.offset.toNat w.payload) ∧
    ∃ u, dispatch readHeader (readIn w.fh w.offset w.payload.length rest) t = .ok (.ok w.payload) u

def startOf (s : SharedFolder (HostOs.store limits)) (file : OpenFile) (offset : UInt64) : Nat :=
  if file.append then (s.stored.contents file.file).length else offset.toNat

def rewritten (s : SharedFolder (HostOs.store limits)) (file : OpenFile) (offset : UInt64) (data : Bytes) :
    SharedFolder (HostOs.store limits) :=
  (s.called ((HostOs.store limits).seek file offset)).called ((HostOs.store limits).writeAll file data)

theorem place_seek (hseek : offset.toNat ≤ limits.seekMax) :
    (file.place ((s.called ((store limits).seek file offset)).stored.view file)).cursor = s.startOf file offset := by
  rw [view_seek hseek]
  unfold OpenFile.place startOf
  split_ifs <;> rfl

theorem contents_rewritten {data : Bytes} (hwrite : file.write = true)
    (hseek : offset.toNat ≤ limits.seekMax) (hfits : data.length ≤ limits.sizeMax - s.startOf file offset) :
    (s.rewritten file offset data).stored.contents = Function.update s.stored.contents file.file
      (DiskFile.overwrite (s.stored.contents file.file) (s.startOf file offset) data) := by
  rw [← place_seek hseek] at hfits
  refine (contents_writeAll hwrite hfits).trans ?_
  rw [place_seek hseek, contents_seek]

theorem write_store_iff {header : FuseInHeader} {w : FuseWriteIn} {reply : Bytes} {minor : UInt32}
    (hop : FuseOpcode.ofNumber header.opcode = .write) (hopen : s.opened w.fh = some file)
    (hwrite : file.write = true) : dispatch header (w.toBytes minor) s = .ok (.ok reply) t ↔
      w.offset.toNat ≤ limits.seekMax ∧ w.payload.length ≤ limits.sizeMax - s.startOf file w.offset ∧
        u32ToLe (UInt32.ofNat w.payload.length) ++ u32ToLe 0 = reply ∧
        s.rewritten file w.offset ((w.added minor ++ w.payload).take w.payload.length) = t := by
  obtain ⟨hfh, hoffset, hlen, hwritten⟩ := fields_toBytes w minor
  have hlength : ((w.added minor ++ w.payload).take w.payload.length).length = w.payload.length := by
    rw [List.length_take, List.length_append]
    omega
  rw [← hfh] at hopen
  rw [write_eq_ok_iff hop hlen hopen, hoffset, hwritten, hlength, gives_seek, gives_writeAll hwrite, hlength]
  refine and_congr_right fun hseek => ?_
  rw [place_seek hseek]
  rfl

theorem read_store_iff {header : FuseInHeader} {fh : UInt64} {size : Nat} {rest reply : Bytes}
    (hop : FuseOpcode.ofNumber header.opcode = .read) (hopen : s.opened fh = some file)
    (hread : file.read = true) (hsize : size < 2 ^ 32) :
    (∃ u, dispatch header (readIn fh offset size rest) s = .ok (.ok reply) u) ↔
      offset.toNat ≤ limits.seekMax ∧ window (s.stored.contents file.file) offset.toNat size = reply := by
  obtain ⟨hfh, hoffset, hlen, hfield⟩ := fields_readIn fh offset hsize rest
  rw [← hfh] at hopen
  simp only [read_eq_ok_iff hop hlen hopen, hoffset, gives_seek, exists_and_left]
  refine and_congr_right fun hseek => ?_
  constructor
  · rintro ⟨_, buf, hbuf, rfl, _⟩
    rw [gives_read hread, view_seek hseek] at hbuf
    rw [← hbuf, hfield]
  · rintro rfl
    refine ⟨_, ⟨window (s.stored.contents file.file) offset.toNat _, List.length_take_le _ _⟩, ?_, ?_, rfl⟩
    · rw [gives_read hread, view_seek hseek]
    · rw [hfield]

theorem startOf_eq_iff {p : Prop} : (file.append = true → p ∨ (s.stored.contents file.file).length = offset.toNat) ↔
      p ∨ s.startOf file offset = offset.toNat := by
  unfold startOf
  split_ifs with happend <;> simp [happend]

theorem take_added_iff (w : FuseWriteIn) (minor : UInt32) : minor < 9 ∨ w.payload <+: w.added minor ++ w.payload ↔
      (w.added minor ++ w.payload).take w.payload.length = w.payload := by
  rw [List.prefix_iff_eq_take, eq_comm, or_iff_right_iff_imp]
  intro hold
  unfold FuseWriteIn.added
  rw [if_pos hold, List.nil_append, List.take_length]

/-- **WRITE and READ.** A WRITE on a handle that was opened for reading and writing stores its payload and nothing
else exactly if the host has room for it, a handle that appends is at the end of its file, and either the version
has the layout that the server expects or the payload repeats the sixteen bytes that stand where the server takes it
to begin. -/
theorem write_round_trip_iff {header readHeader : FuseInHeader} (w : FuseWriteIn) (rest : Bytes)
    (hop : FuseOpcode.ofNumber header.opcode = .write) (hreadOp : FuseOpcode.ofNumber readHeader.opcode = .read)
    (hopen : s.opened w.fh = some file) (hread : file.read = true) (hwrite : file.write = true) :
    RoundTrip s file w header readHeader rest ↔
      w.offset.toNat ≤ limits.seekMax ∧ w.payload.length ≤ limits.sizeMax - w.offset.toNat ∧
        (file.append = true → w.payload = [] ∨ (s.stored.contents file.file).length = w.offset.toNat) ∧
        (s.minor < 9 ∨ w.payload <+: w.added s.minor ++ w.payload) := by
  have hlength : ((w.added s.minor ++ w.payload).take w.payload.length).length = w.payload.length := by
    rw [List.length_take, List.length_append]
    omega
  have hstart : s.startOf file w.offset = (s.stored.contents file.file).length ∨
      s.startOf file w.offset = w.offset.toNat := by
    unfold startOf
    split_ifs
    · exact .inl rfl
    · exact .inr rfl
  rw [take_added_iff, startOf_eq_iff]
  constructor
  · rintro ⟨t, hrun, hcontents, _⟩
    obtain ⟨hseek, hfits, _, rfl⟩ := (write_store_iff hop hopen hwrite).mp hrun
    rw [contents_rewritten hwrite hseek (by rw [hlength]; exact hfits)] at hcontents
    have hfile := congrFun hcontents file.file
    rw [Function.update_self, Function.update_self, DiskFile.overwrite_eq_iff hlength hstart] at hfile
    refine ⟨hseek, ?_, hfile⟩
    rcases hfile.1 with hnil | hplace
    · rw [hnil]
      exact Nat.zero_le _
    · rw [← hplace]
      exact hfits
  · rintro ⟨hseek, hroom, hplace, hpayload⟩
    have hfits : w.payload.length ≤ limits.sizeMax - s.startOf file w.offset := by
      rcases hplace with hnil | hplace
      · rw [hnil]
        exact Nat.zero_le _
      · rw [hplace]
        exact hroom
    have hcontents := contents_rewritten hwrite hseek (by rw [hlength]; exact hfits)
    rw [(DiskFile.overwrite_eq_iff hlength hstart).mpr ⟨hplace, hpayload⟩] at hcontents
    refine ⟨_, (write_store_iff hop hopen hwrite).mpr ⟨hseek, hfits, rfl, rfl⟩, hcontents, ?_⟩
    have hkept : (s.rewritten file w.offset ((w.added s.minor ++ w.payload).take w.payload.length)).opened w.fh =
        some file := hopen
    refine (read_store_iff hreadOp hkept hread w.size_lt).mpr ⟨hseek, ?_⟩
    rw [hcontents, Function.update_self]
    by_cases hnil : w.payload = []
    · rw [hnil]
      rfl
    · exact DiskFile.window_overwrite _ _ hnil

end RoundTrip

/-! ### One byte -/

section OneByte

def roomy : DiskLimits := ⟨1024, 1024, by decide, by decide⟩

/-- A server on one empty file, after an INIT with the given version and an OPEN for reading and writing. -/
def fileOpened (minor : UInt32) : SharedFolder (HostOs.store roomy) :=
  let served := new [47, 115] (⟨fun _ => [], fun _ => 0, fun _ => some 0, 0⟩ : FileStore)
  let started := answered (fuseRequest 26 0) (u32ToLe 7 ++ u32ToLe minor ++ u32ToLe 0 ++ u32ToLe 0) served
  (answered (fuseRequest 14 1) (u32ToLe 2 ++ u32ToLe 0) started.2).2

/-- The byte 1, at offset 0 of the first handle. -/
def writeOne : FuseWriteIn := ⟨1, 0, 0, 0, 0, 0, [1], by decide⟩

def firstFile : OpenFile := ⟨0, 0, true, true, false⟩

theorem opened_fileOpened : (fileOpened 8).opened 1 = some firstFile ∧ (fileOpened 41).opened 1 = some firstFile := by
  decide +kernel

/-- In version 8 the byte arrives. -/
theorem old_layout_round_trips :
    RoundTrip (fileOpened 8) firstFile writeOne (fuseRequest 16 1) (fuseRequest 15 1) [] :=
  (write_round_trip_iff writeOne [] rfl rfl opened_fileOpened.1 rfl rfl).mpr
    ⟨by decide, by decide, nofun, .inl (by decide +kernel)⟩

/-- In version 41 the file gets the first byte of the lock owner instead, and the guest is told that its byte was
written. -/
theorem payload_is_shifted : dispatch (fuseRequest 16 1) (writeOne.toBytes (fileOpened 41).minor) (fileOpened 41) =
      .ok (.ok (u32ToLe 1 ++ u32ToLe 0)) (answered (fuseRequest 16 1) (writeOne.toBytes 41) (fileOpened 41)).2 ∧
    (answered (fuseRequest 16 1) (writeOne.toBytes 41) (fileOpened 41)).2.stored.contents 0 = [0] ∧
    ¬∀ (s : SharedFolder (HostOs.store roomy)) (file : OpenFile) (w : FuseWriteIn) (rest : Bytes),
      s.opened w.fh = some file → file.read = true → file.write = true → file.append = false →
      w.offset.toNat + w.payload.length ≤ roomy.sizeMax →
      RoundTrip s file w (fuseRequest 16 1) (fuseRequest 15 1) rest := by
  have hminor : (fileOpened 41).minor = 41 := by decide +kernel
  have hcontents : (answered (fuseRequest 16 1) (writeOne.toBytes 41) (fileOpened 41)).2.stored.contents 0 = [0] := by
    decide +kernel
  have hreply : (answered (fuseRequest 16 1) (writeOne.toBytes 41) (fileOpened 41)).1 =
      some (.ok (u32ToLe 1 ++ u32ToLe 0)) := by
    decide +kernel
  refine ⟨?_, hcontents, fun h => ?_⟩
  · rw [hminor]
    exact dispatch_eq_ok_iff.mpr ⟨hreply, rfl⟩
  · obtain ⟨t, hrun, hstored, _⟩ :=
      h (fileOpened 41) firstFile writeOne [] opened_fileOpened.2 rfl rfl rfl (by decide)
    rw [hminor] at hrun
    obtain ⟨_, rfl⟩ := dispatch_eq_ok_iff.mp hrun
    have hfile := congrFun hstored 0
    rw [hcontents] at hfile
    exact absurd hfile (by decide)

end OneByte

end SharedFolder

/-! ### Released handles -/

namespace FolderRun

open SharedFolder

variable {H : HostOs} {root : PathBuf} {s : FolderRun H} {fh : UInt64}

theorem released_later (h : (folderSystem H root).Reachable s) (hfh : fh ∈ s.released) (actions : List FolderAction) :
    (folderSystem H root).Reachable (actions.foldl perform s) ∧ fh ∈ (actions.foldl perform s).released := by
  induction actions generalizing s with
  | nil => exact ⟨h, hfh⟩
  | cons action actions ih =>
    refine ih (reachable_perform h action) ?_
    cases action <;> exact List.mem_append_left _ hfh

/-- **A released handle stays dead.** However the run goes on, a `READ` or a `WRITE` with it is answered with `EBADF`
and changes nothing, on the host neither. -/
theorem released_handle_refused (h : (folderSystem H root).Reachable s) (hfh : fh ∈ s.released)
    (actions : List FolderAction) {header : FuseInHeader} {body : Bytes}
    (hop : FuseOpcode.ofNumber header.opcode = .read ∨ FuseOpcode.ofNumber header.opcode = .write)
    (hlength : 24 ≤ body.length) (hbody : u64Field body 0 = fh) :
    answered header body (actions.foldl perform s).folder = (some (.error Libc.EBADF), (actions.foldl perform s).folder) := by
  obtain ⟨hlater, hgone⟩ := released_later h hfh actions
  have hnone := AList.lookup_eq_none.mpr ((counts_of_reachable hlater).handles.gone_not_live fh hgone)
  rw [← hbody] at hnone
  have hfits {n : Nat} {P : Prop} (hn : n ≤ 24) (h : ¬n ≤ body.length) : P := absurd (hn.trans hlength) h
  refine (after_handle (P := fun r t => (r, t) = _)).mp ?_
  unfold handle
  rcases hop with hop | hop
  · rw [hop]
    show After (SharedFolder.read body) _ _
    unfold SharedFolder.read
    simp only [after_u64At, after_u32At, after_get, after_okOr, hnone]
    exact ⟨hfits (by decide), fun _ => ⟨hfits (by decide), fun _ => ⟨hfits (by decide), fun _ => ⟨fun _ => trivial, nofun⟩⟩⟩⟩
  · rw [hop]
    show After (SharedFolder.write body) _ _
    unfold SharedFolder.write
    simp only [after_u64At, after_u32At, after_rest, after_get, after_okOr, hnone]
    exact ⟨hfits (by decide), fun _ => ⟨hfits (by decide), fun _ => ⟨hfits (by decide), fun _ =>
      ⟨hfits (by decide), fun _ => ⟨fun _ => trivial, nofun⟩⟩⟩⟩⟩

/-- A file is opened under handle 1 and released. -/
def openedReleased : FolderRun (HostOs.store roomy) :=
  ((start [47] (⟨fun _ => [], fun _ => 0, fun _ => some 0, 0⟩ : FileStore)).perform
    (.dispatch (fuseRequest 14 1) (u32ToLe 2 ++ u32ToLe 0))).perform (.dispatch (fuseRequest 18 1) (u64ToLe 1))

theorem handle_one_refused : answered (fuseRequest 15 1) (u64ToLe 1 ++ List.replicate 16 0) openedReleased.folder =
    (some (.error Libc.EBADF), openedReleased.folder) :=
  released_handle_refused (reachable_perform (reachable_perform (reachable_start [47] _) _) _)
    (by decide +kernel : 1 ∈ openedReleased.released) [] (.inl rfl) (by decide) (by decide)

end FolderRun

end FerrumVM
