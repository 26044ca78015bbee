import FerrumVM.FuseWire
import Mathlib.Data.List.AList

/-! `SharedFolder` of `platform/shared_folder`: the FUSE server behind the file system device. A
handler answers with bytes or an error number and may change the tables and the host on the way to
either; a slice of the body out of range, and a counter that is exhausted, panic. -/

namespace FerrumVM

open Base Program

/-- `PathBuf::join`: an absolute name replaces the path. -/
def PathBuf.join (path : PathBuf) (name : Bytes) : PathBuf :=
  let slash : UInt8 := 47
  if name.head? = some slash then name
  else if path = [] ∨ path.getLast? = some slash then path ++ name
  else path ++ [slash] ++ name

structure SharedFolder (H : HostOs) where
  inodes : AList (fun _ : UInt64 => PathBuf)
  nextInode : UInt64
  openFiles : AList (fun _ : UInt64 => H.File)
  nextFh : UInt64
  protoMinor : Option UInt32
  host : H.World

/-- The computation of a handler: an error number is an answer, a panic is not. -/
abbrev Handler (H : HostOs) (α : Type) := ExceptT Errno (Program (SharedFolder H)) α

namespace SharedFolder

variable {H : HostOs} {α : Type}

def new (root : PathBuf) (host : H.World) : SharedFolder H where
  inodes := AList.singleton fuseRootId root
  nextInode := fuseRootId + 1
  openFiles := ∅
  nextFh := 1
  protoMinor := none
  host := host

/-! ### Steps of the handlers -/

def exec (x : Exec α) : Handler H α := ExceptT.lift (lift x)

def okOr (x : Option α) (errno : Errno) : Handler H α :=
  match x with
  | some a => pure a
  | none => throw errno

/-- A call of the host, with its error turned into a number. -/
def hostCall (call : H.World → Except IoErrorKind α × H.World) (errno : IoErrorKind → Errno) : Handler H α :=
  ExceptT.mk (do
    let s ← get
    let (r, host) := call s.host
    set { s with host }
    return r.mapError errno)

def hostTry (call : H.World → Except IoErrorKind α × H.World) : Handler H Unit :=
  modify fun s => { s with host := (call s.host).2 }

def eio : IoErrorKind → Errno := fun _ => Libc.EIO

def nodePath (nodeid : UInt64) (errno : Errno) : Handler H PathBuf := do
  okOr ((← get).inodes.lookup nodeid) errno

def insertInode (path : PathBuf) : Handler H UInt64 := do
  let s ← get
  let next ← exec (addU64 s.nextInode 1)
  set { s with nextInode := next, inodes := s.inodes.insert s.nextInode path }
  return s.nextInode

def takeFh : Handler H UInt64 := do
  let s ← get
  let next ← exec (addU64 s.nextFh 1)
  set { s with nextFh := next }
  return s.nextFh

def insertFile (file : H.File) : Handler H UInt64 := do
  let fh ← takeFh
  modify fun s => { s with openFiles := s.openFiles.insert fh file }
  return fh

/-- `u32::from_le_bytes(body[start..start + 4])`. -/
def u32At (body : Bytes) (start : Nat) : Exec UInt32 := do
  return u32FromLe (← slice body start (start + 4))

def u64At (body : Bytes) (start : Nat) : Exec UInt64 := do
  return u64FromLe (← slice body start (start + 8))

/-- The bytes up to the first zero, or all of them. -/
def untilNul (bytes : Bytes) : Bytes := bytes.takeWhile (· ≠ 0)

/-- `std::str::from_utf8(..).map_err(|_| EIO)`. -/
def utf8 (name : Bytes) : Handler H Bytes :=
  if (ByteArray.mk name.toArray).validateUTF8 then pure name else throw Libc.EIO

def nameAt (body : Bytes) (start : Nat) : Handler H Bytes := do
  utf8 (untilNul (← exec (slice body start body.length)))

/-- The place of a name in a directory the guest names by its node. -/
def childPath (nodeid : UInt64) (name : Bytes) : Handler H PathBuf := do
  return (← nodePath nodeid Libc.ENOENT).join name

/-- What follows `open_flags` and `padding` in the answers that open something. -/
def openOut (fh : UInt64) : Bytes := u64ToLe fh ++ u32ToLe 0 ++ u32ToLe 0

/-! ### Handlers of `core.rs` and `init.rs` -/

def init (body : Bytes) : Handler H Bytes := do
  let req := FuseInitIn.new body
  if req.major ≠ fuseKernelVersion then
    if fuseKernelVersion < req.major then
      return truncateInitOut { major := fuseKernelVersion, minor := fuseKernelMinorVersion } fuseInitOutSizeV0
    else throw Libc.EPROTO
  else
    let minor := min req.minor fuseKernelMinorVersion
    modify fun s => { s with protoMinor := some minor }
    let outLen :=
      if minor < 5 then fuseInitOutSizeV0
      else if minor < 23 then fuseInitOutSizePreMaxPages
      else fuseInitOutSize
    -- No flag of the guest is supported, so none is confirmed.
    return truncateInitOut {
      major := fuseKernelVersion
      minor
      maxReadahead := min req.maxReadahead FerrumVM.maxReadahead
      flags := 0 &&& req.flags
      maxBackground := FerrumVM.maxBackground
      congestionThreshold := FerrumVM.congestionThreshold
      maxWrite := FerrumVM.maxWrite
      timeGran := timeGranNs } outLen

/-- The entries of a `BATCH_FORGET`, from entry `i` on, until the body ends. -/
def forgetEntries (body : Bytes) : (remaining i : Nat) → Handler H Unit
  | 0, _ => pure ()
  | remaining + 1, i => do
      let offset := 8 + i * 16
      if body.length < offset + 8 then pure ()
      else
        let nodeid ← exec (u64At body offset)
        modify fun s => { s with inodes := s.inodes.erase nodeid }
        forgetEntries body remaining (i + 1)

def batchForget (body : Bytes) : Handler H Bytes := do
  let count ← exec (u32At body 0)
  forgetEntries body count.toNat 0
  return []

/-- `forget`, which the device calls by itself. -/
def forget (header : FuseInHeader) : Program (SharedFolder H) Unit :=
  modify fun s => { s with inodes := s.inodes.erase header.nodeid }

/-! ### Handlers of `dir.rs` -/

def openDir (header : FuseInHeader) : Handler H Bytes := do
  let path ← nodePath header.nodeid Libc.EIO
  let m ← hostCall (H.metadata path) eio
  if m.fileType ≠ .dir then throw Libc.ENOTDIR
  else return openOut (← takeFh)

def direntType : FileType → UInt32
  | .dir => 4
  | .file => 8
  | .symlink => 10
  | .other => 0

/-- The record of an entry, with zeros up to a multiple of eight. -/
def dirent (entry : DirEntry) (pos : Nat) (m : Metadata) : Bytes :=
  u64ToLe entry.ino ++ u64ToLe (UInt64.ofNat pos) ++ u32ToLe (UInt32.ofNat entry.name.length) ++
    u32ToLe (direntType m.fileType) ++ entry.name ++
    List.replicate ((24 + entry.name.length + 7) / 8 * 8 - (24 + entry.name.length)) 0

/-- The loop of `read_dir`: entries up to the offset are passed over, and the first record that does
not fit ends the answer. Positions count from one. -/
def readDirLoop (offset : UInt64) (maxSize : UInt32) : List DirEntry → Nat → Bytes → Handler H Bytes
  | [], _, out => return out
  | entry :: entries, pos, out =>
    if pos ≤ offset.toNat then readDirLoop offset maxSize entries (pos + 1) out
    else
      match entry.metadata with
      | .error _ => throw Libc.EIO
      | .ok m =>
        if maxSize.toNat < out.length + (24 + entry.name.length + 7) / 8 * 8 then return out
        else readDirLoop offset maxSize entries (pos + 1) (out ++ dirent entry pos m)

def readDir (header : FuseInHeader) (body : Bytes) : Handler H Bytes := do
  let offset ← exec (u64At body 8)
  let maxSize ← exec (u32At body 16)
  let path ← nodePath header.nodeid Libc.EIO
  let entries ← hostCall (H.readDir path) eio
  readDirLoop offset maxSize entries 1 []

/-! ### Handlers of `file.rs` -/

def openErrno : IoErrorKind → Errno
  | .notFound => Libc.ENOENT
  | .permissionDenied => Libc.EACCES
  | .alreadyExists => Libc.EEXIST
  | _ => Libc.EIO

def create (header : FuseInHeader) (body : Bytes) : Handler H Bytes := do
  let flags ← exec (u32At body 0)
  let name ← nameAt body 16
  let path ← childPath header.nodeid name
  let options := { OpenOptions.new with
    read := true, write := true, create := true, truncate := flags &&& Libc.O_TRUNC != 0 }
  let file ← hostCall (H.openFile options path) eio
  let nodeid ← insertInode path
  let m ← hostCall (H.metadata path) eio
  let fh ← insertFile file
  return buildEntryOut nodeid m ++ openOut fh

def openFile (header : FuseInHeader) (body : Bytes) : Handler H Bytes := do
  let flags ← exec (u32At body 0)
  let path ← nodePath header.nodeid Libc.EIO
  let access := flags &&& 3
  let options := { OpenOptions.new with
    read := access == Libc.O_RDONLY || access == Libc.O_RDWR
    write := access == Libc.O_WRONLY || access == Libc.O_RDWR
    append := flags &&& Libc.O_APPEND != 0
    truncate := flags &&& Libc.O_TRUNC != 0
    create := flags &&& Libc.O_CREAT != 0 }
  let file ← hostCall (H.openFile options path) openErrno
  return openOut (← insertFile file)

def release (body : Bytes) : Handler H Bytes := do
  let fh ← exec (u64At body 0)
  modify fun s => { s with openFiles := s.openFiles.erase fh }
  return []

def read (body : Bytes) : Handler H Bytes := do
  let fh ← exec (u64At body 0)
  let offset ← exec (u64At body 8)
  let size ← exec (u32At body 16)
  let file ← okOr ((← get).openFiles.lookup fh) Libc.EBADF
  hostCall (H.seek file offset) eio
  let buf ← hostCall (H.read file size.toNat) eio
  return buf.val

def write (body : Bytes) : Handler H Bytes := do
  let fh ← exec (u64At body 0)
  let offset ← exec (u64At body 8)
  let size ← exec (u32At body 16)
  let data ← exec (slice body 24 body.length)
  let file ← okOr ((← get).openFiles.lookup fh) Libc.EBADF
  hostCall (H.seek file offset) eio
  let writeLen := min size.toNat data.length
  hostCall (H.writeAll file (data.take writeLen)) eio
  return u32ToLe (UInt32.ofNat writeLen) ++ u32ToLe 0

def fsync (body : Bytes) : Handler H Bytes := do
  let fh ← exec (u64At body 0)
  match (← get).openFiles.lookup fh with
  | some file => modify fun s => { s with host := H.fsync file s.host }
  | none => pure ()
  return []

/-! ### Handlers of `node.rs` -/

def lookupErrno : IoErrorKind → Errno
  | .notFound => Libc.ENOENT
  | .permissionDenied => Libc.EACCES
  | _ => Libc.EIO

def removeErrno : IoErrorKind → Errno
  | .notFound => Libc.ENOENT
  | .permissionDenied => Libc.EACCES
  | .directoryNotEmpty => Libc.ENOTEMPTY
  | _ => Libc.EIO

def mkdirErrno : IoErrorKind → Errno
  | .alreadyExists => Libc.EEXIST
  | _ => Libc.EIO

def lookup (header : FuseInHeader) (body : Bytes) : Handler H Bytes := do
  let name ← utf8 (untilNul body)
  let path ← childPath header.nodeid name
  let m ← hostCall (H.metadata path) lookupErrno
  let nodeid ← insertInode path
  return buildEntryOut nodeid m

def getAttr (header : FuseInHeader) : Handler H Bytes := do
  let path ← nodePath header.nodeid Libc.EIO
  let m ← hostCall (H.metadata path) eio
  return buildAttrOut m

def makeNode (header : FuseInHeader) (body : Bytes) : Handler H Bytes := do
  let mode ← exec (u32At body 0)
  let name ← nameAt body 16
  let path ← childPath header.nodeid name
  if mode &&& Libc.S_IFMT = Libc.S_IFREG then
    let _ ← hostCall (H.openFile { OpenOptions.new with write := true, create := true, truncate := true } path)
      eio
  else
    let _ ← hostCall (H.openFile { OpenOptions.new with
      createNew := true, mode := some (mode &&& 0o7777) } path) eio
  let nodeid ← insertInode path
  let m ← hostCall (H.metadata path) eio
  return buildEntryOut nodeid m

def makeDirectory (header : FuseInHeader) (body : Bytes) : Handler H Bytes := do
  let mode ← exec (u32At body 0)
  let name ← nameAt body 8
  let path ← childPath header.nodeid name
  hostCall (H.createDir path) mkdirErrno
  hostTry (H.setPermissions path (mode &&& 0o7777))
  let nodeid ← insertInode path
  let m ← hostCall (H.metadata path) eio
  return buildEntryOut nodeid m

def makeSymlink (header : FuseInHeader) (body : Bytes) : Handler H Bytes := do
  let rawName := untilNul body
  -- The target starts behind the zero that ends the name; without one the slice is out of range.
  let rest ← exec (slice body (rawName.length + 1) body.length)
  let name ← utf8 rawName
  let linkTarget ← utf8 (untilNul rest)
  let path ← childPath header.nodeid name
  hostCall (H.symlink linkTarget path) eio
  let nodeid ← insertInode path
  let m ← hostCall (H.symlinkMetadata path) eio
  return buildEntryOut nodeid m

def fattrMode : UInt32 := 1
def fattrSize : UInt32 := 8

/-- The part of `set_attr` that cuts or extends the file. -/
def truncateTo (path : PathBuf) (size : UInt64) : Handler H Unit := do
  let file ← hostCall (H.openFile { OpenOptions.new with write := true } path) eio
  hostCall (H.setLen file size) eio

def setAttr (header : FuseInHeader) (body : Bytes) : Handler H Bytes := do
  let valid ← exec (u32At body 0)
  let path ← nodePath header.nodeid Libc.EIO
  if valid &&& fattrSize ≠ 0 then truncateTo path (← exec (u64At body 16))
  if valid &&& fattrMode ≠ 0 then
    let mode ← exec (u32At body 68)
    hostTry (H.setPermissions path (mode &&& 0o7777))
  let m ← hostCall (H.metadata path) eio
  return buildAttrOut m

def statFs : Handler H Bytes := return List.replicate 80 0

def unlink (header : FuseInHeader) (body : Bytes) : Handler H Bytes := do
  let name ← utf8 (untilNul body)
  let path ← childPath header.nodeid name
  hostCall (H.removeFile path) removeErrno
  return []

def rmdir (header : FuseInHeader) (body : Bytes) : Handler H Bytes := do
  let name ← utf8 (untilNul body)
  let path ← childPath header.nodeid name
  hostCall (H.removeDir path) removeErrno
  return []

def rename (header : FuseInHeader) (body : Bytes) : Handler H Bytes := do
  let newdir ← exec (u64At body 0)
  let nameBytes ← exec (slice body 8 body.length)
  let name ← utf8 (untilNul nameBytes)
  let newnameBytes ← exec (slice nameBytes (name.length + 1) nameBytes.length)
  let newname ← utf8 (untilNul newnameBytes)
  let oldParent ← nodePath header.nodeid Libc.ENOENT
  let newParent ← nodePath newdir Libc.ENOENT
  hostCall (H.rename (oldParent.join name) (newParent.join newname)) lookupErrno
  return []

def readlink (header : FuseInHeader) : Handler H Bytes := do
  let path ← nodePath header.nodeid Libc.ENOENT
  let target ← hostCall (H.readLink path) eio
  return target ++ [0]

/-! ### Dispatch -/

def handle (header : FuseInHeader) (body : Bytes) : Handler H Bytes :=
  match FuseOpcode.ofNumber header.opcode with
  | .init => init body
  | .destroy => return []
  | .lookup => lookup header body
  | .getattr => getAttr header
  | .read => read body
  | .mknod => makeNode header body
  | .mkdir => makeDirectory header body
  | .symlink => makeSymlink header body
  | .create => create header body
  | .write => write body
  | .release => release body
  | .opendir => openDir header
  | .releasedir => return []
  | .readdir => readDir header body
  | .setattr => setAttr header body
  | .flush => return []
  | .fsync => fsync body
  | .openFile => openFile header body
  | .statfs => statFs
  | .unlink => unlink header body
  | .rmdir => rmdir header body
  | .rename => rename header body
  | .readlink => readlink header
  | .interrupt => return []
  | .batchForget => batchForget body
  | .forget | .unsupported => throw Libc.ENOSYS

/-- The answer to a request: bytes or an error number. -/
def dispatch (header : FuseInHeader) (body : Bytes) : Program (SharedFolder H) (Except Errno Bytes) :=
  (handle header body).run

end SharedFolder

end FerrumVM
