import FerrumVM.HostOs

/-! The FUSE messages of `platform/shared_folder/fuse`: headers, the answer to INIT, and the attribute
blocks of `platform/shared_folder/util.rs`. -/

namespace FerrumVM

open Base

/-- An error number of the host, positive as `libc` has it. -/
abbrev Errno := Int32

namespace Libc

def ENOENT : Errno := 2
def EIO : Errno := 5
def EBADF : Errno := 9
def EACCES : Errno := 13
def EEXIST : Errno := 17
def ENOTDIR : Errno := 20
def ENOSYS : Errno := 38
def ENOTEMPTY : Errno := 39
def EPROTO : Errno := 71

def O_RDONLY : UInt32 := 0
def O_WRONLY : UInt32 := 1
def O_RDWR : UInt32 := 2
def O_CREAT : UInt32 := 0o100
def O_TRUNC : UInt32 := 0o1000
def O_APPEND : UInt32 := 0o2000
def S_IFMT : UInt32 := 0o170000
def S_IFREG : UInt32 := 0o100000

end Libc

/-- The operations the server carries out, with their numbers in `fuse/opcode.rs`. -/
inductive FuseOpcode where
  | lookup
  | forget
  | getattr
  | setattr
  | readlink
  | symlink
  | mknod
  | mkdir
  | unlink
  | rmdir
  | rename
  | openFile
  | read
  | write
  | statfs
  | release
  | fsync
  | flush
  | init
  | opendir
  | readdir
  | releasedir
  | create
  | interrupt
  | destroy
  | batchForget
  /-- Any other number. -/
  | unsupported
  deriving DecidableEq, Repr

def FuseOpcode.ofNumber (opcode : UInt32) : FuseOpcode :=
  match opcode.toNat with
  | 1 => .lookup
  | 2 => .forget
  | 3 => .getattr
  | 4 => .setattr
  | 5 => .readlink
  | 6 => .symlink
  | 8 => .mknod
  | 9 => .mkdir
  | 10 => .unlink
  | 11 => .rmdir
  | 12 => .rename
  | 14 => .openFile
  | 15 => .read
  | 16 => .write
  | 17 => .statfs
  | 18 => .release
  | 20 => .fsync
  | 25 => .flush
  | 26 => .init
  | 27 => .opendir
  | 28 => .readdir
  | 29 => .releasedir
  | 35 => .create
  | 36 => .interrupt
  | 38 => .destroy
  | 42 => .batchForget
  | _ => .unsupported

def fuseRootId : UInt64 := 1

/-! ### Headers -/

/-- `read_le_u32`: the next four bytes, or zero and nothing left when there are fewer. -/
def readLeU32 (input : Bytes) : UInt32 × Bytes :=
  if input.length < 4 then (0, []) else (u32FromLe input, input.drop 4)

def readLeU64 (input : Bytes) : UInt64 × Bytes :=
  if input.length < 8 then (0, []) else (u64FromLe input, input.drop 8)

structure FuseInHeader where
  len : UInt32
  opcode : UInt32
  unique : UInt64
  nodeid : UInt64
  uid : UInt32
  gid : UInt32
  pid : UInt32
  padding : UInt32
  deriving DecidableEq, Repr

def FuseInHeader.new (bytes : Bytes) : FuseInHeader × Bytes :=
  let (len, input) := readLeU32 bytes
  let (opcode, input) := readLeU32 input
  let (unique, input) := readLeU64 input
  let (nodeid, input) := readLeU64 input
  let (uid, input) := readLeU32 input
  let (gid, input) := readLeU32 input
  let (pid, input) := readLeU32 input
  let (padding, input) := readLeU32 input
  ({ len, opcode, unique, nodeid, uid, gid, pid, padding }, input)

structure FuseOutHeader where
  len : UInt32
  error : Errno
  unique : UInt64
  deriving DecidableEq, Repr

namespace FuseOutHeader

def toBytes (h : FuseOutHeader) : Bytes := u32ToLe h.len ++ u32ToLe h.error.toUInt32 ++ u64ToLe h.unique

def length : Nat := 16

end FuseOutHeader

/-! ### INIT -/

structure FuseInitIn where
  major : UInt32
  minor : UInt32
  maxReadahead : UInt32
  flags : UInt32
  flags2 : UInt32
  deriving DecidableEq, Repr

/-- The rest of the message, which no caller reads, is left out. -/
@[irreducible] def FuseInitIn.new (bytes : Bytes) : FuseInitIn :=
  let (major, input) := readLeU32 bytes
  let (minor, input) := readLeU32 input
  let (maxReadahead, input) := readLeU32 input
  let (flags, input) := readLeU32 input
  let (flags2, _) := readLeU32 input
  { major, minor, maxReadahead, flags, flags2 }

structure FuseInitOut where
  major : UInt32 := 0
  minor : UInt32 := 0
  maxReadahead : UInt32 := 0
  flags : UInt32 := 0
  flags2 : UInt32 := 0
  maxBackground : UInt16 := 0
  congestionThreshold : UInt16 := 0
  maxWrite : UInt32 := 0
  timeGran : UInt32 := 0
  maxPages : UInt16 := 0
  mapAlignment : UInt16 := 0
  deriving DecidableEq, Repr

def FuseInitOut.toBytes (out : FuseInitOut) : Bytes :=
  u32ToLe out.major ++ u32ToLe out.minor ++ u32ToLe out.maxReadahead ++ u32ToLe out.flags ++
    u32ToLe out.flags2 ++ u16ToLe out.maxBackground ++ u16ToLe out.congestionThreshold ++
    u32ToLe out.maxWrite ++ u32ToLe out.timeGran ++ u16ToLe out.maxPages ++ u16ToLe out.mapAlignment ++
    List.replicate 32 0

def truncateInitOut (out : FuseInitOut) (len : Nat) : Bytes := out.toBytes.take len

def fuseKernelVersion : UInt32 := 7
def fuseKernelMinorVersion : UInt32 := 41
def fuseInitOutSizeV0 : Nat := 8
def fuseInitOutSizePreMaxPages : Nat := 32
/-- `size_of::<FuseInitOut>()`. -/
def fuseInitOutSize : Nat := 36
def maxReadahead : UInt32 := 128 * 1024
def maxBackground : UInt16 := 16
def congestionThreshold : UInt16 := 12
def maxWrite : UInt32 := 1024 * 1024
def timeGranNs : UInt32 := 1

/-! ### Attributes -/

/-- The block count cannot overflow, as a size of the host is at most `isize::MAX`. -/
def fuseAttrBytes (ino : UInt64) (m : Metadata) : Bytes :=
  u64ToLe ino ++ u64ToLe m.len ++ u64ToLe ((m.len + 511) / 512) ++ u64ToLe m.atime ++ u64ToLe m.mtime ++
    u64ToLe m.ctime ++ u32ToLe m.atimeNsec ++ u32ToLe m.mtimeNsec ++ u32ToLe m.ctimeNsec ++
    u32ToLe m.mode ++ u32ToLe m.nlink ++ u32ToLe m.uid ++ u32ToLe m.gid ++ u32ToLe m.rdev ++
    u32ToLe 512 ++ u32ToLe 0

def buildEntryOut (nodeid : UInt64) (m : Metadata) : Bytes :=
  u64ToLe nodeid ++ u64ToLe 0 ++ u64ToLe 1 ++ u64ToLe 1 ++ u32ToLe 0 ++ u32ToLe 0 ++ fuseAttrBytes nodeid m

def buildAttrOut (m : Metadata) : Bytes := u64ToLe 1 ++ u32ToLe 0 ++ u32ToLe 0 ++ fuseAttrBytes 0 m

end FerrumVM
