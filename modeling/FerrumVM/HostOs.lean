import FerrumVM.BaseBytes
import FerrumVM.BaseProgram

/-! The host under the devices: files, directories, the random source and the TAP interface. The host
is a parameter. Each call is a function of the state of the host that may answer anything the call can
answer, so that a run over all hosts is a run against any behaviour of the operating system. -/

namespace FerrumVM

open Base

/-- `std::io::ErrorKind`, as far as the code tells kinds apart. -/
inductive IoErrorKind where
  | notFound
  | permissionDenied
  | alreadyExists
  | directoryNotEmpty
  | wouldBlock
  | other
  deriving DecidableEq, Repr

/-- The bytes of a `PathBuf`. -/
abbrev PathBuf := Bytes

inductive FileType where
  | dir
  | file
  | symlink
  | other
  deriving DecidableEq, Repr

/-- What `stat` tells of a file, each field already at the width the code sends it in. Sizes are
`off_t` values of the host. -/
structure Metadata where
  len : UInt64
  atime : UInt64
  mtime : UInt64
  ctime : UInt64
  atimeNsec : UInt32
  mtimeNsec : UInt32
  ctimeNsec : UInt32
  mode : UInt32
  nlink : UInt32
  uid : UInt32
  gid : UInt32
  rdev : UInt32
  fileType : FileType
  len_le : len.toNat ≤ isizeMax

/-- An entry of a directory, its name as UTF-8 after lossy decoding. A name of the host has at most 255
bytes, each of which decodes to at most three. -/
structure DirEntry where
  name : Bytes
  ino : UInt64
  metadata : Except IoErrorKind Metadata
  name_le : name.length ≤ 765

/-- The flags of `std::fs::OpenOptions`. -/
structure OpenOptions where
  read : Bool
  write : Bool
  append : Bool
  truncate : Bool
  create : Bool
  createNew : Bool
  mode : Option UInt32
  deriving DecidableEq, Repr

def OpenOptions.new : OpenOptions := ⟨false, false, false, false, false, false, none⟩

abbrev BytesOf (n : Nat) := { bs : Bytes // bs.length = n }

def BytesOf.zeros (n : Nat) : BytesOf n := ⟨List.replicate n 0, List.length_replicate⟩

/-- A host: its states, its open files, and its calls. -/
structure HostOs where
  World : Type
  File : Type
  /-- `vmm_sys_util::rand::rand_bytes`. -/
  randBytes : (n : Nat) → World → BytesOf n × World
  seek : File → UInt64 → World → Except IoErrorKind Unit × World
  readExact : File → (n : Nat) → World → Except IoErrorKind (BytesOf n) × World
  /-- At most `n` bytes. -/
  read : File → (n : Nat) → World → Except IoErrorKind { bs : Bytes // bs.length ≤ n } × World
  writeAll : File → Bytes → World → Except IoErrorKind Unit × World
  setLen : File → UInt64 → World → Except IoErrorKind Unit × World
  fsync : File → World → World
  openFile : OpenOptions → PathBuf → World → Except IoErrorKind File × World
  metadata : PathBuf → World → Except IoErrorKind Metadata × World
  symlinkMetadata : PathBuf → World → Except IoErrorKind Metadata × World
  readDir : PathBuf → World → Except IoErrorKind (List DirEntry) × World
  createDir : PathBuf → World → Except IoErrorKind Unit × World
  setPermissions : PathBuf → UInt32 → World → Except IoErrorKind Unit × World
  symlink : PathBuf → PathBuf → World → Except IoErrorKind Unit × World
  removeFile : PathBuf → World → Except IoErrorKind Unit × World
  removeDir : PathBuf → World → Except IoErrorKind Unit × World
  rename : PathBuf → PathBuf → World → Except IoErrorKind Unit × World
  /-- The target of a link, as UTF-8 after lossy decoding. -/
  readLink : PathBuf → World → Except IoErrorKind Bytes × World
  tapSend : Bytes → World → Except IoErrorKind Unit × World
  /-- A frame of at most the size of the receive buffer. -/
  tapRecv : World → Except IoErrorKind { bs : Bytes // bs.length ≤ 65536 } × World

/-- A host with nothing on it: its random source gives zeros and every other call fails. -/
def HostOs.bare : HostOs where
  World := Unit
  File := Unit
  randBytes n _ := (.zeros n, ())
  seek _ _ _ := (.error .other, ())
  readExact _ _ _ := (.error .other, ())
  read _ _ _ := (.error .other, ())
  writeAll _ _ _ := (.error .other, ())
  setLen _ _ _ := (.error .other, ())
  fsync _ _ := ()
  openFile _ _ _ := (.error .other, ())
  metadata _ _ := (.error .notFound, ())
  symlinkMetadata _ _ := (.error .notFound, ())
  readDir _ _ := (.error .notFound, ())
  createDir _ _ := (.error .other, ())
  setPermissions _ _ _ := (.error .other, ())
  symlink _ _ _ := (.error .other, ())
  removeFile _ _ := (.error .notFound, ())
  removeDir _ _ := (.error .notFound, ())
  rename _ _ _ := (.error .notFound, ())
  readLink _ _ := (.error .notFound, ())
  tapSend _ _ := (.error .other, ())
  tapRecv _ := (.error .wouldBlock, ())

end FerrumVM
