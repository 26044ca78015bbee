import FerrumVM.FolderRules

/-! Which requests make the FUSE server panic. A handler that answers with an error number returns; it
panics only where it slices a body that is too short, or gives out a number that its counter no longer
has. -/

namespace FerrumVM

open Base Program

namespace SharedFolder

variable {H : HostOs} {α β : Type} {s : SharedFolder H}

def Safe (x : Handler H α) (s : SharedFolder H) : Prop := Returns x.run s

/-- A panic is what keeps a handler from answering. -/
def Answered (r : Ending α) (_ : SharedFolder H) : Prop := r ≠ none

theorem safe_iff {x : Handler H α} : Safe x s ↔ After x s Answered := by
  unfold Safe Returns After wp Answered
  cases x.run s <;> simp

theorem answered_some (r : Except Errno α) : Answered (some r) s ↔ True := iff_true_intro nofun

theorem unless_panic {p : Prop} : (¬p → Answered (none : Ending α) s) ↔ p := by simp [Answered]

theorem and_imp_same {p q : Prop} : p ∧ (p → q) ↔ p ∧ q :=
  and_congr_right fun hp => ⟨fun hpq => hpq hp, fun hq _ => hq⟩

/-! ### The requests that are answered -/

/-- The name stands for the path, in a directory that the server knows. -/
def Names (s : SharedFolder H) (nodeid : UInt64) (name : Bytes) (path : PathBuf) : Prop :=
  ValidName name ∧ ∃ parent, s.Knows nodeid parent ∧ path = parent.join name

def nodeOptions (mode : UInt32) : OpenOptions :=
  if mode &&& Libc.S_IFMT = Libc.S_IFREG then { OpenOptions.new with write := true, create := true, truncate := true }
  else { OpenOptions.new with createNew := true, mode := some (mode &&& 0o7777) }

def createOptions (flags : UInt32) : OpenOptions :=
  { OpenOptions.new with read := true, write := true, create := true, truncate := flags &&& Libc.O_TRUNC != 0 }

def openOptions (flags : UInt32) : OpenOptions :=
  let access := flags &&& 3
  { OpenOptions.new with
    read := access == Libc.O_RDONLY || access == Libc.O_RDWR
    write := access == Libc.O_WRONLY || access == Libc.O_RDWR
    append := flags &&& Libc.O_APPEND != 0
    truncate := flags &&& Libc.O_TRUNC != 0
    create := flags &&& Libc.O_CREAT != 0 }

def Truncates (s : SharedFolder H) (path : PathBuf) (size : UInt64) : Prop :=
  ∃ file, s.Gives (H.openFile { OpenOptions.new with write := true } path) file ∧
    (s.called (H.openFile { OpenOptions.new with write := true } path)).Gives (H.setLen file size) ()

/-- What a request needs so that the server answers it: the body has the bytes that its handler looks at,
and if it comes to give out a number, there is one left. -/
@[irreducible] def Answerable (header : FuseInHeader) (body : Bytes) (s : SharedFolder H) : Prop :=
  match FuseOpcode.ofNumber header.opcode with
  | .lookup => ∀ path, s.Names header.nodeid (untilNul body) path → ∀ m, s.Gives (H.metadata path) m → s.InodeLeft
  | .read | .readdir => 20 ≤ body.length
  | .write => 24 ≤ body.length
  | .release | .fsync => 8 ≤ body.length
  | .batchForget => 4 ≤ body.length
  | .mknod => 16 ≤ body.length ∧ ∀ path, s.Names header.nodeid (untilNul (body.drop 16)) path → ∀ file,
      s.Gives (H.openFile (nodeOptions (u32Field body 0)) path) file → s.InodeLeft
  | .mkdir => 8 ≤ body.length ∧ ∀ path, s.Names header.nodeid (untilNul (body.drop 8)) path →
      s.Gives (H.createDir path) () → s.InodeLeft
  | .symlink => 0 ∈ body ∧ ∀ path, s.Names header.nodeid (untilNul body) path →
      ValidName (untilNul (body.drop ((untilNul body).length + 1))) →
      s.Gives (H.symlink (untilNul (body.drop ((untilNul body).length + 1))) path) () → s.InodeLeft
  | .create => 16 ≤ body.length ∧ ∀ path, s.Names header.nodeid (untilNul (body.drop 16)) path → ∀ file,
      s.Gives (H.openFile (createOptions (u32Field body 0)) path) file →
      s.InodeLeft ∧ ∀ m, (s.called (H.openFile (createOptions (u32Field body 0)) path)).Gives (H.metadata path) m →
        s.FhLeft
  | .openFile => 4 ≤ body.length ∧ ∀ path, s.Knows header.nodeid path → ∀ file,
      s.Gives (H.openFile (openOptions (u32Field body 0)) path) file → s.FhLeft
  | .opendir => ∀ path, s.Knows header.nodeid path → ∀ m, s.Gives (H.metadata path) m → m.fileType = .dir → s.FhLeft
  | .setattr => 4 ≤ body.length ∧ ∀ path, s.Knows header.nodeid path →
      (u32Field body 0 &&& fattrSize ≠ 0 → 24 ≤ body.length) ∧
      (u32Field body 0 &&& fattrMode ≠ 0 →
        (u32Field body 0 &&& fattrSize ≠ 0 → s.Truncates path (u64Field body 16)) → 72 ≤ body.length)
  | .rename => 8 ≤ body.length ∧ (ValidName (untilNul (body.drop 8)) → 0 ∈ body.drop 8)
  | _ => True

theorem forall_names {nodeid : UInt64} {name : Bytes} {P : PathBuf → Prop} :
    (∀ path, s.Names nodeid name path → P path) ↔
      (ValidName name → ∀ parent, s.Knows nodeid parent → P (parent.join name)) := by
  constructor
  · intro h hvalid parent hparent
    exact h _ ⟨hvalid, parent, hparent, rfl⟩
  · rintro h path ⟨hvalid, parent, hparent, rfl⟩
    exact h hvalid parent hparent

theorem forall_unit {P : Unit → Prop} : (∀ u, P u) ↔ P () := ⟨fun h => h (), fun h _ => h⟩

@[simp] theorem inodeLeft_called (call : H.World → Except IoErrorKind α × H.World) :
    (s.called call).InodeLeft ↔ s.InodeLeft := Iff.rfl

@[simp] theorem fhLeft_called (call : H.World → Except IoErrorKind α × H.World) :
    (s.called call).FhLeft ↔ s.FhLeft := Iff.rfl

variable {header : FuseInHeader} {body : Bytes}

theorem safe_lookup : Safe (lookup header body) s ↔
    ∀ path, s.Names header.nodeid (untilNul body) path → ∀ m, s.Gives (H.metadata path) m → s.InodeLeft := by
  unfold lookup
  simp only [safe_iff, after_utf8, after_childPath, after_hostCall, after_insertInode, after_pure, answered_some,
    unless_panic, implies_true, true_and, and_true, inodeLeft_called, forall_names]

theorem safe_read : Safe (read body : Handler H Bytes) s ↔ 20 ≤ body.length := by
  unfold read
  simp only [safe_iff, after_u64At, after_u32At, after_get, after_okOr, after_hostCall, after_pure, answered_some,
    unless_panic, and_imp_same, implies_true, and_true]
  omega

theorem safe_write : Safe (write body : Handler H Bytes) s ↔ 24 ≤ body.length := by
  unfold write
  simp only [safe_iff, after_u64At, after_u32At, after_rest, after_get, after_okOr, after_hostCall, after_pure,
    answered_some, unless_panic, and_imp_same, implies_true, and_true]
  omega

theorem safe_makeNode : Safe (makeNode header body) s ↔
    16 ≤ body.length ∧ ∀ path, s.Names header.nodeid (untilNul (body.drop 16)) path → ∀ file,
      s.Gives (H.openFile (nodeOptions (u32Field body 0)) path) file → s.InodeLeft := by
  unfold makeNode
  simp only [safe_iff, after_u32At, after_nameAt, after_childPath, after_ite, after_hostCall, after_insertInode,
    after_pure, answered_some, unless_panic, and_imp_same, implies_true, true_and, and_true, inodeLeft_called,
    forall_names]
  rw [and_iff_right_of_imp (by omega)]
  by_cases hmode : u32Field body 0 &&& Libc.S_IFMT = Libc.S_IFREG
  · simp only [nodeOptions, hmode, ite_true, true_implies, not_true_eq_false, false_implies, and_true]
  · simp only [nodeOptions, hmode, ite_false, not_false_eq_true, true_implies, false_implies, true_and]

theorem safe_makeDirectory : Safe (makeDirectory header body) s ↔
    8 ≤ body.length ∧ ∀ path, s.Names header.nodeid (untilNul (body.drop 8)) path →
      s.Gives (H.createDir path) () → s.InodeLeft := by
  unfold makeDirectory
  simp only [safe_iff, after_u32At, after_nameAt, after_childPath, after_hostCall, after_hostTry, after_insertInode,
    after_pure, answered_some, unless_panic, and_imp_same, implies_true, true_and, and_true, inodeLeft_called,
    forall_names, forall_unit]
  rw [and_iff_right_of_imp (by omega)]

theorem untilNul_lt_iff {bytes : Bytes} : (untilNul bytes).length + 1 ≤ bytes.length ↔ 0 ∈ bytes := by
  unfold untilNul
  induction bytes with
  | nil => simp
  | cons b rest ih =>
    by_cases hb : b = 0
    · simp [hb]
    · simp only [List.takeWhile_cons, decide_not, hb, decide_false, Bool.not_false, ite_true, List.length_cons,
        Nat.add_le_add_iff_right, List.mem_cons, Ne.symm hb, false_or]
      simpa using ih

theorem safe_makeSymlink : Safe (makeSymlink header body) s ↔
    0 ∈ body ∧ ∀ path, s.Names header.nodeid (untilNul body) path →
      ValidName (untilNul (body.drop ((untilNul body).length + 1))) →
      s.Gives (H.symlink (untilNul (body.drop ((untilNul body).length + 1))) path) () → s.InodeLeft := by
  unfold makeSymlink
  simp only [safe_iff, after_rest, after_utf8, after_childPath, after_hostCall, after_insertInode, after_pure,
    answered_some, unless_panic, and_imp_same, implies_true, true_and, and_true, inodeLeft_called, forall_names,
    forall_unit, untilNul_lt_iff]
  refine and_congr_right fun _ => ⟨?_, ?_⟩
  · exact fun h hname parent hparent htarget => h hname htarget parent hparent
  · exact fun h hname htarget parent hparent => h hname parent hparent htarget

theorem safe_create : Safe (create header body) s ↔
    16 ≤ body.length ∧ ∀ path, s.Names header.nodeid (untilNul (body.drop 16)) path → ∀ file,
      s.Gives (H.openFile (createOptions (u32Field body 0)) path) file →
      s.InodeLeft ∧ ∀ m, (s.called (H.openFile (createOptions (u32Field body 0)) path)).Gives (H.metadata path) m →
        s.FhLeft := by
  unfold create
  simp only [safe_iff, after_u32At, after_nameAt, after_childPath, after_hostCall, after_insertInode,
    after_insertFile, after_pure, answered_some, unless_panic, and_imp_same, implies_true, true_and, and_true,
    inodeLeft_called, forall_names]
  rw [and_iff_right_of_imp (by omega)]
  rfl

theorem safe_openFile : Safe (openFile header body) s ↔ 4 ≤ body.length ∧ ∀ path, s.Knows header.nodeid path → ∀ file,
      s.Gives (H.openFile (openOptions (u32Field body 0)) path) file → s.FhLeft := by
  unfold openFile
  simp only [safe_iff, after_u32At, after_nodePath, after_hostCall, after_insertFile, after_pure, answered_some,
    unless_panic, and_imp_same, implies_true, true_and, and_true, fhLeft_called, Nat.zero_add]
  rfl

theorem safe_openDir : Safe (openDir header) s ↔
    ∀ path, s.Knows header.nodeid path → ∀ m, s.Gives (H.metadata path) m → m.fileType = .dir → s.FhLeft := by
  unfold openDir
  simp only [safe_iff, after_nodePath, after_hostCall, after_ite, after_throw, after_takeFh, after_pure,
    answered_some, unless_panic, implies_true, true_and, and_true, fhLeft_called, ne_eq, not_not]

theorem safe_release : Safe (release body : Handler H Bytes) s ↔ 8 ≤ body.length := by
  unfold release
  simp only [safe_iff, after_u64At, after_modify, after_pure, answered_some, unless_panic, and_imp_same, and_true,
    Nat.zero_add]

theorem safe_fsync : Safe (fsync body : Handler H Bytes) s ↔ 8 ≤ body.length := by
  unfold fsync
  simp only [safe_iff, after_u64At, after_get, unless_panic, and_imp_same, Nat.zero_add]
  refine and_iff_left ?_
  cases s.openFiles.lookup (u64Field body 0) with
  | none => exact nofun
  | some file => exact after_modify.mpr nofun

theorem safe_batchForget : Safe (batchForget body : Handler H Bytes) s ↔ 4 ≤ body.length := by
  unfold batchForget
  rw [safe_iff, after_u32At, after_step (run_forgetEntries _ _), after_pure, answered_some, unless_panic, and_imp_same,
    and_true, Nat.zero_add]

theorem safe_readDirLoop (offset : UInt64) (maxSize : UInt32) (entries : List DirEntry) (pos : Nat) (out : Bytes) :
    After (readDirLoop offset maxSize entries pos out) s Answered := by
  induction entries generalizing pos out with
  | nil => exact nofun
  | cons entry entries ih =>
    refine after_ite.mpr ⟨fun _ => ih _ _, fun _ => ?_⟩
    cases entry.metadata with
    | error e => exact nofun
    | ok m => exact after_ite.mpr ⟨fun _ => nofun, fun _ => ih _ _⟩

theorem safe_readDir : Safe (readDir header body) s ↔ 20 ≤ body.length := by
  unfold readDir
  simp only [safe_iff, after_u64At, after_u32At, after_nodePath, after_hostCall, safe_readDirLoop, answered_some,
    unless_panic, and_imp_same, implies_true, and_true]
  omega

theorem safe_init : Safe (init body : Handler H Bytes) s := by
  unfold init
  simp only [safe_iff, after_ite, after_modify, after_pure, after_throw, answered_some, implies_true, and_true]

theorem safe_getAttr : Safe (getAttr header) s := by
  unfold getAttr
  simp only [safe_iff, after_nodePath, after_hostCall, after_pure, answered_some, implies_true, and_true]

theorem safe_unlink : Safe (unlink header body) s := by
  unfold unlink
  simp only [safe_iff, after_utf8, after_childPath, after_hostCall, after_pure, answered_some, implies_true,
    and_true]

theorem safe_rmdir : Safe (rmdir header body) s := by
  unfold rmdir
  simp only [safe_iff, after_utf8, after_childPath, after_hostCall, after_pure, answered_some, implies_true,
    and_true]

theorem safe_readlink : Safe (readlink header) s := by
  unfold readlink
  simp only [safe_iff, after_nodePath, after_hostCall, after_pure, answered_some, implies_true, and_true]

theorem safe_rename : Safe (rename header body) s ↔
    8 ≤ body.length ∧ (ValidName (untilNul (body.drop 8)) → 0 ∈ body.drop 8) := by
  unfold rename
  simp only [safe_iff, after_u64At, after_rest, after_utf8, after_nodePath, after_hostCall, after_pure,
    answered_some, unless_panic, and_imp_same, implies_true, true_and, and_true, untilNul_lt_iff, Nat.zero_add]
  exact and_iff_right_of_imp fun h => h.1

theorem safe_truncateTo {path : PathBuf} {size : UInt64} {f : Unit → Handler H β} {Q : Prop}
    (hQ : ∀ t, After (f ()) t Answered ↔ Q) :
    After (truncateTo path size >>= f) s Answered ↔ (s.Truncates path size → Q) := by
  unfold truncateTo Truncates
  rw [bind_assoc]
  simp only [after_hostCall, answered_some, implies_true, true_and, hQ]
  constructor
  · rintro h ⟨file, hopen, hset⟩
    exact h file hopen () hset
  · intro h file hopen _ hset
    exact h ⟨file, hopen, hset⟩

theorem safe_setAttr : Safe (setAttr header body) s ↔ 4 ≤ body.length ∧ ∀ path, s.Knows header.nodeid path →
      (u32Field body 0 &&& fattrSize ≠ 0 → 24 ≤ body.length) ∧ (u32Field body 0 &&& fattrMode ≠ 0 →
        (u32Field body 0 &&& fattrSize ≠ 0 → s.Truncates path (u64Field body 16)) → 72 ≤ body.length) := by
  unfold setAttr
  simp only [safe_iff, after_u32At, after_nodePath, answered_some, unless_panic, and_imp_same, implies_true,
    true_and, Nat.zero_add]
  refine and_congr_right fun _ => forall_congr' fun path => imp_congr_right fun _ => ?_
  -- What is left once the size is dealt with depends on the length of the body alone.
  have hmode (t : SharedFolder H) : After (if u32Field body 0 &&& fattrMode ≠ 0 then do
        let mode ← exec (u32At body 68)
        hostTry (H.setPermissions path (mode &&& 0o7777))
        let m ← hostCall (H.metadata path) eio
        pure (buildAttrOut m)
      else do
        let m ← hostCall (H.metadata path) eio
        pure (buildAttrOut m)) t Answered ↔ (u32Field body 0 &&& fattrMode ≠ 0 → 72 ≤ body.length) := by
    simp only [after_ite, after_u32At, after_hostTry, after_hostCall, after_pure, answered_some, unless_panic,
      implies_true, and_true]
  rw [after_ite, after_u64At, unless_panic, and_imp_same, safe_truncateTo hmode, hmode]
  tauto

/-- **A request is answered** exactly when its body has what its handler looks at and no counter that it
comes to is exhausted. -/
theorem safe_handle_iff (header : FuseInHeader) (body : Bytes) (s : SharedFolder H) :
    Safe (handle header body) s ↔ Answerable header body s := by
  unfold handle Answerable
  cases FuseOpcode.ofNumber header.opcode with
  | lookup => exact safe_lookup
  | read => exact safe_read
  | readdir => exact safe_readDir
  | write => exact safe_write
  | release => exact safe_release
  | fsync => exact safe_fsync
  | batchForget => exact safe_batchForget
  | mknod => exact safe_makeNode
  | mkdir => exact safe_makeDirectory
  | symlink => exact safe_makeSymlink
  | create => exact safe_create
  | openFile => exact safe_openFile
  | opendir => exact safe_openDir
  | setattr => exact safe_setAttr
  | rename => exact safe_rename
  | init => exact iff_of_true safe_init trivial
  | getattr => exact iff_of_true safe_getAttr trivial
  | unlink => exact iff_of_true safe_unlink trivial
  | rmdir => exact iff_of_true safe_rmdir trivial
  | readlink => exact iff_of_true safe_readlink trivial
  | forget | unsupported | destroy | releasedir | flush | interrupt | statfs =>
    exact iff_of_true (safe_iff.mpr nofun) trivial

end SharedFolder

end FerrumVM
