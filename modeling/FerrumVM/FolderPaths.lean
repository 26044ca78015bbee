import FerrumVM.BasePath
import FerrumVM.FolderRuns

/-! The paths that the FUSE server hands to the host. A host is wrapped so that it keeps a list of the paths it
is called with. A name that the guest sends is joined to a stored path as it is, so the list stays beneath the
root exactly as long as the names lead there. -/

namespace FerrumVM

open Base Program Path

variable {name : Bytes}

namespace HostOs

/-- A call of the host that notes the paths it is about. -/
def note {W α : Type} (paths : List PathBuf) (call : W → α × W) (w : W × List PathBuf) : α × (W × List PathBuf) :=
  ((call w.1).1, ((call w.1).2, w.2 ++ paths))

/-- The host, with a list of the paths that were opened, made, looked at, listed, removed or renamed. The target
of a symbolic link is text to the host. -/
def traced (H : HostOs) : HostOs where
  World := H.World × List PathBuf
  File := H.File
  randBytes n := note [] (H.randBytes n)
  seek file offset := note [] (H.seek file offset)
  readExact file n := note [] (H.readExact file n)
  read file n := note [] (H.read file n)
  writeAll file data := note [] (H.writeAll file data)
  setLen file size := note [] (H.setLen file size)
  fsync file w := (H.fsync file w.1, w.2)
  openFile options path := note [path] (H.openFile options path)
  metadata path := note [path] (H.metadata path)
  symlinkMetadata path := note [path] (H.symlinkMetadata path)
  readDir path := note [path] (H.readDir path)
  createDir path := note [path] (H.createDir path)
  setPermissions path mode := note [path] (H.setPermissions path mode)
  symlink target path := note [path] (H.symlink target path)
  removeFile path := note [path] (H.removeFile path)
  removeDir path := note [path] (H.removeDir path)
  rename old new := note [old, new] (H.rename old new)
  readLink path := note [path] (H.readLink path)
  tapSend packet := note [] (H.tapSend packet)
  tapRecv := note [] H.tapRecv

end HostOs

namespace SharedFolder

variable {H : HostOs} {root : PathBuf} {header : FuseInHeader} {body : Bytes} {f : UInt64 → Handler H.traced β}
  {paths : List PathBuf}

def touched (s : SharedFolder H.traced) : List PathBuf := s.host.2

/-- All paths, in the table of nodes and handed to the host, are beneath the root. -/
structure Confined (root : PathBuf) (s : SharedFolder H.traced) : Prop where
  nodes : ∀ id path, s.Knows id path → Beneath root path
  touched : ∀ path ∈ s.touched, Beneath root path

variable {s t : SharedFolder H.traced} {α β : Type}

/-- The two names in the body of a `RENAME`. -/
def oldName (body : Bytes) : Bytes := untilNul (body.drop 8)
def newName (body : Bytes) : Bytes := untilNul ((body.drop 8).drop ((oldName body).length + 1))

/-- A request made a path of a stored one and a name. The handler comes to it only with a body that is long enough. -/
def JoinsPath (header : FuseInHeader) (body : Bytes) (s : SharedFolder H) (path : PathBuf) : Prop :=
  match FuseOpcode.ofNumber header.opcode with
  | .lookup | .unlink | .rmdir | .symlink => s.Names header.nodeid (untilNul body) path
  | .mknod | .create => 16 ≤ body.length ∧ s.Names header.nodeid (untilNul (body.drop 16)) path
  | .mkdir => 8 ≤ body.length ∧ s.Names header.nodeid (untilNul (body.drop 8)) path
  | .rename => 8 ≤ body.length ∧
      (s.Names header.nodeid (oldName body) path ∨ s.Names (u64Field body 0) (newName body) path)
  | _ => False

/-! ### Steps of the handlers -/

variable {call : H.World → Except IoErrorKind α × H.World}

theorem Confined.called (h : Confined root s) (hpaths : ∀ path ∈ paths, Beneath root path) :
    Confined root (s.called (HostOs.note paths call)) := by
  refine ⟨h.nodes, fun path hpath => ?_⟩
  rcases List.mem_append.mp hpath with hpath | hpath
  · exact h.touched path hpath
  · exact hpaths path hpath

theorem Confined.entered {path : PathBuf} (h : Confined root s) (hpath : Beneath root path) :
    Confined root (s.entered path) := by
  refine ⟨fun id path' hknows => ?_, h.touched⟩
  by_cases hid : id = s.nextInode
  · have hnew : (s.entered path).Knows id path := hid ▸ AList.lookup_insert _
    cases hnew.symm.trans hknows
    exact hpath
  · exact h.nodes id path' ((AList.lookup_insert_ne hid).symm.trans hknows)

def StaysConfined (root : PathBuf) (s t : SharedFolder H.traced) : Prop := Confined root s → Confined root t

instance : IsPreorder (SharedFolder H.traced) (StaysConfined root) where
  refl _ := id
  trans _ _ _ hst htu := htu ∘ hst

theorem stays_of {x : Handler H.traced α} (h : ∀ s, Confined root s → After x s fun _ t => Confined root t) :
    Moves (StaysConfined root) x := by
  intro s
  by_cases hs : Confined root s
  · exact wp_mono (fun _ _ ht _ => ht) (fun _ _ ht _ => ht) (h s hs)
  · have htrue : After x s fun _ _ => True := by
      unfold After wp
      cases x.run s <;> trivial
    exact wp_mono (fun _ _ _ hs' => absurd hs' hs) (fun _ _ _ hs' => absurd hs' hs) htrue

theorem Moves.confined {x : Handler H.traced α} (hx : Moves (StaysConfined root) x) (h : Confined root s) :
    After x s fun _ t => Confined root t :=
  hx.after fun _ _ ht => ht h

theorem stays_call (errno : IoErrorKind → Errno) (hpaths : ∀ path ∈ paths, Beneath root path) :
    Moves (StaysConfined root) (hostCall (HostOs.note paths call) errno : Handler H.traced α) :=
  .hostCall errno fun _ hs => hs.called hpaths

theorem stays_try (hpaths : ∀ path ∈ paths, Beneath root path) :
    Moves (StaysConfined root) (hostTry (HostOs.note paths call) : Handler H.traced Unit) :=
  .hostTry fun _ hs => hs.called hpaths

theorem one_path {path : PathBuf} (hpath : Beneath root path) : ∀ p ∈ [path], Beneath root p := by
  intro p hp
  rw [List.mem_singleton.mp hp]
  exact hpath

theorem stays_path {path : PathBuf} {errno : IoErrorKind → Errno} (hpath : Beneath root path) :
    Moves (StaysConfined root) (hostCall (HostOs.note [path] call) errno : Handler H.traced α) :=
  stays_call _ (one_path hpath)

theorem stays_insertInode {path : PathBuf} (hpath : Beneath root path)
    (hf : ∀ nodeid, Moves (StaysConfined root) (f nodeid)) : Moves (StaysConfined root) (insertInode path >>= f) :=
  stays_of fun _ hs => after_insertInode.mpr ⟨fun _ => hs, fun _ => (hf _).confined (hs.entered hpath)⟩

theorem stays_takeFh (hf : ∀ fh, Moves (StaysConfined root) (f fh)) : Moves (StaysConfined root) (takeFh >>= f) :=
  stays_of fun _ hs => after_takeFh.mpr ⟨fun _ => hs, fun _ => (hf _).confined ⟨hs.nodes, hs.touched⟩⟩

theorem stays_insertFile {file : H.File}
    (hf : ∀ fh, Moves (StaysConfined root) (f fh)) : Moves (StaysConfined root) (insertFile file >>= f) :=
  stays_of fun _ hs => after_insertFile.mpr ⟨fun _ => hs, fun _ => (hf _).confined ⟨hs.nodes, hs.touched⟩⟩

theorem stays_nodePath {nodeid : UInt64} {errno : Errno} {f : PathBuf → Handler H.traced β}
    (hf : ∀ path, Beneath root path → Moves (StaysConfined root) (f path)) :
    Moves (StaysConfined root) (nodePath nodeid errno >>= f) :=
  stays_of fun _ hs => after_nodePath.mpr ⟨fun _ => hs, fun path hknows => (hf path (hs.nodes _ _ hknows)).confined hs⟩

theorem confined_child {nodeid : UInt64} {f : PathBuf → Handler H.traced β} (h : Confined root s)
    (hbelow : ∀ path, s.Names nodeid name path → Beneath root path) (hvalid : ValidName name)
    (hf : ∀ path, Beneath root path → Moves (StaysConfined root) (f path)) :
    After (childPath nodeid name >>= f) s fun _ t => Confined root t :=
  after_childPath.mpr ⟨fun _ => h, fun parent hknows => (hf _ (hbelow _ ⟨hvalid, parent, hknows, rfl⟩)).confined h⟩

theorem Confined.forgetAll (h : Confined root s) (ids : List UInt64) : Confined root (s.forgetAll ids) := by
  refine ⟨fun id path hknows => ?_, h.touched⟩
  have hkept : id ∉ ids := by
    have hmem : id ∈ (s.forgetAll ids).inodes := AList.lookup_isSome.mp (Option.isSome_of_eq_some hknows)
    exact (mem_forgetAll.mp hmem).2
  exact h.nodes id path ((lookup_forgetAll hkept).symm.trans hknows)

/-! ### Requests without a name -/

theorem stays_getAttr : Moves (StaysConfined root) (getAttr header : Handler H.traced Bytes) :=
  stays_nodePath fun _ hpath => .bind (stays_path hpath) fun _ => .pure _

theorem stays_openDir : Moves (StaysConfined root) (openDir header : Handler H.traced Bytes) :=
  stays_nodePath fun _ hpath => .bind (stays_path hpath) fun _ =>
    .ite (.throw _) (stays_takeFh fun _ => .pure _)

theorem stays_readDir : Moves (StaysConfined root) (readDir header body : Handler H.traced Bytes) := by
  refine .bind (.exec _) fun offset => .bind (.exec _) fun maxSize => stays_nodePath fun path hpath => ?_
  exact .bind (stays_path hpath) fun entries => .readDirLoop _ _ _ _ _

theorem stays_openFile : Moves (StaysConfined root) (openFile header body : Handler H.traced Bytes) := by
  refine .bind (.exec _) fun flags => stays_nodePath fun path hpath => ?_
  exact .bind (stays_path hpath) fun file => stays_insertFile fun _ => .pure _

theorem stays_release : Moves (StaysConfined root) (release body : Handler H.traced Bytes) :=
  .bind (.exec _) fun _ => .bind (.modify fun _ hs => ⟨hs.nodes, hs.touched⟩) fun _ => .pure _

theorem stays_read : Moves (StaysConfined root) (read body : Handler H.traced Bytes) := by
  refine .bind (.exec _) fun fh => .bind (.exec _) fun offset => .bind (.exec _) fun size => .bind .get fun s => ?_
  exact .bind (.okOr _ _) fun file => .bind (stays_call _ nofun) fun _ => .bind (stays_call _ nofun) fun buf => .pure _

theorem stays_write : Moves (StaysConfined root) (write body : Handler H.traced Bytes) := by
  refine .bind (.exec _) fun fh => .bind (.exec _) fun offset => .bind (.exec _) fun size => ?_
  refine .bind (.exec _) fun data => .bind .get fun s => .bind (.okOr _ _) fun file => ?_
  exact .bind (stays_call _ nofun) fun _ => .bind (stays_call _ nofun) fun _ => .pure _

theorem stays_fsync : Moves (StaysConfined root) (fsync body : Handler H.traced Bytes) := by
  refine .bind (.exec _) fun fh => .bind .get fun s => ?_
  cases s.openFiles.lookup fh with
  | none => exact .pure _
  | some file => exact .bind (.modify fun _ hs => ⟨hs.nodes, hs.touched⟩) fun _ => .pure _

theorem stays_setAttr : Moves (StaysConfined root) (setAttr header body : Handler H.traced Bytes) := by
  refine .bind (.exec _) fun valid => stays_nodePath fun path hpath => ?_
  have hstat : Moves (StaysConfined root) (do return buildAttrOut (← hostCall (H.traced.metadata path) eio)) :=
    .bind (stays_path hpath) fun _ => .pure _
  have hmode : Moves (StaysConfined root) (if valid &&& fattrMode ≠ 0 then do
        let mode ← exec (u32At body 68)
        hostTry (H.traced.setPermissions path (mode &&& 0o7777))
        let m ← hostCall (H.traced.metadata path) eio
        pure (buildAttrOut m)
      else do
        let m ← hostCall (H.traced.metadata path) eio
        pure (buildAttrOut m)) :=
    .ite (.bind (.exec _) fun _ => .bind (stays_try (one_path hpath)) fun _ => hstat) hstat
  refine .ite (.bind (.exec _) fun size => .bind ?_ fun _ => hmode) hmode
  exact .bind (stays_path hpath) fun _ => stays_call _ nofun

theorem stays_readlink : Moves (StaysConfined root) (readlink header : Handler H.traced Bytes) :=
  stays_nodePath fun _ hpath => .bind (stays_path hpath) fun _ => .pure _

theorem stays_init : Moves (StaysConfined root) (init body : Handler H.traced Bytes) := by
  unfold init
  dsimp only
  refine .ite ?_ ?_
  · refine .ite ?_ ?_
    · exact .pure _
    · exact .throw _
  · refine .bind (.modify fun _ hs => ?_) fun _ => .pure _
    exact ⟨hs.nodes, hs.touched⟩

theorem stays_batchForget : Moves (StaysConfined root) (batchForget body : Handler H.traced Bytes) := by
  refine .bind (.exec _) fun count => stays_of fun s hs => ?_
  rw [after_step (run_forgetEntries _ _)]
  exact hs.forgetAll _

/-! ### Requests with a name -/

section Named

variable (h : Confined root s)

include h

section

variable (hbelow : ∀ path, s.Names header.nodeid (untilNul body) path → Beneath root path)
include hbelow

theorem confined_lookup : After (lookup header body) s fun _ t => Confined root t := by
  refine after_utf8.mpr ⟨fun _ => h, fun hvalid => confined_child h hbelow hvalid fun path hpath => ?_⟩
  exact .bind (stays_path hpath) fun m => stays_insertInode hpath fun _ => .pure _

theorem confined_unlink : After (unlink header body) s fun _ t => Confined root t := by
  refine after_utf8.mpr ⟨fun _ => h, fun hvalid => confined_child h hbelow hvalid fun path hpath => ?_⟩
  exact .bind (stays_path hpath) fun _ => .pure _

theorem confined_rmdir : After (rmdir header body) s fun _ t => Confined root t := by
  refine after_utf8.mpr ⟨fun _ => h, fun hvalid => confined_child h hbelow hvalid fun path hpath => ?_⟩
  exact .bind (stays_path hpath) fun _ => .pure _

end

theorem confined_makeNode
    (hbelow : ∀ path, 16 ≤ body.length ∧ s.Names header.nodeid (untilNul (body.drop 16)) path → Beneath root path) :
    After (makeNode header body) s fun _ t => Confined root t := by
  refine after_u32At.mpr ⟨fun _ => h, fun _ => after_nameAt.mpr ⟨fun _ => h, fun hlen => ⟨fun _ => h, fun hvalid => ?_⟩⟩⟩
  refine confined_child h (fun path hnames => hbelow path ⟨hlen, hnames⟩) hvalid fun path hpath => ?_
  have henter : Moves (StaysConfined root) (do
      let nodeid ← insertInode path
      let m ← hostCall (H.traced.metadata path) eio
      return buildEntryOut nodeid m) :=
    stays_insertInode hpath fun _ => .bind (stays_path hpath) fun _ => .pure _
  exact .ite (.bind (stays_path hpath) fun _ => henter) (.bind (stays_path hpath) fun _ => henter)

theorem confined_makeDirectory
    (hbelow : ∀ path, 8 ≤ body.length ∧ s.Names header.nodeid (untilNul (body.drop 8)) path → Beneath root path) :
    After (makeDirectory header body) s fun _ t => Confined root t := by
  refine after_u32At.mpr ⟨fun _ => h, fun _ => after_nameAt.mpr ⟨fun _ => h, fun hlen => ⟨fun _ => h, fun hvalid => ?_⟩⟩⟩
  refine confined_child h (fun path hnames => hbelow path ⟨hlen, hnames⟩) hvalid fun path hpath => ?_
  refine .bind (stays_path hpath) fun _ => .bind (stays_try (one_path hpath)) fun _ => ?_
  exact stays_insertInode hpath fun _ => .bind (stays_path hpath) fun _ => .pure _

theorem confined_makeSymlink (hbelow : ∀ path, s.Names header.nodeid (untilNul body) path → Beneath root path) :
    After (makeSymlink header body) s fun _ t => Confined root t := by
  refine after_rest.mpr ⟨fun _ => h, fun _ => after_utf8.mpr ⟨fun _ => h, fun hvalid => ?_⟩⟩
  refine after_utf8.mpr ⟨fun _ => h, fun _ => confined_child h hbelow hvalid fun path hpath => ?_⟩
  refine .bind (stays_path hpath) fun _ => stays_insertInode hpath fun _ => ?_
  exact .bind (stays_path hpath) fun _ => .pure _

theorem confined_create
    (hbelow : ∀ path, 16 ≤ body.length ∧ s.Names header.nodeid (untilNul (body.drop 16)) path → Beneath root path) :
    After (create header body) s fun _ t => Confined root t := by
  refine after_u32At.mpr ⟨fun _ => h, fun _ => after_nameAt.mpr ⟨fun _ => h, fun hlen => ⟨fun _ => h, fun hvalid => ?_⟩⟩⟩
  refine confined_child h (fun path hnames => hbelow path ⟨hlen, hnames⟩) hvalid fun path hpath => ?_
  refine .bind (stays_path hpath) fun file => stays_insertInode hpath fun _ => ?_
  exact .bind (stays_path hpath) fun _ => stays_insertFile fun _ => .pure _

theorem confined_rename (hbelow : ∀ path, 8 ≤ body.length ∧
      (s.Names header.nodeid (oldName body) path ∨ s.Names (u64Field body 0) (newName body) path) → Beneath root path) :
    After (rename header body) s fun _ t => Confined root t := by
  refine after_u64At.mpr ⟨fun _ => h, fun _ => after_rest.mpr ⟨fun _ => h, fun hlen => ?_⟩⟩
  refine after_utf8.mpr ⟨fun _ => h, fun hold => after_rest.mpr ⟨fun _ => h, fun _ => ?_⟩⟩
  refine after_utf8.mpr ⟨fun _ => h, fun hnew => after_nodePath.mpr ⟨fun _ => h, fun oldParent holdParent => ?_⟩⟩
  refine after_nodePath.mpr ⟨fun _ => h, fun newParent hnewParent => ?_⟩
  have hpaths : ∀ path ∈ [oldParent.join (oldName body), newParent.join (newName body)], Beneath root path := by
    intro path hpath
    rcases List.mem_pair.mp hpath with rfl | rfl
    · exact hbelow _ ⟨hlen, Or.inl ⟨hold, oldParent, holdParent, rfl⟩⟩
    · exact hbelow _ ⟨hlen, Or.inr ⟨hnew, newParent, hnewParent, rfl⟩⟩
  exact Moves.confined (.bind (stays_call _ hpaths) fun _ => .pure _) h

/-- **A request leads beneath the root** if the paths it makes of names do. -/
theorem confined_handle (hbelow : ∀ path, JoinsPath header body s path → Beneath root path) :
    After (handle header body) s fun _ t => Confined root t := by
  unfold JoinsPath at hbelow
  unfold handle
  cases hop : FuseOpcode.ofNumber header.opcode with
  | lookup => rw [hop] at hbelow; exact confined_lookup h hbelow
  | unlink => rw [hop] at hbelow; exact confined_unlink h hbelow
  | rmdir => rw [hop] at hbelow; exact confined_rmdir h hbelow
  | symlink => rw [hop] at hbelow; exact confined_makeSymlink h hbelow
  | mknod => rw [hop] at hbelow; exact confined_makeNode h hbelow
  | create => rw [hop] at hbelow; exact confined_create h hbelow
  | mkdir => rw [hop] at hbelow; exact confined_makeDirectory h hbelow
  | rename => rw [hop] at hbelow; exact confined_rename h hbelow
  | init => exact stays_init.confined h
  | getattr => exact stays_getAttr.confined h
  | read => exact stays_read.confined h
  | write => exact stays_write.confined h
  | release => exact stays_release.confined h
  | opendir => exact stays_openDir.confined h
  | readdir => exact stays_readDir.confined h
  | setattr => exact stays_setAttr.confined h
  | fsync => exact stays_fsync.confined h
  | openFile => exact stays_openFile.confined h
  | readlink => exact stays_readlink.confined h
  | batchForget => exact stays_batchForget.confined h
  | destroy | releasedir | flush | statfs | interrupt => exact h
  | forget | unsupported => exact h

end Named

end SharedFolder

/-! ### Names -/

theorem join_of_relative (hname : name.head? ≠ some slash) (parent : PathBuf) : parent.join name =
      if parent = [] ∨ parent.getLast? = some slash then parent ++ name else parent ++ slash :: name := by
  refine (if_neg hname).trans ?_
  rw [List.append_assoc]
  rfl

theorem resolve_append_slash (front : Bytes) (hname : slash ∉ name) :
    resolve (front ++ slash :: name) = enter (rooted (front ++ slash :: name))
      ((parts front).foldl (enter (rooted (front ++ slash :: name))) []) name := by
  unfold resolve
  rw [parts_append_slash, parts_of_not_mem hname, List.foldl_append]
  rfl

theorem resolve_join (parent : PathBuf) (hname : slash ∉ name) : rooted (parent.join name) = rooted parent ∧
      resolve (parent.join name) = enter (rooted parent) (resolve parent) name := by
  have hrelative : name.head? ≠ some slash := fun hhead => hname (List.mem_of_mem_head? hhead)
  rw [join_of_relative hrelative]
  by_cases hempty : parent = []
  · subst hempty
    have hfalse : rooted name = rooted [] := beq_eq_false_iff_ne.mpr hrelative
    rw [if_pos (Or.inl rfl), List.nil_append]
    refine ⟨hfalse, ?_⟩
    unfold resolve
    rw [parts_of_not_mem hname, hfalse]
    rfl
  · have hrooted (back : Bytes) : rooted (parent ++ back) = rooted parent := by
      unfold rooted
      rw [List.head?_append_of_ne_nil _ hempty]
    by_cases hlast : parent.getLast? = some slash
    · obtain ⟨front, rfl⟩ := List.getLast?_eq_some_iff.mp hlast
      rw [if_pos (Or.inr hlast)]
      refine ⟨hrooted name, ?_⟩
      have hsplit : front ++ [slash] ++ name = front ++ slash :: name := List.append_cons front slash name |>.symm
      have hnone : slash ∉ ([] : Bytes) := List.not_mem_nil
      have hfront := resolve_append_slash front hnone
      rw [enter_nil] at hfront
      rw [hsplit, resolve_append_slash front hname, ← hsplit, hrooted name, hfront]
    · rw [if_neg (not_or.mpr ⟨hempty, hlast⟩)]
      refine ⟨hrooted _, ?_⟩
      rw [resolve_append_slash parent hname, hrooted]
      rfl

theorem beneath_join {root parent : Bytes} (h : Beneath root parent) (hname : Plain name) :
    Beneath root (PathBuf.join parent name) := by
  obtain ⟨hrooted, hresolve⟩ := resolve_join parent hname.1
  obtain ⟨hroot, below, hbelow, hup⟩ := h
  refine ⟨hrooted.trans hroot, ?_⟩
  rw [hresolve]
  rcases enter_plain hname (rooted parent) (resolve parent) with hsame | hdown
  · exact ⟨below, hsame.trans hbelow, hup⟩
  · refine ⟨name :: below, ?_, ?_⟩
    · rw [hdown, hbelow, List.cons_append]
    · rw [List.mem_cons, not_or]
      exact ⟨hname.2.symm, hup⟩

/-! ### Runs -/

namespace FolderRun

open SharedFolder

variable {H : HostOs} {root : PathBuf}

/-- The server on a host that has not been called yet. -/
def tracedSystem (H : HostOs) (root : PathBuf) : System (FolderRun H.traced) FolderAction :=
  { folderSystem H.traced root with init := fun s => ∃ host, s = start root (host, []) }

/-- The paths that the call makes of names lead to the root or beneath it. -/
def LeadsBeneath (root : PathBuf) (s : FolderRun H.traced) : FolderAction → Prop
  | .dispatch header body => ∀ path, JoinsPath header body s.folder path → Beneath root path
  | .forget _ => True

theorem confined_perform {s : FolderRun H.traced} (h : Confined root s.folder) {action : FolderAction}
    (hbelow : LeadsBeneath root s action) : Confined root (s.perform action).folder := by
  cases action with
  | dispatch header body => exact after_handle.mp (confined_handle h hbelow)
  | forget header => exact h.forgetAll [header.nodeid]

/-- **Confinement.** In every run in which the names of the guest lead to the root or beneath it, so do all paths
in the table of nodes and all paths that the host was called with. -/
theorem shared_folder_confined {s : FolderRun H.traced} (h : (tracedSystem H root).ReachedBy (LeadsBeneath root) s) :
    (∀ id path, s.folder.Knows id path → Beneath root path) ∧ ∀ path ∈ s.folder.touched, Beneath root path := by
  have hconfined : Confined root s.folder := by
    refine h.invariant (I := fun s => Confined root s.folder) (fun s hinit => ?_) fun s action s' hs hbelow hstep => ?_
    · obtain ⟨host, rfl⟩ := hinit
      refine ⟨fun id path hknows => ?_, nofun⟩
      cases knows_new hknows
      exact .refl root
    · cases hstep
      exact confined_perform hs hbelow
  exact ⟨hconfined.nodes, hconfined.touched⟩

def looked (name : Bytes) : FolderRun HostOs.directories.traced :=
  (start [47, 115] ((), [])).perform (.dispatch (fuseRequest 1 1) (name ++ [0]))

/-- The name `a` leads to `/s/a`. -/
theorem plain_name_is_confined : (looked [97]).folder.touched = [[47, 115, 47, 97]] ∧
    ∀ path ∈ (looked [97]).folder.touched, Beneath [47, 115] path := by
  have hreached : (tracedSystem HostOs.directories [47, 115]).ReachedBy (LeadsBeneath [47, 115]) (looked [97]) := by
    refine .step (e := .dispatch (fuseRequest 1 1) [97, 0]) (.init ⟨(), rfl⟩) ?_ rfl
    rintro path ⟨_, parent, hknows, rfl⟩
    cases knows_new hknows
    exact beneath_join (.refl _) ⟨by decide, by decide⟩
  exact ⟨by decide, (shared_folder_confined hreached).2⟩

/-- The name `..` leads out of `/s`. -/
theorem dotdot_leads_out : ¬∀ s, (tracedSystem HostOs.directories [47, 115]).Reachable s →
    Confined [47, 115] s.folder := by
  intro h
  have hreached : (tracedSystem HostOs.directories [47, 115]).Reachable (looked [46, 46]) :=
    .step (e := .dispatch (fuseRequest 1 1) [46, 46, 0]) (.init ⟨(), rfl⟩) trivial rfl
  have htouched : [47, 115, 47, 46, 46] ∈ (looked [46, 46]).folder.touched := by decide
  obtain ⟨_, below, hbelow, _⟩ := (h _ hreached).touched _ htouched
  have hlength := congrArg List.length hbelow
  rw [List.length_append] at hlength
  have hroot : (resolve [47, 115]).length = 1 := by decide
  have hout : (resolve [47, 115, 47, 46, 46]).length = 0 := by decide
  omega

end FolderRun

end FerrumVM
