import FerrumVM.BaseFresh
import FerrumVM.BaseSystem
import FerrumVM.HostDisk
import FerrumVM.SharedFolderSafety

/-! Runs of the FUSE server. What one request can do to the tables is said once: it leaves them alone, or it
enters a node, opens a handle, releases one, or forgets nodes. From that follow the facts about whole runs: no
node number and no handle is ever given out twice, and the root stays where it is unless it is forgotten. -/

namespace FerrumVM

open Base Program

/-- Operations that give out a node number when they succeed. -/
def FuseOpcode.entersNode : FuseOpcode → Bool
  | .lookup | .mknod | .mkdir | .symlink | .create => true
  | _ => false

/-- Operations that give out a handle when they succeed. -/
def FuseOpcode.opensHandle : FuseOpcode → Bool
  | .create | .openFile | .opendir => true
  | _ => false

namespace SharedFolder

variable {H : HostOs} {s t : SharedFolder H} {header : FuseInHeader} {body : Bytes} {op : FuseOpcode}

/-! ### What a request can do -/

/-- How a request may end, and what it then has done to the tables. -/
inductive Outcome (op : FuseOpcode) (body : Bytes) (s : SharedFolder H) : Ending Bytes → SharedFolder H → Prop
  /-- At most the host has changed; nothing was given out. -/
  | kept {r : Ending Bytes} (host : H.World)
      (h : ∀ reply, r = some (.ok reply) → op.entersNode = false ∧ op.opensHandle = false) :
      Outcome op body s r { s with host }
  | negotiated (reply : Bytes) (minor : UInt32) (hop : op = .init) :
      Outcome op body s (some (.ok reply)) { s with protoMinor := some minor }
  | entered (path : PathBuf) (m : Metadata) (host : H.World) (hop : op.entersNode = true ∧ op.opensHandle = false)
      (hleft : s.InodeLeft) :
      Outcome op body s (some (.ok (buildEntryOut s.nextInode m))) { s.entered path with host }
  /-- A node was entered, but the request ends without telling its number. -/
  | unreported {r : Ending Bytes} (path : PathBuf) (host : H.World) (hop : op.entersNode = true ∧ op ≠ .lookup)
      (hleft : s.InodeLeft) (hr : ∀ reply, r ≠ some (.ok reply)) : Outcome op body s r { s.entered path with host }
  | created (path : PathBuf) (m : Metadata) (file : H.File) (host : H.World) (hop : op = .create)
      (hleft : s.InodeLeft) (hfh : s.FhLeft) :
      Outcome op body s (some (.ok (buildEntryOut s.nextInode m ++ openOut s.nextFh)))
        { (s.entered path).filed file with host }
  | opened (file : H.File) (host : H.World) (hop : op = .openFile) (hfh : s.FhLeft) :
      Outcome op body s (some (.ok (openOut s.nextFh))) { s.filed file with host }
  | openedDir (host : H.World) (hop : op = .opendir) (hfh : s.FhLeft) :
      Outcome op body s (some (.ok (openOut s.nextFh))) { s with nextFh := s.nextFh + 1, host }
  | released (fh : UInt64) (hop : op = .release) :
      Outcome op body s (some (.ok [])) { s with openFiles := s.openFiles.erase fh }
  | forgot (hop : op = .batchForget) : Outcome op body s (some (.ok [])) (s.forgetAll (batchIds body))

namespace Outcome

theorem panicked (host : H.World) : Outcome op body s none { s with host } := .kept host nofun

theorem failed (errno : Errno) (host : H.World) : Outcome op body s (some (.error errno)) { s with host } :=
  .kept host nofun

theorem quiet {r : Ending Bytes} (host : H.World) (hop : op.entersNode = false ∧ op.opensHandle = false) :
    Outcome op body s r { s with host } := .kept host fun _ _ => hop

end Outcome

theorem outcome_lookup : After (lookup header body) s (Outcome .lookup body s) := by
  unfold lookup
  simp only [after_utf8, after_childPath, after_hostCall, after_insertInode, after_pure]
  refine ⟨fun _ => .failed _ _, fun _ => ⟨fun _ => .failed _ _, fun parent _ => ⟨fun _ _ => .failed _ _, fun m _ => ?_⟩⟩⟩
  exact ⟨fun _ => .panicked _, fun hleft => .entered _ m _ ⟨rfl, rfl⟩ hleft⟩

theorem outcome_enter (path : PathBuf) (host : H.World) (call : H.World → Except IoErrorKind Metadata × H.World)
    (hop : op.entersNode = true ∧ op.opensHandle = false) (hlookup : op ≠ .lookup) : After (do
      let nodeid ← insertInode path
      let m ← hostCall call eio
      return buildEntryOut nodeid m) { s with host } (Outcome op body s) := by
  simp only [after_hostCall, after_insertInode, after_pure]
  exact ⟨fun _ => .panicked _, fun hleft => ⟨fun _ _ => .unreported _ _ ⟨hop.1, hlookup⟩ hleft nofun,
    fun m _ => .entered _ m _ hop hleft⟩⟩

theorem outcome_makeNode : After (makeNode header body) s (Outcome .mknod body s) := by
  unfold makeNode
  simp only [after_u32At, after_nameAt, after_childPath, after_ite, after_hostCall]
  refine ⟨fun _ => .panicked _, fun _ => ⟨fun _ => .panicked _, fun _ => ⟨fun _ => .failed _ _, fun _ =>
    ⟨fun _ => .failed _ _, fun parent _ => ⟨fun _ => ?_, fun _ => ?_⟩⟩⟩⟩⟩
  · exact ⟨fun _ _ => .failed _ _, fun _ _ => outcome_enter _ _ _ ⟨rfl, rfl⟩ nofun⟩
  · exact ⟨fun _ _ => .failed _ _, fun _ _ => outcome_enter _ _ _ ⟨rfl, rfl⟩ nofun⟩

theorem outcome_makeDirectory : After (makeDirectory header body) s (Outcome .mkdir body s) := by
  unfold makeDirectory
  simp only [after_u32At, after_nameAt, after_childPath, after_hostCall, after_hostTry]
  exact ⟨fun _ => .panicked _, fun _ => ⟨fun _ => .panicked _, fun _ => ⟨fun _ => .failed _ _, fun _ =>
    ⟨fun _ => .failed _ _, fun parent _ => ⟨fun _ _ => .failed _ _, fun _ _ => outcome_enter _ _ _ ⟨rfl, rfl⟩ nofun⟩⟩⟩⟩⟩

theorem outcome_makeSymlink : After (makeSymlink header body) s (Outcome .symlink body s) := by
  unfold makeSymlink
  simp only [after_rest, after_utf8, after_childPath, after_hostCall]
  exact ⟨fun _ => .panicked _, fun _ => ⟨fun _ => .failed _ _, fun _ => ⟨fun _ => .failed _ _, fun _ =>
    ⟨fun _ => .failed _ _, fun parent _ => ⟨fun _ _ => .failed _ _, fun _ _ => outcome_enter _ _ _ ⟨rfl, rfl⟩ nofun⟩⟩⟩⟩⟩

theorem outcome_create : After (create header body) s (Outcome .create body s) := by
  unfold create
  simp only [after_u32At, after_nameAt, after_childPath, after_hostCall, after_insertInode, after_insertFile, after_pure]
  refine ⟨fun _ => .panicked _, fun _ => ⟨fun _ => .panicked _, fun _ => ⟨fun _ => .failed _ _, fun _ =>
    ⟨fun _ => .failed _ _, fun parent _ => ⟨fun _ _ => .failed _ _, fun file _ => ⟨fun _ => .panicked _, fun hleft => ?_⟩⟩⟩⟩⟩⟩
  refine ⟨fun _ _ => .unreported _ _ ⟨rfl, nofun⟩ hleft nofun, fun m _ => ⟨fun _ => .unreported _ _ ⟨rfl, nofun⟩ hleft nofun, fun hfh => ?_⟩⟩
  exact .created _ m file _ rfl hleft hfh

theorem outcome_openFile : After (openFile header body) s (Outcome .openFile body s) := by
  unfold openFile
  simp only [after_u32At, after_nodePath, after_hostCall, after_insertFile, after_pure]
  exact ⟨fun _ => .panicked _, fun _ => ⟨fun _ => .failed _ _, fun path _ => ⟨fun _ _ => .failed _ _, fun file _ =>
    ⟨fun _ => .panicked _, fun hfh => .opened file _ rfl hfh⟩⟩⟩⟩

theorem outcome_openDir : After (openDir header) s (Outcome .opendir body s) := by
  unfold openDir
  simp only [after_nodePath, after_hostCall, after_ite, after_throw, after_takeFh, after_pure]
  exact ⟨fun _ => .failed _ _, fun path _ => ⟨fun _ _ => .failed _ _, fun m _ => ⟨fun _ => .failed _ _, fun _ =>
    ⟨fun _ => .panicked _, fun hfh => .openedDir _ rfl hfh⟩⟩⟩⟩

theorem outcome_release : After (release body) s (Outcome .release body s) := by
  unfold release
  simp only [after_u64At, after_modify, after_pure]
  exact ⟨fun _ => .panicked _, fun _ => .released _ rfl⟩

theorem outcome_batchForget : After (batchForget body) s (Outcome .batchForget body s) := by
  unfold batchForget
  rw [after_u32At]
  refine ⟨fun _ => .panicked _, fun _ => ?_⟩
  rw [after_step (run_forgetEntries _ _)]
  exact .forgot rfl

theorem outcome_init : After (init body) s (Outcome .init body s) := by
  unfold init
  simp only [after_ite, after_modify, after_pure, after_throw]
  exact ⟨fun _ => ⟨fun _ => .quiet _ ⟨rfl, rfl⟩, fun _ => .failed _ _⟩, fun _ => .negotiated _ _ rfl⟩

theorem outcome_hostMoves {x : Handler H Bytes} (h : Moves HostMoved x)
    (hop : op.entersNode = false ∧ op.opensHandle = false) : After x s (Outcome op body s) := by
  refine h.after fun r t hmoved => ?_
  obtain ⟨host, rfl⟩ := hmoved
  exact .quiet host hop

/-- **What a request can do.** -/
theorem outcome_handle (header : FuseInHeader) (body : Bytes) (s : SharedFolder H) :
    After (handle header body) s (Outcome (FuseOpcode.ofNumber header.opcode) body s) := by
  unfold handle
  cases FuseOpcode.ofNumber header.opcode with
  | init => exact outcome_init
  | lookup => exact outcome_lookup
  | mknod => exact outcome_makeNode
  | mkdir => exact outcome_makeDirectory
  | symlink => exact outcome_makeSymlink
  | create => exact outcome_create
  | openFile => exact outcome_openFile
  | opendir => exact outcome_openDir
  | release => exact outcome_release
  | batchForget => exact outcome_batchForget
  | getattr => exact outcome_hostMoves (hostMoves_getAttr header) ⟨rfl, rfl⟩
  | read => exact outcome_hostMoves (hostMoves_read body) ⟨rfl, rfl⟩
  | write => exact outcome_hostMoves (hostMoves_write body) ⟨rfl, rfl⟩
  | readdir => exact outcome_hostMoves (hostMoves_readDir header body) ⟨rfl, rfl⟩
  | setattr => exact outcome_hostMoves (hostMoves_setAttr header body) ⟨rfl, rfl⟩
  | fsync => exact outcome_hostMoves (hostMoves_fsync body) ⟨rfl, rfl⟩
  | unlink => exact outcome_hostMoves (hostMoves_unlink header body) ⟨rfl, rfl⟩
  | rmdir => exact outcome_hostMoves (hostMoves_rmdir header body) ⟨rfl, rfl⟩
  | rename => exact outcome_hostMoves (hostMoves_rename header body) ⟨rfl, rfl⟩
  | readlink => exact outcome_hostMoves (hostMoves_readlink header) ⟨rfl, rfl⟩
  | destroy | releasedir | flush | statfs | interrupt => exact outcome_hostMoves (.pure _) ⟨rfl, rfl⟩
  | forget | unsupported => exact outcome_hostMoves (.throw _) ⟨rfl, rfl⟩

/-! ### Runs -/

def answered (header : FuseInHeader) (body : Bytes) (s : SharedFolder H) : Ending Bytes × SharedFolder H :=
  match dispatch header body s with
  | .ok r t => (some r, t)
  | .error _ t => (none, t)

theorem after_handle {P : Ending Bytes → SharedFolder H → Prop} :
    After (handle header body) s P ↔ P (answered header body s).1 (answered header body s).2 := by
  unfold After wp answered dispatch
  cases (handle header body).run s with
  | ok r t => rfl
  | error e t => rfl

theorem outcome_answered (header : FuseInHeader) (body : Bytes) (s : SharedFolder H) :
    Outcome (FuseOpcode.ofNumber header.opcode) body s (answered header body s).1 (answered header body s).2 :=
  after_handle.mp (outcome_handle header body s)

/-- The node number in a reply, if the operation gives one out. -/
def replyNodes (op : FuseOpcode) : Ending Bytes → List UInt64
  | some (.ok reply) => if op.entersNode then [u64Field reply 0] else []
  | _ => []

/-- The handle in a reply; that of `CREATE` stands behind the entry. -/
def replyHandles (op : FuseOpcode) : Ending Bytes → List UInt64
  | some (.ok reply) => if op.opensHandle then [u64Field reply (if op.entersNode then 128 else 0)] else []
  | _ => []

end SharedFolder

/-- The server with what it has given out and what has left its tables. -/
structure FolderRun (H : HostOs) where
  folder : SharedFolder H
  nodes : List UInt64
  handles : List UInt64
  forgotten : List UInt64
  released : List UInt64

inductive FolderAction where
  | dispatch (header : FuseInHeader) (body : Bytes)
  | forget (header : FuseInHeader)

namespace FolderRun

open SharedFolder

variable {H : HostOs}

def next (s : FolderRun H) (op : FuseOpcode) (r : Ending Bytes) (t : SharedFolder H) : FolderRun H where
  folder := t
  nodes := s.nodes ++ replyNodes op r
  handles := s.handles ++ replyHandles op r
  forgotten := s.forgotten ++ s.folder.inodes.keys.filter (· ∉ t.inodes)
  released := s.released ++ s.folder.openFiles.keys.filter (· ∉ t.openFiles)

/-- The run after one more call. A request that panics is a step too, to the state that it leaves. -/
def perform (s : FolderRun H) : FolderAction → FolderRun H
  | .dispatch header body =>
    s.next (FuseOpcode.ofNumber header.opcode) (answered header body s.folder).1 (answered header body s.folder).2
  | .forget header => s.next .forget none ((forget header).finalState s.folder)

def start (root : PathBuf) (host : H.World) : FolderRun H := ⟨SharedFolder.new root host, [], [], [], []⟩

end FolderRun

/-- Requests and calls of `forget`, in any order. -/
def folderSystem (H : HostOs) (root : PathBuf) : System (FolderRun H) FolderAction where
  init s := ∃ host, s = FolderRun.start root host
  step s action s' := s' = s.perform action

theorem reachable_start {H : HostOs} (root : PathBuf) (host : H.World) :
    (folderSystem H root).Reachable (FolderRun.start root host) := .init ⟨host, rfl⟩

theorem reachable_perform {H : HostOs} {root : PathBuf} {s : FolderRun H} (h : (folderSystem H root).Reachable s)
    (action : FolderAction) : (folderSystem H root).Reachable (s.perform action) := h.next (e := action) rfl

/-- A request of which only the operation and the node matter. -/
def fuseRequest (opcode : UInt32) (nodeid : UInt64) : FuseInHeader := ⟨40, opcode, 1, nodeid, 0, 0, 0, 0⟩

def emptyDirectory : Metadata := ⟨0, 0, 0, 0, 0, 0, 0, 0o40755, 2, 0, 0, 0, .dir, by decide⟩

/-- A host on which every path is a directory. -/
def HostOs.directories : HostOs := { HostOs.idle Unit Unit with metadata := fun _ host => (.ok emptyDirectory, host) }

namespace SharedFolder

variable {H : HostOs} {s t : SharedFolder H} {op : FuseOpcode} {body : Bytes} {r : Ending Bytes} {id : UInt64}

/-! ### Requests that are answered -/

/-- **A request is answered** exactly if its body has the bytes that its handler slices, and the counter it may
come to is not exhausted. -/
theorem returns_dispatch_iff (header : FuseInHeader) (body : Bytes) (s : SharedFolder H) :
    Returns (dispatch header body) s ↔ Answerable header body s :=
  safe_handle_iff header body s

/-- A `RELEASE` with an empty body panics, in the very first state. -/
theorem empty_release_panics : ¬∀ s, (folderSystem HostOs.directories [47]).Reachable s → ∀ header body,
    Returns (dispatch header body) s.folder := by
  intro h
  obtain ⟨r, t, hrun⟩ := h _ (reachable_start [47] ()) (fuseRequest 18 1) []
  cases hrun

/-! ### Numbers are given out once -/

theorem length_buildEntryOut (nodeid : UInt64) (m : Metadata) : (buildEntryOut nodeid m).length = 128 := by
  simp [buildEntryOut, fuseAttrBytes]

theorem node_buildEntryOut (nodeid : UInt64) (m : Metadata) (back : Bytes) :
    u64Field (buildEntryOut nodeid m ++ back) 0 = nodeid := by
  unfold buildEntryOut
  simp only [List.append_assoc]
  exact u64Field_append [] rfl nodeid _

theorem handle_openOut (fh : UInt64) : u64Field (openOut fh) 0 = fh := by
  unfold openOut
  rw [List.append_assoc]
  exact u64Field_append [] rfl fh _

theorem counter_moves {a : UInt64} (h : a.toNat + 1 < 2 ^ 64) : (a + 1).toNat = a.toNat + 1 := toNat_add_of_lt h

theorem mem_forgetAll {ids : List UInt64} : id ∈ (s.forgetAll ids).inodes ↔ id ∈ s.inodes ∧ id ∉ ids := by
  unfold forgetAll
  dsimp only
  induction ids generalizing s with
  | nil => simp
  | cons first ids ih =>
    have hrest := ih (s := { s with inodes := s.inodes.erase first })
    dsimp only at hrest
    rw [List.foldl_cons, hrest, AList.mem_erase, List.mem_cons, not_or]
    tauto

theorem lookup_forgetAll {ids : List UInt64} (h : id ∉ ids) :
    (s.forgetAll ids).inodes.lookup id = s.inodes.lookup id := by
  unfold forgetAll
  dsimp only
  induction ids generalizing s with
  | nil => rfl
  | cons first ids ih =>
    rw [List.mem_cons, not_or] at h
    rw [List.foldl_cons]
    exact (ih (s := { s with inodes := s.inodes.erase first }) h.2).trans (AList.lookup_erase_ne h.1)

theorem knows_new {root path : PathBuf} {host : H.World} (h : (new root host).Knows id path) : path = root := by
  by_cases hid : id = fuseRootId
  · subst hid
    exact (Option.some.inj h).symm
  · have hmem : id ∈ (new root host).inodes := AList.lookup_isSome.mp (Option.isSome_of_eq_some h)
    exact absurd (List.mem_singleton.mp (AList.mem_keys.mp hmem)) hid

theorem Outcome.knows (h : Outcome op body s r t) {path : PathBuf} (hold : id ≠ s.nextInode)
    (hkept : op = .batchForget → id ∉ batchIds body) (hknows : s.Knows id path) : t.Knows id path := by
  cases h with
  | kept host hquiet => exact hknows
  | negotiated reply minor hop => exact hknows
  | entered path m host hop hleft => exact (AList.lookup_insert_ne hold).trans hknows
  | unreported path host hop hleft hr => exact (AList.lookup_insert_ne hold).trans hknows
  | created path m file host hop hleft hfh => exact (AList.lookup_insert_ne hold).trans hknows
  | opened file host hop hfh => exact hknows
  | openedDir host hop hfh => exact hknows
  | released fh hop => exact hknows
  | forgot hop => exact (lookup_forgetAll (hkept hop)).trans hknows

theorem answered_batchForget {header : FuseInHeader}
    (hop : FuseOpcode.ofNumber header.opcode = .batchForget) (hid : id ∈ batchIds body) :
    answered header body s = (some (.ok []), s.forgetAll (batchIds body)) := by
  have hlen : 4 ≤ body.length := by
    unfold batchIds at hid
    cases hcount : (u32Field body 0).toNat with
    | zero => rw [hcount] at hid; exact absurd hid List.not_mem_nil
    | succ count =>
      rw [hcount, idsFrom] at hid
      by_contra hshort
      rw [if_pos (by omega)] at hid
      exact absurd hid List.not_mem_nil
  have hafter : After (handle header body) s fun r t => (r, t) = (some (.ok []), s.forgetAll (batchIds body)) := by
    unfold handle
    rw [hop]
    show After (batchForget body) s _
    unfold batchForget
    rw [after_u32At]
    refine ⟨fun hshort => absurd hlen hshort, fun _ => ?_⟩
    rw [after_step (run_forgetEntries _ _)]
    rfl
  exact after_handle.mp hafter

theorem Outcome.nodes (h : Outcome op body s r t) :
    Counted UInt64.toNat s.nextInode.toNat t.nextInode.toNat (· ∈ s.inodes) (· ∈ t.inodes) (replyNodes op r) := by
  have hinsert {path : PathBuf} {new : List UInt64} (hleft : s.InodeLeft) (hnew : new = [] ∨ new = [s.nextInode]) :
      Counted UInt64.toNat s.nextInode.toNat (s.nextInode + 1).toNat (· ∈ s.inodes)
        (· ∈ s.inodes.insert s.nextInode path) new := by
    rw [counter_moves hleft]
    exact .take rfl (fun id hid => (AList.mem_insert _).mp hid) hnew
  cases h with
  | kept host hquiet =>
    have hnone : replyNodes op r = [] := by
      match r with
      | some (.ok reply) => simp [replyNodes, (hquiet reply rfl).1]
      | some (.error e) => rfl
      | none => rfl
    rw [hnone]
    exact .idle fun _ => id
  | negotiated reply minor hop =>
    rw [hop]
    exact .idle fun _ => id
  | entered path m host hop hleft =>
    refine hinsert hleft (Or.inr ?_)
    have hnode := node_buildEntryOut s.nextInode m []
    rw [List.append_nil] at hnode
    simp [replyNodes, hop.1, hnode]
  | unreported path host hop hleft hr =>
    refine hinsert hleft (Or.inl ?_)
    match r with
    | some (.ok reply) => exact absurd rfl (hr reply)
    | some (.error e) => rfl
    | none => rfl
  | created path m file host hop hleft hfh =>
    refine hinsert hleft (Or.inr ?_)
    rw [hop]
    simp [replyNodes, FuseOpcode.entersNode, node_buildEntryOut]
  | opened file host hop hfh =>
    rw [hop]
    exact .idle fun _ => id
  | openedDir host hop hfh =>
    rw [hop]
    exact .idle fun _ => id
  | released fh hop =>
    rw [hop]
    exact .idle fun _ => id
  | forgot hop =>
    rw [hop]
    exact .idle fun id hid => (mem_forgetAll.mp hid).1

theorem Outcome.handles (h : Outcome op body s r t) :
    Counted UInt64.toNat s.nextFh.toNat t.nextFh.toNat (· ∈ s.openFiles) (· ∈ t.openFiles) (replyHandles op r) := by
  have hinsert {file : H.File} (hleft : s.FhLeft) :
      Counted UInt64.toNat s.nextFh.toNat (s.nextFh + 1).toNat (· ∈ s.openFiles)
        (· ∈ s.openFiles.insert s.nextFh file) [s.nextFh] := by
    rw [counter_moves hleft]
    exact .take rfl (fun id hid => (AList.mem_insert _).mp hid) (Or.inr rfl)
  cases h with
  | kept host hquiet =>
    have hnone : replyHandles op r = [] := by
      match r with
      | some (.ok reply) => simp [replyHandles, (hquiet reply rfl).2]
      | some (.error e) => rfl
      | none => rfl
    rw [hnone]
    exact .idle fun _ => id
  | negotiated reply minor hop =>
    rw [hop]
    exact .idle fun _ => id
  | entered path m host hop hleft =>
    have hnone : replyHandles op (some (.ok (buildEntryOut s.nextInode m))) = [] := by simp [replyHandles, hop.2]
    rw [hnone]
    exact .idle fun _ => id
  | unreported path host hop hleft hr =>
    have hnone : replyHandles op r = [] := by
      match r with
      | some (.ok reply) => exact absurd rfl (hr reply)
      | some (.error e) => rfl
      | none => rfl
    rw [hnone]
    exact .idle fun _ => id
  | created path m file host hop hleft hfh =>
    have htold : replyHandles op (some (.ok (buildEntryOut s.nextInode m ++ openOut s.nextFh))) = [s.nextFh] := by
      rw [hop]
      show [u64Field _ 128] = _
      unfold openOut
      rw [List.append_assoc, u64Field_append _ (length_buildEntryOut _ _)]
    rw [htold]
    exact hinsert hfh
  | opened file host hop hfh =>
    have htold : replyHandles op (some (.ok (openOut s.nextFh))) = [s.nextFh] := by
      rw [hop]
      exact congrArg (· :: []) (handle_openOut _)
    rw [htold]
    exact hinsert hfh
  | openedDir host hop hfh =>
    have htold : replyHandles op (some (.ok (openOut s.nextFh))) = [s.nextFh] := by
      rw [hop]
      exact congrArg (· :: []) (handle_openOut _)
    rw [htold]
    show Counted _ _ (s.nextFh + 1).toNat _ _ _
    rw [counter_moves hfh]
    exact .take rfl (fun _ hid => Or.inr hid) (Or.inr rfl)
  | released fh hop =>
    rw [hop]
    exact .idle fun _ hfh => (AList.mem_erase.mp hfh).2
  | forgot hop =>
    rw [hop]
    exact .idle fun _ => id

end SharedFolder

namespace FolderRun

open SharedFolder

variable {H : HostOs} {root : PathBuf} {s : FolderRun H} {op : FuseOpcode} {r : Ending Bytes} {t : SharedFolder H}

structure Counts (s : FolderRun H) : Prop where
  nodes : Fresh UInt64.toNat 2 s.folder.nextInode.toNat (· ∈ s.folder.inodes) s.nodes s.forgotten
  handles : Fresh UInt64.toNat 1 s.folder.nextFh.toNat (· ∈ s.folder.openFiles) s.handles s.released

theorem Counts.next (h : s.Counts)
    (hnodes : Counted UInt64.toNat s.folder.nextInode.toNat t.nextInode.toNat (· ∈ s.folder.inodes) (· ∈ t.inodes)
      (replyNodes op r))
    (hhandles : Counted UInt64.toNat s.folder.nextFh.toNat t.nextFh.toNat (· ∈ s.folder.openFiles) (· ∈ t.openFiles)
      (replyHandles op r)) : (s.next op r t).Counts where
  nodes := h.nodes.step hnodes fun id hid => by
    rw [List.mem_filter, AList.mem_keys.symm] at hid
    exact ⟨hid.1, of_decide_eq_true hid.2⟩
  handles := h.handles.step hhandles fun fh hfh => by
    rw [List.mem_filter, AList.mem_keys.symm] at hfh
    exact ⟨hfh.1, of_decide_eq_true hfh.2⟩

theorem counts_start (root : PathBuf) (host : H.World) : (start root host).Counts := by
  have hfirst : 2 ≤ (fuseRootId + 1).toNat := by decide
  have hroot : fuseRootId.toNat < (fuseRootId + 1).toNat := by decide
  refine ⟨.initial hfirst fun id hid => ?_, .initial (Nat.le_refl 1) fun fh hfh => ?_⟩
  · rw [List.mem_singleton.mp (AList.mem_keys.mp hid)]
    exact hroot
  · exact absurd hfh (AList.notMem_empty _)

theorem Counts.perform (h : s.Counts) (action : FolderAction) : (s.perform action).Counts := by
  cases action with
  | dispatch header body =>
    have houtcome := outcome_answered header body s.folder
    exact h.next houtcome.nodes houtcome.handles
  | forget header => exact h.next (.idle fun id hid => (AList.mem_erase.mp hid).2) (.idle fun _ => id)

theorem counts_of_reachable (h : (folderSystem H root).Reachable s) : s.Counts := by
  refine h.invariant (fun s hinit => ?_) fun s action s' hs hstep => ?_
  · obtain ⟨host, rfl⟩ := hinit
    exact counts_start root host
  · cases hstep
    exact hs.perform action

/-- **No number is given out twice.** In every run, the nodes and the files in the tables are below their
counters, the node numbers in replies are all different and none is that of the root, the handles in replies are
all different, and what has left a table does not stand in it again. -/
theorem numbers_never_reused (h : (folderSystem H root).Reachable s) :
    (∀ id, id ∈ s.folder.inodes → id < s.folder.nextInode) ∧ (∀ fh, fh ∈ s.folder.openFiles → fh < s.folder.nextFh) ∧
      s.nodes.Nodup ∧ fuseRootId ∉ s.nodes ∧ s.handles.Nodup ∧
      (∀ id ∈ s.forgotten, id ∉ s.folder.inodes) ∧ ∀ fh ∈ s.released, fh ∉ s.folder.openFiles := by
  obtain ⟨hnodes, hhandles⟩ := counts_of_reachable h
  refine ⟨fun id hid => UInt64.lt_iff_toNat_lt.mpr (hnodes.live_lt id hid),
    fun fh hfh => UInt64.lt_iff_toNat_lt.mpr (hhandles.live_lt fh hfh), hnodes.nodup, fun hroot => ?_, hhandles.nodup,
    hnodes.gone_not_live, hhandles.gone_not_live⟩
  exact absurd (hnodes.issued_ge fuseRootId hroot) (by decide)

/-- Two names looked up, the first of them opened as a directory, and then forgotten. -/
def lookedUp : FolderRun HostOs.directories :=
  ((((start [47] ()).perform (.dispatch (fuseRequest 1 1) [97, 0])).perform (.dispatch (fuseRequest 1 1) [98, 0])).perform
    (.dispatch (fuseRequest 27 2) [])).perform (.forget (fuseRequest 2 2))

theorem reachable_lookedUp : (folderSystem HostOs.directories [47]).Reachable lookedUp :=
  reachable_perform (reachable_perform (reachable_perform (reachable_perform (reachable_start _ _) _) _) _) _

/-- The nodes 2 and 3 and the handle 1 were given out, and node 2 is gone for good. -/
theorem looked_up_once : lookedUp.nodes = [2, 3] ∧ lookedUp.handles = [1] ∧ lookedUp.forgotten = [2] ∧
    lookedUp.nodes.Nodup ∧ ∀ id ∈ lookedUp.forgotten, id ∉ lookedUp.folder.inodes := by
  obtain ⟨_, _, hnodes, _, _, hforgotten, _⟩ := numbers_never_reused reachable_lookedUp
  exact ⟨by decide, by decide, by decide, hnodes, hforgotten⟩

/-! ### The root -/

/-- Nothing that the server is asked for forgets the root. -/
def KeepsRoot : FolderAction → Prop
  | .dispatch header body => FuseOpcode.ofNumber header.opcode = .batchForget → fuseRootId ∉ batchIds body
  | .forget header => header.nodeid ≠ fuseRootId

theorem knows_root_iff (h : s.Counts) (hknows : s.folder.Knows fuseRootId root) (action : FolderAction) :
    (s.perform action).folder.Knows fuseRootId root ↔ KeepsRoot action := by
  have hold : fuseRootId ≠ s.folder.nextInode := by
    intro heq
    have hlt := h.nodes.first_le
    rw [← heq] at hlt
    exact absurd hlt (by decide)
  cases action with
  | dispatch header body =>
    refine ⟨fun hknows' hop hforgot => ?_, fun hkeeps => (outcome_answered header body s.folder).knows hold hkeeps hknows⟩
    have hgone : fuseRootId ∉ (answered header body s.folder).2.inodes := by
      rw [answered_batchForget hop hforgot]
      exact fun hmem => (mem_forgetAll.mp hmem).2 hforgot
    exact hgone (AList.lookup_isSome.mp (Option.isSome_of_eq_some hknows'))
  | forget header =>
    refine ⟨fun hknows' heq => ?_, fun hne => (AList.lookup_erase_ne hne.symm).trans hknows⟩
    have hgone : (s.folder.inodes.erase header.nodeid).lookup fuseRootId = none := heq ▸ AList.lookup_erase _ _
    exact Option.some_ne_none _ (hknows'.symm.trans hgone)

/-- **The root is permanent as long as it is not forgotten.** In every run without a call that forgets it, the
server knows the root, and the next call keeps it exactly if it does not forget it. -/
theorem root_permanent_iff (h : (folderSystem H root).ReachedBy (fun _ action => KeepsRoot action) s) :
    s.folder.Knows fuseRootId root ∧
      ∀ action, (s.perform action).folder.Knows fuseRootId root ↔ KeepsRoot action := by
  have hinvariant : s.Counts ∧ s.folder.Knows fuseRootId root := by
    refine h.invariant (I := fun s => s.Counts ∧ s.folder.Knows fuseRootId root) (fun s hinit => ?_)
      fun s action s' hs hkeeps hstep => ?_
    · obtain ⟨host, rfl⟩ := hinit
      exact ⟨counts_start root host, rfl⟩
    · cases hstep
      exact ⟨hs.1.perform action, (knows_root_iff hs.1 hs.2 action).mpr hkeeps⟩
  exact ⟨hinvariant.2, knows_root_iff hinvariant.1 hinvariant.2⟩

/-- The root can be looked up after another node was forgotten. -/
theorem root_outlives_others :
    ((start [47] () : FolderRun HostOs.directories).perform (.forget (fuseRequest 2 7))).folder.Knows fuseRootId [47] := by
  have hreached : (folderSystem HostOs.directories [47]).ReachedBy (fun _ action => KeepsRoot action)
      ((start [47] () : FolderRun HostOs.directories).perform (.forget (fuseRequest 2 7))) := by
    refine .step (e := .forget (fuseRequest 2 7)) (.init ⟨(), rfl⟩) ?_ rfl
    show (7 : UInt64) ≠ 1
    decide
  exact (root_permanent_iff hreached).1

/-- One `FORGET` with the number of the root takes it away. -/
theorem root_is_forgotten : ¬∀ s, (folderSystem HostOs.directories [47]).Reachable s →
    s.folder.Knows fuseRootId [47] := by
  intro h
  have hreached : (folderSystem HostOs.directories [47]).Reachable
      ((start [47] () : FolderRun HostOs.directories).perform (.forget (fuseRequest 2 1))) :=
    reachable_perform (reachable_start _ _) _
  have hgone : ((start [47] () : FolderRun HostOs.directories).perform (.forget (fuseRequest 2 1))).folder.Lacks fuseRootId :=
    rfl
  exact Option.some_ne_none _ ((h _ hreached).symm.trans hgone)

end FolderRun

end FerrumVM
