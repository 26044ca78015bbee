import FerrumVM.FolderPaths

/-! RENAME and the nodes that the guest holds. The table of nodes has a path for each node, and a rename moves the
file on the host without a look at the table: a node at the old path, or beneath it, keeps a path at which its
file no longer is. The host is a tree of files. -/

namespace FerrumVM

open Base Program Path

/-! ### A tree of files -/

structure TreeNode where
  /-- The identity of the file, which a rename does not change. -/
  object : Nat
  metadata : Metadata

/-- What is at each place, given by the parts that lead there, the innermost first. Places of relative paths are
apart from those of absolute ones. -/
structure FileTree where
  node : Bool → List Bytes → Option TreeNode
  /-- The identity of the next file that is made. -/
  next : Nat

namespace FileTree

variable {w : FileTree} {old new path : PathBuf}

def find (w : FileTree) (path : PathBuf) : Option TreeNode := w.node (rooted path) (resolve path)

def make (w : FileTree) (path : PathBuf) (metadata : Metadata) : FileTree where
  node r place := if r = rooted path ∧ place = resolve path then some ⟨w.next, metadata⟩ else w.node r place
  next := w.next + 1

/-- The tree after a rename: what was at the old place, or beneath it, is at the new one, in place of what was
there. -/
def move (w : FileTree) (old new : PathBuf) : FileTree :=
  { w with
    node := fun r place =>
      if r = rooted new ∧ resolve new <:+ place then
        w.node (rooted old) (place.take (place.length - (resolve new).length) ++ resolve old)
      else if r = rooted old ∧ resolve old <:+ place then none
      else w.node r place }

def SamePlace (old new : PathBuf) : Prop := rooted old = rooted new ∧ resolve old = resolve new

theorem find_move_of_same (h : SamePlace old new) : (w.move old new).find path = w.find path := by
  unfold find move
  dsimp only
  split_ifs with hnew hold
  · obtain ⟨hrooted, below, hbelow⟩ := hnew
    rw [h.1, h.2, ← hrooted, ← hbelow, List.length_append, Nat.add_sub_cancel, List.take_left]
  · rw [h.1, h.2] at hold
    exact absurd hold hnew
  · rfl

end FileTree

def emptyFile : Metadata := { emptyDirectory with mode := 0o100644, nlink := 1, fileType := .file }

/-- A host whose files are a tree. It may refuse a rename for reasons of its own; it refuses to move what is not
there, and to move a directory into itself. Listing and removing are left out. -/
def HostOs.tree (allows : FileTree → PathBuf → PathBuf → Bool) : HostOs :=
  { HostOs.idle FileTree Nat with
    metadata := fun path (w : FileTree) =>
      match w.find path with
      | some node => (.ok node.metadata, w)
      | none => (.error .notFound, w)
    openFile := fun options path (w : FileTree) =>
      match w.find path with
      | some node => (if options.createNew then .error .alreadyExists else .ok node.object, w)
      | none =>
        if options.create || options.createNew then (.ok w.next, w.make path emptyFile)
        else (.error .notFound, w)
    rename := fun old new (w : FileTree) =>
      if (w.find old).isSome ∧ ¬(rooted new = rooted old ∧ resolve old <:+ resolve new ∧ resolve new ≠ resolve old) ∧
          allows w old new = true then (.ok (), w.move old new)
      else (.error .other, w) }

namespace SharedFolder

section AnyHost

variable {H : HostOs} {s t : SharedFolder H} {header : FuseInHeader} {body reply : Bytes}

theorem rename_eq_ok (hop : FuseOpcode.ofNumber header.opcode = .rename)
    (hrun : dispatch header body s = .ok (.ok reply) t) :
    ∃ old new, s.Names header.nodeid (oldName body) old ∧ s.Names (u64Field body 0) (newName body) new ∧
      s.Gives (H.rename old new) () ∧ t = s.called (H.rename old new) := by
  have hafter : After (handle header body) s fun r t => ∀ reply, r = some (.ok reply) →
      ∃ old new, s.Names header.nodeid (oldName body) old ∧ s.Names (u64Field body 0) (newName body) new ∧
        s.Gives (H.rename old new) () ∧ t = s.called (H.rename old new) := by
    unfold handle
    rw [hop]
    show After (rename header body) s _
    refine after_u64At.mpr ⟨nofun, fun _ => after_rest.mpr ⟨nofun, fun _ => ?_⟩⟩
    refine after_utf8.mpr ⟨nofun, fun hold => after_rest.mpr ⟨nofun, fun _ => ?_⟩⟩
    refine after_utf8.mpr ⟨nofun, fun hnew => after_nodePath.mpr ⟨nofun, fun oldParent holdParent => ?_⟩⟩
    refine after_nodePath.mpr ⟨nofun, fun newParent hnewParent => after_hostCall.mpr ⟨nofun, fun _ hgives => ?_⟩⟩
    exact fun _ _ => ⟨_, _, ⟨hold, oldParent, holdParent, rfl⟩, ⟨hnew, newParent, hnewParent, rfl⟩, hgives, rfl⟩
  have hends := (after_of_ok (x := handle header body) hrun).mp hafter
  exact hends reply rfl

end AnyHost

section Tree

variable {allows : FileTree → PathBuf → PathBuf → Bool} {s t : SharedFolder (HostOs.tree allows)} {old new : PathBuf}

def files (s : SharedFolder (HostOs.tree allows)) : FileTree := s.host

def addressed (s : SharedFolder (HostOs.tree allows)) (id : UInt64) : Option Nat :=
  (s.inodes.lookup id).bind fun path => (s.files.find path).map (·.object)

/-- The path leads to a place that lies so far beneath another. -/
def LiesAt (root : PathBuf) (below : List Bytes) (path : PathBuf) : Prop :=
  rooted path = rooted root ∧ resolve path = below ++ resolve root ∧ [dot, dot] ∉ below

/-- The nodes at the old path and beneath it have come along: they have the corresponding paths, and address the
files that they did. -/
structure ComeAlong (s t : SharedFolder (HostOs.tree allows)) (old new : PathBuf) : Prop where
  paths : ∀ id path below, s.Knows id path → LiesAt old below path → ∃ path', t.Knows id path' ∧ LiesAt new below path'
  files : ∀ id path, s.Knows id path → Beneath old path → t.addressed id = s.addressed id

theorem files_of_rename (hgives : s.Gives ((HostOs.tree allows).rename old new) ()) :
    (s.called ((HostOs.tree allows).rename old new)).files = s.files.move old new := by
  have hmoved (w : FileTree) (h : ((HostOs.tree allows).rename old new w).1 = .ok ()) :
      ((HostOs.tree allows).rename old new w).2 = w.move old new := by
    unfold HostOs.tree at h ⊢
    dsimp only at h ⊢
    split_ifs at h ⊢
    rfl
  exact hmoved s.files hgives

theorem comeAlong_iff (hgives : s.Gives ((HostOs.tree allows).rename old new) ())
    (ht : t = s.called ((HostOs.tree allows).rename old new)) :
    ComeAlong s t old new ↔ ∀ id path, s.Knows id path → Beneath old path → FileTree.SamePlace old new := by
  have htable : t.inodes = s.inodes := by
    rw [ht]
    rfl
  constructor
  · rintro h id path hknows ⟨hrooted, below, hbelow, hup⟩
    obtain ⟨path', hknows', hrooted', hbelow', _⟩ := h.paths id path below hknows ⟨hrooted, hbelow, hup⟩
    -- The path of the node is still the old one.
    unfold Knows at hknows'
    rw [htable, hknows] at hknows'
    cases hknows'
    exact ⟨hrooted.symm.trans hrooted', List.append_cancel_left (hbelow.symm.trans hbelow')⟩
  · intro h
    refine ⟨fun id path below hknows hlies => ?_, fun id path hknows hbeneath => ?_⟩
    · obtain ⟨hrooted, hbelow, hup⟩ := hlies
      have hsame := h id path hknows ⟨hrooted, below, hbelow, hup⟩
      refine ⟨path, ?_, hrooted.trans hsame.1, ?_, hup⟩
      · unfold Knows
        rw [htable]
        exact hknows
      · rw [hbelow, hsame.2]
    · have hsame := h id path hknows hbeneath
      have hfiles : t.files = s.files.move old new := by
        rw [ht]
        exact files_of_rename hgives
      unfold addressed
      rw [htable, hknows, hfiles, Option.bind_some, Option.bind_some, FileTree.find_move_of_same hsame]

/-- **RENAME and the nodes.** When a `RENAME` succeeds, the nodes at the old path and beneath it come along exactly
if there are none, or the new path is the old one. -/
theorem nodes_come_along_iff {header : FuseInHeader} {body reply : Bytes}
    (hop : FuseOpcode.ofNumber header.opcode = .rename) (hrun : dispatch header body s = .ok (.ok reply) t) :
    ∃ old new, s.Names header.nodeid (oldName body) old ∧ s.Names (u64Field body 0) (newName body) new ∧
      (ComeAlong s t old new ↔ ∀ id path, s.Knows id path → Beneath old path → FileTree.SamePlace old new) := by
  obtain ⟨old, new, hold, hnew, hgives, ht⟩ := rename_eq_ok hop hrun
  exact ⟨old, new, hold, hnew, comeAlong_iff hgives ht⟩

end Tree

/-! ### A file that is renamed -/

section Renamed

def smallTree : FileTree where
  node r place :=
    if r = true ∧ place = [[115]] then some ⟨0, emptyDirectory⟩
    else if r = true ∧ place = [[97], [115]] then some ⟨1, emptyFile⟩
    else none
  next := 2

/-- The server on that directory, before and after the file was looked up. -/
def served : SharedFolder (HostOs.tree fun _ _ _ => true) := new [47, 115] smallTree
def servedFile : SharedFolder (HostOs.tree fun _ _ _ => true) := (answered (fuseRequest 1 1) [97, 0] served).2

def renameBody : Bytes := [1, 0, 0, 0, 0, 0, 0, 0] ++ [97, 0] ++ [98, 0]

/-- Nobody holds a node of the file, so its rename is harmless. -/
theorem rename_without_nodes : ∃ old new t, dispatch (fuseRequest 12 1) renameBody served = .ok (.ok []) t ∧
    ComeAlong served t old new := by
  have hends : Program.ends (dispatch (fuseRequest 12 1) renameBody) served
      (fun r _ => decide (r.toOption = some [])) = true := by
    decide
  obtain ⟨r, hrun, hreply⟩ := eq_ok_of_ends hends
  cases r with
  | error e => exact absurd (of_decide_eq_true hreply) nofun
  | ok reply =>
    cases of_decide_eq_true hreply
    obtain ⟨old, new, ⟨_, parent, hparent, rfl⟩, _, hiff⟩ := nodes_come_along_iff rfl hrun
    refine ⟨_, new, _, hrun, hiff.mpr fun id path hknows hbeneath => ?_⟩
    cases knows_new hparent
    cases knows_new hknows
    obtain ⟨_, below, hbelow, _⟩ := hbeneath
    have hlength := congrArg List.length hbelow
    rw [List.length_append] at hlength
    have hroot : (resolve [47, 115]).length = 1 := by decide
    have hfile : (resolve (PathBuf.join [47, 115] (oldName renameBody))).length = 2 := by decide
    omega

/-- Node 2 is the file `a`. After the rename it is nothing, and once a new file is made at the old name it is that
file. -/
theorem renamed_node_is_stale : servedFile.addressed 2 = some 1 ∧
      (answered (fuseRequest 12 1) renameBody servedFile).2.addressed 2 = none ∧
      (answered (fuseRequest 8 1) ([0, 128, 0, 0] ++ List.replicate 12 0 ++ [97, 0])
        (answered (fuseRequest 12 1) renameBody servedFile).2).2.addressed 2 = some 2 ∧
      ¬∀ (header : FuseInHeader) (body : Bytes) (s t : SharedFolder (HostOs.tree fun _ _ _ => true)) (old new : PathBuf),
        FuseOpcode.ofNumber header.opcode = .rename → dispatch header body s = .ok (.ok []) t →
        s.Names header.nodeid (oldName body) old → s.Names (u64Field body 0) (newName body) new →
        ComeAlong s t old new := by
  have hbefore : servedFile.addressed 2 = some 1 := by decide
  have hends : Program.ends (dispatch (fuseRequest 12 1) renameBody) servedFile
      (fun r t => decide (r.toOption = some []) && decide (t.addressed 2 = none)) = true := by
    decide
  refine ⟨hbefore, by decide, by decide, fun h => ?_⟩
  obtain ⟨r, hrun, hcheck⟩ := eq_ok_of_ends hends
  rw [Bool.and_eq_true, decide_eq_true_eq, decide_eq_true_eq] at hcheck
  cases r with
  | error e => exact absurd hcheck.1 nofun
  | ok reply =>
    cases hcheck.1
    have hroot : servedFile.Knows 1 [47, 115] := by
      unfold Knows
      decide
    have hfile : servedFile.Knows 2 (PathBuf.join [47, 115] (oldName renameBody)) := by
      unfold Knows
      decide
    have hvalid : ValidName (oldName renameBody) ∧ ValidName (newName renameBody) := by
      unfold ValidName
      decide
    have hcome := h _ _ _ _ _ _ rfl hrun ⟨hvalid.1, _, hroot, rfl⟩ ⟨hvalid.2, _, hroot, rfl⟩
    have hkept := hcome.files 2 _ hfile (.refl _)
    rw [hcheck.2, hbefore] at hkept
    exact absurd hkept nofun

end Renamed

end SharedFolder

end FerrumVM
