import FerrumVM.FolderRuns

/-! Requests that fail. Four handlers enter a node before they ask the host about it; if the host does not
answer then, the request fails and the node stays in the table. Every other failure leaves the tables as they
were. -/

namespace FerrumVM

open Base Program

namespace SharedFolder

variable {H : HostOs} {s t : SharedFolder H} {header : FuseInHeader} {body : Bytes}

/-- The tables, the counters and the version are the same; the host may differ. -/
structure SameTables (s t : SharedFolder H) : Prop where
  inodes : t.inodes = s.inodes
  nextInode : t.nextInode = s.nextInode
  openFiles : t.openFiles = s.openFiles
  nextFh : t.nextFh = s.nextFh
  protoMinor : t.protoMinor = s.protoMinor

def Intact (s : SharedFolder H) (r : Ending Bytes) (t : SharedFolder H) : Prop :=
  ∀ errno, r = some (.error errno) → SameTables s t

@[simp] theorem intact_panic : Intact s none t ↔ True := iff_true_intro nofun

@[simp] theorem intact_answer (reply : Bytes) : Intact s (some (.ok reply)) t ↔ True := iff_true_intro nofun

theorem intact_host (r : Ending Bytes) (host : H.World) : Intact s r { s with host } :=
  fun _ _ => ⟨rfl, rfl, rfl, rfl, rfl⟩

@[simp] theorem intact_same (r : Ending Bytes) : Intact s r s ↔ True := iff_true_intro (intact_host r s.host)

@[simp] theorem intact_called {α : Type} (r : Ending Bytes) (call : H.World → Except IoErrorKind α × H.World) :
    Intact s r (s.called call) ↔ True := iff_true_intro (intact_host r _)

theorem not_intact_entered (errno : Errno) (path : PathBuf) (host : H.World) (hleft : s.InodeLeft) :
    ¬Intact s (some (.error errno)) { s.entered path with host } := by
  intro h
  have hcounter := congrArg UInt64.toNat (h errno rfl).nextInode
  have hmoved : (s.nextInode + 1).toNat = s.nextInode.toNat + 1 := counter_moves hleft
  exact absurd (hmoved.symm.trans hcounter) (Nat.succ_ne_self _)

def Succeeds {α : Type} (s : SharedFolder H) (call : H.World → Except IoErrorKind α × H.World) : Prop :=
  ∃ a, s.Gives call a

theorem not_fails_iff {α : Type} {call : H.World → Except IoErrorKind α × H.World} :
    (∀ kind, ¬s.Fails call kind) ↔ s.Succeeds call := by
  unfold Fails Succeeds Gives
  cases (call s.host).1 with
  | ok a => simp
  | error kind => simp

theorem intact_enter {path : PathBuf} {call : H.World → Except IoErrorKind Metadata × H.World}
    {f : UInt64 → Metadata → Handler H Bytes} (hmoved : HostMoved s t)
    (hf : ∀ nodeid m t, After (f nodeid m) t (Intact s)) : After (do
      let nodeid ← insertInode path
      let m ← hostCall call eio
      f nodeid m) t (Intact s) ↔ (s.InodeLeft → t.Succeeds call) := by
  obtain ⟨host, rfl⟩ := hmoved
  simp only [after_insertInode, after_hostCall, hf, intact_panic, implies_true, and_true, true_and]
  refine imp_congr_right fun hleft => Iff.trans ?_ (not_fails_iff (s := { s with host }))
  refine forall_congr' fun kind => ⟨fun h hfails => ?_, fun h hfails => absurd hfails h⟩
  exact not_intact_entered (s := s) (eio kind) path _ hleft (h hfails)

/-! ### The four handlers -/

theorem intact_makeNode : After (makeNode header body) s (Intact s) ↔
    (16 ≤ body.length → ∀ path, s.Names header.nodeid (untilNul (body.drop 16)) path → ∀ file,
      s.Gives (H.openFile (nodeOptions (u32Field body 0)) path) file → s.InodeLeft →
        (s.called (H.openFile (nodeOptions (u32Field body 0)) path)).Succeeds (H.metadata path)) := by
  unfold makeNode
  simp only [after_u32At, after_nameAt, after_childPath, after_ite, after_hostCall, intact_enter, hostMoved_called,
    after_pure, intact_answer, intact_same, intact_called, implies_true, true_and, forall_names,
    Nat.zero_add]
  constructor
  · intro h hlen hvalid parent hknows
    have hmode := h (by omega) hlen hvalid parent hknows
    unfold nodeOptions
    split_ifs with hfile
    · exact hmode.1 hfile
    · exact hmode.2 hfile
  · intro h _ hlen hvalid parent hknows
    have hmode := h hlen hvalid parent hknows
    unfold nodeOptions at hmode
    refine ⟨fun hfile => ?_, fun hfile => ?_⟩
    · rwa [if_pos hfile] at hmode
    · rwa [if_neg hfile] at hmode

def madeDirectory (s : SharedFolder H) (path : PathBuf) (mode : UInt32) : SharedFolder H :=
  (s.called (H.createDir path)).called (H.setPermissions path (mode &&& 0o7777))

theorem intact_makeDirectory : After (makeDirectory header body) s (Intact s) ↔
    (8 ≤ body.length → ∀ path, s.Names header.nodeid (untilNul (body.drop 8)) path → s.Gives (H.createDir path) () →
      s.InodeLeft → (s.madeDirectory path (u32Field body 0)).Succeeds (H.metadata path)) := by
  have hmoved (path : PathBuf) (mode : UInt32) :
      HostMoved s ((s.called (H.createDir path)).called (H.setPermissions path mode)) := ⟨_, rfl⟩
  unfold makeDirectory
  simp only [after_u32At, after_nameAt, after_childPath, after_hostCall, after_hostTry, intact_enter, hmoved,
    after_pure, intact_answer, intact_same, intact_called, implies_true, true_and, forall_names,
    forall_unit, Nat.zero_add]
  exact ⟨fun h hlen => h (by omega) hlen, fun h _ => h⟩

theorem intact_makeSymlink : After (makeSymlink header body) s (Intact s) ↔
    (0 ∈ body → ∀ path, s.Names header.nodeid (untilNul body) path →
      ValidName (untilNul (body.drop ((untilNul body).length + 1))) →
      s.Gives (H.symlink (untilNul (body.drop ((untilNul body).length + 1))) path) () → s.InodeLeft →
        (s.called (H.symlink (untilNul (body.drop ((untilNul body).length + 1))) path)).Succeeds
          (H.symlinkMetadata path)) := by
  unfold makeSymlink
  simp only [after_rest, after_utf8, after_childPath, after_hostCall, intact_enter, hostMoved_called, after_pure,
    intact_answer, intact_same, intact_called, implies_true, true_and, forall_names, forall_unit,
    untilNul_lt_iff]
  refine imp_congr_right fun _ => ⟨?_, ?_⟩
  · exact fun h hname parent hparent htarget => h hname htarget parent hparent
  · exact fun h hname htarget parent hparent => h hname parent hparent htarget

theorem intact_create : After (create header body) s (Intact s) ↔
    (16 ≤ body.length → ∀ path, s.Names header.nodeid (untilNul (body.drop 16)) path → ∀ file,
      s.Gives (H.openFile (createOptions (u32Field body 0)) path) file → s.InodeLeft →
        (s.called (H.openFile (createOptions (u32Field body 0)) path)).Succeeds (H.metadata path)) := by
  unfold create
  simp only [after_u32At, after_nameAt, after_childPath, after_hostCall, intact_enter, hostMoved_called,
    after_insertFile, after_pure, intact_answer, intact_panic, intact_same, intact_called, implies_true, true_and,
    and_true, forall_names, Nat.zero_add]
  exact ⟨fun h hlen => h (by omega) hlen, fun h _ => h⟩

/-! ### All requests -/

/-- If the request comes to enter a node, the host then tells about the file. -/
@[irreducible] def Completes (header : FuseInHeader) (body : Bytes) (s : SharedFolder H) : Prop :=
  match FuseOpcode.ofNumber header.opcode with
  | .mknod => 16 ≤ body.length → ∀ path, s.Names header.nodeid (untilNul (body.drop 16)) path → ∀ file,
      s.Gives (H.openFile (nodeOptions (u32Field body 0)) path) file → s.InodeLeft →
        (s.called (H.openFile (nodeOptions (u32Field body 0)) path)).Succeeds (H.metadata path)
  | .mkdir => 8 ≤ body.length → ∀ path, s.Names header.nodeid (untilNul (body.drop 8)) path →
      s.Gives (H.createDir path) () → s.InodeLeft →
        (s.madeDirectory path (u32Field body 0)).Succeeds (H.metadata path)
  | .symlink => 0 ∈ body → ∀ path, s.Names header.nodeid (untilNul body) path →
      ValidName (untilNul (body.drop ((untilNul body).length + 1))) →
      s.Gives (H.symlink (untilNul (body.drop ((untilNul body).length + 1))) path) () → s.InodeLeft →
        (s.called (H.symlink (untilNul (body.drop ((untilNul body).length + 1))) path)).Succeeds (H.symlinkMetadata path)
  | .create => 16 ≤ body.length → ∀ path, s.Names header.nodeid (untilNul (body.drop 16)) path → ∀ file,
      s.Gives (H.openFile (createOptions (u32Field body 0)) path) file → s.InodeLeft →
        (s.called (H.openFile (createOptions (u32Field body 0)) path)).Succeeds (H.metadata path)
  | _ => True

theorem Outcome.intact {op : FuseOpcode} {r : Ending Bytes} (h : Outcome op body s r t)
    (hop : op.entersNode = false ∨ op = .lookup) : Intact s r t := by
  cases h with
  | kept host _ => exact intact_host _ _
  | unreported path host hmakes hleft hr =>
    rcases hop with hop | hop
    · exact absurd (hmakes.1.symm.trans hop) nofun
    · exact absurd hop hmakes.2
  | negotiated | entered | created | opened | openedDir | released | forgot => exact nofun

theorem intact_handle_iff : After (handle header body) s (Intact s) ↔ Completes header body s := by
  have hquiet {op : FuseOpcode} (heq : FuseOpcode.ofNumber header.opcode = op)
      (hop : op.entersNode = false ∨ op = .lookup) : After (handle header body) s (Intact s) := by
    refine after_handle.mpr ((outcome_answered header body s).intact ?_)
    rwa [heq]
  cases heq : FuseOpcode.ofNumber header.opcode with
  | mknod =>
    unfold handle Completes
    rw [heq]
    exact intact_makeNode
  | mkdir =>
    unfold handle Completes
    rw [heq]
    exact intact_makeDirectory
  | symlink =>
    unfold handle Completes
    rw [heq]
    exact intact_makeSymlink
  | create =>
    unfold handle Completes
    rw [heq]
    exact intact_create
  | lookup =>
    refine iff_of_true (hquiet heq (Or.inr rfl)) ?_
    unfold Completes
    rw [heq]
    trivial
  | _ =>
    refine iff_of_true (hquiet heq (Or.inl rfl)) ?_
    unfold Completes
    rw [heq]
    trivial

/-- **A failed request leaves the tables as they were** exactly if it is not one that made a file, a directory or a
link on the host and then could not stat it. -/
theorem failed_requests_intact_iff (header : FuseInHeader) (body : Bytes) (s : SharedFolder H) :
    (∀ errno t, dispatch header body s = .ok (.error errno) t → SameTables s t) ↔ Completes header body s := by
  refine Iff.trans ?_ intact_handle_iff
  unfold After wp Intact dispatch
  cases (handle header body).run s with
  | ok r t =>
    constructor
    · rintro h errno ⟨⟩
      exact h errno t rfl
    · rintro h errno _ ⟨⟩
      exact h errno rfl
  | error e t => exact iff_of_true nofun nofun

end SharedFolder

/-- A host on which directories can be made, but are gone when they are looked at. -/
def HostOs.forgetful : HostOs := { HostOs.idle Unit Unit with createDir := fun _ host => (.ok (), host) }

/-- A `MKDIR` that fails with EIO has entered node 2. -/
theorem failed_mkdir_enters_node :
    ¬∀ (header : FuseInHeader) (body : Bytes) (s t : SharedFolder HostOs.forgetful) (errno : Errno),
      SharedFolder.dispatch header body s = .ok (.error errno) t → SharedFolder.SameTables s t := by
  intro h
  have hrun : Program.ends (SharedFolder.dispatch (fuseRequest 9 1) [0, 0, 0, 0, 0, 0, 0, 0, 97, 0])
      (SharedFolder.new [47] () : SharedFolder HostOs.forgetful)
      (fun r t => decide (r.toOption = none) && decide (t.nextInode = 3)) = true := by
    decide
  obtain ⟨r, hdispatch, hcheck⟩ := eq_ok_of_ends hrun
  rw [Bool.and_eq_true, decide_eq_true_eq, decide_eq_true_eq] at hcheck
  cases r with
  | ok reply => exact absurd hcheck.1 nofun
  | error errno =>
    have hsame := (h _ _ _ _ errno hdispatch).nextInode
    exact absurd (hcheck.2.symm.trans hsame) (by decide)

end FerrumVM
