import FerrumVM.FolderRuns

/-! The attributes that the FUSE server tells of a node. A host is wrapped so that it keeps the metadata it was last
asked for; a reply that enters a node and a reply about the attributes of a node are made from it, by two builders
that give different numbers to the node. -/

namespace FerrumVM

open Base Program

namespace HostOs

/-- A call of the host that is not about metadata. -/
def beside {W α : Type} (call : W → α × W) (w : W × Option Metadata) : α × (W × Option Metadata) :=
  ((call w.1).1, ((call w.1).2, w.2))

/-- A call of the host that keeps the metadata it gives. -/
def keep {W : Type} (call : W → Except IoErrorKind Metadata × W) (w : W × Option Metadata) :
    Except IoErrorKind Metadata × (W × Option Metadata) :=
  ((call w.1).1, ((call w.1).2, (call w.1).1.toOption))

/-- The host, with the metadata of the last path that it was asked about. -/
def watched (H : HostOs) : HostOs where
  World := H.World × Option Metadata
  File := H.File
  randBytes n := beside (H.randBytes n)
  seek file offset := beside (H.seek file offset)
  readExact file n := beside (H.readExact file n)
  read file n := beside (H.read file n)
  writeAll file data := beside (H.writeAll file data)
  setLen file size := beside (H.setLen file size)
  fsync file w := (H.fsync file w.1, w.2)
  openFile options path := beside (H.openFile options path)
  metadata path := keep (H.metadata path)
  symlinkMetadata path := keep (H.symlinkMetadata path)
  readDir path := beside (H.readDir path)
  createDir path := beside (H.createDir path)
  setPermissions path mode := beside (H.setPermissions path mode)
  symlink target path := beside (H.symlink target path)
  removeFile path := beside (H.removeFile path)
  removeDir path := beside (H.removeDir path)
  rename old new := beside (H.rename old new)
  readLink path := beside (H.readLink path)
  tapSend packet := beside (H.tapSend packet)
  tapRecv := beside H.tapRecv

end HostOs

/-- Operations whose reply enters a node with the metadata of a path. -/
def FuseOpcode.statsEntry : FuseOpcode → Bool
  | .lookup | .mknod | .mkdir | .create => true
  | _ => false

/-- Operations whose reply is about the attributes of a node. -/
def FuseOpcode.statsNode : FuseOpcode → Bool
  | .getattr | .setattr => true
  | _ => false

namespace SharedFolder

variable {H : HostOs} {s t : SharedFolder H.watched} {header : FuseInHeader} {body : Bytes}

def stated (s : SharedFolder H.watched) : Option Metadata := s.host.2

theorem stated_called {path : PathBuf} {m : Metadata} (h : s.Gives (H.watched.metadata path) m) :
    (s.called (H.watched.metadata path)).stated = some m := by
  have hgave : (H.metadata path s.host.1).1 = .ok m := h
  show (H.metadata path s.host.1).1.toOption = some m
  rw [hgave]
  rfl

/-! ### Replies that enter a node -/

/-- A request that succeeds answers with an entry for the node, made of the metadata that the host gave last. -/
def EntryTold (nodeid : UInt64) (r : Ending Bytes) (t : SharedFolder H.watched) : Prop :=
  ∀ payload, r = some (.ok payload) → ∃ m back, t.stated = some m ∧ payload = buildEntryOut nodeid m ++ back

theorem entryTold_lookup : After (lookup header body) s (EntryTold s.nextInode) := by
  unfold lookup
  simp only [after_utf8, after_childPath, after_hostCall, after_insertInode, after_pure]
  refine ⟨fun _ => nofun, fun _ => ⟨fun _ => nofun, fun parent _ => ⟨fun _ _ => nofun, fun m hgives => ?_⟩⟩⟩
  refine ⟨fun _ => nofun, fun _ payload hpayload => ?_⟩
  cases hpayload
  exact ⟨m, [], stated_called hgives, (List.append_nil _).symm⟩

/-- The end that `MKNOD` and `MKDIR` share: a node is entered and the host is asked about it. -/
theorem entryTold_enter (path : PathBuf) (host : H.watched.World) : After (do
    let nodeid ← insertInode path
    let m ← hostCall (H.watched.metadata path) eio
    return buildEntryOut nodeid m) { s with host } (EntryTold s.nextInode) := by
  simp only [after_hostCall, after_insertInode, after_pure]
  refine ⟨fun _ => nofun, fun _ => ⟨fun _ _ => nofun, fun m hgives payload hpayload => ?_⟩⟩
  cases hpayload
  exact ⟨m, [], stated_called hgives, (List.append_nil _).symm⟩

theorem entryTold_makeNode : After (makeNode header body) s (EntryTold s.nextInode) := by
  unfold makeNode
  simp only [after_u32At, after_nameAt, after_childPath, after_ite, after_hostCall]
  refine ⟨fun _ => nofun, fun _ => ⟨fun _ => nofun, fun _ => ⟨fun _ => nofun, fun _ => ⟨fun _ => nofun, ?_⟩⟩⟩⟩
  exact fun parent _ => ⟨fun _ => ⟨fun _ _ => nofun, fun _ _ => entryTold_enter _ _⟩,
    fun _ => ⟨fun _ _ => nofun, fun _ _ => entryTold_enter _ _⟩⟩

theorem entryTold_makeDirectory : After (makeDirectory header body) s (EntryTold s.nextInode) := by
  unfold makeDirectory
  simp only [after_u32At, after_nameAt, after_childPath, after_hostCall, after_hostTry]
  refine ⟨fun _ => nofun, fun _ => ⟨fun _ => nofun, fun _ => ⟨fun _ => nofun, fun _ => ⟨fun _ => nofun, ?_⟩⟩⟩⟩
  exact fun parent _ => ⟨fun _ _ => nofun, fun _ _ => entryTold_enter _ _⟩

theorem entryTold_create : After (create header body) s (EntryTold s.nextInode) := by
  unfold create
  simp only [after_u32At, after_nameAt, after_childPath, after_hostCall, after_insertInode, after_insertFile, after_pure]
  refine ⟨fun _ => nofun, fun _ => ⟨fun _ => nofun, fun _ => ⟨fun _ => nofun, fun _ => ⟨fun _ => nofun, ?_⟩⟩⟩⟩
  refine fun parent _ => ⟨fun _ _ => nofun, fun file _ => ⟨fun _ => nofun, fun _ => ⟨fun _ _ => nofun, ?_⟩⟩⟩
  refine fun m hgives => ⟨fun _ => nofun, fun _ payload hpayload => ?_⟩
  cases hpayload
  exact ⟨m, _, stated_called hgives, rfl⟩

theorem entryTold_handle (hop : (FuseOpcode.ofNumber header.opcode).statsEntry = true) :
    After (handle header body) s (EntryTold s.nextInode) := by
  unfold handle
  generalize FuseOpcode.ofNumber header.opcode = op at hop
  cases op with
  | lookup => exact entryTold_lookup
  | mknod => exact entryTold_makeNode
  | mkdir => exact entryTold_makeDirectory
  | create => exact entryTold_create
  | _ => cases hop

/-! ### Replies about the attributes of a node -/

/-- A request that succeeds answers with the attributes that the host gave last. -/
def AttrTold (r : Ending Bytes) (t : SharedFolder H.watched) : Prop :=
  ∀ payload, r = some (.ok payload) → ∃ m, t.stated = some m ∧ payload = buildAttrOut m

theorem attrTold_stat (path : PathBuf) :
    After (do return buildAttrOut (← hostCall (H.watched.metadata path) eio)) s AttrTold := by
  simp only [after_hostCall, after_pure]
  refine ⟨fun _ _ => nofun, fun m hgives payload hpayload => ?_⟩
  cases hpayload
  exact ⟨m, stated_called hgives, rfl⟩

theorem attrTold_getAttr : After (getAttr header) s AttrTold := by
  unfold getAttr
  rw [after_nodePath]
  exact ⟨fun _ => nofun, fun path _ => attrTold_stat path⟩

theorem attrTold_setAttr : After (setAttr header body) s AttrTold := by
  unfold setAttr
  rw [after_u32At]
  refine ⟨fun _ => nofun, fun _ => ?_⟩
  generalize u32Field body 0 = valid
  rw [after_nodePath]
  refine ⟨fun _ => nofun, fun path _ => ?_⟩
  have hmode (s : SharedFolder H.watched) : After (if valid &&& fattrMode ≠ 0 then do
        let mode ← exec (u32At body 68)
        hostTry (H.watched.setPermissions path (mode &&& 0o7777))
        let m ← hostCall (H.watched.metadata path) eio
        pure (buildAttrOut m)
      else do
        let m ← hostCall (H.watched.metadata path) eio
        pure (buildAttrOut m)) s AttrTold := by
    rw [after_ite, after_u32At]
    exact ⟨fun _ => ⟨fun _ => nofun, fun _ => after_hostTry.mpr (attrTold_stat path)⟩, fun _ => attrTold_stat path⟩
  rw [after_ite]
  refine ⟨fun _ => ?_, fun _ => hmode s⟩
  unfold truncateTo
  simp only [after_u64At, bind_assoc, after_hostCall]
  exact ⟨fun _ => nofun, fun _ => ⟨fun _ _ => nofun, fun file _ => ⟨fun _ _ => nofun, fun _ _ => hmode _⟩⟩⟩

theorem attrTold_handle (hop : (FuseOpcode.ofNumber header.opcode).statsNode = true) :
    After (handle header body) s AttrTold := by
  unfold handle
  generalize FuseOpcode.ofNumber header.opcode = op at hop
  cases op with
  | getattr => exact attrTold_getAttr
  | setattr => exact attrTold_setAttr
  | _ => cases hop

/-! ### The two blocks -/

theorem length_fuseAttrBytes (ino : UInt64) (m : Metadata) : (fuseAttrBytes ino m).length = 88 := by
  simp [fuseAttrBytes]

theorem attr_buildEntryOut (nodeid : UInt64) (m : Metadata) (back : Bytes) :
    window (buildEntryOut nodeid m ++ back) 40 88 = fuseAttrBytes nodeid m := by
  unfold buildEntryOut
  rw [List.append_assoc]
  exact window_append _ (by simp) _ (length_fuseAttrBytes nodeid m) back

theorem attr_buildAttrOut (m : Metadata) : window (buildAttrOut m) 16 88 = fuseAttrBytes 0 m := by
  rw [← List.append_nil (buildAttrOut m)]
  unfold buildAttrOut
  rw [List.append_assoc]
  exact window_append _ (by simp) _ (length_fuseAttrBytes 0 m) []

theorem fuseAttrBytes_inj {ino ino' : UInt64} {m : Metadata} :
    fuseAttrBytes ino m = fuseAttrBytes ino' m ↔ ino = ino' := by
  have hnumber (ino : UInt64) : u64Field (fuseAttrBytes ino m) 0 = ino := by
    unfold fuseAttrBytes
    simp only [List.append_assoc]
    exact u64Field_append [] rfl ino _
  constructor
  · intro h
    rw [← hnumber ino, h, hnumber]
  · intro h
    rw [h]

/-- **The attributes of a node agree exactly if its number is zero.** A reply that enters a node tells its number in
the attributes, and a reply about the attributes of that node tells the number zero, from the same metadata. -/
theorem attributes_agree_iff {s' t' : SharedFolder H.watched} {header' : FuseInHeader} {body' entry attrs : Bytes}
    (hentry : (FuseOpcode.ofNumber header.opcode).statsEntry = true)
    (hattrs : (FuseOpcode.ofNumber header'.opcode).statsNode = true)
    (hfirst : dispatch header body s = .ok (.ok entry) t) (hsecond : dispatch header' body' s' = .ok (.ok attrs) t')
    (hnode : header'.nodeid = u64Field entry 0) (hsame : t.stated = t'.stated) :
    window entry 40 88 = window attrs 16 88 ↔ header'.nodeid = 0 := by
  obtain ⟨m, back, hm, rfl⟩ := (after_of_ok hfirst).mp (entryTold_handle hentry) entry rfl
  obtain ⟨m', hm', rfl⟩ := (after_of_ok hsecond).mp (attrTold_handle hattrs) attrs rfl
  obtain rfl : m = m' := Option.some.inj (hm.symm.trans (hsame.trans hm'))
  rw [hnode, attr_buildEntryOut, attr_buildAttrOut, node_buildEntryOut, fuseAttrBytes_inj]

/-- The server before its first request, on a host on which every path is a directory. -/
def unasked : SharedFolder HostOs.directories.watched := new [47] ((), none)

/-- The server when it has entered a directory as node 2. -/
def asked : SharedFolder HostOs.directories.watched :=
  { unasked.entered [47, 97] with host := ((), some emptyDirectory) }

theorem lookup_of_unasked :
    dispatch (fuseRequest 1 1) [97, 0] unasked = .ok (.ok (buildEntryOut 2 emptyDirectory)) asked := rfl

theorem getAttr_of_asked : dispatch (fuseRequest 3 2) [] asked = .ok (.ok (buildAttrOut emptyDirectory)) asked := rfl

/-- The directory that is entered as node 2 is node 0 in its attributes. -/
theorem looked_up_as_two : window (buildEntryOut 2 emptyDirectory) 40 88 = window (buildAttrOut emptyDirectory) 16 88 ↔
    (2 : UInt64) = 0 :=
  attributes_agree_iff rfl rfl lookup_of_unasked getAttr_of_asked rfl rfl

/-- Right after a directory is entered, the attributes of its node are not the ones that the entry told. -/
theorem entry_and_attributes_disagree : ¬∀ s, (folderSystem HostOs.directories.watched [47]).Reachable s →
    ∀ header header' body body' entry attrs t t', (FuseOpcode.ofNumber header.opcode).statsEntry = true →
      (FuseOpcode.ofNumber header'.opcode).statsNode = true → dispatch header body s.folder = .ok (.ok entry) t →
      header'.nodeid = u64Field entry 0 → header'.nodeid ∈ t.inodes → dispatch header' body' t = .ok (.ok attrs) t' →
      t.stated = t'.stated → window entry 40 88 = window attrs 16 88 := by
  intro h
  have hagree := h _ (reachable_start [47] ((), none)) (fuseRequest 1 1) (fuseRequest 3 2) [97, 0] [] _ _ _ _ rfl rfl
    lookup_of_unasked rfl (by decide) getAttr_of_asked rfl
  exact absurd hagree (by decide)

end SharedFolder

end FerrumVM
