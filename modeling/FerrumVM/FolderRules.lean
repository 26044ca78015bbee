import FerrumVM.SharedFolder
import Mathlib.Order.Defs.Unbundled

/-! What a handler of the FUSE server leaves behind. A request ends with bytes, with an error number or with
a panic, and each of these ends leaves a state. The rules say what the end of a handler that starts with a
certain step is like. -/

namespace FerrumVM

open Base Program

namespace SharedFolder

variable {H : HostOs} {α β : Type} {s : SharedFolder H}

def called (s : SharedFolder H) (call : H.World → Except IoErrorKind α × H.World) : SharedFolder H :=
  { s with host := (call s.host).2 }

def Gives (s : SharedFolder H) (call : H.World → Except IoErrorKind α × H.World) (a : α) : Prop :=
  (call s.host).1 = .ok a

/-- How a handler ends: `none` is a panic. -/
abbrev Ending (α : Type) := Option (Except Errno α)

/-- The ending of the handler and the state it leaves are related as said. -/
def After (x : Handler H α) (s : SharedFolder H) (P : Ending α → SharedFolder H → Prop) : Prop :=
  wp x.run (fun r t => P (some r) t) (fun _ t => P none t) s

def Fails (s : SharedFolder H) (call : H.World → Except IoErrorKind α × H.World) (kind : IoErrorKind) : Prop :=
  (call s.host).1 = .error kind

section Rules

variable {P : Ending β → SharedFolder H → Prop} {x : Handler H α} {f : α → Handler H β}
  {call : H.World → Except IoErrorKind α × H.World} {body : Bytes} {start : Nat}

theorem after_of_ok {x : Handler H β} {r : Except Errno β} {t : SharedFolder H} (h : x.run s = .ok r t) :
    After x s P ↔ P (some r) t := by
  unfold After wp
  rw [h]

theorem after_bind : After (x >>= f) s P ↔ After x s fun r t =>
      match r with
      | some (.ok a) => After (f a) t P
      | some (.error e) => P (some (.error e)) t
      | none => P none t := by
  unfold After
  rw [ExceptT.run_bind, wp_bind]
  unfold wp
  cases x.run s with
  | ok r t =>
    cases r with
    | ok a => rfl
    | error e => rfl
  | error e t => rfl

theorem after_pure (a : β) : After (pure a : Handler H β) s P ↔ P (some (.ok a)) s := Iff.rfl

theorem after_throw (e : Errno) : After (throw e : Handler H β) s P ↔ P (some (.error e)) s := Iff.rfl

theorem after_ite {p : Prop} [Decidable p] {x y : Handler H β} :
    After (if p then x else y) s P ↔ (p → After x s P) ∧ (¬p → After y s P) := by
  split_ifs with h <;> simp [h]

theorem after_step {a : α} {t : SharedFolder H} (h : x.run s = .ok (.ok a) t) : After (x >>= f) s P ↔ After (f a) t P := by
  rw [after_bind, after_of_ok h]

theorem after_exec {x : Exec α} :
    After (exec x >>= f) s P ↔ (∀ e, x = .error e → P none s) ∧ ∀ a, x = .ok a → After (f a) s P := by
  cases x with
  | ok a => exact (after_step rfl).trans (by simp)
  | error e =>
    refine after_bind.trans ?_
    show P none s ↔ _
    simp

theorem after_okOr {x : Option α} {errno : Errno} : After (okOr x errno >>= f) s P ↔
      (x = none → P (some (.error errno)) s) ∧ ∀ a, x = some a → After (f a) s P := by
  cases x with
  | none =>
    refine after_bind.trans ?_
    show P (some (.error errno)) s ↔ _
    simp
  | some a => exact (after_step rfl).trans (by simp)

theorem after_hostCall {errno : IoErrorKind → Errno} : After (hostCall call errno >>= f) s P ↔
      (∀ kind, s.Fails call kind → P (some (.error (errno kind))) (s.called call)) ∧
        ∀ a, s.Gives call a → After (f a) (s.called call) P := by
  have hrun : (hostCall call errno).run s = .ok ((call s.host).1.mapError errno) (s.called call) := rfl
  rw [after_bind, after_of_ok hrun]
  unfold Fails Gives
  cases (call s.host).1 with
  | ok a => simp [Except.mapError]
  | error kind => simp [Except.mapError]

theorem after_hostTry {f : Unit → Handler H β} : After (hostTry call >>= f) s P ↔ After (f ()) (s.called call) P :=
  after_step rfl

theorem after_get {f : SharedFolder H → Handler H β} : After (get >>= f) s P ↔ After (f s) s P :=
  after_step rfl

theorem after_modify {g : SharedFolder H → SharedFolder H} {f : PUnit → Handler H β} :
    After (modify g >>= f) s P ↔ After (f ⟨⟩) (g s) P :=
  after_step rfl

def ValidName (name : Bytes) : Prop := (ByteArray.mk name.toArray).validateUTF8 = true

theorem after_utf8 {name : Bytes} {f : Bytes → Handler H β} : After (utf8 name >>= f) s P ↔
      (¬ValidName name → P (some (.error Libc.EIO)) s) ∧ (ValidName name → After (f name) s P) := by
  unfold utf8 ValidName
  split_ifs with h
  · exact (after_step (a := name) rfl).trans (by simp [h])
  · refine after_bind.trans ?_
    show P (some (.error Libc.EIO)) s ↔ _
    simp [h]

def Knows (s : SharedFolder H) (nodeid : UInt64) (path : PathBuf) : Prop := s.inodes.lookup nodeid = some path

def Lacks (s : SharedFolder H) (nodeid : UInt64) : Prop := s.inodes.lookup nodeid = none

theorem after_nodePath {nodeid : UInt64} {errno : Errno} {f : PathBuf → Handler H β} :
    After (nodePath nodeid errno >>= f) s P ↔
      (s.Lacks nodeid → P (some (.error errno)) s) ∧ ∀ path, s.Knows nodeid path → After (f path) s P := by
  unfold nodePath
  rw [bind_assoc, after_get, after_okOr]
  rfl

theorem after_childPath {nodeid : UInt64} {name : Bytes} {f : PathBuf → Handler H β} :
    After (childPath nodeid name >>= f) s P ↔ (s.Lacks nodeid → P (some (.error Libc.ENOENT)) s) ∧
        ∀ parent, s.Knows nodeid parent → After (f (parent.join name)) s P := by
  unfold childPath
  rw [bind_assoc, after_nodePath]
  simp only [pure_bind]

/-- There is a node number, or a file handle, left to give out. -/
def InodeLeft (s : SharedFolder H) : Prop := s.nextInode.toNat + 1 < 2 ^ 64
def FhLeft (s : SharedFolder H) : Prop := s.nextFh.toNat + 1 < 2 ^ 64

theorem addU64_one_iff {a : UInt64} {P : UInt64 → Prop} :
    (∃ b, addU64 a 1 = .ok b ∧ P b) ↔ a.toNat + 1 < 2 ^ 64 ∧ P (a + 1) := by
  constructor
  · rintro ⟨b, hadd, hP⟩
    obtain ⟨hlt, rfl⟩ := addU64_eq_ok_add.mp hadd
    exact ⟨hlt, hP⟩
  · rintro ⟨hlt, hP⟩
    exact ⟨a + 1, addU64_of_lt hlt, hP⟩

theorem after_exec_of {x : Exec α} {p : Prop} {a : α} (h : ∀ Q : α → Prop, (∃ b, x = .ok b ∧ Q b) ↔ p ∧ Q a) :
    After (exec x >>= f) s P ↔ (¬p → P none s) ∧ (p → After (f a) s P) := by
  rw [after_exec]
  cases hx : x with
  | ok b =>
    obtain ⟨hp, rfl⟩ := (h (b = ·)).mp ⟨b, hx, rfl⟩
    simp [hp]
  | error e =>
    have hp : ¬p := fun hp => by simpa [hx] using (h fun _ => True).mpr ⟨hp, trivial⟩
    simp [hp]

def entered (s : SharedFolder H) (path : PathBuf) : SharedFolder H :=
  { s with nextInode := s.nextInode + 1, inodes := s.inodes.insert s.nextInode path }

variable {f : UInt64 → Handler H β}

theorem after_insertInode {path : PathBuf} : After (insertInode path >>= f) s P ↔
      (¬s.InodeLeft → P none s) ∧ (s.InodeLeft → After (f s.nextInode) (s.entered path) P) := by
  unfold insertInode
  rw [bind_assoc, after_get, bind_assoc, after_exec_of fun _ => addU64_one_iff]
  refine and_congr_right fun _ => imp_congr_right fun _ => ?_
  rw [bind_assoc]
  exact after_step rfl

theorem after_takeFh : After (takeFh >>= f) s P ↔
      (¬s.FhLeft → P none s) ∧ (s.FhLeft → After (f s.nextFh) { s with nextFh := s.nextFh + 1 } P) := by
  unfold takeFh
  rw [bind_assoc, after_get, bind_assoc, after_exec_of fun _ => addU64_one_iff]
  refine and_congr_right fun _ => imp_congr_right fun _ => ?_
  rw [bind_assoc]
  exact after_step rfl

def filed (s : SharedFolder H) (file : H.File) : SharedFolder H :=
  { s with nextFh := s.nextFh + 1, openFiles := s.openFiles.insert s.nextFh file }

theorem after_insertFile {file : H.File} : After (insertFile file >>= f) s P ↔
      (¬s.FhLeft → P none s) ∧ (s.FhLeft → After (f s.nextFh) (s.filed file) P) := by
  unfold insertFile
  rw [bind_assoc, after_takeFh]
  refine and_congr_right fun _ => imp_congr_right fun _ => ?_
  rw [bind_assoc]
  exact after_modify

/-! ### Slices of the body -/

/-- The number that a body of enough bytes has at an offset. -/
def u32Field (body : Bytes) (start : Nat) : UInt32 := u32FromLe ((body.drop start).take 4)
def u64Field (body : Bytes) (start : Nat) : UInt64 := u64FromLe ((body.drop start).take 8)

theorem u32Field_append (front : Bytes) {start : Nat} (h : front.length = start) (v : UInt32) (back : Bytes) :
    u32Field (front ++ (u32ToLe v ++ back)) start = v := by
  unfold u32Field
  rw [← h, List.drop_left, List.take_left' (length_u32ToLe v), u32FromLe_toLe]

theorem u64Field_append (front : Bytes) {start : Nat} (h : front.length = start) (v : UInt64) (back : Bytes) :
    u64Field (front ++ (u64ToLe v ++ back)) start = v := by
  unfold u64Field
  rw [← h, List.drop_left, List.take_left' (length_u64ToLe v), u64FromLe_toLe]

theorem fieldAt_iff {n : Nat} {g : Bytes → α} {P : α → Prop} :
    (∃ a, (do return g (← slice body start (start + n)) : Exec α) = .ok a ∧ P a) ↔
      start + n ≤ body.length ∧ P (g ((body.drop start).take n)) := by
  simp only [Exec.bind_eq_ok, Exec.pure_eq, Except.ok.injEq]
  constructor
  · rintro ⟨_, ⟨part, hslice, rfl⟩, hP⟩
    obtain ⟨_, hstop, rfl⟩ := slice_eq_ok.mp hslice
    rw [Nat.add_sub_cancel_left] at hP
    exact ⟨hstop, hP⟩
  · rintro ⟨hstop, hP⟩
    refine ⟨_, ⟨_, slice_eq_ok.mpr ⟨Nat.le_add_right _ _, hstop, rfl⟩, rfl⟩, ?_⟩
    rw [Nat.add_sub_cancel_left]
    exact hP

theorem after_u32At {f : UInt32 → Handler H β} : After (exec (u32At body start) >>= f) s P ↔
      (¬start + 4 ≤ body.length → P none s) ∧ (start + 4 ≤ body.length → After (f (u32Field body start)) s P) :=
  after_exec_of fun _ => fieldAt_iff

theorem after_u64At : After (exec (u64At body start) >>= f) s P ↔
      (¬start + 8 ≤ body.length → P none s) ∧ (start + 8 ≤ body.length → After (f (u64Field body start)) s P) :=
  after_exec_of fun _ => fieldAt_iff

theorem rest_iff {P : Bytes → Prop} :
    (∃ rest, slice body start body.length = .ok rest ∧ P rest) ↔ start ≤ body.length ∧ P (body.drop start) := by
  constructor
  · rintro ⟨rest, hslice, hP⟩
    obtain ⟨hstart, _, rfl⟩ := slice_eq_ok.mp hslice
    rw [List.take_of_length_le (by simp)] at hP
    exact ⟨hstart, hP⟩
  · rintro ⟨hstart, hP⟩
    refine ⟨_, slice_eq_ok.mpr ⟨hstart, Nat.le_refl _, rfl⟩, ?_⟩
    rw [List.take_of_length_le (by simp)]
    exact hP

theorem after_rest {f : Bytes → Handler H β} : After (exec (slice body start body.length) >>= f) s P ↔
      (¬start ≤ body.length → P none s) ∧ (start ≤ body.length → After (f (body.drop start)) s P) :=
  after_exec_of fun _ => rest_iff

theorem after_nameAt {f : Bytes → Handler H β} :
    After (nameAt body start >>= f) s P ↔ (¬start ≤ body.length → P none s) ∧ (start ≤ body.length →
      (¬ValidName (untilNul (body.drop start)) → P (some (.error Libc.EIO)) s) ∧
        (ValidName (untilNul (body.drop start)) → After (f (untilNul (body.drop start))) s P)) := by
  unfold nameAt
  rw [bind_assoc, after_rest, after_utf8]

/-! ### Forgetting -/

/-- The nodes in the entries of a `BATCH_FORGET`, from entry `i` on, as far as the body goes. -/
def idsFrom (body : Bytes) : (remaining i : Nat) → List UInt64
  | 0, _ => []
  | remaining + 1, i =>
    if body.length < 8 + i * 16 + 8 then [] else u64Field body (8 + i * 16) :: idsFrom body remaining (i + 1)

def batchIds (body : Bytes) : List UInt64 := idsFrom body (u32Field body 0).toNat 0

def forgetAll (s : SharedFolder H) (ids : List UInt64) : SharedFolder H :=
  { s with inodes := ids.foldl (fun inodes id => inodes.erase id) s.inodes }

theorem run_forgetEntries (remaining i : Nat) :
    (forgetEntries body remaining i).run s = .ok (.ok ()) (s.forgetAll (idsFrom body remaining i)) := by
  induction remaining generalizing i s with
  | zero => rfl
  | succ remaining ih =>
    unfold forgetEntries idsFrom
    by_cases hlen : body.length < 8 + i * 16 + 8
    · rw [if_pos hlen, if_pos hlen]
      rfl
    · rw [if_neg hlen, if_neg hlen]
      obtain ⟨nodeid, hread, rfl⟩ : ∃ nodeid, u64At body (8 + i * 16) = .ok nodeid ∧ nodeid = u64Field body (8 + i * 16) :=
        fieldAt_iff.mpr ⟨Nat.not_lt.mp hlen, rfl⟩
      rw [hread]
      exact ih (s := { s with inodes := s.inodes.erase (u64Field body (8 + i * 16)) }) (i + 1)

end Rules

/-! ### Handlers as moves of the state -/

/-- However the handler ends, the state in which it starts and the one that it leaves are related. -/
def Moves (R : SharedFolder H → SharedFolder H → Prop) (x : Handler H α) : Prop := ∀ s, After x s fun _ t => R s t

namespace Moves

variable {R : SharedFolder H → SharedFolder H → Prop}

theorem after {P : Ending α → SharedFolder H → Prop} {x : Handler H α} (h : Moves R x)
    (hP : ∀ r t, R s t → P r t) : After x s P :=
  wp_mono (fun _ t ht => hP _ t ht) (fun _ t ht => hP _ t ht) (h s)

theorem hostCall {call : H.World → Except IoErrorKind α × H.World} (errno : IoErrorKind → Errno)
    (h : ∀ s, R s (s.called call)) : Moves R (hostCall call errno) := h

theorem hostTry {call : H.World → Except IoErrorKind α × H.World} (h : ∀ s, R s (s.called call)) :
    Moves R (hostTry call) := h

theorem modify {g : SharedFolder H → SharedFolder H} (h : ∀ s, R s (g s)) : Moves R (modify g : Handler H PUnit) := h

theorem ite {p : Prop} [Decidable p] {x y : Handler H α} (hx : Moves R x) (hy : Moves R y) :
    Moves R (if p then x else y) := by
  split_ifs
  · exact hx
  · exact hy

variable [IsPreorder (SharedFolder H) R]

theorem pure (a : α) : Moves R (pure a : Handler H α) := fun s => refl_of R s

theorem throw (e : Errno) : Moves R (throw e : Handler H α) := fun s => refl_of R s

theorem get : Moves R (get : Handler H (SharedFolder H)) := fun s => refl_of R s

theorem exec (x : Exec α) : Moves R (exec x : Handler H α) := by
  intro s
  cases x with
  | ok a => exact refl_of R s
  | error e => exact refl_of R s

theorem okOr (x : Option α) (errno : Errno) : Moves R (okOr x errno : Handler H α) := by
  cases x with
  | none => exact .throw _
  | some a => exact .pure _

theorem utf8 (name : Bytes) : Moves R (utf8 name : Handler H Bytes) := .ite (.pure _) (.throw _)

theorem bind {x : Handler H α} {f : α → Handler H β} (hx : Moves R x) (hf : ∀ a, Moves R (f a)) :
    Moves R (x >>= f) := by
  intro s
  refine after_bind.mpr (hx.after fun r t hst => ?_)
  match r with
  | some (.ok a) => exact (hf a).after fun _ u htu => trans_of R hst htu
  | some (.error e) => exact hst
  | none => exact hst

theorem nodePath (nodeid : UInt64) (errno : Errno) : Moves R (nodePath nodeid errno : Handler H PathBuf) :=
  .bind .get fun _ => .okOr _ _

theorem childPath (nodeid : UInt64) (name : Bytes) : Moves R (childPath nodeid name : Handler H PathBuf) :=
  .bind (.nodePath _ _) fun _ => .pure _

theorem readDirLoop (offset : UInt64) (maxSize : UInt32) (entries : List DirEntry) (pos : Nat) (out : Bytes) :
    Moves R (readDirLoop offset maxSize entries pos out : Handler H Bytes) := by
  induction entries generalizing pos out with
  | nil => exact .pure _
  | cons entry entries ih =>
    refine .ite (ih _ _) ?_
    cases entry.metadata with
    | error e => exact .throw _
    | ok m => exact .ite (.pure _) (ih _ _)

end Moves

/-! ### Handlers that leave the tables alone -/

def HostMoved (s t : SharedFolder H) : Prop := ∃ host, t = { s with host }

instance : IsPreorder (SharedFolder H) HostMoved where
  refl s := ⟨s.host, rfl⟩
  trans := by
    rintro s _ _ ⟨host, rfl⟩ ⟨host', rfl⟩
    exact ⟨host', rfl⟩

theorem hostMoved_called (call : H.World → Except IoErrorKind α × H.World) (s : SharedFolder H) :
    HostMoved s (s.called call) := ⟨_, rfl⟩

section HostOnly

variable (header : FuseInHeader) (body : Bytes)

theorem hostMoves_call (call : H.World → Except IoErrorKind α × H.World) (errno : IoErrorKind → Errno) :
    Moves HostMoved (hostCall call errno) := .hostCall errno (hostMoved_called call)

theorem hostMoves_getAttr : Moves HostMoved (getAttr header : Handler H Bytes) :=
  .bind (.nodePath _ _) fun _ => .bind (hostMoves_call _ _) fun _ => .pure _

theorem hostMoves_read : Moves HostMoved (read body : Handler H Bytes) := by
  refine .bind (.exec _) fun fh => .bind (.exec _) fun offset => .bind (.exec _) fun size => .bind .get fun s => ?_
  exact .bind (.okOr _ _) fun file => .bind (hostMoves_call _ _) fun _ => .bind (hostMoves_call _ _) fun buf => .pure _

theorem hostMoves_write : Moves HostMoved (write body : Handler H Bytes) := by
  refine .bind (.exec _) fun fh => .bind (.exec _) fun offset => .bind (.exec _) fun size => ?_
  refine .bind (.exec _) fun data => .bind .get fun s => .bind (.okOr _ _) fun file => ?_
  exact .bind (hostMoves_call _ _) fun _ => .bind (hostMoves_call _ _) fun _ => .pure _

theorem hostMoves_fsync : Moves HostMoved (fsync body : Handler H Bytes) := by
  refine .bind (.exec _) fun fh => .bind .get fun s => ?_
  cases s.openFiles.lookup fh with
  | none => exact .pure _
  | some file => exact .bind (.modify fun _ => ⟨_, rfl⟩) fun _ => .pure _

theorem hostMoves_readDir : Moves HostMoved (readDir header body : Handler H Bytes) := by
  refine .bind (.exec _) fun offset => .bind (.exec _) fun maxSize => .bind (.nodePath _ _) fun path => ?_
  exact .bind (hostMoves_call _ _) fun entries => .readDirLoop _ _ _ _ _

theorem hostMoves_setAttr : Moves HostMoved (setAttr header body : Handler H Bytes) := by
  refine .bind (.exec _) fun valid => .bind (.nodePath _ _) fun path => ?_
  have hstat : Moves HostMoved (do return buildAttrOut (← hostCall (H.metadata path) eio)) :=
    .bind (hostMoves_call _ _) fun _ => .pure _
  have hmode : Moves HostMoved (if valid &&& fattrMode ≠ 0 then do
        let mode ← exec (u32At body 68)
        hostTry (H.setPermissions path (mode &&& 0o7777))
        let m ← hostCall (H.metadata path) eio
        pure (buildAttrOut m)
      else do
        let m ← hostCall (H.metadata path) eio
        pure (buildAttrOut m)) :=
    .ite (.bind (.exec _) fun _ => .bind (.hostTry (hostMoved_called _)) fun _ => hstat) hstat
  refine .ite (.bind (.exec _) fun size => .bind ?_ fun _ => hmode) hmode
  exact .bind (hostMoves_call _ _) fun _ => hostMoves_call _ _

theorem hostMoves_unlink : Moves HostMoved (unlink header body : Handler H Bytes) :=
  .bind (.utf8 _) fun _ => .bind (.childPath _ _) fun _ => .bind (hostMoves_call _ _) fun _ => .pure _

theorem hostMoves_rmdir : Moves HostMoved (rmdir header body : Handler H Bytes) :=
  .bind (.utf8 _) fun _ => .bind (.childPath _ _) fun _ => .bind (hostMoves_call _ _) fun _ => .pure _

theorem hostMoves_rename : Moves HostMoved (rename header body : Handler H Bytes) := by
  refine .bind (.exec _) fun newdir => .bind (.exec _) fun nameBytes => .bind (.utf8 _) fun name => ?_
  refine .bind (.exec _) fun newnameBytes => .bind (.utf8 _) fun newname => .bind (.nodePath _ _) fun oldParent => ?_
  exact .bind (.nodePath _ _) fun newParent => .bind (hostMoves_call _ _) fun _ => .pure _

theorem hostMoves_readlink : Moves HostMoved (readlink header : Handler H Bytes) :=
  .bind (.nodePath _ _) fun _ => .bind (hostMoves_call _ _) fun _ => .pure _

end HostOnly

end SharedFolder

end FerrumVM
