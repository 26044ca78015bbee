import FerrumVM.FolderFiles

/-! Listing a directory page by page. A guest asks with READDIR from offset zero on, reads the records of the
reply, and goes on from the `off` of the last one until a reply is empty. Whatever sizes it allows for the replies,
if each has room for any one record it gets all entries of the directory, each of them once and in the order of the
host. -/

namespace FerrumVM

open Base Program

namespace SharedFolder

/-! ### The records of a reply -/

structure FuseDirent where
  ino : UInt64
  off : UInt64
  kind : UInt32
  name : Bytes
  deriving DecidableEq, Repr

/-- The length of a record, with the zeros behind the name. -/
def recordLength (nameLength : Nat) : Nat := (24 + nameLength + 7) / 8 * 8

theorem recordLength_ge (nameLength : Nat) : 24 + nameLength ≤ recordLength nameLength := by
  unfold recordLength
  omega

namespace FuseDirent

/-- The first record of a reply and the rest of it. The header has 24 bytes, the name is as long as the header says,
and the bytes up to the next multiple of eight are zero. -/
def first (reply : Bytes) : Option (FuseDirent × Bytes) :=
  let nameLength := (u32Field reply 16).toNat
  if 24 ≤ reply.length ∧ recordLength nameLength ≤ reply.length ∧
      window reply (24 + nameLength) (recordLength nameLength - (24 + nameLength)) =
        List.replicate (recordLength nameLength - (24 + nameLength)) 0 then
    some (⟨u64Field reply 0, u64Field reply 8, u32Field reply 20, window reply 24 nameLength⟩,
      reply.drop (recordLength nameLength))
  else none

def parse : (fuel : Nat) → Bytes → Option (List FuseDirent)
  | 0, reply => if reply = [] then some [] else none
  | fuel + 1, reply =>
    if reply = [] then some []
    else do
      let (record, rest) ← first reply
      return record :: (← parse fuel rest)

def toBytes (r : FuseDirent) : Bytes :=
  u64ToLe r.ino ++ (u64ToLe r.off ++ (u32ToLe (UInt32.ofNat r.name.length) ++ (u32ToLe r.kind ++ (r.name ++
    List.replicate (recordLength r.name.length - (24 + r.name.length)) 0))))

variable {r : FuseDirent} {rs : List FuseDirent}

theorem length_toBytes (r : FuseDirent) : r.toBytes.length = recordLength r.name.length := by
  have hge := recordLength_ge r.name.length
  unfold toBytes
  simp only [List.length_append, length_u64ToLe, length_u32ToLe, List.length_replicate]
  omega

theorem toBytes_ne_nil (r : FuseDirent) (rest : Bytes) : r.toBytes ++ rest ≠ [] := by
  intro h
  have hlength := congrArg List.length h
  have hge := recordLength_ge r.name.length
  rw [List.length_append, length_toBytes, List.length_nil] at hlength
  omega

theorem first_toBytes (h : r.name.length < 2 ^ 32) (rest : Bytes) : first (r.toBytes ++ rest) = some (r, rest) := by
  have hge := recordLength_ge r.name.length
  have hlength := length_toBytes r
  have hsize : (u32Field (r.toBytes ++ rest) 16).toNat = r.name.length := by
    unfold toBytes
    simp only [List.append_assoc]
    rw [← List.append_assoc, u32Field_append _ (by simp), UInt32.toNat_ofNat_of_lt' h]
  have hino : u64Field (r.toBytes ++ rest) 0 = r.ino := by
    unfold toBytes
    rw [List.append_assoc]
    exact u64Field_append [] rfl _ _
  have hoff : u64Field (r.toBytes ++ rest) 8 = r.off := by
    unfold toBytes
    simp only [List.append_assoc]
    exact u64Field_append (u64ToLe r.ino) (by simp) _ _
  have hkind : u32Field (r.toBytes ++ rest) 20 = r.kind := by
    unfold toBytes
    simp only [List.append_assoc]
    rw [← List.append_assoc, ← List.append_assoc]
    exact u32Field_append _ (by simp) _ _
  have hname : window (r.toBytes ++ rest) 24 r.name.length = r.name := by
    unfold toBytes
    simp only [List.append_assoc]
    rw [← List.append_assoc, ← List.append_assoc, ← List.append_assoc]
    exact window_append _ (by simp) _ rfl _
  have hzeros : window (r.toBytes ++ rest) (24 + r.name.length) (recordLength r.name.length - (24 + r.name.length)) =
      List.replicate (recordLength r.name.length - (24 + r.name.length)) 0 := by
    unfold toBytes
    simp only [List.append_assoc]
    rw [← List.append_assoc, ← List.append_assoc, ← List.append_assoc, ← List.append_assoc]
    exact window_append _ (by simp; omega) _ List.length_replicate _
  have htotal : (r.toBytes ++ rest).length = recordLength r.name.length + rest.length := by
    rw [List.length_append, hlength]
  unfold first
  dsimp only
  rw [hsize, if_pos ⟨by omega, by omega, hzeros⟩, hino, hoff, hkind, hname, List.drop_left' hlength]

theorem parse_flatMap (h : ∀ r ∈ rs, r.name.length < 2 ^ 32) {fuel : Nat} (hfuel : rs.length ≤ fuel) :
    parse fuel (rs.flatMap toBytes) = some rs := by
  induction rs generalizing fuel with
  | nil => cases fuel <;> rfl
  | cons r rs ih =>
    cases fuel with
    | zero => exact absurd hfuel (Nat.not_succ_le_zero _)
    | succ fuel =>
      have hrest := ih (fun r' hr' => h r' (List.mem_cons_of_mem _ hr')) (Nat.le_of_succ_le_succ hfuel)
      rw [List.flatMap_cons, parse, if_neg (toBytes_ne_nil r _), first_toBytes (h r List.mem_cons_self)]
      show (parse fuel _).bind (fun rest => some (r :: rest)) = _
      rw [hrest]
      rfl

end FuseDirent

def recordsOf (reply : Bytes) : Option (List FuseDirent) := FuseDirent.parse reply.length reply

theorem recordsOf_flatMap {rs : List FuseDirent} (h : ∀ r ∈ rs, r.name.length < 2 ^ 32) :
    recordsOf (rs.flatMap FuseDirent.toBytes) = some rs := by
  refine FuseDirent.parse_flatMap h ?_
  clear h
  induction rs with
  | nil => exact Nat.zero_le _
  | cons r rs ih =>
    have hge := recordLength_ge r.name.length
    rw [List.flatMap_cons, List.length_append, FuseDirent.length_toBytes, List.length_cons]
    omega

/-! ### The records of a directory -/

def kindOf (entry : DirEntry) : UInt32 :=
  match entry.metadata with
  | .ok m => direntType m.fileType
  | .error _ => 0

def records : List DirEntry → (pos : Nat) → List FuseDirent
  | [], _ => []
  | entry :: entries, pos =>
    ⟨entry.ino, UInt64.ofNat pos, kindOf entry, entry.name⟩ :: records entries (pos + 1)

section Records

variable {entry : DirEntry} {entries front back : List DirEntry} {pos : Nat} {m : Metadata}

theorem dirent_eq (h : entry.metadata = .ok m) :
    dirent entry pos m = FuseDirent.toBytes ⟨entry.ino, UInt64.ofNat pos, kindOf entry, entry.name⟩ := by
  unfold dirent FuseDirent.toBytes kindOf
  rw [h]
  simp only [List.append_assoc]
  rfl

theorem records_append : records (front ++ back) pos = records front pos ++ records back (pos + front.length) := by
  induction front generalizing pos with
  | nil => rfl
  | cons entry front ih =>
    rw [List.cons_append, records, records, ih, List.cons_append, List.length_cons, Nat.add_right_comm pos 1,
      Nat.add_assoc pos]

theorem name_lt_of_mem_records {r : FuseDirent} (h : r ∈ records entries pos) : r.name.length < 2 ^ 32 := by
  induction entries generalizing pos with
  | nil => exact absurd h List.not_mem_nil
  | cons entry entries ih =>
    rcases List.mem_cons.mp h with rfl | hmem
    · exact Nat.lt_of_le_of_lt entry.name_le (by decide)
    · exact ih hmem

theorem off_getLast_records (h : entries ≠ []) :
    (records entries pos).getLast?.map (·.off) = some (UInt64.ofNat (pos + entries.length - 1)) := by
  rw [← List.dropLast_concat_getLast h, records_append]
  simp only [records, List.getLast?_concat, Option.map_some, List.length_append, List.length_singleton]
  congr 2

theorem length_flatMap_records {entries : List DirEntry} {n : Nat} (h : ∀ entry ∈ entries, entry.name.length = n)
    (pos : Nat) : ((records entries pos).flatMap FuseDirent.toBytes).length = entries.length * recordLength n := by
  induction entries generalizing pos with
  | nil => simp [records]
  | cons entry entries ih =>
    rw [records, List.flatMap_cons, List.length_append, FuseDirent.length_toBytes,
      ih fun e he => h e (List.mem_cons_of_mem _ he), List.length_cons, Nat.add_one_mul, Nat.add_comm]
    dsimp only
    rw [h entry List.mem_cons_self]

end Records

/-! ### One reply -/

section Reply

variable {H : HostOs} {s : SharedFolder H} {offset : UInt64} {maxSize : UInt32} {entries : List DirEntry}
  {pos : Nat} {out : Bytes}

theorem readDirLoop_skip (h : pos ≤ offset.toNat + 1) :
    (readDirLoop offset maxSize entries pos out : Handler H Bytes) =
      readDirLoop offset maxSize (entries.drop (offset.toNat + 1 - pos)) (offset.toNat + 1) out := by
  induction entries generalizing pos with
  | nil =>
    rw [List.drop_nil]
    rfl
  | cons entry entries ih =>
    by_cases hpos : pos ≤ offset.toNat
    · have hone : offset.toNat + 1 - pos = offset.toNat + 1 - (pos + 1) + 1 := by omega
      rw [hone, List.drop_succ_cons, ← ih (Nat.succ_le_succ hpos)]
      exact if_pos hpos
    · have hlast : pos = offset.toNat + 1 := by omega
      rw [hlast, Nat.sub_self, List.drop_zero]

theorem readDirLoop_step {entry : DirEntry} {m : Metadata} (hm : entry.metadata = .ok m) (hpos : offset.toNat < pos) :
    (readDirLoop offset maxSize (entry :: entries) pos out : Handler H Bytes) =
      if maxSize.toNat < out.length + recordLength entry.name.length then return out
      else readDirLoop offset maxSize entries (pos + 1) (out ++ dirent entry pos m) := by
  rw [readDirLoop, if_neg (Nat.not_le.mpr hpos), hm]
  rfl

section

variable (hknown : ∀ entry ∈ entries, ∃ m, entry.metadata = .ok m) (hpos : offset.toNat < pos)
include hknown hpos

/-- Past the offset, records are put down as long as there is room; the first one is if the reply is empty. -/
theorem readDirLoop_fill : ∃ k, (readDirLoop offset maxSize entries pos out : Handler H Bytes).run s =
        .ok (.ok (out ++ (records (entries.take k) pos).flatMap FuseDirent.toBytes)) s ∧ k ≤ entries.length ∧
      (out.length ≤ maxSize.toNat →
        (out ++ (records (entries.take k) pos).flatMap FuseDirent.toBytes).length ≤ maxSize.toNat) ∧
      ((∀ entry ∈ entries, out.length + recordLength entry.name.length ≤ maxSize.toNat) → entries ≠ [] → 0 < k) := by
  induction entries generalizing pos out with
  | nil =>
    refine ⟨0, ?_, Nat.le_refl _, fun hout => ?_, fun _ hne => absurd rfl hne⟩
    · rw [List.take_nil, records, List.flatMap_nil, List.append_nil]
      rfl
    · rw [List.take_nil, records, List.flatMap_nil, List.append_nil]
      exact hout
  | cons entry entries ih =>
    obtain ⟨m, hm⟩ := hknown entry List.mem_cons_self
    rw [readDirLoop_step hm hpos]
    split_ifs with hfull
    · refine ⟨0, ?_, Nat.zero_le _, fun hout => ?_, fun hfits _ => ?_⟩
      · rw [List.take_zero, records, List.flatMap_nil, List.append_nil]
        rfl
      · rw [List.take_zero, records, List.flatMap_nil, List.append_nil]
        exact hout
      · have hfirst := hfits entry List.mem_cons_self
        omega
    · obtain ⟨k, hrun, hle, hroom, _⟩ := @ih (pos + 1) (out ++ dirent entry pos m)
        (fun e he => hknown e (List.mem_cons_of_mem _ he)) (Nat.lt_succ_of_lt hpos)
      rw [dirent_eq hm, List.append_assoc] at hrun hroom
      rw [dirent_eq hm]
      refine ⟨k + 1, ?_, Nat.succ_le_succ hle, fun _ => ?_, fun _ _ => Nat.succ_pos k⟩
      · rw [List.take_succ_cons, records, List.flatMap_cons]
        exact hrun
      · rw [List.take_succ_cons, records, List.flatMap_cons]
        refine hroom ?_
        rw [List.length_append, FuseDirent.length_toBytes]
        exact Nat.not_lt.mp hfull

theorem readDirLoop_all (hroom : (out ++ (records entries pos).flatMap FuseDirent.toBytes).length ≤ maxSize.toNat) :
    (readDirLoop offset maxSize entries pos out : Handler H Bytes) =
      pure (out ++ (records entries pos).flatMap FuseDirent.toBytes) := by
  induction entries generalizing pos out with
  | nil =>
    rw [records, List.flatMap_nil, List.append_nil]
    rfl
  | cons entry entries ih =>
    obtain ⟨m, hm⟩ := hknown entry List.mem_cons_self
    rw [records, List.flatMap_cons, ← List.append_assoc, ← dirent_eq hm] at hroom ⊢
    rw [readDirLoop_step hm hpos, if_neg ?_]
    · exact ih (fun e he => hknown e (List.mem_cons_of_mem _ he)) (Nat.lt_succ_of_lt hpos) hroom
    · rw [dirent_eq hm, List.length_append, List.length_append, FuseDirent.length_toBytes] at hroom
      dsimp only at hroom
      omega

end

theorem after_readDir {header : FuseInHeader} {body : Bytes} {path : PathBuf}
    {P : Ending Bytes → SharedFolder H → Prop}
    (hop : FuseOpcode.ofNumber header.opcode = .readdir) (hlen : 20 ≤ body.length)
    (hpath : s.Knows header.nodeid path) (hgives : s.Gives (H.readDir path) entries)
    (hloop : After (readDirLoop (u64Field body 8) (u32Field body 16) (entries.drop (u64Field body 8).toNat)
      ((u64Field body 8).toNat + 1) []) (s.called (H.readDir path)) P) : After (handle header body) s P := by
  unfold handle
  rw [hop]
  show After (readDir header body) s _
  refine after_u64At.mpr ⟨fun h => absurd hlen (by omega), fun _ => ?_⟩
  refine after_u32At.mpr ⟨fun h => absurd hlen (by omega), fun _ => ?_⟩
  refine after_nodePath.mpr ⟨fun hlacks => absurd (hlacks.symm.trans hpath) nofun, fun path' hpath' => ?_⟩
  cases Option.some.inj (hpath.symm.trans hpath')
  refine after_hostCall.mpr
    ⟨fun kind hfails => absurd (hfails.symm.trans hgives) nofun, fun entries' hgives' => ?_⟩
  cases Except.ok.inj (hgives.symm.trans hgives')
  rw [readDirLoop_skip (Nat.le_add_left _ _), Nat.add_sub_cancel]
  exact hloop

/-- A READDIR answers with the records of some of the entries after the offset, as many as there is room for. -/
theorem readDir_eq_ok {header : FuseInHeader} {body : Bytes} {path : PathBuf}
    (hop : FuseOpcode.ofNumber header.opcode = .readdir) (hlen : 20 ≤ body.length)
    (hpath : s.Knows header.nodeid path) (hgives : s.Gives (H.readDir path) entries)
    (hknown : ∀ entry ∈ entries, ∃ m, entry.metadata = .ok m) : ∃ k, dispatch header body s =
        .ok (.ok ((records ((entries.drop (u64Field body 8).toNat).take k) ((u64Field body 8).toNat + 1)).flatMap
          FuseDirent.toBytes)) (s.called (H.readDir path)) ∧ k ≤ (entries.drop (u64Field body 8).toNat).length ∧
      ((records ((entries.drop (u64Field body 8).toNat).take k) ((u64Field body 8).toNat + 1)).flatMap
        FuseDirent.toBytes).length ≤ (u32Field body 16).toNat ∧
      ((∀ entry ∈ entries, recordLength entry.name.length ≤ (u32Field body 16).toNat) →
        entries.drop (u64Field body 8).toNat ≠ [] → 0 < k) := by
  have hrest : ∀ entry ∈ entries.drop (u64Field body 8).toNat, ∃ m, entry.metadata = .ok m :=
    fun entry hentry => hknown entry (List.mem_of_mem_drop hentry)
  obtain ⟨k, hrun, hle, hroom, hfirst⟩ := @readDirLoop_fill H (s.called (H.readDir path)) (u64Field body 8)
    (u32Field body 16) (entries.drop (u64Field body 8).toNat) ((u64Field body 8).toNat + 1) [] hrest
    (Nat.lt_succ_self _)
  rw [List.nil_append] at hrun hroom
  refine ⟨k, dispatch_eq_ok_iff.mpr ?_, hle, hroom (Nat.zero_le _), fun hfits => hfirst fun entry hentry => ?_⟩
  · refine after_handle (P := fun r t => r = some (.ok _) ∧ t = s.called (H.readDir path)) |>.mp ?_
    exact after_readDir hop hlen hpath hgives ((after_of_ok hrun).mpr ⟨rfl, rfl⟩)
  · rw [List.length_nil, Nat.zero_add]
    exact hfits entry (List.mem_of_mem_drop hentry)

end Reply

/-! ### The guest -/

structure ReadDirIn where
  header : FuseInHeader
  fh : UInt64
  size : UInt32
  rest : Bytes

/-- A guest that lists a directory: the offset to go on from, the replies that it got, and their records. -/
structure DirReader (H : HostOs) where
  folder : SharedFolder H
  offset : UInt64
  replies : List Bytes
  seen : List FuseDirent

namespace DirReader

variable {H : HostOs}

def start (folder : SharedFolder H) : DirReader H := ⟨folder, 0, [], []⟩

def ask (asks : Nat → ReadDirIn) (r : DirReader H) : Option (DirReader H) :=
  let request := asks r.replies.length
  match dispatch request.header (readIn request.fh r.offset request.size.toNat request.rest) r.folder with
  | .ok (.ok reply) t => do
      let records ← recordsOf reply
      return ⟨t, (records.getLast?.map (·.off)).getD r.offset, r.replies ++ [reply], r.seen ++ records⟩
  | _ => none

def list (asks : Nat → ReadDirIn) : (fuel : Nat) → DirReader H → Option (DirReader H)
  | 0, _ => none
  | fuel + 1, r => do
      let r ← r.ask asks
      if r.replies.getLast? = some [] then return r else list asks fuel r

end DirReader

/-- The host lists the directory in the same way each time, as long as it is only listed. The entries are collected
in a vector. -/
structure Lists (H : HostOs) (path : PathBuf) (entries : List DirEntry) (steady : H.World → Prop) : Prop where
  gives : ∀ w, steady w → (H.readDir path w).1 = .ok entries
  stays : ∀ w, steady w → steady (H.readDir path w).2
  known : ∀ entry ∈ entries, ∃ m, entry.metadata = .ok m
  length_le : entries.length ≤ isizeMax

structure Asks (asks : Nat → ReadDirIn) (nodeid : UInt64) (entries : List DirEntry) : Prop where
  opcode : ∀ n, FuseOpcode.ofNumber (asks n).header.opcode = .readdir
  nodeid : ∀ n, (asks n).header.nodeid = nodeid
  room : ∀ n, ∀ entry ∈ entries, recordLength entry.name.length ≤ (asks n).size.toNat

section Listing

variable {H : HostOs} {path : PathBuf} {entries : List DirEntry} {steady : H.World → Prop}
  {asks : Nat → ReadDirIn} {nodeid : UInt64} {r : DirReader H} {i : Nat}

/-- The first entries have been read, none of the replies was empty and none was too long. -/
structure Progress (path : PathBuf) (entries : List DirEntry) (steady : H.World → Prop) (asks : Nat → ReadDirIn)
    (nodeid : UInt64) (r : DirReader H) (i : Nat) : Prop where
  le : i ≤ entries.length
  offset : r.offset = UInt64.ofNat i
  seen : r.seen = records (entries.take i) 1
  knows : r.folder.Knows nodeid path
  steady : steady r.folder.host
  pages : ∀ page ∈ r.replies, page ≠ []
  room : ∀ n reply, r.replies[n]? = some reply → reply.length ≤ (asks n).size.toNat

theorem room_concat {reply : Bytes}
    (hroom : ∀ n reply, r.replies[n]? = some reply → reply.length ≤ (asks n).size.toNat)
    (hreply : reply.length ≤ (asks r.replies.length).size.toNat) (n : Nat) (page : Bytes)
    (hpage : (r.replies ++ [reply])[n]? = some page) : page.length ≤ (asks n).size.toNat := by
  rcases Nat.lt_trichotomy n r.replies.length with hlt | rfl | hgt
  · rw [List.getElem?_append_left hlt] at hpage
    exact hroom n page hpage
  · rw [List.getElem?_concat_length] at hpage
    cases hpage
    exact hreply
  · rw [List.getElem?_eq_none (by rw [List.length_append, List.length_singleton]; omega)] at hpage
    exact absurd hpage nofun

section

variable (hlists : Lists H path entries steady) (hasks : Asks asks nodeid entries) (h : Progress path entries steady asks nodeid r i)
include hlists hasks h

theorem Progress.ask : ∃ r' reply, r.ask asks = some r' ∧ r'.replies = r.replies ++ [reply] ∧
      reply.length ≤ (asks r.replies.length).size.toNat ∧ ((reply = [] ∧ r'.seen = records entries 1) ∨
        (reply ≠ [] ∧ ∃ j, i < j ∧ Progress path entries steady asks nodeid r' j)) := by
  have hbound : entries.length < 2 ^ 64 := Nat.lt_of_le_of_lt hlists.length_le (by decide)
  have hi : r.offset.toNat = i := by
    rw [h.offset, UInt64.toNat_ofNat_of_lt' (Nat.lt_of_le_of_lt h.le hbound)]
  generalize hn : r.replies.length = n
  obtain ⟨_, hoffset, hlen, hsize⟩ :=
    fields_readIn (asks n).fh r.offset (UInt32.toNat_lt (asks n).size) (asks n).rest
  have hpath : r.folder.Knows (asks n).header.nodeid path := by
    rw [hasks.nodeid]
    exact h.knows
  obtain ⟨k, hrun, hle, hroom, hfirst⟩ :=
    readDir_eq_ok (hasks.opcode n) hlen hpath (hlists.gives _ h.steady) hlists.known
  rw [hoffset, hi] at hrun hle hroom hfirst
  rw [hsize] at hroom hfirst
  generalize hpage : (entries.drop i).take k = page at hrun hroom
  have hnext : r.ask asks = some ⟨r.folder.called (H.readDir path),
      ((records page (i + 1)).getLast?.map (·.off)).getD r.offset,
      r.replies ++ [(records page (i + 1)).flatMap FuseDirent.toBytes], r.seen ++ records page (i + 1)⟩ := by
    unfold DirReader.ask
    dsimp only
    rw [hn, hrun]
    dsimp only
    rw [recordsOf_flatMap fun _ => name_lt_of_mem_records]
    rfl
  refine ⟨_, _, hnext, rfl, hroom, ?_⟩
  by_cases hnone : entries.drop i = []
  · left
    rw [hnone, List.take_nil] at hpage
    subst hpage
    refine ⟨rfl, ?_⟩
    rw [records, List.append_nil, h.seen, List.take_of_length_le (List.drop_eq_nil_iff.mp hnone)]
  · right
    have hk := hfirst (hasks.room n) hnone
    have hlength : page.length = k := by
      rw [← hpage, List.length_take_of_le hle]
    have hpages : page ≠ [] := List.ne_nil_of_length_pos (by omega)
    have hreply : (records page (i + 1)).flatMap FuseDirent.toBytes ≠ [] := by
      obtain ⟨entry, others, rfl⟩ := List.exists_cons_of_ne_nil hpages
      exact FuseDirent.toBytes_ne_nil _ _
    rw [List.length_drop] at hle
    refine ⟨hreply, i + k, Nat.lt_add_of_pos_right hk, ?_, ?_, ?_, h.knows, hlists.stays _ h.steady, ?_, ?_⟩
    · have hi_le := h.le
      omega
    · rw [off_getLast_records hpages, hlength, Option.getD_some, Nat.add_right_comm, Nat.add_sub_cancel]
    · rw [h.seen, List.take_add, hpage, records_append, List.length_take_of_le h.le, Nat.add_comm 1 i]
    · intro page' hpage'
      rcases List.mem_append.mp hpage' with hold | hnew
      · exact h.pages page' hold
      · rw [List.mem_singleton.mp hnew]
        exact hreply
    · refine room_concat h.room ?_
      rw [hn]
      exact hroom

theorem Progress.list {fuel : Nat} (hfuel : entries.length - i < fuel) :
    ∃ r' pages, r.list asks fuel = some r' ∧ r'.replies = pages ++ [[]] ∧ (∀ page ∈ pages, page ≠ []) ∧
      r'.seen = records entries 1 ∧ ∀ n reply, r'.replies[n]? = some reply → reply.length ≤ (asks n).size.toNat := by
  induction fuel generalizing r i with
  | zero => exact absurd hfuel (Nat.not_lt_zero _)
  | succ fuel ih =>
    obtain ⟨r', reply, hask, hreplies, hroom, hcases⟩ := h.ask hlists hasks
    have hlist : r.list asks (fuel + 1) =
        if r'.replies.getLast? = some [] then some r' else r'.list asks fuel := by
      rw [DirReader.list, hask]
      rfl
    rw [hreplies, List.getLast?_concat] at hlist
    rcases hcases with ⟨rfl, hseen⟩ | ⟨hreply, j, hj, hprogress⟩
    · rw [if_pos rfl] at hlist
      refine ⟨r', r.replies, hlist, hreplies, h.pages, hseen, ?_⟩
      rw [hreplies]
      exact room_concat h.room hroom
    · rw [if_neg (fun hempty => hreply (Option.some.inj hempty))] at hlist
      rw [hlist]
      have hle := hprogress.le
      exact ih hprogress (by omega)

end

/-- **Directory listing.** A guest that asks from offset zero on, with room for any record in each request, gets
replies of whole records and then an empty one; the records are those of the entries of the directory, all of them,
once each and in the order of the host. -/
theorem listing_is_complete {s : SharedFolder H} (hlists : Lists H path entries steady)
    (hasks : Asks asks nodeid entries) (hknows : s.Knows nodeid path) (hsteady : steady s.host) {fuel : Nat}
    (hfuel : entries.length < fuel) :
    ∃ r pages, (DirReader.start s).list asks fuel = some r ∧ r.replies = pages ++ [[]] ∧
      (∀ page ∈ pages, page ≠ []) ∧ r.seen = records entries 1 ∧
      ∀ n reply, r.replies[n]? = some reply → reply.length ≤ (asks n).size.toNat := by
  have hstart : Progress path entries steady asks nodeid (DirReader.start s) 0 :=
    { le := Nat.zero_le _
      offset := rfl
      seen := rfl
      knows := hknows
      steady := hsteady
      pages := fun _ hpage => absurd hpage List.not_mem_nil
      room := fun _ _ hpage => absurd hpage nofun }
  exact hstart.list hlists hasks hfuel

end Listing

/-! ### Two entries, one in each reply -/

section TwoEntries

def twoEntries : List DirEntry :=
  [⟨[97], 5, .ok emptyDirectory, by decide⟩, ⟨[98, 99], 7, .ok emptyDirectory, by decide⟩]

/-- A host on which every directory has two entries. -/
def twoEntriesHost : HostOs := { HostOs.idle Unit Unit with readDir := fun _ w => (.ok twoEntries, w) }

def listed : SharedFolder twoEntriesHost := new [47] ()

def askOne (_ : Nat) : ReadDirIn := ⟨fuseRequest 28 1, 1, 32, []⟩

theorem lists_twoEntries : Lists twoEntriesHost [47] twoEntries fun _ => True where
  gives _ _ := rfl
  stays _ _ := trivial
  known entry hentry := by
    rcases List.mem_cons.mp hentry with rfl | hentry
    · exact ⟨_, rfl⟩
    · rw [List.mem_singleton.mp hentry]
      exact ⟨_, rfl⟩
  length_le := by decide

theorem asks_askOne : Asks askOne 1 twoEntries where
  opcode _ := rfl
  nodeid _ := rfl
  room _ := by
    show ∀ entry ∈ twoEntries, recordLength entry.name.length ≤ 32
    decide

theorem two_pages_are_listed : ∃ r pages, (DirReader.start listed).list askOne 3 = some r ∧
      r.replies = pages ++ [[]] ∧ (∀ page ∈ pages, page ≠ []) ∧ r.seen = [⟨5, 1, 4, [97]⟩, ⟨7, 2, 4, [98, 99]⟩] ∧
      ∀ n reply, r.replies[n]? = some reply → reply.length ≤ (askOne n).size.toNat :=
  have hknows : listed.Knows 1 [47] := by
    unfold Knows
    decide
  listing_is_complete lists_twoEntries asks_askOne hknows trivial (by decide)

end TwoEntries

end SharedFolder

end FerrumVM
