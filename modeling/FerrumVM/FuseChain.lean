import FerrumVM.DeviceFs
import Mathlib.Logic.Relation

/-! The chain of a file-system request, said without the loops that walk it: the bytes that its readable
descriptors hold, and the parts in which a reply is laid over its writable ones. The loops may go round a
chain that has a cycle for ever; they return where these relations hold. -/

namespace FerrumVM

open Base Program

namespace FsVirtio

variable {H : HostOs} {M : Type} [GuestMemory M] {parts : List (UInt64 × Bytes)} {reply : Bytes} {written : Nat}
  {i : UInt16} {q : VirtioQueue} {r : (VirtqDesc × Nat) ⊕ Nat} {c c' : Ctx (FsVirtio H) M} {mem mem' : M}

/-! ### The request -/

/-- Descriptor `i` is readable, its buffer can be read, and the chain goes on from it to `j`. -/
def ReadStep (q : VirtioQueue) (mem : M) (i j : UInt16) : Prop :=
  ∃ desc buf, q.getDescriptor mem i = .ok desc ∧ desc.isWrite = false ∧
    GuestMemory.readGuestMemoryAlloc mem desc.addr desc.len.toNat = .ok buf ∧ desc.hasNext = true ∧ desc.next = j

/-- The readable descriptors from `i` on hold the bytes. -/
inductive Gathers (q : VirtioQueue) (mem : M) : UInt16 → Bytes → Prop
  | writable {i : UInt16} {desc : VirtqDesc} (hdesc : q.getDescriptor mem i = .ok desc)
      (hwrite : desc.isWrite = true) : Gathers q mem i []
  | last {i : UInt16} {desc : VirtqDesc} {buf : Bytes} (hdesc : q.getDescriptor mem i = .ok desc)
      (hwrite : desc.isWrite = false)
      (hread : GuestMemory.readGuestMemoryAlloc mem desc.addr desc.len.toNat = .ok buf)
      (hnext : desc.hasNext = false) : Gathers q mem i buf
  | more {i : UInt16} {desc : VirtqDesc} {buf rest : Bytes} (hdesc : q.getDescriptor mem i = .ok desc)
      (hwrite : desc.isWrite = false)
      (hread : GuestMemory.readGuestMemoryAlloc mem desc.addr desc.len.toNat = .ok buf)
      (hnext : desc.hasNext = true) (hrest : Gathers q mem desc.next rest) : Gathers q mem i (buf ++ rest)

theorem Gathers.desc {bytes : Bytes} (h : Gathers q mem i bytes) : ∃ desc, q.getDescriptor mem i = .ok desc := by
  cases h with
  | writable hdesc => exact ⟨_, hdesc⟩
  | last hdesc => exact ⟨_, hdesc⟩
  | more hdesc => exact ⟨_, hdesc⟩

theorem Gathers.unique {bytes bytes' : Bytes}
    (h : Gathers q mem i bytes) (h' : Gathers q mem i bytes') : bytes = bytes' := by
  induction h generalizing bytes' with
  | writable hdesc hwrite =>
    cases h' with
    | writable => rfl
    | last hdesc' hwrite' => simp_all
    | more hdesc' hwrite' => simp_all
  | last hdesc hwrite hread hnext =>
    cases h' with
    | writable hdesc' hwrite' => simp_all
    | last hdesc' hwrite' hread' => simp_all
    | more hdesc' hwrite' hread' hnext' => simp_all
  | more hdesc hwrite hread hnext _ ih =>
    cases h' with
    | writable hdesc' hwrite' => simp_all
    | last hdesc' hwrite' hread' hnext' => simp_all
    | more hdesc' hwrite' hread' hnext' hrest' =>
      rw [hdesc] at hdesc'
      cases hdesc'
      rw [hread] at hread'
      cases hread'
      rw [ih hrest']

theorem collectStep_eq_ok {desc : VirtqDesc} {acc : Bytes} {r : (VirtqDesc × Bytes) ⊕ Bytes} :
    collectStep (desc, acc) c = .ok r c' ↔ (desc.isWrite = true ∧ r = .inr acc ∧ c' = c) ∨
      (desc.isWrite = false ∧ ∃ buf, GuestMemory.readGuestMemoryAlloc c.mem desc.addr desc.len.toNat = .ok buf ∧
        ((desc.hasNext = false ∧ r = .inr (acc ++ buf) ∧ c' = c) ∨
         (desc.hasNext = true ∧ ∃ next, c.queue.getDescriptor c.mem desc.next = .ok next ∧
            r = .inl (next, acc ++ buf) ∧ c' = c.fetched (.next desc) next))) := by
  show (if desc.isWrite = true then _ else _ : Serve (FsVirtio H) M _) c = _ ↔ _
  cases hwrite : desc.isWrite with
  | true => simp [eq_comm (b := c'), eq_comm (b := r)]
  | false =>
    simp only [Bool.false_eq_true, if_false, false_and, false_or, true_and, bind_eq_ok,
      Serve.readGuestMemoryAlloc_eq_ok]
    cases hnext : desc.hasNext with
    | false => simp [eq_comm (b := c'), eq_comm (b := r)]
    | true =>
      simp only [Bool.not_true, Bool.false_eq_true, if_false, false_and, false_or, true_and, bind_eq_ok,
        Serve.getDescriptor_eq_ok, pure_eq_ok, Bool.true_eq_false, Link.index]
      constructor
      · rintro ⟨buf, _, ⟨hread, rfl⟩, next, _, ⟨hdesc, rfl⟩, rfl, rfl⟩
        exact ⟨buf, hread, next, hdesc, rfl, rfl⟩
      · rintro ⟨buf, hread, next, hdesc, rfl, rfl⟩
        exact ⟨buf, c, ⟨hread, rfl⟩, next, _, ⟨hdesc, rfl⟩, rfl, rfl⟩

theorem gathers_of_loop {fuel : Nat} {desc : VirtqDesc}
    {acc bytes : Bytes} (hdesc : c.queue.getDescriptor c.mem i = .ok desc)
    (h : loop collectStep fuel (desc, acc) c = .ok bytes c') :
    ∃ rest, bytes = acc ++ rest ∧ Gathers c.queue c.mem i rest := by
  induction fuel generalizing c i desc acc with
  | zero => exact absurd h throw_ne_ok
  | succ fuel ih =>
    obtain ⟨_, r, t, hfuel, hstep, hround⟩ := loop_eq_ok h
    cases hfuel
    rcases collectStep_eq_ok.mp hstep with ⟨hwrite, rfl, rfl⟩ | ⟨hwrite, buf, hread, hcases⟩
    · rcases hround with ⟨hbytes, _⟩ | ⟨_, hr, _⟩
      · cases hbytes
        exact ⟨[], (List.append_nil _).symm, .writable hdesc hwrite⟩
      · cases hr
    · rcases hcases with ⟨hnext, rfl, rfl⟩ | ⟨hnext, next, hdesc', rfl, rfl⟩
      · rcases hround with ⟨hbytes, _⟩ | ⟨_, hr, _⟩
        · cases hbytes
          exact ⟨buf, rfl, .last hdesc hwrite hread hnext⟩
        · cases hr
      · rcases hround with ⟨hbytes, _⟩ | ⟨_, hr, hloop⟩
        · cases hbytes
        · cases hr
          obtain ⟨rest, rfl, hrest⟩ := ih (c := c.fetched _ _) hdesc' hloop
          exact ⟨buf ++ rest, List.append_assoc _ _ _, .more hdesc hwrite hread hnext hrest⟩

theorem loop_of_gathers {rest : Bytes} (h : Gathers q mem i rest) :
    ∀ {c : Ctx (FsVirtio H) M} {desc : VirtqDesc} (acc : Bytes), c.queue = q → c.mem = mem →
      q.getDescriptor mem i = .ok desc → ∃ fuel c', loop collectStep fuel (desc, acc) c = .ok (acc ++ rest) c' := by
  induction h with
  | writable hdesc hwrite =>
    rintro c _ acc rfl rfl hdesc'
    rw [hdesc] at hdesc'
    cases hdesc'
    exact ⟨1, c, (loop_of_inr (collectStep_eq_ok.mpr (Or.inl ⟨hwrite, rfl, rfl⟩)) 0).trans (by simp)⟩
  | last hdesc hwrite hread hnext =>
    rintro c _ acc rfl rfl hdesc'
    rw [hdesc] at hdesc'
    cases hdesc'
    refine ⟨1, c, loop_of_inr ?_ 0⟩
    exact collectStep_eq_ok.mpr (Or.inr ⟨hwrite, _, hread, Or.inl ⟨hnext, rfl, rfl⟩⟩)
  | @more i desc buf rest hdesc hwrite hread hnext hrest ih =>
    rintro c _ acc rfl rfl hdesc'
    rw [hdesc] at hdesc'
    cases hdesc'
    obtain ⟨next, hdesc''⟩ := hrest.desc
    obtain ⟨fuel, c', hloop⟩ := ih (c := c.fetched (.next desc) next) (acc ++ buf) rfl rfl hdesc''
    rw [List.append_assoc] at hloop
    refine ⟨fuel + 1, c', (loop_of_inl ?_ fuel).trans hloop⟩
    exact collectStep_eq_ok.mpr (Or.inr ⟨hwrite, buf, hread, Or.inr ⟨hnext, next, hdesc'', rfl, rfl⟩⟩)

/-- **`collect_readable`** returns the bytes that the chain holds. -/
theorem collectReadable_iff {head : UInt16} {bytes : Bytes} :
    (∃ fuel c', collectReadable fuel head c = .ok bytes c') ↔ Gathers c.queue c.mem head bytes := by
  constructor
  · rintro ⟨fuel, c', h⟩
    obtain ⟨desc, t, hdesc, hloop⟩ := bind_eq_ok.mp h
    obtain ⟨hread, rfl⟩ := Serve.getDescriptor_eq_ok.mp hdesc
    obtain ⟨rest, rfl, hrest⟩ := gathers_of_loop (c := c.fetched _ _) hread hloop
    exact hrest
  · intro h
    obtain ⟨desc, hdesc⟩ := h.desc
    obtain ⟨fuel, c', hloop⟩ := loop_of_gathers h (c := c.fetched (.head head) desc) [] rfl rfl hdesc
    exact ⟨fuel, c', bind_eq_ok.mpr ⟨desc, _, Serve.getDescriptor_eq_ok.mpr ⟨hdesc, rfl⟩, hloop⟩⟩

/-! ### The reply -/

/-- What one descriptor takes of the reply: the part written to its buffer, if it is writable, the number
of bytes written so far and the memory after it. -/
def replyAt (reply : Bytes) (desc : VirtqDesc) (written : Nat) (mem : M) : Exec (List (UInt64 × Bytes) × Nat × M) :=
  if desc.isWrite then do
    let n := min (reply.length - written) desc.len.toNat
    let part ← slice reply written (written + n)
    let mem ← GuestMemory.writeGuestMemory mem desc.addr part
    return ([(desc.addr, part)], written + n, mem)
  else return ([], written, mem)

def replyEnds (reply : Bytes) (desc : VirtqDesc) (written : Nat) : Bool :=
  !desc.hasNext || (desc.isWrite && decide (reply.length ≤ written))

/-- The walk goes on from a descriptor to the next; its state is the index, the number of bytes written
and guest memory. -/
def ReplyStep (q : VirtioQueue) (reply : Bytes) (s s' : UInt16 × Nat × M) : Prop :=
  ∃ desc parts, q.getDescriptor s.2.2 s.1 = .ok desc ∧
    replyAt reply desc s.2.1 s.2.2 = .ok (parts, s'.2) ∧ replyEnds reply desc s'.2.1 = false ∧ desc.next = s'.1

/-- The reply is laid over the chain from `i` on in the given parts. -/
inductive Scatters (q : VirtioQueue) (reply : Bytes) :
    UInt16 → Nat → M → List (UInt64 × Bytes) → M → Prop
  | last {i : UInt16} {written written' : Nat} {mem mem' : M} {desc : VirtqDesc} {parts : List (UInt64 × Bytes)}
      (hdesc : q.getDescriptor mem i = .ok desc)
      (hpart : replyAt reply desc written mem = .ok (parts, written', mem'))
      (hend : replyEnds reply desc written' = true) : Scatters q reply i written mem parts mem'
  | more {i : UInt16} {written written' : Nat} {mem mem' mem'' : M} {desc : VirtqDesc}
      {parts rest : List (UInt64 × Bytes)} (hdesc : q.getDescriptor mem i = .ok desc)
      (hpart : replyAt reply desc written mem = .ok (parts, written', mem'))
      (hgoes : replyEnds reply desc written' = false)
      (hrest : Scatters q reply desc.next written' mem' rest mem'') :
      Scatters q reply i written mem (parts ++ rest) mem''

theorem Scatters.desc (h : Scatters q reply i written mem parts mem') : ∃ desc, q.getDescriptor mem i = .ok desc := by
  cases h with
  | last hdesc => exact ⟨_, hdesc⟩
  | more hdesc => exact ⟨_, hdesc⟩

def storedParts (c : Ctx (FsVirtio H) M) (parts : List (UInt64 × Bytes)) (mem : M) : Ctx (FsVirtio H) M :=
  { c with
    mem, log := c.log ++ parts.map fun p => .stored p.1 p.2 (GuestMemory.inRam c.mem p.1 p.2.length) }

theorem replyNext_eq_ok {desc : VirtqDesc} :
    replyNext desc written c = .ok r c' ↔ (desc.hasNext = false ∧ r = .inr written ∧ c' = c) ∨
      (desc.hasNext = true ∧ ∃ next, c.queue.getDescriptor c.mem desc.next = .ok next ∧
        r = .inl (next, written) ∧ c' = c.fetched (.next desc) next) := by
  unfold replyNext
  cases hnext : desc.hasNext with
  | false => simp [eq_comm (b := c'), eq_comm (b := r)]
  | true =>
    simp only [Bool.not_true, Bool.false_eq_true, if_false, false_and, false_or, true_and, bind_eq_ok,
      Serve.getDescriptor_eq_ok, pure_eq_ok, Bool.true_eq_false, Link.index]
    constructor
    · rintro ⟨next, _, ⟨hdesc, rfl⟩, rfl, rfl⟩
      exact ⟨next, hdesc, rfl, rfl⟩
    · rintro ⟨next, hdesc, rfl, rfl⟩
      exact ⟨next, _, ⟨hdesc, rfl⟩, rfl, rfl⟩

theorem replyTail_iff {desc : VirtqDesc} :
    (if reply.length ≤ written then (return .inr written) else replyNext desc written :
        Serve (FsVirtio H) M _) c = .ok r c' ↔
      ((!desc.hasNext || decide (reply.length ≤ written)) = true ∧ r = .inr written ∧ c' = c) ∨
      ((!desc.hasNext || decide (reply.length ≤ written)) = false ∧ ∃ next,
        c.queue.getDescriptor c.mem desc.next = .ok next ∧ r = .inl (next, written) ∧
        c' = c.fetched (.next desc) next) := by
  by_cases hend : reply.length ≤ written
  · simp [hend, eq_comm (b := c'), eq_comm (b := r)]
  · simp only [hend, if_false, decide_false, Bool.or_false, replyNext_eq_ok, Bool.not_eq_true',
      Bool.not_eq_false']

theorem replyStep_eq_ok {desc : VirtqDesc} : replyStep reply (desc, written) c = .ok r c' ↔
      ∃ parts written' mem', replyAt reply desc written c.mem = .ok (parts, written', mem') ∧
        ((replyEnds reply desc written' = true ∧ r = .inr written' ∧ c' = storedParts c parts mem') ∨
         (replyEnds reply desc written' = false ∧ ∃ next, c.queue.getDescriptor mem' desc.next = .ok next ∧
            r = .inl (next, written') ∧ c' = (storedParts c parts mem').fetched (.next desc) next)) := by
  show (if desc.isWrite = true then _ else replyNext desc written : Serve (FsVirtio H) M _) c = _ ↔ _
  unfold replyAt replyEnds
  cases hwrite : desc.isWrite with
  | false =>
    have hnone : storedParts c [] c.mem = c := by simp [storedParts]
    simp only [Bool.false_eq_true, if_false, replyNext_eq_ok, Exec.pure_eq, Except.ok.injEq, Prod.mk.injEq,
      Bool.false_and, Bool.or_false, Bool.not_eq_true', Bool.not_eq_false']
    constructor
    · intro h
      exact ⟨[], written, c.mem, ⟨rfl, rfl, rfl⟩, by rwa [hnone]⟩
    · rintro ⟨_, _, _, ⟨rfl, rfl, rfl⟩, h⟩
      rwa [hnone] at h
  | true =>
    simp only [if_true, bind_eq_ok, lift_eq_ok, Exec.bind_eq_ok, Exec.pure_eq, Except.ok.injEq, Prod.mk.injEq,
      Bool.true_and, Serve.writeGuestMemory_iff]
    constructor
    · rintro ⟨part, _, ⟨hslice, rfl⟩, _, _, ⟨mem', hmem, rfl⟩, h⟩
      refine ⟨_, _, mem', ⟨part, hslice, mem', hmem, rfl, rfl, rfl⟩, ?_⟩
      exact replyTail_iff.mp h
    · rintro ⟨_, _, mem', ⟨part, hslice, _, hmem, rfl, rfl, rfl⟩, h⟩
      exact ⟨part, c, ⟨hslice, rfl⟩, (), _, ⟨_, hmem, rfl⟩, replyTail_iff.mpr h⟩

def flagged (mem : M) (parts : List (UInt64 × Bytes)) : List (UInt64 × Bytes × Bool) :=
  parts.map fun p => (p.1, p.2, GuestMemory.inRam mem p.1 p.2.length)

theorem flagged_append (mem : M) (parts parts' : List (UInt64 × Bytes)) :
    flagged mem (parts ++ parts') = flagged mem parts ++ flagged mem parts' := List.map_append

theorem stores_storedParts (c : Ctx (FsVirtio H) M) (parts : List (UInt64 × Bytes)) (mem : M) :
    stores (storedParts c parts mem).log = stores c.log ++ flagged c.mem parts := by
  rw [storedParts, stores_append, flagged]
  congr 1
  rw [stores, List.filterMap_map]
  exact congrFun List.filterMap_eq_map parts

theorem inRam_replyAt {desc : VirtqDesc} {written' : Nat}
    (h : replyAt reply desc written mem = .ok (parts, written', mem')) :
    GuestMemory.inRam mem' = GuestMemory.inRam mem := by
  unfold replyAt at h
  split_ifs at h
  · obtain ⟨part, _, h⟩ := Exec.bind_eq_ok.mp h
    obtain ⟨mem1, hmem, h⟩ := Exec.bind_eq_ok.mp h
    cases h
    exact GuestMemory.inRam_writeGuestMemory hmem
  · cases h
    rfl

def total (parts : List (UInt64 × Bytes)) : Nat := (parts.map (·.2.length)).sum

theorem total_append (parts parts' : List (UInt64 × Bytes)) : total (parts ++ parts') = total parts + total parts' := by
  simp [total]

theorem written_replyAt {desc : VirtqDesc} {written' : Nat}
    (h : replyAt reply desc written mem = .ok (parts, written', mem')) : written' = written + total parts := by
  unfold replyAt at h
  split_ifs at h
  · obtain ⟨part, hslice, h⟩ := Exec.bind_eq_ok.mp h
    obtain ⟨mem1, _, h⟩ := Exec.bind_eq_ok.mp h
    obtain ⟨_, hstop, rfl⟩ := slice_eq_ok.mp hslice
    cases h
    simp only [total, List.map_cons, List.map_nil, List.sum_cons, List.sum_nil, List.length_take, List.length_drop]
    omega
  · cases h
    rfl

theorem scatters_of_loop {fuel : Nat}
    {desc : VirtqDesc} {sent : Nat} (hdesc : c.queue.getDescriptor c.mem i = .ok desc)
    (h : loop (replyStep reply) fuel (desc, written) c = .ok sent c') :
    ∃ parts, Scatters c.queue reply i written c.mem parts c'.mem ∧
      stores c'.log = stores c.log ++ flagged c.mem parts := by
  induction fuel generalizing c i desc written with
  | zero => exact absurd h throw_ne_ok
  | succ fuel ih =>
    obtain ⟨_, r, t, hfuel, hstep, hround⟩ := loop_eq_ok h
    cases hfuel
    obtain ⟨parts, written', mem', hpart, hcases⟩ := replyStep_eq_ok.mp hstep
    rcases hcases with ⟨hend, rfl, rfl⟩ | ⟨hgoes, next, hnext, rfl, rfl⟩
    · rcases hround with ⟨_, rfl⟩ | ⟨_, hr, _⟩
      · exact ⟨parts, .last hdesc hpart hend, stores_storedParts c parts mem'⟩
      · cases hr
    · rcases hround with ⟨hr, _⟩ | ⟨_, hr, hloop⟩
      · cases hr
      · cases hr
        obtain ⟨rest, hrest, hstores⟩ := ih (c := (storedParts c parts mem').fetched _ _) hnext hloop
        refine ⟨parts ++ rest, .more hdesc hpart hgoes hrest, ?_⟩
        rw [hstores, Ctx.fetched, stores_append, stores_storedParts, flagged_append]
        simp only [flagged, storedParts, inRam_replyAt hpart]
        simp [stores]

theorem loop_of_scatters (h : Scatters q reply i written mem parts mem') :
    ∀ {c : Ctx (FsVirtio H) M} {desc : VirtqDesc}, c.queue = q → c.mem = mem → q.getDescriptor mem i = .ok desc →
      ∃ fuel c', loop (replyStep reply) fuel (desc, written) c = .ok (written + total parts) c' ∧ c'.mem = mem' := by
  induction h with
  | @last _ _ written' _ mem' _ parts hdesc hpart hend =>
    rintro c _ rfl rfl hdesc'
    rw [hdesc] at hdesc'
    cases hdesc'
    refine ⟨1, storedParts c parts mem', loop_of_inr ?_ 0, rfl⟩
    rw [← written_replyAt hpart]
    exact replyStep_eq_ok.mpr ⟨parts, written', mem', hpart, Or.inl ⟨hend, rfl, rfl⟩⟩
  | @more _ _ written' _ mem1 _ desc parts _ hdesc hpart hgoes hrest ih =>
    rintro c _ rfl rfl hdesc'
    rw [hdesc] at hdesc'
    cases hdesc'
    obtain ⟨next, hnext⟩ := hrest.desc
    obtain ⟨fuel, c', hloop, hmem⟩ :=
      ih (c := (storedParts c parts mem1).fetched (.next desc) next) rfl rfl hnext
    rw [written_replyAt hpart, Nat.add_assoc, ← total_append] at hloop
    refine ⟨fuel + 1, c', (loop_of_inl ?_ fuel).trans hloop, hmem⟩
    rw [← written_replyAt hpart]
    exact replyStep_eq_ok.mpr ⟨parts, written', mem1, hpart, Or.inr ⟨hgoes, next, hnext, rfl, rfl⟩⟩

/-- **`write_out_reply`** lays the reply over the chain. -/
theorem scatters_of_writeOutReply {fuel : Nat} {head : UInt16}
    {sent : Nat} (h : writeOutReply fuel head reply c = .ok sent c') :
    ∃ parts, Scatters c.queue reply head 0 c.mem parts c'.mem ∧
      stores c'.log = stores c.log ++ flagged c.mem parts := by
  obtain ⟨desc, t, hdesc, hloop⟩ := bind_eq_ok.mp h
  obtain ⟨hread, rfl⟩ := Serve.getDescriptor_eq_ok.mp hdesc
  obtain ⟨parts, hparts, hstores⟩ := scatters_of_loop (c := c.fetched _ _) hread hloop
  refine ⟨parts, hparts, hstores.trans ?_⟩
  simp [Ctx.fetched, stores]

theorem writeOutReply_of_scatters {head : UInt16} (h : Scatters c.queue reply head 0 c.mem parts mem') :
    ∃ fuel c', writeOutReply fuel head reply c = .ok (total parts) c' ∧ c'.mem = mem' := by
  obtain ⟨desc, hdesc⟩ := h.desc
  obtain ⟨fuel, c', hloop, hmem⟩ := loop_of_scatters h (c := c.fetched (.head head) desc) rfl rfl hdesc
  rw [Nat.zero_add] at hloop
  refine ⟨fuel, c', bind_eq_ok.mpr ⟨desc, _, ?_, hloop⟩, hmem⟩
  exact Serve.getDescriptor_eq_ok.mpr ⟨hdesc, rfl⟩

omit [GuestMemory M] in
def Answers (bytes : Bytes) (answer : Except Errno Bytes) (c : Ctx (FsVirtio H) M) : Prop :=
  ∃ fuseDevice, SharedFolder.dispatch (FuseInHeader.new bytes).1 (FuseInHeader.new bytes).2 c.dev.fuseDevice =
    .ok answer fuseDevice

end FsVirtio

end FerrumVM
