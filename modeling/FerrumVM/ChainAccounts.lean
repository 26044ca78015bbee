import FerrumVM.PanicFreedom
import Mathlib.Data.Nat.Count

/-! What serving one chain comes to: the buffers that were stored and the used entry that was pushed, as they
stand in the log, and how many of the stored bytes are in buffers of the chain that the device may write. The
chain's buffers are read off the descriptor table as it is when the chain is popped. -/

namespace FerrumVM

open Base Program

def usedEntries (log : List Event) : List (UInt16 × UInt32) :=
  log.filterMap fun
    | .retired head len => some (head, len)
    | _ => none

@[simp] theorem usedEntries_append (log log' : List Event) :
    usedEntries (log ++ log') = usedEntries log ++ usedEntries log' := List.filterMap_append

/-! ### The buffers of a chain -/

/-- A descriptor of the chain at `head`: the first one, or the one that a descriptor with NEXT names. -/
inductive VirtioQueue.InChain (q : VirtioQueue) (m : Ram) (head : UInt16) : VirtqDesc → Prop
  | first {desc : VirtqDesc} (h : q.getDescriptor m head = .ok desc) : InChain q m head desc
  | next {desc desc' : VirtqDesc} (hdesc : InChain q m head desc) (hnext : desc.hasNext = true)
      (h : q.getDescriptor m desc.next = .ok desc') : InChain q m head desc'

/-- The descriptors of the chain at `i`, up to the one without NEXT; a chain that runs in a circle has no such
list. -/
inductive VirtioQueue.Chain (q : VirtioQueue) (m : Ram) : UInt16 → List VirtqDesc → Prop
  | last {i : UInt16} {desc : VirtqDesc} (hdesc : q.getDescriptor m i = .ok desc) (hnext : desc.hasNext = false) :
      Chain q m i [desc]
  | more {i : UInt16} {desc : VirtqDesc} {descs : List VirtqDesc} (hdesc : q.getDescriptor m i = .ok desc)
      (hnext : desc.hasNext = true) (hrest : Chain q m desc.next descs) : Chain q m i (desc :: descs)

theorem VirtioQueue.Chain.first {q : VirtioQueue} {m : Ram} {i : UInt16} {descs : List VirtqDesc}
    (h : q.Chain m i descs) : ∃ desc rest, descs = desc :: rest ∧ q.getDescriptor m i = .ok desc := by
  cases h with
  | last hdesc _ => exact ⟨_, [], rfl, hdesc⟩
  | more hdesc _ _ => exact ⟨_, _, rfl, hdesc⟩

section Count

variable {D : Type} {c t u : Ctx D Ram} {head : UInt16} {desc : VirtqDesc} {addr : UInt64} {kinds : List Prim}
  {landed : Bool}

/-- The byte at `addr` belongs to a buffer of the chain that the device may write. -/
def Ctx.Writable (c : Ctx D Ram) (head : UInt16) (addr : Nat) : Prop :=
  ∃ desc, c.queue.InChain c.mem head desc ∧ desc.isWrite = true ∧
    desc.addr.toNat ≤ addr ∧ addr < desc.addr.toNat + desc.len.toNat

open Classical in
/-- How many of the `n` bytes from `addr` on are in the chain's writable buffers, if guest RAM takes them. -/
noncomputable def Ctx.takes (c : Ctx D Ram) (head : UInt16) (addr : UInt64) (n : Nat) (landed : Bool) : Nat :=
  if landed then Nat.count (fun i => c.Writable head (addr.toNat + i)) n else 0

/-- The number of bytes that the stores put into the chain's writable buffers. -/
noncomputable def Ctx.bytesInto (c : Ctx D Ram) (head : UInt16) (stores : List (UInt64 × Bytes × Bool)) : Nat :=
  (stores.map fun s => c.takes head s.1 s.2.1.length s.2.2).sum

noncomputable def Ctx.taken (c : Ctx D Ram) (head : UInt16) (addr : UInt64) (n : Nat) : Nat :=
  c.takes head addr n (GuestMemory.inRam c.mem addr n)

theorem taken_le (c : Ctx D Ram) (head : UInt16) (addr : UInt64) (n : Nat) : c.taken head addr n ≤ n := by
  classical
  unfold Ctx.taken Ctx.takes
  split_ifs
  · exact Nat.count_le _
  · exact Nat.zero_le n

theorem takes_buffer (hdesc : c.queue.InChain c.mem head desc) (hwrite : desc.isWrite = true) {n : Nat}
    (hn : n ≤ desc.len.toNat) (landed : Bool) : c.takes head desc.addr n landed = if landed then n else 0 := by
  classical
  unfold Ctx.takes
  split_ifs
  · refine Nat.count_iff_forall.mpr fun i hi => ⟨desc, hdesc, hwrite, Nat.le_add_right _ _, ?_⟩
    omega
  · rfl

/-! ### The account of a chain -/

structure Accounts (head : UInt16) (t u : Ctx D Ram) (stored : List (UInt64 × Bytes × Bool)) (len : UInt32) : Prop where
  stored : stores u.log = stores t.log ++ stored
  entry : usedEntries u.log = usedEntries t.log ++ [(head, len)]

/-- The chain was retired with the number of bytes that were stored in its writable buffers. -/
def HonestLength (head : UInt16) (t u : Ctx D Ram) : Prop :=
  ∃ stored len, Accounts head t u stored len ∧ len.toNat = t.bytesInto head stored

variable {stored : List (UInt64 × Bytes × Bool)} {len : UInt32}

theorem honestLength_iff (h : Accounts head t u stored len) :
    HonestLength head t u ↔ len.toNat = t.bytesInto head stored := by
  constructor
  · rintro ⟨stored', len', h', hlen⟩
    have hstored : stored' = stored := List.append_cancel_left (h'.stored.symm.trans h.stored)
    have hentry := List.append_cancel_left (h'.entry.symm.trans h.entry)
    cases hentry
    exact hstored ▸ hlen
  · intro hlen
    exact ⟨stored, len, h, hlen⟩

theorem Effect.stores_eq (h : Effect kinds t u) (hwrite : .write ∉ kinds) : stores u.log = stores t.log := by
  obtain ⟨events, hlog, hkinds⟩ := h.log
  have hnone : stores events = [] := by
    refine List.filterMap_eq_nil_iff.mpr fun e he => ?_
    cases e with
    | stored addr data landed => exact absurd (hkinds _ he) hwrite
    | _ => rfl
  rw [hlog, stores_append, hnone, List.append_nil]

theorem Effect.usedEntries_eq (h : Effect kinds t u) (hpush : .push ∉ kinds) :
    usedEntries u.log = usedEntries t.log := by
  obtain ⟨events, hlog, hkinds⟩ := h.log
  have hnone : usedEntries events = [] := by
    refine List.filterMap_eq_nil_iff.mpr fun e he => ?_
    cases e with
    | retired head len => exact absurd (hkinds _ he) hpush
    | _ => rfl
  rw [hlog, usedEntries_append, hnone, List.append_nil]

theorem Accounts.after {t1 : Ctx D Ram} (heffect : Effect kinds t t1) (hwrite : .write ∉ kinds)
    (hpush : .push ∉ kinds) (h : Accounts head t1 u stored len) : Accounts head t u stored len := by
  refine ⟨h.stored.trans ?_, h.entry.trans ?_⟩
  · rw [heffect.stores_eq hwrite]
  · rw [heffect.usedEntries_eq hpush]

theorem Accounts.fetched {link : Link} (h : Accounts head (t.fetched link desc) u stored len) :
    Accounts head t u stored len := by
  refine ⟨h.stored.trans ?_, h.entry.trans ?_⟩
  · simp [Ctx.fetched, stores]
  · simp [Ctx.fetched, usedEntries]

theorem Accounts.of_dev {dev : D} (h : Accounts head { t with dev } u stored len) : Accounts head t u stored len :=
  ⟨h.stored, h.entry⟩

theorem Accounts.store {m : Ram} {data : Bytes}
    (h : Accounts head { t with mem := m, log := t.log ++ [.stored addr data landed] } u stored len) :
    Accounts head t u ((addr, data, landed) :: stored) len := by
  refine ⟨h.stored.trans ?_, h.entry.trans ?_⟩
  · rw [stores_append]
    exact List.append_assoc _ _ _
  · rw [usedEntries_append]
    exact congrArg (· ++ [(head, len)]) (List.append_nil _)

theorem Accounts.push {a worked : Bool}
    (h : (do Serve.pushUsed head len; return a : Serve D Ram Bool) t = .ok worked u) : Accounts head t u [] len := by
  obtain ⟨_, t1, hpush, hpure⟩ := bind_eq_ok.mp h
  obtain ⟨_, rfl⟩ := pure_eq_ok.mp hpure
  obtain ⟨queue, mem, _, rfl⟩ := Serve.pushUsed_eq_ok hpush
  refine ⟨?_, ?_⟩
  · rw [stores_append]
    rfl
  · rw [usedEntries_append]
    rfl

theorem bytesInto_one {data : Bytes} :
    t.bytesInto head [(addr, data, landed)] = t.takes head addr data.length landed := by
  simp [Ctx.bytesInto]

theorem bytesInto_two {data data' : Bytes} {addr' : UInt64} {landed' : Bool} :
    t.bytesInto head [(addr, data, landed), (addr', data', landed')] =
      t.takes head addr data.length landed + t.takes head addr' data'.length landed' := by
  simp [Ctx.bytesInto]

theorem bytesInto_eq_zero : t.bytesInto head stored = 0 ↔ ∀ s ∈ stored, t.takes head s.1 s.2.1.length s.2.2 = 0 := by
  unfold Ctx.bytesInto
  induction stored with
  | nil => simp
  | cons s stored ih => simp [ih]

theorem honest_whole {n : Nat} (hn : len.toNat = n) :
    len.toNat = (if landed then n else 0) ↔ n = 0 ∨ landed = true := by
  subst hn
  cases landed <;> simp

end Count

variable {head : UInt16}

theorem fetch_bind_eq_ok {D β : Type} {t u : Ctx D Ram} (link : Link) {f : VirtqDesc → Serve D Ram β} {b : β}
    (h : (Serve.getDescriptor link >>= f) t = .ok b u) :
    t.queue.getDescriptor t.mem link.index = .ok (t.descAt link.index) ∧
      f (t.descAt link.index) (t.fetched link (t.descAt link.index)) = .ok b u := by
  obtain ⟨hsafe, h⟩ := getDescriptor_bind_eq_ok.mp h
  exact ⟨VirtioQueue.getDescriptor_eq_ok.mpr ⟨hsafe, rfl⟩, h⟩

theorem head_bind_eq_ok {D β : Type} {t u : Ctx D Ram} {f : VirtqDesc → Serve D Ram β} {b : β}
    (h : (Serve.getDescriptor (.head head) >>= f) t = .ok b u) :
    t.queue.getDescriptor t.mem head = .ok (t.descAt head) ∧
      f (t.descAt head) (t.fetched (.head head) (t.descAt head)) = .ok b u :=
  fetch_bind_eq_ok (.head head) h

theorem next_bind_eq_ok {D β : Type} {t u : Ctx D Ram} {desc : VirtqDesc} {f : VirtqDesc → Serve D Ram β} {b : β}
    (h : (Serve.getDescriptor (.next desc) >>= f) t = .ok b u) :
    t.queue.getDescriptor t.mem desc.next = .ok (t.descAt desc.next) ∧
      f (t.descAt desc.next) (t.fetched (.next desc) (t.descAt desc.next)) = .ok b u :=
  fetch_bind_eq_ok (.next desc) h

end FerrumVM
