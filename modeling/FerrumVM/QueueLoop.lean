import FerrumVM.ServeRules

/-! How a device works through a queue. A program that pushes on every path retires its chain exactly
once; and a loop that serves the popped chains one by one, each with such a program, moves both indices
of the queue on together and retires the heads in the order in which it popped them. -/

namespace FerrumVM

open Base Program

def poppedHeads (log : List Event) : List UInt16 :=
  log.filterMap fun
    | .popped head => some head
    | _ => none

def retiredHeads (log : List Event) : List UInt16 :=
  log.filterMap fun
    | .retired head _ => some head
    | _ => none

@[simp] theorem poppedHeads_append (log log' : List Event) :
    poppedHeads (log ++ log') = poppedHeads log ++ poppedHeads log' := List.filterMap_append

@[simp] theorem retiredHeads_append (log log' : List Event) :
    retiredHeads (log ++ log') = retiredHeads log ++ retiredHeads log' := List.filterMap_append

/-- The buffers that were written, each with whether guest RAM took the bytes. -/
def stores (log : List Event) : List (UInt64 × Bytes × Bool) :=
  log.filterMap fun
    | .stored addr data landed => some (addr, data, landed)
    | _ => none

@[simp] theorem stores_append (log log' : List Event) : stores (log ++ log') = stores log ++ stores log' :=
  List.filterMap_append

variable {D M α β : Type}

/-- What the driver can see of a device's progress on the queue. -/
def Ctx.ring (c : Ctx D M) : VirtioQueue × List UInt16 × List UInt16 :=
  (c.queue, poppedHeads c.log, retiredHeads c.log)

variable {c : Ctx D M}

theorem ring_eq_iff {q : VirtioQueue} {popped retired : List UInt16} :
    c.ring = (q, popped, retired) ↔ c.queue = q ∧ poppedHeads c.log = popped ∧ retiredHeads c.log = retired := by
  simp only [Ctx.ring, Prod.mk.injEq]

section Memory

variable [GuestMemory M] {c' : Ctx D M} {x : Serve D M α}

theorem Effect.ring_eq {kinds : List Prim} (h : Effect kinds c c') (hpop : .pop ∉ kinds)
    (hpush : .push ∉ kinds) : c'.ring = c.ring := by
  obtain ⟨events, hlog, hkinds⟩ := h.log
  have hpopped : poppedHeads events = [] := by
    refine List.filterMap_eq_nil_iff.mpr fun e he => ?_
    cases e with
    | popped head => exact absurd (hkinds _ he) hpop
    | _ => rfl
  have hretired : retiredHeads events = [] := by
    refine List.filterMap_eq_nil_iff.mpr fun e he => ?_
    cases e with
    | retired head len => exact absurd (hkinds _ he) hpush
    | _ => rfl
  rw [Ctx.ring, Ctx.ring, h.queue hpop hpush, hlog, poppedHeads_append, retiredHeads_append, hpopped, hretired,
    List.append_nil, List.append_nil]

theorem ring_of_quiet (hx : Quiet x) {a : α} (h : x c = .ok a c') : c'.ring = c.ring :=
  (hx.effect_of_ok h).ring_eq (by decide) (by decide)

/-! ### Retiring a chain -/

/-- On a queue with entries the program pushes one used entry, for the given head. -/
def RetiresOnce (head : UInt16) (x : Serve D M α) : Prop :=
  ∀ c a c', c.queue.size ≠ 0 → x c = .ok a c' →
    c'.ring = ({ c.queue with lastUsedIdx := c.queue.lastUsedIdx + 1 }, poppedHeads c.log,
      retiredHeads c.log ++ [head])

namespace RetiresOnce

variable {head : UInt16}

theorem pushUsed (len : UInt32) : RetiresOnce head (Serve.pushUsed head len : Serve D M Unit) := by
  intro c _ c' hsize h
  obtain ⟨queue, mem, hpush, rfl⟩ := Serve.pushUsed_eq_ok h
  rcases (VirtioQueue.pushUsed_eq_ok hpush).2 with ⟨hzero, _⟩ | ⟨_, rfl⟩
  · exact absurd hzero hsize
  · simp only [Ctx.ring, poppedHeads_append, retiredHeads_append]
    simp [poppedHeads, retiredHeads]

theorem after {f : α → Serve D M β} (hx : Quiet x) (hf : ∀ a, RetiresOnce head (f a)) :
    RetiresOnce head (x >>= f) := by
  intro c b c' hsize h
  obtain ⟨a, t, hxs, hfs⟩ := bind_eq_ok.mp h
  obtain ⟨hq, hp, hr⟩ := ring_eq_iff.mp (ring_of_quiet hx hxs)
  have hend := hf a t b c' (by rwa [hq]) hfs
  rwa [hq, hp, hr] at hend

theorem before {f : α → Serve D M β} (hx : RetiresOnce head x) (hf : ∀ a, Quiet (f a)) :
    RetiresOnce head (x >>= f) := by
  intro c b c' hsize h
  obtain ⟨a, t, hxs, hfs⟩ := bind_eq_ok.mp h
  exact (ring_of_quiet (hf a) hfs).trans (hx c a t hsize hxs)

omit [GuestMemory M] in
theorem ite {p : Prop} [Decidable p] {y : Serve D M α} (hx : p → RetiresOnce head x)
    (hy : ¬p → RetiresOnce head y) : RetiresOnce head (if p then x else y) := by
  split_ifs with h
  · exact hx h
  · exact hy h

omit [GuestMemory M] in
theorem throw (e : Fault) : RetiresOnce head (throw e : Serve D M α) :=
  fun _ _ _ _ h => absurd h throw_ne_ok

/-- `queue.push_used(..)` as the last step of a chain. -/
theorem finish (len : UInt32) (a : α) : RetiresOnce head (do Serve.pushUsed head len; return a : Serve D M α) :=
  (pushUsed len).before fun _ => .pure a

end RetiresOnce

/-! ### Serving the popped chains -/

def VirtioQueue.advance (q : VirtioQueue) (n : Nat) : VirtioQueue :=
  { q with
    lastAvailIdx := q.lastAvailIdx + UInt16.ofNat n
    lastUsedIdx := q.lastUsedIdx + UInt16.ofNat n }

/-- The chains with the given heads were popped and retired, in order. -/
def Served (heads : List UInt16) (c c' : Ctx D M) : Prop :=
  c'.ring = (c.queue.advance heads.length, poppedHeads c.log ++ heads, retiredHeads c.log ++ heads)

omit [GuestMemory M] in
/-- The context once a head is popped; fetching a job may also change the device. -/
def Ctx.pop (c : Ctx D M) (dev : D) (head : UInt16) : Ctx D M where
  dev := dev
  queue := { c.queue with lastAvailIdx := c.queue.lastAvailIdx + 1 }
  mem := c.mem
  log := c.log ++ [.popped head]

/-- The loop's source of jobs is the available ring: a job is a popped chain. -/
structure Pops (next : Serve D M (Option α)) (headOf : α → UInt16) : Prop where
  none : ∀ c c', next c = .ok none c' → ∃ dev, c' = { c with dev }
  some : ∀ c job c', next c = .ok (some job) c' → c.queue.size ≠ 0 ∧ ∃ dev, c' = c.pop dev (headOf job)
  fault : ∀ c e c', next c = .error e c' → ∃ dev, c' = { c with dev }

theorem pops_popAvail : Pops (Serve.popAvail : Serve D M (Option UInt16)) id where
  none c c' h := ⟨c.dev, Serve.popAvail_none h⟩
  some c head c' h := by
    obtain ⟨hsize, rfl⟩ := Serve.popAvail_some h
    exact ⟨hsize, c.dev, rfl⟩
  fault c e c' h := ⟨c.dev, act_eq_error h⟩

end Memory

theorem Pops.ring_none {next : Serve D M (Option α)} {headOf : α → UInt16} (h : Pops next headOf)
    (hnext : next c = .ok Option.none c') : c'.ring = c.ring := by
  obtain ⟨dev, rfl⟩ := h.none c c' hnext
  rfl

theorem Served.refl (h : c'.ring = c.ring) : Served [] c c' := by
  rw [Served, h]
  simp [Ctx.ring, VirtioQueue.advance]

variable {t : Ctx D M}

theorem served_cons {head : UInt16} {heads : List UInt16} (hone : t.ring = ({ c.queue with
      lastAvailIdx := c.queue.lastAvailIdx + 1, lastUsedIdx := c.queue.lastUsedIdx + 1 },
      poppedHeads c.log ++ [head], retiredHeads c.log ++ [head]))
    (hrest : Served heads t c') : Served (head :: heads) c c' := by
  obtain ⟨hq, hp, hr⟩ := ring_eq_iff.mp hone
  rw [Served, hq, hp, hr] at hrest
  rw [Served, hrest]
  simp only [VirtioQueue.advance, List.length_cons, List.append_assoc, List.singleton_append,
    UInt16.add_assoc, Nat.add_comm heads.length 1, UInt16.ofNat_add]
  rfl

/-- **Serving a run of chains.** -/
theorem served_of_drained {next : Serve D M (Option α)} {headOf : α → UInt16} {serve : α → Serve D M Bool}
    (hnext : Pops next headOf) (hserve : ∀ job, RetiresOnce (headOf job) (serve job))
    {jobs : List (α × Bool)} (h : Drained next serve c jobs c') : Served (jobs.map fun job => headOf job.1) c c' := by
  induction h with
  | nil c => exact .refl rfl
  | @cons c c1 c2 c' job worked jobs hpop hserved _ ih =>
    obtain ⟨hsize, dev, rfl⟩ := hnext.some c job c1 hpop
    have hone := hserve job (c.pop dev (headOf job)) worked c2 hsize hserved
    refine served_cons (hone.trans ?_) ih
    simp [Ctx.pop, poppedHeads, retiredHeads]

theorem Served.trans_ring {heads : List UInt16} (h : Served heads c t)
    (hring : c'.ring = t.ring) : Served heads c c' :=
  hring.trans h

/-! ### The loop of a queue -/

/-- How a device works on one of its queues: where the jobs come from, how one is served, and after how
many the loop stops by itself. -/
structure QueueLoop (D M : Type) where
  Job : Type
  next : Serve D M (Option Job)
  serve : (fuel : Nat) → Job → Serve D M Bool
  headOf : Job → UInt16
  batch : Option Nat

namespace QueueLoop

variable {l : QueueLoop D M} {jobs : List (l.Job × Bool)} {serve : Nat → UInt16 → Serve D M Bool} {fuel : Nat}
  {batch : Option Nat}

abbrev ofPops [GuestMemory M] (serve : (fuel : Nat) → UInt16 → Serve D M Bool) (batch : Option Nat) :
    QueueLoop D M where
  Job := UInt16
  next := Serve.popAvail
  serve := serve
  headOf := id
  batch := batch

def run (l : QueueLoop D M) (fuel : Nat) : Serve D M Bool :=
  match l.batch with
  | none => drain l.next (l.serve fuel) fuel
  | some batch => drainBatch l.next (l.serve fuel) batch

/-- The jobs that the loop serves from `c` on, in a state from which it goes on to `t`. -/
abbrev Serves (l : QueueLoop D M) (fuel : Nat) (c : Ctx D M) (jobs : List (l.Job × Bool)) (t : Ctx D M) : Prop :=
  Drained l.next (l.serve fuel) c jobs t

def Within (l : QueueLoop D M) (count : Nat) : Prop := ∀ batch, l.batch = some batch → count ≤ batch

theorem run_eq_ok {worked : Bool} (h : l.run fuel c = .ok worked c') :
    ∃ jobs t, l.Serves fuel c jobs t ∧ worked = jobs.any (·.2) ∧ l.Within jobs.length ∧
      (l.next t = .ok none c' ∨ (l.batch = some jobs.length ∧ t = c')) := by
  unfold run at h
  cases hbatch : l.batch with
  | none =>
    rw [hbatch] at h
    obtain ⟨jobs, t, hserves, _, hidle, hworked⟩ := drain_eq_ok.mp h
    exact ⟨jobs, t, hserves, hworked, by simp [Within, hbatch], Or.inl hidle⟩
  | some batch =>
    rw [hbatch] at h
    obtain ⟨jobs, t, hserves, hworked, hend⟩ := drainBatch_eq_ok.mp h
    have hle : jobs.length ≤ batch := by
      rcases hend with ⟨hlt, _⟩ | ⟨heq, _⟩
      · exact Nat.le_of_lt hlt
      · exact Nat.le_of_eq heq
    refine ⟨jobs, t, hserves, hworked, fun b hb => ?_, ?_⟩
    · rw [hbatch] at hb
      cases hb
      exact hle
    · rcases hend with ⟨_, hidle⟩ | ⟨rfl, rfl⟩
      · exact Or.inl hidle
      · exact Or.inr ⟨rfl, rfl⟩

section

variable {I : D → Prop} (hnext : KeepsDev I l.next) (hserve : ∀ fuel job, KeepsDev I (l.serve fuel job))
include hnext hserve

theorem dev_of_serves (h : l.Serves fuel c jobs t) (hc : I c.dev) : I t.dev := by
  refine Drained.invariant (I := fun c => I c.dev) (fun c c1 c2 job worked hc hpop hjob => ?_) h hc
  have hpopped : I c1.dev := finalState_of_ok hpop ▸ hnext c hc
  exact finalState_of_ok hjob ▸ hserve fuel job c1 hpopped

theorem dev_of_run {worked : Bool} (h : l.run fuel c = .ok worked c') (hc : I c.dev) : I c'.dev := by
  obtain ⟨jobs, t, hjobs, _, _, hend⟩ := run_eq_ok h
  have hdev := dev_of_serves hnext hserve hjobs hc
  rcases hend with hidle | ⟨_, rfl⟩
  · exact finalState_of_ok hidle ▸ hnext t hdev
  · exact hdev

end

def Reaches (l : QueueLoop D M) (c : Ctx D M) (job : l.Job) (t : Ctx D M) : Prop :=
  ∃ fuel jobs t₀, l.Serves fuel c jobs t₀ ∧ l.Within (jobs.length + 1) ∧ l.next t₀ = .ok (some job) t

theorem dev_of_reaches {I : D → Prop} (hnext : KeepsDev I l.next)
    (hserve : ∀ fuel job, KeepsDev I (l.serve fuel job)) {job : l.Job} (h : l.Reaches c job t)
    (hc : I c.dev) : I t.dev := by
  obtain ⟨fuel, jobs, t₀, hjobs, _, hpop⟩ := h
  exact finalState_of_ok hpop ▸ hnext t₀ (dev_of_serves hnext hserve hjobs hc)

theorem Serves.mono (hl : ∀ job, FuelMono fun fuel => l.serve fuel job) {fuel' : Nat}
    (hle : fuel ≤ fuel') (h : l.Serves fuel c jobs t) : l.Serves fuel' c jobs t := by
  induction h with
  | nil c => exact .nil c
  | @cons c c1 c2 t job worked jobs hnext hserve _ ih =>
    exact .cons hnext ((hl job fuel fuel' c1 hle (by simp [hserve])).trans hserve) ih

section Returned

variable {l : QueueLoop D M} (hl : ∀ job, FuelMono fun fuel => l.serve fuel job) {fuel : Nat} {c t c' : Ctx D M}
  {jobs : List (l.Job × Bool)} (hserves : l.Serves fuel c jobs t)
  (hend : l.next t = .ok none c' ∨ (l.batch = some jobs.length ∧ t = c'))
include hl hserves hend

section

variable {fuel' : Nat} {before : List (l.Job × Bool)} {u : Ctx D M} (hbefore : l.Serves fuel' c before u)
include hbefore

theorem first_of_run (hwithin : l.Within before.length) : ∃ rest, jobs = before ++ rest := by
  have hserves' := Serves.mono hl (Nat.le_max_left fuel fuel') hserves
  have hbefore' := Serves.mono hl (Nat.le_max_right fuel fuel') hbefore
  rcases hbefore'.compare hserves' with ⟨rest, hrest, _⟩ | ⟨rest, rfl, hrest⟩
  · exact ⟨rest, hrest⟩
  · cases hrest with
    | nil => exact ⟨[], by simp⟩
    | cons hnext =>
      rcases hend with hidle | ⟨hbatch, _⟩
      · rw [hidle] at hnext
        cases hnext
      · have hle := hwithin _ hbatch
        simp only [List.length_append, List.length_cons] at hle
        omega

/-- In every state in which the loop looked for a job, it was done, or it found a job and served it. -/
theorem polled_of_run (hroom : l.Within (before.length + 1)) :
    l.next u = .ok none c' ∨ ∃ job worked after v v', jobs = before ++ (job, worked) :: after ∧
      l.Serves fuel c before u ∧ l.next u = .ok (some job) v ∧ l.serve fuel job v = .ok worked v' := by
  have hserves' := Serves.mono hl (Nat.le_max_left fuel fuel') hserves
  have hbefore' := Serves.mono hl (Nat.le_max_right fuel fuel') hbefore
  obtain ⟨rest, rfl⟩ := first_of_run hl hserves hend hbefore fun batch hbatch =>
    Nat.le_of_succ_le (hroom batch hbatch)
  cases rest with
  | nil =>
    rw [List.append_nil] at hserves' hend
    obtain rfl := hbefore'.unique hserves'
    rcases hend with hidle | ⟨hbatch, _⟩
    · exact Or.inl hidle
    · exact absurd (hroom _ hbatch) (Nat.not_succ_le_self _)
  | cons first rest =>
    obtain ⟨v0, v, v', hfirst, hnext, hserve, _⟩ := hserves.split
    obtain rfl := hbefore'.unique (Serves.mono hl (Nat.le_max_left fuel fuel') hfirst)
    exact Or.inr ⟨first.1, first.2, rest, v, v', rfl, hfirst, hnext, hserve⟩

end

theorem reaches_iff (hwithin : l.Within jobs.length) {job : l.Job} {u : Ctx D M} :
    l.Reaches c job u ↔ ∃ before worked after u0 u', jobs = before ++ (job, worked) :: after ∧
      l.Serves fuel c before u0 ∧ l.next u0 = .ok (some job) u ∧ l.serve fuel job u = .ok worked u' := by
  constructor
  · rintro ⟨fuel', before, u0, hbefore, hroom, hnext⟩
    rcases polled_of_run hl hserves hend hbefore hroom with hidle |
      ⟨job', worked, after, v, v', hjobs, hbefore', hnext', hserve⟩
    · rw [hidle] at hnext
      cases hnext
    · rw [hnext] at hnext'
      cases hnext'
      exact ⟨before, worked, after, u0, v', hjobs, hbefore', hnext, hserve⟩
  · rintro ⟨before, worked, after, u0, u', rfl, hbefore, hnext, _⟩
    refine ⟨fuel, before, u0, hbefore, fun batch hbatch => ?_, hnext⟩
    have hle := hwithin batch hbatch
    simp only [List.length_append, List.length_cons] at hle
    omega

end Returned

theorem ofPops_reaches_first [GuestMemory M]
    {head : UInt16} (hroom : (ofPops serve batch).Within 1) (hpop : Serve.popAvail c = .ok (some head) t) :
    (ofPops serve batch).Reaches c head t :=
  ⟨0, [], c, .nil c, hroom, hpop⟩

theorem ofPops_reaches_only [GuestMemory M] {head : UInt16} (hpop : Serve.popAvail c = .ok (some head) t)
    (hidle : ∀ fuel worked u, serve fuel head t = .ok worked u → ∃ u', Serve.popAvail u = .ok none u')
    {head' : UInt16} {t' : Ctx D M} (h : (ofPops serve batch).Reaches c head' t') : head' = head ∧ t' = t := by
  obtain ⟨fuel, jobs, t₀, hserves, _, hnext⟩ := h
  cases hserves with
  | nil =>
    have heq := hpop.symm.trans hnext
    cases heq
    exact ⟨rfl, rfl⟩
  | cons hfirst hserve hrest =>
    have heq := hpop.symm.trans hfirst
    cases heq
    obtain ⟨u', hnone⟩ := hidle _ _ _ hserve
    cases hrest with
    | nil => cases hnone.symm.trans hnext
    | cons hsecond => cases hnone.symm.trans hsecond

/-! ### Runs that come to an end -/

def Polls (l : QueueLoop D M) (c t : Ctx D M) : Prop :=
  ∃ fuel jobs, l.Serves fuel c jobs t ∧ l.Within (jobs.length + 1)

/-- Whatever the loop meets on its way is safe, and it comes to a state in which it is idle, unless the
length of a batch stops it. -/
structure SafeRun (l : QueueLoop D M) (idle polls : Ctx D M → Prop) (serves : l.Job → Ctx D M → Prop)
    (c : Ctx D M) : Prop where
  ends : l.batch = none → ∃ t, l.Polls c t ∧ idle t
  polls : ∀ t, l.Polls c t → polls t
  serves : ∀ job t, l.Reaches c job t → serves job t

/-- The loop returns from a state in which it finds nothing, and from one in which its batch is full. -/
theorem returns_run_of_serves
    (hserves : l.Serves fuel c jobs t) (hwithin : l.Within jobs.length) (hfuel : jobs.length < fuel)
    (hend : (∃ c', l.next t = .ok none c') ∨ l.batch = some jobs.length) : Returns (l.run fuel) c := by
  unfold run
  cases hbatch : l.batch with
  | none =>
    rcases hend with ⟨c', hidle⟩ | hsome
    · exact .of_ok (drain_eq_ok.mpr ⟨jobs, t, hserves, hfuel, hidle, rfl⟩)
    · rw [hbatch] at hsome
      cases hsome
  | some batch =>
    rcases Nat.lt_or_eq_of_le (hwithin batch hbatch) with hlt | heq
    · rcases hend with ⟨c', hidle⟩ | hsome
      · exact .of_ok (drainBatch_eq_ok.mpr ⟨jobs, t, hserves, rfl, Or.inl ⟨hlt, hidle⟩⟩)
      · rw [hbatch] at hsome
        cases hsome
        exact absurd hlt (Nat.lt_irrefl _)
    · exact .of_ok (drainBatch_eq_ok.mpr ⟨jobs, t, hserves, rfl, Or.inr ⟨heq, rfl⟩⟩)

/-- From a state on its way, with at most `n` jobs ahead, a safe run comes to its end. -/
theorem returns_of_safe (hl : ∀ job, FuelMono fun fuel => l.serve fuel job)
    (hpolls : ∀ t, l.Polls c t → Returns l.next t)
    (hjobs : ∀ job t, l.Reaches c job t → ∃ fuel, Returns (l.serve fuel job) t) {n : Nat}
    (hn : ∀ fuel jobs t, l.Serves fuel c jobs t → l.Within jobs.length → jobs.length ≤ n) {k : Nat}
    (hserves : l.Serves fuel c jobs t) (hwithin : l.Within jobs.length)
    (hk : n < jobs.length + k) : ∃ fuel, Returns (l.run fuel) c := by
  induction k generalizing fuel jobs t with
  | zero => exact absurd (hn fuel jobs t hserves hwithin) (by omega)
  | succ k ih =>
    have hfuel := Serves.mono hl (Nat.le_max_left fuel (jobs.length + 1)) hserves
    by_cases hfull : l.batch = some jobs.length
    · exact ⟨_, returns_run_of_serves hfuel hwithin (by omega) (Or.inr hfull)⟩
    have hroom : l.Within (jobs.length + 1) := by
      intro batch hbatch
      have hle := hwithin batch hbatch
      have hne : batch ≠ jobs.length := fun heq => hfull (heq ▸ hbatch)
      omega
    obtain ⟨job?, u, hnext⟩ := hpolls t ⟨fuel, jobs, hserves, hroom⟩
    cases job? with
    | none => exact ⟨_, returns_run_of_serves hfuel hwithin (by omega) (Or.inl ⟨u, hnext⟩)⟩
    | some job =>
      obtain ⟨fuel', worked, v, hserve⟩ := hjobs job u ⟨fuel, jobs, t, hserves, hroom, hnext⟩
      -- One more job is served, with the fuel that both parts of the run need.
      have hmore := (hl job fuel' (max fuel fuel') u (Nat.le_max_right _ _) (by simp [hserve])).trans hserve
      have hlonger := (Serves.mono hl (Nat.le_max_left fuel fuel') hserves).snoc hnext hmore
      refine ih hlonger ?_ ?_
      · simpa using hroom
      · simp only [List.length_append, List.length_singleton]
        omega

/-- A loop with a batch, and one that comes to a state in which it finds nothing, serves only so many
jobs. -/
theorem bounded_of_ends (hl : ∀ job, FuelMono fun fuel => l.serve fuel job)
    (hends : l.batch = none → ∃ t, l.Polls c t ∧ ∃ c', l.next t = .ok none c') :
    ∃ n, ∀ fuel jobs t, l.Serves fuel c jobs t → l.Within jobs.length → jobs.length ≤ n := by
  cases hbatch : l.batch with
  | some batch => exact ⟨batch, fun _ _ _ _ hwithin => hwithin batch hbatch⟩
  | none =>
    obtain ⟨t, ⟨fuel, jobs, hserves, _⟩, c', hidle⟩ := hends hbatch
    refine ⟨jobs.length, fun fuel' before u hbefore hwithin => ?_⟩
    obtain ⟨rest, rfl⟩ := first_of_run hl hserves (Or.inl hidle) hbefore hwithin
    simp

/-- **A run returns** exactly when it is safe all the way. -/
theorem returns_iff (hl : ∀ job, FuelMono fun fuel => l.serve fuel job)
    {idle polls : Ctx D M → Prop} {serves : l.Job → Ctx D M → Prop}
    (hidle : ∀ t, idle t ↔ ∃ c', l.next t = .ok none c') (hpolls : ∀ t, polls t ↔ Returns l.next t)
    (hserves : ∀ job t, l.Reaches c job t → (serves job t ↔ ∃ fuel, Returns (l.serve fuel job) t)) :
    (∃ fuel, Returns (l.run fuel) c) ↔ l.SafeRun idle polls serves c := by
  constructor
  · rintro ⟨fuel, worked, c', hrun⟩
    obtain ⟨jobs, t, hjobs, _, hwithin, hend⟩ := run_eq_ok hrun
    refine ⟨fun hbatch => ?_, ?_, ?_⟩
    · have hroom : l.Within (jobs.length + 1) := by simp [Within, hbatch]
      rcases hend with hnext | ⟨hsome, _⟩
      · exact ⟨t, ⟨fuel, jobs, hjobs, hroom⟩, (hidle t).mpr ⟨c', hnext⟩⟩
      · rw [hbatch] at hsome
        cases hsome
    · rintro u ⟨fuel', before, hbefore, hroom⟩
      refine (hpolls u).mpr ?_
      rcases polled_of_run hl hjobs hend hbefore hroom with hnext | ⟨_, _, _, v, _, _, _, hnext, _⟩
      · exact .of_ok hnext
      · exact .of_ok hnext
    · intro job u hreach
      obtain ⟨_, worked, _, _, u', _, _, _, hserve⟩ := (reaches_iff hl hjobs hend hwithin).mp hreach
      exact (hserves job u hreach).mpr ⟨fuel, worked, u', hserve⟩
  · rintro ⟨hends, hsafe, hjobs⟩
    obtain ⟨n, hn⟩ := bounded_of_ends hl fun hbatch => by
      obtain ⟨t, ht, ht'⟩ := hends hbatch
      exact ⟨t, ht, (hidle t).mp ht'⟩
    have hnone : l.Serves 0 c [] c := .nil c
    refine returns_of_safe hl (fun t ht => (hpolls t).mp (hsafe t ht))
      (fun job t ht => (hserves job t ht).mp (hjobs job t ht)) hn (k := n + 1) hnone ?_ ?_
    · exact fun _ _ => Nat.zero_le _
    · simp

/-- The jobs are popped chains, and serving one retires it. -/
structure Lawful [GuestMemory M] (l : QueueLoop D M) : Prop where
  pops : Pops l.next l.headOf
  uses : ∀ fuel job, Service (l.serve fuel job)
  retires : ∀ fuel job, RetiresOnce (l.headOf job) (l.serve fuel job)
  mono : ∀ job, FuelMono fun fuel => l.serve fuel job

theorem Lawful.ofPops [GuestMemory M] (huses : ∀ fuel head, Service (serve fuel head))
    (hretires : ∀ fuel head, RetiresOnce head (serve fuel head))
    (hmono : ∀ head, FuelMono fun fuel => serve fuel head) : (QueueLoop.ofPops serve batch).Lawful where
  pops := pops_popAvail
  uses := huses
  retires := hretires
  mono := hmono

/-- **A run of the loop** retires the chains it pops, in order. -/
theorem Lawful.served [GuestMemory M] (hl : l.Lawful) {worked : Bool}
    (h : l.run fuel c = .ok worked c') : ∃ heads, Served heads c c' := by
  obtain ⟨jobs, t, hserves, _, _, hend⟩ := run_eq_ok h
  have hserved := served_of_drained hl.pops (hl.retires fuel) hserves
  rcases hend with hidle | ⟨_, rfl⟩
  · exact ⟨_, hserved.trans_ring (hl.pops.ring_none hidle)⟩
  · exact ⟨_, hserved⟩

end QueueLoop

/-- A tick that runs the loop of the queue, if the queue has one. -/
def tickLoop (l? : Option (QueueLoop D M)) (fuel : Nat) : Serve D M Bool :=
  match l? with
  | none => return false
  | some l => l.run fuel

theorem forall_single {P : QueueLoop D M → Prop} {attached : Bool} {queueSel : Nat} {first : QueueLoop D M} :
    (∀ l, (if queueSel ≠ 0 ∨ !attached then none else some first) = some l → P l) ↔
      (attached = true → queueSel = 0 → P first) := by
  split_ifs with h
  · exact iff_of_true nofun fun hatt hsel => absurd h (by simp [hatt, hsel])
  · simp only [ne_eq, Bool.not_eq_true', not_or, not_not, Bool.not_eq_false] at h
    simp [h.1, h.2]

/-- Devices whose ticks run lawful loops. -/
class QueueDevice (D M : Type) [GuestMemory M] [VirtioDevice D M] where
  queueLoop : D → Nat → Option (QueueLoop D M)
  tick_eq (fuel queueSel : Nat) (c : Ctx D M) :
    VirtioDevice.tick fuel queueSel c = tickLoop (queueLoop c.dev queueSel) fuel c
  lawful {dev : D} {queueSel : Nat} {l : QueueLoop D M} : queueLoop dev queueSel = some l → l.Lawful

end FerrumVM
