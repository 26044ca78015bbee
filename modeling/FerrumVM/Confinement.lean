import FerrumVM.FuseChain
import FerrumVM.Shipped

/-! Where a device looks for descriptors. The driver chooses the heads and the `next` fields, so each
fetch is judged against the walk that led to it: the head that was popped and the descriptors read since.
The devices check different things on the way, and each stays in the table exactly when the driver keeps
to the rest. -/

namespace FerrumVM

open Base Program Serve VirtioDevice

variable {head : UInt16}

/-- The walk through the chain at hand: its head, and the descriptors read so far. -/
structure Walk where
  head : Option UInt16
  seen : List VirtqDesc

namespace Walk

def step (w : Walk) : Event → Walk
  | .popped head => ⟨some head, []⟩
  | .descriptor desc => { w with seen := desc :: w.seen }
  | _ => w

/-- The fetch follows the chain: it is inside the table, and it is of the head or of the successor that a
descriptor read before names with its NEXT flag set. -/
def Allows (w : Walk) (size : UInt16) (link : Link) : Prop :=
  link.index < size ∧
    match link with
    | .head index => w.head = some index
    | .next desc => desc ∈ w.seen ∧ desc.hasNext = true

end Walk

theorem Walk.allows_next {w : Walk} {desc : VirtqDesc} (h : desc ∈ w.seen) (size : UInt16) :
    w.Allows size (.next desc) ↔ desc.hasNext = true ∧ desc.next < size := by
  simp only [Walk.Allows, Link.index, h, true_and]
  exact and_comm

def walkOf (log : List Event) : Walk := log.foldl Walk.step ⟨none, []⟩

variable {D M α β : Type}

def Ctx.walk (c : Ctx D M) : Walk := walkOf c.log

def Stays (x : Serve D M α) (c : Ctx D M) : Prop :=
  ∀ events link rest, (x.finalState c).log = c.log ++ events ++ .fetch link :: rest →
    (walkOf (c.log ++ events)).Allows c.queue.size link

theorem walk_fetched (c : Ctx D M) (link : Link) (desc : VirtqDesc) :
    (c.fetched link desc).walk = { c.walk with seen := desc :: c.walk.seen } := by
  simp [Ctx.walk, Ctx.fetched, walkOf, Walk.step]

theorem mem_walk_fetched (c : Ctx D M) (link : Link) (desc : VirtqDesc) : desc ∈ (c.fetched link desc).walk.seen := by
  rw [walk_fetched]
  exact List.mem_cons_self

theorem walk_pop (c : Ctx D M) (dev : D) (head : UInt16) : (c.pop dev head).walk = ⟨some head, []⟩ := by
  simp [Ctx.walk, Ctx.pop, walkOf, Walk.step]

variable {x : Serve D M α} {c : Ctx D M}

theorem stays_of_log (h : ∀ link, .fetch link ∉ (x.finalState c).log.drop c.log.length) : Stays x c := by
  intro events link rest hlog
  refine absurd ?_ (h link)
  rw [hlog, List.append_assoc, List.drop_left]
  simp

/-- The program adds to the log and keeps the size of the queue. -/
class Grows (x : Serve D M α) : Prop where
  log : ∀ c, ∃ events, (x.finalState c).log = c.log ++ events
  size : ∀ c, (x.finalState c).queue.size = c.queue.size

instance Grows.pure (a : α) : Grows (pure a : Serve D M α) :=
  ⟨fun c => ⟨[], (List.append_nil c.log).symm⟩, fun _ => rfl⟩

instance Grows.throw (e : Fault) : Grows (throw e : Serve D M α) :=
  ⟨fun c => ⟨[], (List.append_nil c.log).symm⟩, fun _ => rfl⟩

instance Grows.ite {p : Prop} [Decidable p] {y : Serve D M α} [Grows x] [Grows y] : Grows (if p then x else y) := by
  split_ifs <;> infer_instance

variable {f : α → Serve D M β}

instance Grows.bind [hx : Grows x] [hf : ∀ a, Grows (f a)] : Grows (x >>= f) := by
  constructor
  · intro c
    obtain ⟨ex, hlog⟩ := hx.log c
    cases hrun : x c with
    | error e t =>
      rw [finalState_of_error hrun] at hlog
      exact ⟨ex, by rw [finalState_bind_of_error hrun, hlog]⟩
    | ok a t =>
      rw [finalState_of_ok hrun] at hlog
      obtain ⟨ef, hlog'⟩ := (hf a).log t
      exact ⟨ex ++ ef, by rw [finalState_bind_of_ok hrun, hlog', hlog, List.append_assoc]⟩
  · intro c
    have hsize := hx.size c
    cases hrun : x c with
    | error e t => rwa [finalState_bind_of_error hrun, ← finalState_of_error hrun]
    | ok a t =>
      rw [finalState_of_ok hrun] at hsize
      rw [finalState_bind_of_ok hrun, (hf a).size t, hsize]

theorem walkOf_head {log events : List Event} (h : ∀ e ∈ events, e.prim ≠ .pop) :
    (walkOf (log ++ events)).head = (walkOf log).head := by
  induction events generalizing log with
  | nil => rw [List.append_nil]
  | cons e events ih =>
    have hstep : (walkOf (log ++ [e])).head = (walkOf log).head := by
      rw [walkOf, List.foldl_append]
      cases e with
      | popped head => exact absurd rfl (h _ List.mem_cons_self)
      | _ => rfl
    rw [← List.singleton_append, ← List.append_assoc, ih fun e' he' => h e' (List.mem_cons_of_mem _ he'), hstep]

theorem stays_bind [hx : Grows x] [hf : ∀ a, Grows (f a)] :
    Stays (x >>= f) c ↔ Stays x c ∧ ∀ a t, x c = .ok a t → Stays (f a) t := by
  obtain ⟨ex, hlog⟩ := hx.log c
  have hsize := hx.size c
  cases hrun : x c with
  | error e t =>
    unfold Stays
    rw [finalState_bind_of_error hrun, finalState_of_error hrun]
    simp
  | ok a t =>
    obtain ⟨ef, hlog'⟩ := (hf a).log t
    rw [finalState_of_ok hrun] at hlog hsize
    unfold Stays
    rw [finalState_bind_of_ok hrun, finalState_of_ok hrun, hlog']
    constructor
    · intro h
      refine ⟨fun events link rest heq => h events link (rest ++ ef) ?_, ?_⟩
      · rw [heq]
        simp
      · rintro _ _ ⟨rfl, rfl⟩ events link rest heq
        rw [hlog'] at heq
        have hall := h (ex ++ events) link rest (by rw [heq, hlog]; simp)
        rwa [← List.append_assoc, ← hlog, ← hsize] at hall
    · rintro ⟨hfirst, hthen⟩ events link rest heq
      rw [hlog, List.append_assoc, List.append_assoc, List.append_cancel_left_eq] at heq
      -- The fetch is one of the first program, or one of the second.
      rcases List.append_eq_append_iff.mp heq with ⟨more, hevents, hef⟩ | ⟨more, hex, hrest⟩
      · have hall := hthen a t rfl more link rest (by rw [hlog', hef]; simp)
        rwa [hlog, List.append_assoc, ← hevents, hsize] at hall
      · cases more with
        | nil =>
          have hall := hthen a t rfl [] link rest (by rw [hlog']; simpa using hrest.symm)
          rw [List.append_nil] at hex
          rwa [List.append_nil, hlog, hsize, hex] at hall
        | cons first more =>
          cases hrest
          exact hfirst events link more (by rw [hlog, hex]; simp)

section Rules

variable [GuestMemory M] {kinds : List Prim} {c : Ctx D M}

theorem Uses.grows (hx : Uses kinds x) : Grows x where
  log c := by
    obtain ⟨events, hlog, _⟩ := (hx.effect c).log
    exact ⟨events, hlog⟩
  size c := (hx.effect c).size_eq

instance (addr : UInt64) (len : Nat) : Grows (Serve.readGuestMemoryAlloc addr len : Serve D M Bytes) :=
  (Uses.readGuestMemoryAlloc addr len (by decide) : Uses [.read] _).grows

instance (link : Link) : Grows (Serve.getDescriptor link : Serve D M VirtqDesc) :=
  (Uses.getDescriptor link (by decide) : Uses [.fetch] _).grows

instance (head : UInt16) (len : UInt32) : Grows (Serve.pushUsed head len : Serve D M Unit) :=
  (Uses.pushUsed head len (by decide) : Uses [.push] _).grows

instance : Grows (get : Serve D M (Ctx D M)) := (Uses.get : Uses [] _).grows

instance (x : Exec α) : Grows (lift x : Serve D M α) := (Uses.lift x : Uses [] _).grows

theorem stays_of_uses (hx : Uses kinds x) (hfetch : .fetch ∉ kinds) : Stays x c := by
  obtain ⟨events, hlog, hkinds⟩ := (hx.effect c).log
  refine stays_of_log fun link hmem => hfetch ?_
  rw [hlog, List.drop_left] at hmem
  exact hkinds _ hmem

abbrev Still (x : Serve D M α) : Prop := Uses [.read, .write, .push, .dev] x

theorem Still.stays (hx : Still x) : Stays x c := stays_of_uses hx (by decide)

theorem stays_before_still (hx : Uses kinds x) (hf : ∀ a, Still (f a)) : Stays (x >>= f) c ↔ Stays x c := by
  have := hx.grows
  have (a : α) := (hf a).grows
  rw [stays_bind]
  exact and_iff_left fun a t _ => (hf a).stays

theorem stays_bind_of_still (hx : Uses kinds x) (hfetch : .fetch ∉ kinds) [∀ a, Grows (f a)] :
    Stays (x >>= f) c ↔ ∀ a t, x c = .ok a t → Stays (f a) t := by
  have := hx.grows
  rw [stays_bind]
  exact and_iff_right (stays_of_uses hx hfetch)

theorem Effect.eq_of_read {c' : Ctx D M} (h : Effect [.read] c c') : c' = c := by
  obtain ⟨events, hlog, hkinds⟩ := h.log
  have hnone : events = [] := by
    refine List.eq_nil_iff_forall_not_mem.mpr fun e he => ?_
    have hread := hkinds e he
    cases e <;> simp [Event.prim] at hread
  refine Ctx.ext (h.dev (by decide)) (h.queue_eq) (h.mem_eq) ?_
  rw [hlog, hnone, List.append_nil]

theorem Looks.eq_ok_iff {f : VirtioQueue → M → Exec α} (h : Looks x f) (hx : Uses [.read] x)
    {a : α} : x c = .ok a c ↔ f c.queue c.mem = .ok a := by
  refine ⟨fun hrun => (h.of_ok hrun).1, fun hf => ?_⟩
  obtain ⟨log, hlook⟩ := h c
  rw [hf] at hlook
  exact hlook.trans (congrArg (EStateM.Result.ok a) (hx.effect_of_ok hlook).eq_of_read)

theorem stays_bind_of_read (hx : Uses [.read] x) [∀ a, Grows (f a)] :
    Stays (x >>= f) c ↔ ∀ a, x c = .ok a c → Stays (f a) c := by
  rw [stays_bind_of_still hx (by decide)]
  refine ⟨fun h a hrun => h a c hrun, fun h a t hrun => ?_⟩
  obtain rfl := (hx.effect_of_ok hrun).eq_of_read
  exact h a hrun

theorem stays_getDescriptor (link : Link) : Stays (getDescriptor link) c ↔ c.walk.Allows c.queue.size link := by
  have hfinal : ∃ rest, ((getDescriptor link).finalState c).log = c.log ++ .fetch link :: rest ∧
      ∀ link', .fetch link' ∉ rest := by
    cases hdesc : c.queue.getDescriptor c.mem link.index with
    | ok desc =>
      refine ⟨[.descriptor desc], ?_, by simp⟩
      rw [finalState_of_ok (getDescriptor_eq_ok.mpr ⟨hdesc, rfl⟩)]
      rfl
    | error e =>
      refine ⟨[], ?_, by simp⟩
      rw [getDescriptor, finalState_bind_of_ok (a := ⟨⟩) (modify_eq_ok.mpr rfl)]
      simp only [finalState, Program.act, hdesc, Exec.error_bind]
  obtain ⟨rest, hlog, hrest⟩ := hfinal
  unfold Stays
  rw [hlog]
  constructor
  · intro h
    simpa [Ctx.walk] using h [] link rest (by simp)
  · intro h events link' rest' heq
    rw [List.append_assoc, List.append_cancel_left_eq] at heq
    cases events with
    | nil =>
      cases heq
      simpa [Ctx.walk] using h
    | cons first events =>
      cases heq
      exact absurd (by simp) (hrest link')

theorem stays_pure (a : α) : Stays (pure a : Serve D M α) c :=
  stays_of_uses (.pure a : Uses [] _) (by decide)

theorem stays_throw (e : Fault) : Stays (throw e : Serve D M α) c :=
  stays_of_uses (.throw e : Uses [] _) (by decide)

theorem stays_getDescriptor_bind {link : Link} {f : VirtqDesc → Serve D M β} [∀ desc, Grows (f desc)] :
    Stays (getDescriptor link >>= f) c ↔ c.walk.Allows c.queue.size link ∧
      ∀ desc, c.queue.getDescriptor c.mem link.index = .ok desc → Stays (f desc) (c.fetched link desc) := by
  rw [stays_bind, stays_getDescriptor]
  refine and_congr_right fun _ => ⟨fun h desc hdesc => ?_, fun h desc t hrun => ?_⟩
  · exact h desc _ (getDescriptor_eq_ok.mpr ⟨hdesc, rfl⟩)
  · obtain ⟨hdesc, rfl⟩ := getDescriptor_eq_ok.mp hrun
    exact h desc hdesc

end Rules

/-! ### A chain, and a run of chains -/

/-- The chain with the given head has just been popped. -/
structure Fresh (head : UInt16) (c : Ctx D M) : Prop where
  size_ne : c.queue.size ≠ 0
  walk_eq : c.walk = ⟨some head, []⟩

theorem Fresh.allows_head (h : Fresh head c) : c.walk.Allows c.queue.size (.head head) ↔ head < c.queue.size := by
  simp [Walk.Allows, h.walk_eq, Link.index]

namespace QueueLoop

/-- What the driver has to keep to for the service of a chain to follow it. A walk may need more fuel
than there is, so the one direction asks for all fuel from some point on. -/
structure StaysIff (l : QueueLoop D M) (P : l.Job → Ctx D M → Prop) : Prop where
  sound : ∀ job t, Fresh (l.headOf job) t → P job t → ∀ fuel, Stays (l.serve fuel job) t
  complete : ∀ job t, Fresh (l.headOf job) t → (∃ n, ∀ fuel ≥ n, Stays (l.serve fuel job) t) → P job t

end QueueLoop

variable {next : Serve D M (Option α)} {headOf : α → UInt16}

section

variable (h : Pops next headOf)
include h

theorem Pops.finalState_cases
    (c : Ctx D M) : ∃ dev, next.finalState c = { c with dev } ∨ ∃ head, next.finalState c = c.pop dev head := by
  cases hrun : next c with
  | error e t =>
    obtain ⟨dev, rfl⟩ := h.fault c e t hrun
    exact ⟨dev, Or.inl (finalState_of_error hrun)⟩
  | ok job? t =>
    cases job? with
    | none =>
      obtain ⟨dev, rfl⟩ := h.none c t hrun
      exact ⟨dev, Or.inl (finalState_of_ok hrun)⟩
    | some job =>
      obtain ⟨_, dev, rfl⟩ := h.some c job t hrun
      exact ⟨dev, Or.inr ⟨_, finalState_of_ok hrun⟩⟩

theorem Pops.grows : Grows next := by
  constructor
  · intro c
    obtain ⟨dev, heq | ⟨head, heq⟩⟩ := h.finalState_cases c
    · exact ⟨[], by rw [heq, List.append_nil]⟩
    · exact ⟨[.popped head], by rw [heq]; rfl⟩
  · intro c
    obtain ⟨dev, heq | ⟨head, heq⟩⟩ := h.finalState_cases c
    · rw [heq]
    · rw [heq]
      rfl

theorem Pops.stays (c : Ctx D M) : Stays next c := by
  refine stays_of_log fun link => ?_
  obtain ⟨dev, heq | ⟨head, heq⟩⟩ := h.finalState_cases c
  · rw [heq, List.drop_length]
    exact List.not_mem_nil
  · rw [heq, Ctx.pop, List.drop_left]
    simp

theorem Pops.fresh {t : Ctx D M} {job : α} (hnext : next c = .ok (Option.some job) t) : Fresh (headOf job) t := by
  obtain ⟨hsize, dev, rfl⟩ := h.some c job t hnext
  exact ⟨hsize, walk_pop c dev _⟩

end

section Drain

variable {next : Serve D M (Option α)} {headOf : α → UInt16} {serve : α → Serve D M Bool}
  {atEnd : Bool → Serve D M Bool}

instance grows_drainWith [Grows next] [∀ job, Grows (serve job)] [hend : ∀ b, Grows (atEnd b)]
    (count : Nat) (didWork : Bool) : Grows (drainWith atEnd next serve count didWork) := by
  induction count generalizing didWork with
  | zero => exact hend didWork
  | succ count ih =>
    refine @Grows.bind _ _ _ _ _ _ _ fun job? => ?_
    cases job? <;> infer_instance

theorem stays_drainWith (hnext : Pops next headOf) [∀ job, Grows (serve job)]
    [∀ b, Grows (atEnd b)] (hendStays : ∀ b c, Stays (atEnd b) c) {count : Nat} {didWork : Bool} :
    Stays (drainWith atEnd next serve count didWork) c ↔
      ∀ jobs t0 job t, Drained next serve c jobs t0 → jobs.length < count → next t0 = .ok (some job) t →
        Stays (serve job) t := by
  induction count generalizing didWork c with
  | zero => exact iff_of_true (hendStays _ _) fun _ _ _ _ _ hlt => absurd hlt (Nat.not_lt_zero _)
  | succ count ih =>
    have := hnext.grows
    rw [drainWith]
    refine (@stays_bind _ _ _ _ _ _ _ _ fun job? => by cases job? <;> infer_instance).trans ?_
    rw [and_iff_right (hnext.stays c)]
    constructor
    · intro h jobs t0 job t hdrained hlt hpop
      cases hdrained with
      | nil =>
        have hall := h (some job) t hpop
        exact (stays_bind.mp hall).1
      | cons hfirst hworked hdrained =>
        have hall := (stays_bind.mp (h _ _ hfirst)).2 _ _ hworked
        exact ih.mp hall _ _ _ _ hdrained (Nat.lt_of_succ_lt_succ hlt) hpop
    · intro h job? t hpop
      cases job? with
      | none => exact stays_of_log (by simp [finalState, pure, EStateM.pure])
      | some job =>
        refine stays_bind.mpr ⟨?_, fun worked t' hworked => ?_⟩
        · exact h [] c job t (.nil c) (Nat.succ_pos _) hpop
        · refine ih.mpr fun jobs t0 job' u hdrained hlt hpop' => ?_
          exact h _ _ job' u (.cons hpop hworked hdrained) (Nat.succ_lt_succ hlt) hpop'

end Drain

namespace QueueLoop

variable {l : QueueLoop D M}

theorem stays_run [GuestMemory M] (hl : l.Lawful) {fuel : Nat} :
    Stays (l.run fuel) c ↔ ∀ jobs t0 job t, l.Serves fuel c jobs t0 → jobs.length < l.batch.getD fuel →
      l.next t0 = .ok (some job) t → Stays (l.serve fuel job) t := by
  have (job : l.Job) := (hl.uses fuel job).grows
  have hstill {x : Serve D M Bool} {c : Ctx D M} (h : x.finalState c = c) : Stays x c :=
    stays_of_log (by simp [h])
  unfold run
  cases hbatch : l.batch with
  | none => exact stays_drainWith hl.pops fun _ _ => hstill rfl
  | some batch => exact stays_drainWith hl.pops fun _ _ => hstill rfl

/-- **The loop follows the chains** exactly when the driver keeps to what each chain asks for. -/
theorem stays_iff [GuestMemory M] (hl : l.Lawful) {P : l.Job → Ctx D M → Prop} (hP : l.StaysIff P) :
    (∀ fuel, Stays (l.run fuel) c) ↔ ∀ job t, l.Reaches c job t → P job t := by
  constructor
  · rintro h job t ⟨fuel, jobs, t0, hserves, hroom, hnext⟩
    refine hP.complete job t (hl.pops.fresh hnext) ⟨max fuel (jobs.length + 1), fun fuel' hle => ?_⟩
    refine (stays_run hl).mp (h fuel') jobs t0 job t (Serves.mono hl.mono (by omega) hserves) ?_ hnext
    cases hbatch : l.batch with
    | none => exact (by omega : jobs.length < fuel')
    | some batch => exact hroom batch hbatch
  · intro h fuel
    refine (stays_run hl).mpr fun jobs t0 job t hserves hlt hnext => ?_
    refine hP.sound job t (hl.pops.fresh hnext) (h job t ⟨fuel, jobs, t0, hserves, fun batch hbatch => ?_, hnext⟩) fuel
    rw [hbatch] at hlt
    exact hlt

theorem StaysIff.of_const {P : l.Job → Ctx D M → Prop}
    (h : ∀ fuel job t, Fresh (l.headOf job) t → (Stays (l.serve fuel job) t ↔ P job t)) : l.StaysIff P where
  sound job t hfresh hP fuel := (h fuel job t hfresh).mpr hP
  complete job t hfresh := fun ⟨n, hall⟩ => (h n job t hfresh).mp (hall n (Nat.le_refl n))

end QueueLoop

/-! ### Devices that look at the head alone -/

section Devices

variable [GuestMemory M]

omit [GuestMemory M] in
theorem stays_ite {p : Prop} [Decidable p] {y : Serve D M α} :
    Stays (if p then x else y) c ↔ (p → Stays x c) ∧ (¬p → Stays y c) := by
  split_ifs with h <;> simp [h]

def FetchesHead (head : UInt16) (x : Serve D M α) : Prop :=
  ∃ f : VirtqDesc → Serve D M α, x = Serve.getDescriptor (.head head) >>= f ∧
    ∀ desc, Still (f desc)

theorem FetchesHead.stays_iff (h : FetchesHead head x) (hfresh : Fresh head c) : Stays x c ↔ head < c.queue.size := by
  obtain ⟨f, rfl, hf⟩ := h
  have (desc : VirtqDesc) := (hf desc).grows
  rw [stays_getDescriptor_bind, hfresh.allows_head]
  exact and_iff_left fun desc _ => (hf desc).stays

variable {H : HostOs} {W : Type}

theorem RngVirtio.staysIff : (rngLoop : QueueLoop (RngVirtio H) M).StaysIff fun head t => head < t.queue.size := by
  refine .of_const fun _ head t => FetchesHead.stays_iff ⟨_, rfl, fun desc => .ite (.throw _) ?_⟩
  refine .bind (.onDev _ (by decide)) fun _ => .bind (.writeGuestMemory _ _ (by decide)) fun _ => ?_
  exact .finish _ _ _

theorem NetVirtio.staysIff_rx : (rxLoop : QueueLoop (NetVirtio H) M).StaysIff fun job t => job.2 < t.queue.size := by
  refine .of_const fun _ job t => FetchesHead.stays_iff ⟨_, rfl, fun desc => .ite ?_ ?_⟩
  · exact .finish _ _ _
  · refine .bind (.writeGuestMemory _ _ (by decide)) fun _ => .bind (.lift _) fun _ => ?_
    exact .bind (.writeGuestMemory _ _ (by decide)) fun _ => .finish _ _ _

theorem NetVirtio.staysIff_tx : (txLoop : QueueLoop (NetVirtio H) M).StaysIff fun head t => head < t.queue.size := by
  refine .of_const fun _ head t => FetchesHead.stays_iff ⟨_, rfl, fun desc => .ite ?_ ?_⟩
  · exact .finish _ _ _
  · refine .bind (.lift _) fun _ => .bind (.readGuestMemoryAlloc _ _ (by decide)) fun _ => ?_
    refine .bind ((uses_onTap _).mono) fun _ => ?_
    exact .finish _ _ _

/-! ### The graphics device -/

namespace VirtioGpu

variable {c : Ctx (VirtioGpu W) M}

instance (steps : Nat) (link : Link) (request : Bytes) :
    Grows (gatherLoop steps link request : Serve (VirtioGpu W) M _) := (uses_gatherLoop steps link request).grows

theorem stays_gatherLoop {steps : Nat} {link : Link} {request : Bytes}
    (hlink : c.walk.Allows c.queue.size link) : Stays (gatherLoop steps link request) c := by
  induction steps generalizing link request c with
  | zero => exact stays_pure _
  | succ steps ih =>
    refine stays_getDescriptor_bind.mpr
      ⟨hlink, fun desc hdesc => stays_ite.mpr ⟨fun _ => ?_, fun _ => stays_ite.mpr ⟨fun _ => ?_, fun _ => ?_⟩⟩⟩
    · exact stays_ite.mpr ⟨fun _ => stays_pure _, fun _ => stays_pure _⟩
    · exact stays_pure _
    · refine (stays_bind_of_read (.readGuestMemoryAlloc _ _ (by decide))).mpr fun chunk _ => ?_
      refine (stays_bind_of_read .get).mpr fun t hget => ?_
      obtain ⟨rfl, _⟩ := get_eq_ok.mp hget
      refine stays_ite.mpr ⟨fun _ => stays_pure _, fun hcheck => ih ?_⟩
      simp only [Bool.or_eq_true, Bool.not_eq_true', decide_eq_true_eq, not_or, Bool.not_eq_false,
        UInt16.not_le] at hcheck
      exact (Walk.allows_next (mem_walk_fetched c link desc) _).mpr hcheck

/-- The head itself is not checked; a queue with entries makes the loop fetch it. -/
theorem stays_gatherControlRequest (hfresh : Fresh head c) :
    Stays (gatherControlRequest head) c ↔ head < c.queue.size := by
  unfold gatherControlRequest
  rw [stays_bind_of_read .get]
  constructor
  · intro h
    have hloop : Stays (gatherLoop c.queue.size.toNat (.head head) []) c := h c (get_eq_ok.mpr ⟨rfl, rfl⟩)
    obtain ⟨steps, hsteps⟩ : ∃ steps, c.queue.size.toNat = steps + 1 :=
      Nat.exists_eq_succ_of_ne_zero fun hzero => hfresh.size_ne (UInt16.toNat_inj.mp hzero)
    rw [hsteps, gatherLoop, stays_getDescriptor_bind] at hloop
    exact hfresh.allows_head.mp hloop.1
  · intro hlt t hget
    obtain ⟨rfl, _⟩ := get_eq_ok.mp hget
    exact stays_gatherLoop (hfresh.allows_head.mpr hlt)

theorem stays_serveControl [DisplayBackend W] (hfresh : Fresh head c) :
    Stays (serveControl head) c ↔ head < c.queue.size := by
  refine (stays_before_still (uses_gatherControlRequest head) fun request? => ?_).trans
    (stays_gatherControlRequest hfresh)
  split
  · exact (uses_retire head).mono
  split
  · exact (uses_retire head).mono
  · exact uses_answer _ _ _ _

instance (desc : VirtqDesc) (buf : Bytes) : Grows (writeBuf desc buf : Serve (VirtioGpu W) M _) :=
  (uses_writeBuf desc buf).grows

instance (head : UInt16) : Grows (retire head : Serve (VirtioGpu W) M _) := (uses_retire head).grows

theorem stays_serveCursor (hfresh : Fresh head c) : Stays (serveCursor head) c ↔ head < c.queue.size := by
  unfold serveCursor
  rw [stays_getDescriptor_bind, hfresh.allows_head]
  refine and_iff_left fun headerDesc _ => (stays_bind_of_read .get).mpr fun t hget => ?_
  obtain ⟨rfl, _⟩ := get_eq_ok.mp hget
  refine stays_ite.mpr ⟨fun _ => stays_of_uses (uses_retire head) (by decide), fun hcheck => ?_⟩
  simp only [Bool.or_eq_true, Bool.not_eq_true', decide_eq_true_eq, not_or, Bool.not_eq_false,
    UInt16.not_le] at hcheck
  refine stays_getDescriptor_bind.mpr ⟨?_, fun respDesc _ => Still.stays ?_⟩
  · exact (Walk.allows_next (mem_walk_fetched c _ headerDesc) _).mpr ⟨hcheck.1.1, hcheck.2⟩
  · refine .bind (.readGuestMemoryAlloc _ _ (by decide)) fun bytes => ?_
    exact .bind ((uses_writeBuf _ _).mono) fun written => .finish _ _ _

theorem staysIff_control [DisplayBackend W] :
    (controlLoop : QueueLoop (VirtioGpu W) M).StaysIff fun head t => head < t.queue.size :=
  .of_const fun _ _ _ hfresh => stays_serveControl hfresh

theorem staysIff_cursor : (cursorLoop : QueueLoop (VirtioGpu W) M).StaysIff fun head t => head < t.queue.size :=
  .of_const fun _ _ _ hfresh => stays_serveCursor hfresh

end VirtioGpu

/-! ### The counter device -/

namespace CntVirtio

/-- The head is in the table, and so is its successor when the head is one that the device takes. -/
def Linked (head : UInt16) (c : Ctx CntVirtio M) : Prop :=
  head < c.queue.size ∧ ∀ desc, c.queue.getDescriptor c.mem head = .ok desc →
    desc.isWrite = true → desc.hasNext = true → desc.next < c.queue.size

theorem stays_serve {c : Ctx CntVirtio M} (hfresh : Fresh head c) : Stays (serve head) c ↔ Linked head c := by
  have hrest (desc desc2 : VirtqDesc) : Still (do
      let input ← readU32 desc.addr
      let output ← lift (addU32 input 1)
      writeU32 desc2.addr output
      pushUsed head desc.len
      return true : Serve CntVirtio M Bool) := by
    refine .bind (.readU32 _ (by decide)) fun input => .bind (.lift _) fun output => ?_
    exact .bind (.writeU32 _ _ (by decide)) fun _ => .finish _ _ _
  have (desc desc2 : VirtqDesc) := (hrest desc desc2).grows
  unfold serve
  rw [stays_getDescriptor_bind, hfresh.allows_head]
  refine and_congr_right fun _ => forall_congr' fun desc => imp_congr_right fun _ => ?_
  rw [stays_ite, stays_getDescriptor_bind, and_iff_right fun _ => stays_throw _]
  simp only [Bool.or_eq_true, Bool.not_eq_true', not_or, Bool.not_eq_false, and_imp]
  refine imp_congr_right fun _ => imp_congr_right fun hnext => ?_
  rw [and_iff_left fun desc2 _ => (hrest desc desc2).stays, Walk.allows_next (mem_walk_fetched c _ desc)]
  exact and_iff_right hnext

theorem staysIff : (cntLoop : QueueLoop CntVirtio M).StaysIff fun head t => Linked head t :=
  .of_const fun _ _ _ hfresh => stays_serve hfresh

end CntVirtio

/-! ### The block device -/

namespace BlkVirtio

/-- The head is in the table. So is the data descriptor of a request that can be read, and, unless the
data has the wrong direction, the data descriptor has its NEXT flag set and names one in the table. -/
def Linked (head : UInt16) (c : Ctx (BlkVirtio H) M) : Prop :=
  head < c.queue.size ∧ ∀ header, c.queue.getDescriptor c.mem head = .ok header → header.hasNext = true →
    header.len = 16 → ∀ request, requestAt c.mem header.addr = .ok request →
    header.next < c.queue.size ∧ ∀ dataSection, c.queue.getDescriptor c.mem header.next = .ok dataSection →
      flagsOk request dataSection = true → dataSection.hasNext = true ∧ dataSection.next < c.queue.size

instance (addr : UInt64) : Grows (readRequest addr : Serve (BlkVirtio H) M _) := (uses_readRequest addr).grows

theorem stays_gather {c : Ctx (BlkVirtio H) M} (hfresh : Fresh head c) : Stays (gather head) c ↔ Linked head c := by
  unfold gather
  rw [stays_getDescriptor_bind, hfresh.allows_head]
  refine and_congr_right fun _ => forall_congr' fun header => imp_congr_right fun _ => ?_
  have hform : ¬(!header.hasNext || header.len != 16) = true ↔ header.hasNext = true ∧ header.len = 16 := by simp
  rw [stays_ite, and_iff_right fun _ => stays_pure _, hform, and_imp]
  refine imp_congr_right fun hnext => imp_congr_right fun _ => ?_
  rw [stays_bind_of_read (uses_readRequest _)]
  refine forall_congr' fun request => ?_
  rw [(looks_readRequest header.addr).eq_ok_iff (uses_readRequest _), stays_getDescriptor_bind,
    Walk.allows_next (mem_walk_fetched c _ header), and_iff_right hnext]
  refine imp_congr_right fun _ => and_congr_right fun _ => forall_congr' fun dataSection =>
    imp_congr_right fun _ => ?_
  have hflags : ¬(!flagsOk request dataSection) = true ↔ flagsOk request dataSection = true := by simp
  rw [stays_ite, and_iff_right fun _ => stays_pure _, stays_getDescriptor_bind,
    Walk.allows_next (mem_walk_fetched (c.fetched _ _) _ dataSection), hflags]
  refine imp_congr_right fun _ => and_iff_left fun statusByte _ => ?_
  exact stays_ite.mpr ⟨fun _ => stays_pure _, fun _ => stays_pure _⟩

theorem stays_serve {c : Ctx (BlkVirtio H) M} (hfresh : Fresh head c) : Stays (serve head) c ↔ Linked head c := by
  refine (stays_before_still (uses_gather head) fun chain? => ?_).trans (stays_gather hfresh)
  cases chain? with
  | none => exact (uses_skip head).mono
  | some chain =>
    refine .bind ((uses_transfer _ _ _).mono) fun sought => .ite ?_ ((uses_skip head).mono)
    exact .finish _ _ _

theorem staysIff : (requestLoop : QueueLoop (BlkVirtio H) M).StaysIff fun head t => Linked head t :=
  .of_const fun _ _ _ hfresh => stays_serve hfresh

end BlkVirtio

/-! ### Loops that follow a chain -/

/-- The program follows the chain under the condition, and for all fuel from some point on only then. -/
def FollowsIff (x : Nat → Serve D M α) (c : Ctx D M) (P : Prop) : Prop :=
  (P → ∀ fuel, Stays (x fuel) c) ∧ ((∃ n, ∀ fuel ≥ n, Stays (x fuel) c) → P)

/-- The rounds of a loop are the steps of a relation on places: in a place the body fetches the next one,
if there is one. -/
structure Tracks {γ σ : Type} (body : β → Serve D M (β ⊕ γ)) (At : β → Ctx D M → σ → Prop) (R : σ → σ → Prop)
    (index : σ → UInt16) : Prop where
  uses : ∀ b, Service (body b)
  stays : ∀ {b c s}, At b c s → (Stays (body b) c ↔ ∀ s', R s s' → index s' < c.queue.size)
  goes : ∀ {b b' c t s}, At b c s → body b c = .ok (.inl b') t → ∃ s', R s s' ∧ At b' t s'
  comes : ∀ {b c s s' s''}, At b c s → R s s' → R s' s'' → ∃ b' t, body b c = .ok (.inl b') t ∧ At b' t s'

namespace Tracks

variable {γ σ : Type} {body : β → Serve D M (β ⊕ γ)} {At : β → Ctx D M → σ → Prop} {R : σ → σ → Prop}
  {index : σ → UInt16}

section

variable (h : Tracks body At R index)
include h

theorem stays_loop_succ {fuel : Nat} {b : β} : Stays (loop body (fuel + 1) b) c ↔
      Stays (body b) c ∧ ∀ b' t, body b c = .ok (.inl b') t → Stays (loop body fuel b') t := by
  have := (h.uses b).grows
  have (b : β) := (Uses.loop h.uses fuel b).grows
  rw [loop]
  refine (@stays_bind _ _ _ _ _ _ _ _ fun r => by cases r <;> infer_instance).trans ?_
  refine and_congr_right fun _ => ⟨fun hall b' t hrun => hall (.inl b') t hrun, fun hall r t hrun => ?_⟩
  cases r with
  | inl b' => exact hall b' t hrun
  | inr c => exact stays_pure c

theorem sound (fuel : Nat) {b : β} {s : σ} (hat : At b c s)
    (hall : ∀ s', Relation.TransGen R s s' → index s' < c.queue.size) : Stays (loop body fuel b) c := by
  induction fuel generalizing b c s with
  | zero => exact stays_throw _
  | succ fuel ih =>
    refine h.stays_loop_succ.mpr ⟨(h.stays hat).mpr fun s' hstep => hall s' (.single hstep), ?_⟩
    intro b' t hrun
    obtain ⟨s', hstep, hat'⟩ := h.goes hat hrun
    refine ih hat' fun s'' hlater => ?_
    rw [((h.uses b).effect_of_ok hrun).size_eq]
    exact hall s'' (.head hstep hlater)

theorem complete {s s' : σ} (hreach : Relation.TransGen R s s') :
    ∃ n, ∀ fuel ≥ n, ∀ b c, At b c s → Stays (loop body fuel b) c → index s' < c.queue.size := by
  induction hreach using Relation.TransGen.head_induction_on with
  | single hstep =>
    refine ⟨1, fun fuel hle b c hat hstays => ?_⟩
    obtain ⟨fuel, rfl⟩ : ∃ n, fuel = n + 1 := ⟨fuel - 1, by omega⟩
    exact (h.stays hat).mp (h.stays_loop_succ.mp hstays).1 s' hstep
  | head hstep hlater ih =>
    obtain ⟨n, hn⟩ := ih
    refine ⟨n + 1, fun fuel hle b c hat hstays => ?_⟩
    obtain ⟨fuel, rfl⟩ : ∃ n, fuel = n + 1 := ⟨fuel - 1, by omega⟩
    obtain ⟨s'', hnext, _⟩ := Relation.TransGen.head'_iff.mp hlater
    obtain ⟨b', t, hrun, hat'⟩ := h.comes hat hstep hnext
    have hlt := hn fuel (by omega) b' t hat' ((h.stays_loop_succ.mp hstays).2 b' t hrun)
    rwa [((h.uses b).effect_of_ok hrun).size_eq] at hlt

theorem head_iff (init : VirtqDesc → β) {s : σ} (hs : index s = head) (hhead : c.walk.head = some head)
    (hat : ∀ desc, c.queue.getDescriptor c.mem head = .ok desc → At (init desc) (c.fetched (.head head) desc) s)
    (hread : ∀ s', R s s' → ∃ desc, c.queue.getDescriptor c.mem head = .ok desc) :
    FollowsIff (fun fuel => getDescriptor (.head head) >>= fun desc => loop body fuel (init desc)) c
      (∀ s', Relation.ReflTransGen R s s' → index s' < c.queue.size) := by
  have (fuel : Nat) (b : β) := (Uses.loop h.uses fuel b).grows
  constructor
  · intro hall fuel
    refine stays_getDescriptor_bind.mpr ⟨⟨hs ▸ hall s .refl, hhead⟩, fun desc hdesc => ?_⟩
    exact h.sound fuel (hat desc hdesc) fun s' hlater => hall s' hlater.to_reflTransGen
  · rintro ⟨n, hn⟩ s' hreach
    rcases Relation.reflTransGen_iff_eq_or_transGen.mp hreach with rfl | hlater
    · rw [hs]
      exact (stays_getDescriptor_bind.mp (hn n le_rfl)).1.1
    · obtain ⟨n', hn'⟩ := h.complete hlater
      obtain ⟨_, hfirst, _⟩ := Relation.TransGen.head'_iff.mp hlater
      obtain ⟨desc, hdesc⟩ := hread _ hfirst
      have hloop := (stays_getDescriptor_bind.mp (hn _ (Nat.le_max_left n n'))).2 desc hdesc
      exact hn' _ (Nat.le_max_right n n') _ (c.fetched (.head head) desc) (hat desc hdesc) hloop

end

end Tracks

/-! ### The file-system device -/

namespace FsVirtio

variable {reply : Bytes}

/-- Both loops go on in the same way: they check the NEXT flag and nothing else. -/
theorem stays_goOn {desc : VirtqDesc} (hseen : desc ∈ c.walk.seen) {a : α} {g : VirtqDesc → α} :
    Stays (if !desc.hasNext then return a
      else getDescriptor (.next desc) >>= fun next => return g next : Serve D M α) c ↔
      (desc.hasNext = true → desc.next < c.queue.size) := by
  have hflag : ¬(!desc.hasNext) = true ↔ desc.hasNext = true := by simp
  rw [stays_ite, and_iff_right fun _ => stays_pure _, hflag, stays_getDescriptor_bind,
    and_iff_left fun next _ => stays_pure _, Walk.allows_next hseen]
  exact imp_congr_right fun hnext => and_iff_right hnext

def CollectsAt (q : VirtioQueue) (mem : M) (b : VirtqDesc × Bytes) (c : Ctx (FsVirtio H) M) (i : UInt16) : Prop :=
  c.queue = q ∧ c.mem = mem ∧ q.getDescriptor mem i = .ok b.1 ∧ b.1 ∈ c.walk.seen

theorem tracks_collect (q : VirtioQueue) (mem : M) :
    Tracks (D := FsVirtio H) collectStep (CollectsAt q mem) (ReadStep q mem) id where
  uses b := (uses_collectStep b).mono
  stays {b c i} := by
    obtain ⟨desc, acc⟩ := b
    rintro ⟨rfl, rfl, hdesc, hseen⟩
    have hround : Stays (collectStep (desc, acc)) c ↔ (desc.isWrite = false → ∀ buf,
        GuestMemory.readGuestMemoryAlloc c.mem desc.addr desc.len.toNat = .ok buf → desc.hasNext = true →
        desc.next < c.queue.size) := by
      show Stays (if desc.isWrite = true then _ else _) c ↔ _
      rw [stays_ite, and_iff_right fun _ => stays_pure _, Bool.not_eq_true]
      refine imp_congr_right fun _ => (stays_bind_of_read (.readGuestMemoryAlloc _ _ (by decide))).trans
        (forall_congr' fun buf => ?_)
      rw [readGuestMemoryAlloc_eq_ok, and_iff_left rfl, stays_goOn hseen]
    rw [hround]
    constructor
    · rintro h j ⟨desc', buf, hdesc', hwrite, hread, hnext, rfl⟩
      rw [hdesc] at hdesc'
      cases hdesc'
      exact h hwrite buf hread hnext
    · intro h hwrite buf hread hnext
      exact h desc.next ⟨desc, buf, hdesc, hwrite, hread, hnext, rfl⟩
  goes {b b' c t i} := by
    obtain ⟨desc, acc⟩ := b
    rintro ⟨rfl, rfl, hdesc, hseen⟩ hrun
    rcases collectStep_eq_ok.mp hrun with ⟨_, hr, _⟩ | ⟨hwrite, buf, hread, ⟨_, hr, _⟩ | ⟨hnext, next, hdesc', hr, rfl⟩⟩
    · cases hr
    · cases hr
    · cases hr
      exact ⟨desc.next, ⟨desc, buf, hdesc, hwrite, hread, hnext, rfl⟩, rfl, rfl, hdesc',
        mem_walk_fetched c _ next⟩
  comes {b c i j k} := by
    obtain ⟨desc, acc⟩ := b
    rintro ⟨rfl, rfl, hdesc, hseen⟩ ⟨desc', buf, hdesc', hwrite, hread, hnext, rfl⟩ ⟨next, _, hnextDesc, _⟩
    rw [hdesc] at hdesc'
    cases hdesc'
    refine ⟨(next, acc ++ buf), c.fetched (.next desc) next, ?_, rfl, rfl, hnextDesc, mem_walk_fetched c _ next⟩
    exact collectStep_eq_ok.mpr (Or.inr ⟨hwrite, buf, hread, Or.inr ⟨hnext, next, hnextDesc, rfl, rfl⟩⟩)

/-- The loop of `write_out_reply` is at a place: an index, the bytes written and guest memory. -/
def RepliesAt (q : VirtioQueue) (b : VirtqDesc × Nat) (c : Ctx (FsVirtio H) M) (s : UInt16 × Nat × M) : Prop :=
  c.queue = q ∧ c.mem = s.2.2 ∧ b.2 = s.2.1 ∧ q.getDescriptor c.mem s.1 = .ok b.1 ∧ b.1 ∈ c.walk.seen

variable {c : Ctx (FsVirtio H) M}

instance (desc : VirtqDesc) (written : Nat) : Grows (replyNext desc written : Serve (FsVirtio H) M _) :=
  (uses_replyNext desc written).grows

theorem stays_replyStep {desc : VirtqDesc} {written : Nat} (hseen : desc ∈ c.walk.seen) :
    Stays (replyStep reply (desc, written)) c ↔ ∀ parts written' mem',
      replyAt reply desc written c.mem = .ok (parts, written', mem') → replyEnds reply desc written' = false →
      desc.next < c.queue.size := by
  show Stays (if desc.isWrite = true then _ else replyNext desc written) c ↔ _
  unfold replyAt replyEnds
  cases hwrite : desc.isWrite with
  | false =>
    simp only [Bool.false_eq_true, if_false, Exec.pure_eq, Except.ok.injEq, Prod.mk.injEq, Bool.false_and,
      Bool.or_false, Bool.not_eq_false']
    refine (stays_goOn hseen).trans ⟨fun h _ _ _ _ => h, fun h => ?_⟩
    exact h [] written c.mem ⟨rfl, rfl, rfl⟩
  | true =>
    simp only [if_true, Bool.true_and]
    have hkept (part : Bytes) (mem' : M) : desc ∈ Walk.seen (Ctx.walk ({ c with
        mem := mem'
        log := c.log ++ [.stored desc.addr part (GuestMemory.inRam c.mem desc.addr part.length)] } :
        Ctx (FsVirtio H) M)) := by
      simpa [Ctx.walk, walkOf, Walk.step] using hseen
    have hwrites (part : Bytes) : Uses [.write] (writeGuestMemory desc.addr part : Serve (FsVirtio H) M Unit) :=
      .writeGuestMemory desc.addr part (by decide)
    have (part : Bytes) := (hwrites part).grows
    rw [stays_bind_of_still (.lift _ : Uses [] _) (by decide)]
    constructor
    · intro h parts written' mem' hpart hgoes
      obtain ⟨part, hslice, hpart⟩ := Exec.bind_eq_ok.mp hpart
      obtain ⟨mem1, hmem, heq⟩ := Exec.bind_eq_ok.mp hpart
      cases heq
      simp only [Bool.or_eq_false_iff, Bool.not_eq_false', decide_eq_false_iff_not] at hgoes
      have hwritten := (stays_bind_of_still (hwrites part) (by decide)).mp (h part c (lift_eq_ok.mpr ⟨hslice, rfl⟩))
        () _ (writeGuestMemory_iff.mpr ⟨mem', hmem, rfl⟩)
      exact (stays_goOn (hkept part mem')).mp ((stays_ite.mp hwritten).2 hgoes.2) hgoes.1
    · intro h part t hrun
      obtain ⟨hslice, rfl⟩ := lift_eq_ok.mp hrun
      refine (stays_bind_of_still (hwrites part) (by decide)).mpr fun _ t hrun => ?_
      obtain ⟨mem', hmem, rfl⟩ := writeGuestMemory_iff.mp hrun
      refine stays_ite.mpr ⟨fun _ => stays_pure _, fun hmore => ?_⟩
      refine (stays_goOn (hkept part mem')).mpr fun hnext => ?_
      refine h [(desc.addr, part)] (written + min (reply.length - written) desc.len.toNat) mem' ?_ ?_
      · exact Exec.bind_eq_ok.mpr ⟨part, hslice, Exec.bind_eq_ok.mpr ⟨mem', hmem, rfl⟩⟩
      · simpa [hnext] using hmore

theorem tracks_reply (q : VirtioQueue) (reply : Bytes) :
    Tracks (D := FsVirtio H) (M := M) (replyStep reply) (RepliesAt q) (ReplyStep q reply) (·.1) where
  uses b := (uses_replyStep reply b).mono
  stays {b c s} := by
    obtain ⟨desc, written⟩ := b
    obtain ⟨i, w, mem⟩ := s
    rintro ⟨rfl, rfl, rfl, hdesc, hseen⟩
    rw [stays_replyStep hseen]
    constructor
    · rintro h ⟨j, w', mem'⟩ ⟨desc', parts, hdesc', hpart, hgoes, rfl⟩
      rw [hdesc] at hdesc'
      cases hdesc'
      exact h parts w' mem' hpart hgoes
    · intro h parts w' mem' hpart hgoes
      exact h (desc.next, w', mem') ⟨desc, parts, hdesc, hpart, hgoes, rfl⟩
  goes {b b' c t s} := by
    obtain ⟨desc, written⟩ := b
    obtain ⟨i, w, mem⟩ := s
    rintro ⟨rfl, rfl, rfl, hdesc, hseen⟩ hrun
    obtain ⟨parts, w', mem', hpart, ⟨_, hr, _⟩ | ⟨hgoes, next, hnext, hr, rfl⟩⟩ := replyStep_eq_ok.mp hrun
    · cases hr
    · cases hr
      exact ⟨(desc.next, w', mem'), ⟨desc, parts, hdesc, hpart, hgoes, rfl⟩, rfl, rfl, rfl, hnext,
        mem_walk_fetched _ _ next⟩
  comes {b c s s' s''} := by
    obtain ⟨desc, written⟩ := b
    obtain ⟨i, w, mem⟩ := s
    obtain ⟨j, w', mem'⟩ := s'
    rintro ⟨rfl, rfl, rfl, hdesc, hseen⟩ ⟨desc', parts, hdesc', hpart, hgoes, rfl⟩ ⟨next, _, hnext, _⟩
    rw [hdesc] at hdesc'
    cases hdesc'
    refine ⟨(next, w'), (storedParts c parts mem').fetched (.next desc) next, ?_, rfl, rfl, rfl, hnext,
      mem_walk_fetched _ _ next⟩
    exact replyStep_eq_ok.mpr ⟨parts, w', mem', hpart, Or.inr ⟨hgoes, next, hnext, rfl, rfl⟩⟩

def ReadsLinked (head : UInt16) (c : Ctx (FsVirtio H) M) : Prop :=
  ∀ i, Relation.ReflTransGen (ReadStep c.queue c.mem) head i → i < c.queue.size

def RepliesLinked (head : UInt16) (reply : Bytes) (c : Ctx (FsVirtio H) M) : Prop :=
  ∀ s, Relation.ReflTransGen (ReplyStep c.queue reply) (head, 0, c.mem) s → s.1 < c.queue.size

theorem collect_iff (hfresh : Fresh head c) :
    FollowsIff (fun fuel => collectReadable fuel head) c (ReadsLinked head c) :=
  (tracks_collect c.queue c.mem).head_iff (fun desc => (desc, [])) rfl (congrArg Walk.head hfresh.walk_eq)
    (fun desc hdesc => ⟨rfl, rfl, hdesc, mem_walk_fetched c _ desc⟩) fun _ ⟨desc, _, hdesc, _⟩ => ⟨desc, hdesc⟩

theorem reply_iff (hhead : c.walk.head = some head) :
    FollowsIff (fun fuel => writeOutReply fuel head reply) c (RepliesLinked head reply c) :=
  (tracks_reply c.queue reply).head_iff (s := (head, 0, c.mem)) (fun desc => (desc, 0)) rfl hhead
    (fun desc hdesc => ⟨rfl, rfl, rfl, hdesc, mem_walk_fetched c _ desc⟩) fun _ ⟨desc, _, hdesc, _⟩ => ⟨desc, hdesc⟩

theorem staysIff_hiprio : (hiprioLoop : QueueLoop (FsVirtio H) M).StaysIff fun head t => ReadsLinked head t := by
  have hserve (fuel : Nat) (head : UInt16) (t : Ctx (FsVirtio H) M) :
      Stays (serveHiprio fuel head) t ↔ Stays (collectReadable fuel head) t := by
    refine stays_before_still (uses_collectReadable fuel head) fun fuseInBytes => ?_
    refine .bind ((uses_hiprio _).mono) fun _ => ?_
    exact .finish _ _ _
  constructor
  · intro head t hfresh h fuel
    exact (hserve fuel head t).mpr ((collect_iff hfresh).1 h fuel)
  · rintro head t hfresh ⟨n, hn⟩
    exact (collect_iff hfresh).2 ⟨n, fun fuel hle => (hserve fuel head t).mp (hn fuel hle)⟩

/-- The request is linked through the table, and so is the reply to it, if there is one. -/
def Linked (head : UInt16) (c : Ctx (FsVirtio H) M) : Prop :=
  ReadsLinked head c ∧ ∀ bytes answer, Gathers c.queue c.mem head bytes → Answers bytes answer c →
    RepliesLinked head (replyBytes (FuseInHeader.new bytes).1.unique answer) c

theorem stays_serveRequest {fuel : Nat} : Stays (serveRequest fuel head) c ↔ Stays (collectReadable fuel head) c ∧
      ∀ bytes t, collectReadable fuel head c = .ok bytes t →
        ∀ answer u, onFuse (SharedFolder.dispatch (FuseInHeader.new bytes).1 (FuseInHeader.new bytes).2) t =
            .ok answer u →
          Stays (writeOutReply fuel head (replyBytes (FuseInHeader.new bytes).1.unique answer)) u := by
  have (bytes : Bytes) : Grows (onFuse (SharedFolder.dispatch (FuseInHeader.new bytes).1
      (FuseInHeader.new bytes).2) : Serve (FsVirtio H) M _) := (uses_onFuse _).grows
  have (reply : Bytes) : Grows (writeOutReply fuel head reply : Serve (FsVirtio H) M _) :=
    (uses_writeOutReply fuel head reply).grows
  have := (uses_collectReadable (H := H) (M := M) fuel head).grows
  refine stays_bind.trans ?_
  refine and_congr_right fun _ => forall_congr' fun bytes => forall_congr' fun t => imp_congr_right fun _ => ?_
  refine (stays_bind_of_still (uses_onFuse _) (by decide)).trans ?_
  refine forall_congr' fun answer => forall_congr' fun u => imp_congr_right fun _ => ?_
  exact stays_before_still (uses_writeOutReply _ _ _) fun _ => .finish _ _ _

theorem replied_from {fuel : Nat} {t u : Ctx (FsVirtio H) M} {bytes : Bytes}
    {answer : Except Errno Bytes} (hcollect : collectReadable fuel head c = .ok bytes t)
    (hanswer : onFuse (SharedFolder.dispatch (FuseInHeader.new bytes).1 (FuseInHeader.new bytes).2) t =
      .ok answer u) : Answers bytes answer c ∧ u.queue = c.queue ∧ u.mem = c.mem ∧ u.walk.head = c.walk.head := by
  have heffect := (uses_collectReadable fuel head).effect_of_ok hcollect
  obtain ⟨fuseDevice, hdispatch, rfl⟩ := onFuse_eq_ok.mp hanswer
  rw [heffect.dev (by decide)] at hdispatch
  refine ⟨⟨fuseDevice, hdispatch⟩, heffect.queue_eq, heffect.mem_eq, ?_⟩
  obtain ⟨events, hlog, hkinds⟩ := heffect.log
  show (walkOf t.log).head = _
  rw [hlog]
  exact walkOf_head fun e he hpop => absurd (hkinds e he) (by rw [hpop]; decide)

theorem repliesLinked_congr {u : Ctx (FsVirtio H) M} (hqueue : u.queue = c.queue)
    (hmem : u.mem = c.mem) : RepliesLinked head reply u ↔ RepliesLinked head reply c := by
  unfold RepliesLinked
  rw [hqueue, hmem]

theorem staysIff_request : (requestLoop : QueueLoop (FsVirtio H) M).StaysIff fun head t => Linked head t := by
  constructor
  · rintro head t hfresh ⟨hreads, hreplies⟩ fuel
    refine stays_serveRequest.mpr ⟨(collect_iff hfresh).1 hreads fuel, fun bytes t' hcollect answer u hanswer => ?_⟩
    obtain ⟨hans, hqueue, hmem, hhead⟩ := replied_from hcollect hanswer
    have hgathers := collectReadable_iff.mp ⟨fuel, t', hcollect⟩
    refine (reply_iff ?_).1 ((repliesLinked_congr hqueue hmem).mpr (hreplies bytes answer hgathers hans)) fuel
    rw [hhead, hfresh.walk_eq]
    rfl
  · rintro head t hfresh ⟨n, hn⟩
    refine ⟨(collect_iff hfresh).2 ⟨n, fun fuel hle => (stays_serveRequest.mp (hn fuel hle)).1⟩, ?_⟩
    rintro bytes answer hgathers ⟨fuseDevice, hdispatch⟩
    obtain ⟨fuel0, t', hcollect⟩ := collectReadable_iff.mpr hgathers
    have heffect := (uses_collectReadable fuel0 head).effect_of_ok hcollect
    rw [← heffect.dev (by decide)] at hdispatch
    have hanswer := onFuse_eq_ok.mpr ⟨fuseDevice, hdispatch, rfl⟩
    obtain ⟨_, hqueue, hmem, hhead⟩ := replied_from hcollect hanswer
    rw [hfresh.walk_eq] at hhead
    refine (repliesLinked_congr hqueue hmem).mp ((reply_iff hhead).2 ⟨max n fuel0, fun fuel hle => ?_⟩)
    have hmore := fuelMono_collectReadable head fuel0 fuel t (by omega) (by simp [hcollect])
    exact (stays_serveRequest.mp (hn fuel (by omega))).2 bytes t' (hmore.trans hcollect) answer _ hanswer

end FsVirtio

/-! ### Every device -/

omit [GuestMemory M] in
theorem stays_congr {y : Serve D M α} (h : x c = y c) : Stays x c ↔ Stays y c := by
  unfold Stays finalState
  rw [h]

theorem stays_tick_iff [VirtioDevice D M] [QueueDevice D M] {queueSel : Nat} :
    (∀ fuel, Stays (tick fuel queueSel) c) ↔
      ∀ l, QueueDevice.queueLoop c.dev queueSel = some l → ∀ fuel, Stays (l.run fuel) c := by
  have htick (fuel : Nat) := stays_congr (QueueDevice.tick_eq fuel queueSel c)
  simp only [htick]
  cases (QueueDevice.queueLoop c.dev queueSel : Option (QueueLoop D M)) with
  | none => exact iff_of_true (fun _ => stays_pure false) nofun
  | some l => exact ⟨fun h _ hl => by cases hl; exact h, fun h => h l rfl⟩

omit [GuestMemory M] in
theorem stays_within {D' : Type} {wrap : D' → D} {dev : D'} {x : Serve D' M α} :
    Stays (within wrap dev x) c ↔ Stays x (c.withDev dev) := by
  unfold Stays finalState within
  cases x (c.withDev dev) <;> rfl

theorem stays_tick_within {D' : Type} {wrap : D' → D} {dev : D'} [VirtioDevice D' M] [QueueDevice D' M]
    {queueSel : Nat} : (∀ fuel, Stays (within wrap dev (tick fuel queueSel)) c) ↔
      ∀ l, QueueDevice.queueLoop dev queueSel = some l → ∀ fuel, Stays (l.run fuel) (c.withDev dev) :=
  (forall_congr' fun _ => stays_within).trans stays_tick_iff

/-- Every chain that the loop comes to is linked as the device needs it. -/
def QueueLoop.Keeps (l : QueueLoop D M) (c : Ctx D M) (P : l.Job → Ctx D M → Prop) : Prop :=
  ∀ job t, l.Reaches c job t → P job t

def Device.LinkCondition (queueSel : Nat) (c : Ctx (Device H W) M) [DisplayBackend W] : Prop :=
  match c.dev with
  | .blk dev => dev.attached = true → queueSel = 0 →
      BlkVirtio.requestLoop.Keeps (c.withDev dev) fun head t => BlkVirtio.Linked head t
  | .net dev => dev.attached = true →
      (queueSel = 0 → NetVirtio.rxLoop.Keeps (c.withDev dev) fun job t => job.2 < t.queue.size) ∧
      (queueSel = 1 → NetVirtio.txLoop.Keeps (c.withDev dev) fun head t => head < t.queue.size)
  | .fs dev => dev.attached = true →
      (queueSel = 0 → FsVirtio.hiprioLoop.Keeps (c.withDev dev) fun head t => FsVirtio.ReadsLinked head t) ∧
      (queueSel = 1 → FsVirtio.requestLoop.Keeps (c.withDev dev) fun head t => FsVirtio.Linked head t)
  | .gpu dev => dev.attached = true →
      (queueSel = 0 → VirtioGpu.controlLoop.Keeps (c.withDev dev) fun head t => head < t.queue.size) ∧
      (queueSel = 1 → VirtioGpu.cursorLoop.Keeps (c.withDev dev) fun head t => head < t.queue.size)
  | .rng dev => dev.attached = true → queueSel = 0 →
      RngVirtio.rngLoop.Keeps (c.withDev dev) fun head t => head < t.queue.size
  | .cnt dev => dev.attached = true → queueSel = 0 →
      CntVirtio.cntLoop.Keeps (c.withDev dev) fun head t => CntVirtio.Linked head t
  | .console _ => True

variable [DisplayBackend W]

/-- **Confinement.** While a device works on a queue, every descriptor it fetches is inside the table and
follows the chain, if and only if the chains it comes to are linked as the device needs them. -/
theorem fetches_confined_iff {queueSel : Nat} {c : Ctx (Device H W) M} :
    (∀ fuel, Stays (VirtioDevice.tick fuel queueSel) c) ↔ Device.LinkCondition queueSel c := by
  obtain ⟨dev, queue, mem, log⟩ := c
  cases dev with
  | blk dev =>
    refine stays_tick_within.trans (BlkVirtio.forall_queueLoop.trans (imp_congr_right fun _ => imp_congr_right fun _ => ?_))
    exact QueueLoop.stays_iff BlkVirtio.lawful_requestLoop BlkVirtio.staysIff
  | net dev =>
    refine stays_tick_within.trans (NetVirtio.forall_queueLoop.trans (imp_congr_right fun _ => and_congr ?_ ?_))
    · exact imp_congr_right fun _ => QueueLoop.stays_iff NetVirtio.lawful_rxLoop NetVirtio.staysIff_rx
    · exact imp_congr_right fun _ => QueueLoop.stays_iff NetVirtio.lawful_txLoop NetVirtio.staysIff_tx
  | fs dev =>
    refine stays_tick_within.trans (FsVirtio.forall_queueLoop.trans (imp_congr_right fun _ => and_congr ?_ ?_))
    · exact imp_congr_right fun _ => QueueLoop.stays_iff FsVirtio.lawful_hiprioLoop FsVirtio.staysIff_hiprio
    · exact imp_congr_right fun _ => QueueLoop.stays_iff FsVirtio.lawful_requestLoop FsVirtio.staysIff_request
  | gpu dev =>
    refine stays_tick_within.trans (VirtioGpu.forall_queueLoop.trans (imp_congr_right fun _ => and_congr ?_ ?_))
    · exact imp_congr_right fun _ => QueueLoop.stays_iff VirtioGpu.lawful_controlLoop VirtioGpu.staysIff_control
    · exact imp_congr_right fun _ => QueueLoop.stays_iff VirtioGpu.lawful_cursorLoop VirtioGpu.staysIff_cursor
  | rng dev =>
    refine stays_tick_within.trans (RngVirtio.forall_queueLoop.trans (imp_congr_right fun _ => imp_congr_right fun _ => ?_))
    exact QueueLoop.stays_iff RngVirtio.lawful_rngLoop RngVirtio.staysIff
  | cnt dev =>
    refine stays_tick_within.trans (CntVirtio.forall_queueLoop.trans (imp_congr_right fun _ => imp_congr_right fun _ => ?_))
    exact QueueLoop.stays_iff CntVirtio.lawful_cntLoop CntVirtio.staysIff
  | console dev =>
    refine iff_of_true (fun fuel => (stays_congr (Device.tick_console fuel queueSel rfl)).mpr ?_) trivial
    exact stays_within.mpr (stays_pure _)

end Devices

/-- Sixteen bytes in which head 9 is published. -/
def strayChain : Ram :=
  ⟨[{ isNull := false, bytes := [0, 0, 1, 0, 9, 0, 0, 0, 0, 0, 0, 0, 2, 0, 0, 0], memOffset := 0,
      size_le := by decide }]⟩

def strayHead : Ctx BareDevice Ram := { waiting bareBlk with mem := strayChain }

/-- The device fetches descriptor 9 of a table with one entry. -/
theorem blk_fetches_past_table : strayHead.queue.size = 1 ∧
      ((VirtioDevice.tick 1 0).finalState strayHead).log.take 2 = [.popped 9, .fetch (.head 9)] ∧
      ¬Stays (VirtioDevice.tick 1 0) strayHead := by
  have hlog : ((tick 1 0).finalState strayHead).log.take 2 = [.popped 9, .fetch (.head 9)] := by
    decide
  refine ⟨rfl, hlog, fun hstays => ?_⟩
  have hfetch := hstays [.popped 9] (.head 9) (((tick 1 0).finalState strayHead).log.drop 2) (by
    rw [← List.take_append_drop 2 ((tick 1 0).finalState strayHead).log, hlog]
    rfl)
  exact absurd hfetch.1 (by decide)

end FerrumVM
