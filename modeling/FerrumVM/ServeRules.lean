import FerrumVM.VirtioDevice

/-! Rules for device programs. A program is made of operations of a few kinds, and what it can have
changed, whether it returned or faulted, follows from the kinds it is made of: the queue moves only where
something is popped or pushed, guest memory changes only where something is written or pushed, and the
log grows by what those operations log. -/

namespace FerrumVM

open Base Program

/-- The kinds of operations that a device program is made of. -/
inductive Prim where
  | pop
  | fetch
  | read
  | write
  | push
  /-- Work on the device alone. -/
  | dev
  deriving DecidableEq, Repr

/-- The kind of operation that logs the event. -/
def Event.prim : Event → Prim
  | .popped _ => .pop
  | .fetch _ => .fetch
  | .descriptor _ => .fetch
  | .stored _ _ _ => .write
  | .retired _ _ => .push

/-- Membership in a list of kinds, found by instance search. -/
class Prim.Among (p : Prim) (kinds : List Prim) : Prop where
  mem : p ∈ kinds

instance {p : Prim} {kinds : List Prim} : p.Among (p :: kinds) := ⟨List.mem_cons_self⟩

instance {p q : Prim} {kinds : List Prim} [h : p.Among kinds] : p.Among (q :: kinds) :=
  ⟨List.mem_cons_of_mem _ h.mem⟩

class Prim.Within (kinds kinds' : List Prim) : Prop where
  sub : kinds ⊆ kinds'

instance {kinds : List Prim} : Prim.Within [] kinds := ⟨List.nil_subset _⟩

instance {p : Prim} {kinds kinds' : List Prim} [h : p.Among kinds'] [h' : Prim.Within kinds kinds'] :
    Prim.Within (p :: kinds) kinds' :=
  ⟨List.cons_subset.mpr ⟨h.mem, h'.sub⟩⟩

variable {D M α β γ : Type}

section Kinds

variable [GuestMemory M]

/-- The program is made of operations of the listed kinds. -/
inductive Uses (kinds : List Prim) : {α : Type} → Serve D M α → Prop
  | pure {α : Type} (a : α) : Uses kinds (pure a)
  | lift {α : Type} (x : Exec α) : Uses kinds (lift x)
  | throw {α : Type} (e : Fault) : Uses kinds (throw e : Serve D M α)
  | get : Uses kinds get
  | bind {α β : Type} {x : Serve D M α} {f : α → Serve D M β} (hx : Uses kinds x)
      (hf : ∀ a, Uses kinds (f a)) : Uses kinds (x >>= f)
  | onDev {α : Type} (x : Program D α) (h : .dev ∈ kinds) : Uses kinds (Serve.onDev x)
  | popAvail (h : .pop ∈ kinds) : Uses kinds Serve.popAvail
  | getDescriptor (link : Link) (h : .fetch ∈ kinds) : Uses kinds (Serve.getDescriptor link)
  | readU32 (addr : UInt64) (h : .read ∈ kinds) : Uses kinds (Serve.readU32 addr)
  | readU64 (addr : UInt64) (h : .read ∈ kinds) : Uses kinds (Serve.readU64 addr)
  | readGuestMemoryAlloc (addr : UInt64) (len : Nat) (h : .read ∈ kinds) :
      Uses kinds (Serve.readGuestMemoryAlloc addr len)
  | writeU8 (addr : UInt64) (val : UInt8) (h : .write ∈ kinds) : Uses kinds (Serve.writeU8 addr val)
  | writeU32 (addr : UInt64) (val : UInt32) (h : .write ∈ kinds) : Uses kinds (Serve.writeU32 addr val)
  | writeGuestMemory (addr : UInt64) (data : Bytes) (h : .write ∈ kinds) :
      Uses kinds (Serve.writeGuestMemory addr data)
  | pushUsed (head : UInt16) (len : UInt32) (h : .push ∈ kinds) : Uses kinds (Serve.pushUsed head len)

namespace Uses

variable {kinds : List Prim}

theorem ite {p : Prop} [Decidable p] {x y : Serve D M α} (hx : Uses kinds x) (hy : Uses kinds y) :
    Uses kinds (if p then x else y) := by
  split_ifs
  · exact hx
  · exact hy

theorem loop {body : β → Serve D M (β ⊕ γ)} (hbody : ∀ b, Uses kinds (body b)) (fuel : Nat) (b : β) :
    Uses kinds (loop body fuel b) := by
  induction fuel generalizing b with
  | zero => exact .throw _
  | succ fuel ih =>
    refine (hbody b).bind fun r => ?_
    cases r with
    | inl b' => exact ih b'
    | inr c => exact .pure c

theorem mono {kinds' : List Prim} {x : Serve D M α} (h : Uses kinds x) [hw : Prim.Within kinds kinds'] :
    Uses kinds' x := by
  have hsub := hw.sub
  induction h with
  | pure a => exact .pure a
  | lift x => exact .lift x
  | throw e => exact .throw e
  | get => exact .get
  | bind _ _ hx hf => exact .bind hx hf
  | onDev x h => exact .onDev x (hsub h)
  | popAvail h => exact .popAvail (hsub h)
  | getDescriptor link h => exact .getDescriptor link (hsub h)
  | readU32 addr h => exact .readU32 addr (hsub h)
  | readU64 addr h => exact .readU64 addr (hsub h)
  | readGuestMemoryAlloc addr len h => exact .readGuestMemoryAlloc addr len (hsub h)
  | writeU8 addr val h => exact .writeU8 addr val (hsub h)
  | writeU32 addr val h => exact .writeU32 addr val (hsub h)
  | writeGuestMemory addr data h => exact .writeGuestMemory addr data (hsub h)
  | pushUsed head len h => exact .pushUsed head len (hsub h)

theorem finish (head : UInt16) (len : UInt32) (a : α) [h : Prim.push.Among kinds] :
    Uses kinds (do Serve.pushUsed head len; return a : Serve D M α) :=
  .bind (.pushUsed _ _ h.mem) fun _ => .pure _

end Uses

abbrev Quiet (x : Serve D M α) : Prop := Uses [.fetch, .read, .write, .dev] x

/-- A program that serves a chain: it does anything but pop another. -/
abbrev Service (x : Serve D M α) : Prop := Uses [.fetch, .read, .write, .push, .dev] x

/-! ### What a program can have changed -/

/-- What operations of the listed kinds can do on the way from `c` to `c'`. -/
structure Effect (kinds : List Prim) (c c' : Ctx D M) : Prop where
  rings : ∃ lastAvailIdx lastUsedIdx, c'.queue = { c.queue with lastAvailIdx, lastUsedIdx }
  inRam : GuestMemory.inRam c'.mem = GuestMemory.inRam c.mem
  log : ∃ events, c'.log = c.log ++ events ∧ ∀ e ∈ events, e.prim ∈ kinds
  queue : .pop ∉ kinds → .push ∉ kinds → c'.queue = c.queue
  mem : .write ∉ kinds → .push ∉ kinds → c'.mem = c.mem
  dev : .dev ∉ kinds → c'.dev = c.dev

namespace Effect

variable {kinds : List Prim} {c c' c'' : Ctx D M}

theorem refl (c : Ctx D M) : Effect kinds c c where
  rings := ⟨_, _, rfl⟩
  inRam := rfl
  log := ⟨[], (List.append_nil _).symm, fun _ he => absurd he List.not_mem_nil⟩
  queue _ _ := rfl
  mem _ _ := rfl
  dev _ := rfl

section

variable (h : Effect kinds c c')
include h

theorem trans (h' : Effect kinds c' c'') : Effect kinds c c'' where
  rings := by
    obtain ⟨a, u, hq⟩ := h.rings
    obtain ⟨a', u', hq'⟩ := h'.rings
    exact ⟨a', u', by rw [hq', hq]⟩
  inRam := h'.inRam.trans h.inRam
  log := by
    obtain ⟨events, hlog, hkinds⟩ := h.log
    obtain ⟨events', hlog', hkinds'⟩ := h'.log
    refine ⟨events ++ events', by rw [hlog', hlog, List.append_assoc], fun e he => ?_⟩
    rcases List.mem_append.mp he with he | he
    · exact hkinds e he
    · exact hkinds' e he
  queue hpop hpush := (h'.queue hpop hpush).trans (h.queue hpop hpush)
  mem hwrite hpush := (h'.mem hwrite hpush).trans (h.mem hwrite hpush)
  dev hdev := (h'.dev hdev).trans (h.dev hdev)

theorem queue_eq [hw : Prim.Within kinds [.fetch, .read, .write, .dev]] : c'.queue = c.queue :=
  h.queue (fun hpop => absurd (hw.sub hpop) (by decide)) fun hpush => absurd (hw.sub hpush) (by decide)

theorem mem_eq [hw : Prim.Within kinds [.pop, .fetch, .read, .dev]] : c'.mem = c.mem :=
  h.mem (fun hwrite => absurd (hw.sub hwrite) (by decide)) fun hpush => absurd (hw.sub hpush) (by decide)

theorem size_eq : c'.queue.size = c.queue.size := by
  obtain ⟨_, _, hq⟩ := h.rings
  rw [hq]

end

theorem logged {events : List Event} (h : ∀ e ∈ events, e.prim ∈ kinds) :
    Effect kinds c { c with log := c.log ++ events } where
  rings := ⟨_, _, rfl⟩
  inRam := rfl
  log := ⟨events, rfl, h⟩
  queue _ _ := rfl
  mem _ _ := rfl
  dev _ := rfl

theorem stored {m : M} {addr : UInt64} {data : Bytes} {landed : Bool} (hwrite : .write ∈ kinds)
    (hram : GuestMemory.inRam m = GuestMemory.inRam c.mem) :
    Effect kinds c { c with mem := m, log := c.log ++ [.stored addr data landed] } where
  rings := ⟨_, _, rfl⟩
  inRam := hram
  log := ⟨_, rfl, by simpa [Event.prim] using hwrite⟩
  queue _ _ := rfl
  mem hno _ := absurd hwrite hno
  dev _ := rfl

end Effect

theorem effect_act {kinds : List Prim} {f : Ctx D M → Exec (α × Ctx D M)} {c : Ctx D M}
    (h : ∀ a c', act f c = .ok a c' → Effect kinds c c') : Effect kinds c ((act f).finalState c) := by
  cases hx : act f c with
  | ok a c' =>
    rw [finalState_of_ok hx]
    exact h a c' hx
  | error e c' =>
    rw [finalState_of_error hx, act_eq_error hx]
    exact .refl c

namespace Uses

variable {kinds : List Prim}

theorem effect_onDev (x : Program D α) (h : .dev ∈ kinds) (c : Ctx D M) :
    Effect kinds c ((Serve.onDev x).finalState c) := by
  have hdev (dev : D) : Effect kinds c { c with dev } :=
    ⟨⟨_, _, rfl⟩, rfl, ⟨[], (List.append_nil _).symm, by simp⟩, fun _ _ => rfl, fun _ _ => rfl,
      fun hno => absurd h hno⟩
  unfold finalState Serve.onDev
  cases x c.dev with
  | ok a dev => exact hdev dev
  | error e dev => exact hdev dev

theorem effect_popAvail (h : .pop ∈ kinds) (c : Ctx D M) :
    Effect kinds c ((Serve.popAvail : Serve D M _).finalState c) := by
  refine effect_act fun head? c' hpop => ?_
  cases head? with
  | none =>
    rw [Serve.popAvail_none hpop]
    exact .refl c
  | some head =>
    obtain ⟨_, rfl⟩ := Serve.popAvail_some hpop
    exact ⟨⟨_, _, rfl⟩, rfl, ⟨_, rfl, by simpa [Event.prim] using h⟩, fun hno => absurd h hno,
      fun _ _ => rfl, fun _ => rfl⟩

theorem effect_getDescriptor (link : Link) (h : .fetch ∈ kinds) (c : Ctx D M) :
    Effect kinds c ((Serve.getDescriptor link : Serve D M _).finalState c) := by
  rw [Serve.getDescriptor, finalState_bind_of_ok (a := ⟨⟩) (modify_eq_ok.mpr rfl)]
  refine (Effect.logged (by simpa [Event.prim] using h)).trans (effect_act fun desc c' hdesc => ?_)
  obtain ⟨d, _, heq⟩ := Exec.bind_eq_ok.mp (act_eq_ok.mp hdesc)
  cases heq
  exact Effect.logged (by simpa [Event.prim] using h)

theorem effect_pushUsed (head : UInt16) (len : UInt32) (h : .push ∈ kinds) (c : Ctx D M) :
    Effect kinds c ((Serve.pushUsed head len : Serve D M _).finalState c) := by
  refine effect_act fun _ c' hpush => ?_
  obtain ⟨queue, mem, hqueue, rfl⟩ := Serve.pushUsed_eq_ok hpush
  obtain ⟨hram, hcases⟩ := VirtioQueue.pushUsed_eq_ok hqueue
  refine ⟨?_, hram, ⟨_, rfl, by simpa [Event.prim] using h⟩, fun _ hno => absurd h hno,
    fun _ hno => absurd h hno, fun _ => rfl⟩
  rcases hcases with ⟨_, rfl, _⟩ | ⟨_, rfl⟩
  · exact ⟨_, _, rfl⟩
  · exact ⟨_, _, rfl⟩

/-- **Frame.** What a program changed is what operations of its kinds can change. -/
theorem effect {x : Serve D M α} (h : Uses kinds x) (c : Ctx D M) : Effect kinds c (x.finalState c) := by
  induction h generalizing c with
  | pure a => exact .refl c
  | lift x => cases x <;> exact .refl c
  | throw e => exact .refl c
  | get => exact .refl c
  | @bind _ _ x f _ _ hx hf =>
    cases hrun : x c with
    | ok a t =>
      rw [finalState_bind_of_ok hrun, ← finalState_of_ok hrun]
      exact (hx c).trans (hf a _)
    | error e t =>
      rw [finalState_bind_of_error hrun, ← finalState_of_error hrun]
      exact hx c
  | onDev x h => exact effect_onDev x h c
  | popAvail h => exact effect_popAvail h c
  | getDescriptor link h => exact effect_getDescriptor link h c
  | readU32 addr h =>
    refine effect_act fun _ c' hread => ?_
    rw [(Serve.readU32_eq_ok.mp hread).2]
    exact .refl c
  | readU64 addr h =>
    refine effect_act fun _ c' hread => ?_
    rw [(Serve.readU64_eq_ok.mp hread).2]
    exact .refl c
  | readGuestMemoryAlloc addr len h =>
    refine effect_act fun _ c' hread => ?_
    rw [(Serve.readGuestMemoryAlloc_eq_ok.mp hread).2]
    exact .refl c
  | writeU8 addr val h =>
    refine effect_act fun _ c' hwrite => ?_
    obtain ⟨mem, _, hram, rfl⟩ := Serve.writeU8_eq_ok hwrite
    exact .stored h hram
  | writeU32 addr val h =>
    refine effect_act fun _ c' hwrite => ?_
    obtain ⟨mem, _, hram, rfl⟩ := Serve.writeU32_eq_ok hwrite
    exact .stored h hram
  | writeGuestMemory addr data h =>
    refine effect_act fun _ c' hwrite => ?_
    obtain ⟨mem, _, hram, rfl⟩ := Serve.writeGuestMemory_eq_ok hwrite
    exact .stored h hram
  | pushUsed head len h => exact effect_pushUsed head len h c

theorem effect_of_ok {x : Serve D M α} (h : Uses kinds x) {c c' : Ctx D M} {a : α} (hx : x c = .ok a c') :
    Effect kinds c c' :=
  finalState_of_ok hx ▸ h.effect c

end Uses

end Kinds

/-! ### Invariants of the device -/

/-- The device is in `I` where the program ends, be it by a fault, if it was in `I` where it started. -/
def KeepsDev (I : D → Prop) (x : Serve D M α) : Prop := ∀ c, I c.dev → I (x.finalState c).dev

namespace KeepsDev

variable {I : D → Prop} {f : α → Serve D M β} {x : Serve D M α}

theorem of_uses [GuestMemory M] {kinds : List Prim} (h : Uses kinds x) (hdev : .dev ∉ kinds) : KeepsDev I x := by
  intro c hc
  rwa [(h.effect c).dev hdev]

theorem bind_of_ok (hx : KeepsDev I x) (hf : ∀ c a t, x c = .ok a t → KeepsDev I (f a)) : KeepsDev I (x >>= f) := by
  intro c hc
  have hfirst := hx c hc
  cases hrun : x c with
  | ok a t =>
    rw [finalState_of_ok hrun] at hfirst
    rw [finalState_bind_of_ok hrun]
    exact hf c a t hrun t hfirst
  | error e t =>
    rw [finalState_of_error hrun] at hfirst
    rwa [finalState_bind_of_error hrun]

theorem bind (hx : KeepsDev I x) (hf : ∀ a, KeepsDev I (f a)) : KeepsDev I (x >>= f) :=
  hx.bind_of_ok fun _ a _ _ => hf a

theorem pure (a : α) : KeepsDev I (pure a : Serve D M α) := fun _ hc => hc

/-- What is read from the context is read from a device in `I`. -/
theorem get_bind {f : Ctx D M → Serve D M β} (hf : ∀ c, I c.dev → KeepsDev I (f c)) : KeepsDev I (get >>= f) := by
  intro c hc
  rw [finalState_bind_of_ok (get_eq_ok.mpr ⟨rfl, rfl⟩)]
  exact hf c hc c hc

theorem lift_bind {x : Exec α} (hf : ∀ a, x = .ok a → KeepsDev I (f a)) : KeepsDev I (lift x >>= f) := by
  cases x with
  | ok a => exact hf a rfl
  | error e => exact fun _ hc => hc

theorem ite {p : Prop} [Decidable p] {y : Serve D M α} (hx : KeepsDev I x) (hy : KeepsDev I y) :
    KeepsDev I (if p then x else y) := by
  split_ifs
  · exact hx
  · exact hy

theorem onDev {x : Program D α} (hx : ∀ s, I s → I (x.finalState s)) : KeepsDev I (Serve.onDev x : Serve D M α) := by
  intro c hc
  have hdev := hx c.dev hc
  unfold finalState at hdev ⊢
  unfold Serve.onDev
  cases hrun : x c.dev with
  | ok a dev =>
    rw [hrun] at hdev
    exact hdev
  | error e dev =>
    rw [hrun] at hdev
    exact hdev

end KeepsDev

/-! ### Programs that only look -/

/-- The outcome of a computation that changed nothing but the log. -/
def Ctx.outcome (c : Ctx D M) (log : List Event) : Exec α → EStateM.Result Fault (Ctx D M) α
  | .ok a => .ok a { c with log := c.log ++ log }
  | .error e => .error e { c with log := c.log ++ log }

/-- The program computes `f` of the queue and guest memory, and changes nothing but the log. -/
def Looks (x : Serve D M α) (f : VirtioQueue → M → Exec α) : Prop :=
  ∀ c, ∃ log, x c = c.outcome log (f c.queue c.mem)

namespace Looks

variable {f : VirtioQueue → M → Exec α}

theorem of_ok {x : Serve D M α} (h : Looks x f) {c c' : Ctx D M} {a : α}
    (hx : x c = .ok a c') : f c.queue c.mem = .ok a ∧ ∃ log, c' = { c with log := c.log ++ log } := by
  obtain ⟨log, hlook⟩ := h c
  rw [hlook] at hx
  cases hf : f c.queue c.mem with
  | ok b =>
    rw [hf] at hx
    cases hx
    exact ⟨rfl, log, rfl⟩
  | error e =>
    rw [hf] at hx
    cases hx

theorem outcome_nil (c : Ctx D M) (x : Exec α) : c.outcome [] x = (lift x : Serve D M α) c := by
  cases x <;> simp only [Ctx.outcome, List.append_nil] <;> rfl

theorem lift (x : Exec α) : Looks (lift x : Serve D M α) fun _ _ => x :=
  fun c => ⟨[], (outcome_nil c x).symm⟩

theorem pure (a : α) : Looks (pure a : Serve D M α) fun _ _ => .ok a := lift (.ok a)

theorem bind {x : Serve D M α} {g : α → Serve D M β}
    {k : α → VirtioQueue → M → Exec β} (hx : Looks x f) (hg : ∀ a, Looks (g a) (k a)) :
    Looks (x >>= g) fun q m => f q m >>= fun a => k a q m := by
  intro c
  obtain ⟨log, hlook⟩ := hx c
  show ∃ log', EStateM.bind x g c = c.outcome log' (f c.queue c.mem >>= fun a => k a c.queue c.mem)
  unfold EStateM.bind
  rw [hlook]
  cases f c.queue c.mem with
  | ok a =>
    obtain ⟨log', hlook'⟩ := hg a { c with log := c.log ++ log }
    refine ⟨log ++ log', ?_⟩
    simp only [Ctx.outcome, hlook', Exec.ok_bind]
    cases k a c.queue c.mem <;> simp only [List.append_assoc]
  | error e => exact ⟨log, rfl⟩

theorem ite {p : Prop} [Decidable p] {x y : Serve D M α} {g : VirtioQueue → M → Exec α} (hx : Looks x f)
    (hy : Looks y g) : Looks (if p then x else y) fun q m => if p then f q m else g q m := by
  split_ifs
  · exact hx
  · exact hy

theorem getDescriptor [GuestMemory M] (link : Link) :
    Looks (Serve.getDescriptor link : Serve D M VirtqDesc) fun q m => q.getDescriptor m link.index := by
  intro c
  show ∃ log, Serve.getDescriptor link c = c.outcome log (c.queue.getDescriptor c.mem link.index)
  cases hdesc : c.queue.getDescriptor c.mem link.index with
  | ok desc => exact ⟨_, Serve.getDescriptor_eq_ok.mpr ⟨hdesc, rfl⟩⟩
  | error e =>
    refine ⟨[.fetch link], ?_⟩
    rw [Serve.getDescriptor, bind_of_ok (a := ⟨⟩) (modify_eq_ok.mpr rfl)]
    simp only [Program.act, hdesc, Exec.error_bind]
    rfl

theorem readU32 [GuestMemory M] (addr : UInt64) :
    Looks (Serve.readU32 addr : Serve D M UInt32) fun _ m => GuestMemory.readU32 m addr := by
  refine fun c => ⟨[], ?_⟩
  simp only [outcome_nil, Serve.readU32, Program.act]
  cases GuestMemory.readU32 c.mem addr <;> rfl

theorem readU64 [GuestMemory M] (addr : UInt64) :
    Looks (Serve.readU64 addr : Serve D M UInt64) fun _ m => GuestMemory.readU64 m addr := by
  refine fun c => ⟨[], ?_⟩
  simp only [outcome_nil, Serve.readU64, Program.act]
  cases GuestMemory.readU64 c.mem addr <;> rfl

end Looks

end FerrumVM
