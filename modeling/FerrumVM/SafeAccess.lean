import FerrumVM.QueueLoop

/-! Serving a queue over total memory. No access of guest memory faults there, so what is left to fault
in the three operations of a queue is the arithmetic on addresses; and a program that retires its chain
after steps which always return does so exactly where the address of the used entry can be computed. -/

namespace FerrumVM

open Base Program Serve

namespace VirtioQueue

/-- The addresses of the four fields of the descriptor fit. -/
def DescSafe (q : VirtioQueue) (index : UInt16) : Prop := q.descAddr.toNat + index.toNat * 16 + 14 < 2 ^ 64

def descAt (q : VirtioQueue) (mem : Ram) (index : UInt16) : VirtqDesc where
  addr := mem.u64 (q.descAddr + index.toUInt64 * 16)
  len := mem.u32 (q.descAddr + index.toUInt64 * 16 + 8)
  flags := mem.u16 (q.descAddr + index.toUInt64 * 16 + 12)
  next := mem.u16 (q.descAddr + index.toUInt64 * 16 + 14)

/-- The device has taken every chain that the driver published. -/
def CaughtUp (q : VirtioQueue) (mem : Ram) : Prop :=
  q.size = 0 ∨ (q.availAddr.toNat + 2 < 2 ^ 64 ∧ q.lastAvailIdx = mem.u16 (q.availAddr + 2))

def PopSafe (q : VirtioQueue) (mem : Ram) : Prop :=
  q.CaughtUp mem ∨ q.availAddr.toNat + 4 + q.lastAvailIdx.toNat % q.size.toNat * 2 < 2 ^ 64

def PushSafe (q : VirtioQueue) : Prop :=
  q.size = 0 ∨ q.usedAddr.toNat + 8 + q.lastUsedIdx.toNat % q.size.toNat * 8 < 2 ^ 64

variable {q : VirtioQueue} {mem : Ram}

theorem toNat_descOffset (index : UInt16) : (index.toUInt64 * 16).toNat = index.toNat * 16 := by
  have hlt := index.toNat_lt
  simp only [UInt64.toNat_mul, UInt16.toNat_toUInt64, UInt64.reduceToNat]
  omega

theorem getDescriptor_of_safe {index : UInt16} (h : q.DescSafe index) :
    q.getDescriptor mem index = .ok (q.descAt mem index) := by
  have hoff := toNat_descOffset index
  unfold DescSafe at h
  have hbase : q.descAddr.toNat + (index.toUInt64 * 16).toNat < 2 ^ 64 := by omega
  have hfield (off : UInt64) (hle : off.toNat ≤ 14) :
      addU64 (q.descAddr + index.toUInt64 * 16) off = .ok (q.descAddr + index.toUInt64 * 16 + off) := by
    refine addU64_of_lt ?_
    rw [toNat_add_of_lt hbase]
    omega
  rw [getDescriptor, addU64_of_lt hbase, Exec.ok_bind, hfield 8 (by decide), hfield 12 (by decide),
    hfield 14 (by decide)]
  rfl

theorem getDescriptor_of_astray {index : UInt16} (h : ¬q.DescSafe index) :
    q.getDescriptor mem index = .error (.panic .overflow) := by
  unfold DescSafe at h
  rw [← toNat_descOffset] at h
  unfold getDescriptor addU64
  by_cases hbase : q.descAddr.toNat + (index.toUInt64 * 16).toNat < 2 ^ 64
  · rw [← toNat_add_of_lt hbase] at h
    rw [if_pos hbase, Exec.ok_bind]
    split_ifs with _ _ hlast
    · exact absurd hlast h
    all_goals rfl
  · rw [if_neg hbase]
    rfl

theorem getDescriptor_eq_ok {index : UInt16} {desc : VirtqDesc} :
    q.getDescriptor mem index = .ok desc ↔ q.DescSafe index ∧ desc = q.descAt mem index := by
  by_cases hsafe : q.DescSafe index
  · simp [getDescriptor_of_safe hsafe, hsafe, eq_comm]
  · simp [getDescriptor_of_astray hsafe, hsafe]

theorem popAvail_cases (q : VirtioQueue) (mem : Ram) : (q.CaughtUp mem ∧ q.popAvail mem = .ok (none, q)) ∨
    (¬q.CaughtUp mem ∧ q.PopSafe mem ∧ ∃ head q', q.popAvail mem = .ok (some head, q')) ∨
    (¬q.PopSafe mem ∧ q.popAvail mem = .error (.panic .overflow)) := by
  have hoff := q.toNat_availOffset q.lastAvailIdx
  unfold popAvail PopSafe CaughtUp
  by_cases hsize : q.size = 0
  · exact Or.inl ⟨Or.inl hsize, by rw [if_pos hsize, Exec.pure_eq]⟩
  rw [if_neg hsize]
  by_cases hidx : q.availAddr.toNat + (2 : UInt64).toNat < 2 ^ 64
  · rw [addU64_of_lt hidx]
    by_cases hnew : q.lastAvailIdx = mem.u16 (q.availAddr + 2)
    · exact Or.inl ⟨Or.inr ⟨hidx, hnew⟩, if_pos hnew⟩
    · have hbehind : ¬(q.size = 0 ∨ (q.availAddr.toNat + 2 < 2 ^ 64 ∧ q.lastAvailIdx = mem.u16 (q.availAddr + 2))) := by
        tauto
      refine Or.inr ?_
      by_cases hentry : q.availAddr.toNat + (q.availOffset q.lastAvailIdx).toNat < 2 ^ 64
      · refine Or.inl ⟨hbehind, Or.inr (by omega), mem.u16 (q.availAddr + q.availOffset q.lastAvailIdx),
          { q with lastAvailIdx := q.lastAvailIdx + 1 }, ?_⟩
        rw [addU64_of_lt hentry]
        exact if_neg hnew
      · refine Or.inr ⟨fun h => h.elim hbehind (by omega), ?_⟩
        rw [addU64_of_ge hentry]
        exact if_neg hnew
  · refine Or.inr (Or.inr ⟨?_, ?_⟩)
    · rintro ((hzero | ⟨hlt, _⟩) | hlt)
      · exact hsize hzero
      · exact hidx hlt
      · have htwo : (2 : UInt64).toNat = 2 := rfl
        omega
    · rw [addU64_of_ge hidx]
      rfl

theorem pushUsed_returns_iff (q : VirtioQueue) (mem : Ram) (head : UInt16) (len : UInt32) :
    (∃ r, q.pushUsed mem head len = .ok r) ↔ q.PushSafe := by
  have hoff := q.toNat_usedOffset q.lastUsedIdx
  unfold pushUsed PushSafe
  split_ifs with hsize
  · exact iff_of_true ⟨_, rfl⟩ (Or.inl hsize)
  · constructor
    · rintro ⟨r, h⟩
      obtain ⟨entry, hentry, h⟩ := Exec.bind_eq_ok.mp h
      obtain ⟨mem1, _, h⟩ := Exec.bind_eq_ok.mp h
      obtain ⟨lenAddr, hlen, _⟩ := Exec.bind_eq_ok.mp h
      obtain ⟨hfits, rfl⟩ := addU64_eq_ok_add.mp hentry
      have hlast := (addU64_eq_ok_add.mp hlen).1
      rw [toNat_add_of_lt hfits, show (4 : UInt64).toNat = 4 from rfl] at hlast
      exact Or.inr (by omega)
    · rintro (hzero | hlast)
      · exact absurd hzero hsize
      · have hentry : q.usedAddr.toNat + (q.usedOffset q.lastUsedIdx).toNat < 2 ^ 64 := by omega
        have hlen : (q.usedAddr + q.usedOffset q.lastUsedIdx).toNat + (4 : UInt64).toNat < 2 ^ 64 := by
          rw [toNat_add_of_lt hentry, show (4 : UInt64).toNat = 4 from rfl]
          omega
        have hidx : q.usedAddr.toNat + (2 : UInt64).toNat < 2 ^ 64 := by
          rw [show (2 : UInt64).toNat = 2 from rfl]
          omega
        rw [addU64_of_lt hentry, Exec.ok_bind, addU64_of_lt hlen, addU64_of_lt hidx]
        exact ⟨_, rfl⟩

end VirtioQueue

section Programs

variable {D α β : Type} {c u : Ctx D Ram} {f : VirtqDesc → Serve D Ram β} {x : Serve D Ram α} {b : β} {addr : UInt64}

@[simp] theorem fetched_queue {M : Type} (c : Ctx D M) (link : Link) (desc : VirtqDesc) :
    (c.fetched link desc).queue = c.queue := rfl

@[simp] theorem fetched_mem {M : Type} (c : Ctx D M) (link : Link) (desc : VirtqDesc) :
    (c.fetched link desc).mem = c.mem := rfl

def Ctx.descAt (c : Ctx D Ram) (index : UInt16) : VirtqDesc := c.queue.descAt c.mem index

@[simp] theorem fetched_descAt (c : Ctx D Ram) (link : Link) (desc : VirtqDesc) :
    (c.fetched link desc).descAt = c.descAt := rfl

/-! ### Popping and fetching -/

theorem popAvail_idle_iff :
    c.queue.CaughtUp c.mem ↔ ∃ c', (popAvail : Serve D Ram (Option UInt16)) c = .ok none c' := by
  simp only [popAvail, act_eq_ok, Exec.bind_eq_ok]
  rcases c.queue.popAvail_cases c.mem with ⟨hidle, hpop⟩ | ⟨hidle, _, head, q', hpop⟩ | ⟨hbad, hpop⟩
  · exact iff_of_true hidle ⟨_, _, hpop, rfl⟩
  · simp [hidle, hpop]
  · have hbehind : ¬c.queue.CaughtUp c.mem := fun hidle => hbad (Or.inl hidle)
    simp [hpop, hbehind]

theorem returns_popAvail_iff : c.queue.PopSafe c.mem ↔ Returns (popAvail : Serve D Ram (Option UInt16)) c := by
  simp only [Returns, popAvail, act_eq_ok, Exec.bind_eq_ok]
  rcases c.queue.popAvail_cases c.mem with ⟨hidle, hpop⟩ | ⟨_, hsafe, head, q', hpop⟩ | ⟨hbad, hpop⟩
  · exact iff_of_true (Or.inl hidle) ⟨_, _, _, hpop, rfl⟩
  · exact iff_of_true hsafe ⟨_, _, _, hpop, rfl⟩
  · simp [hpop, hbad]

theorem getDescriptor_bind_eq_ok {link : Link} :
    (getDescriptor link >>= f) c = .ok b u ↔ c.queue.DescSafe link.index ∧
      f (c.descAt link.index) (c.fetched link (c.descAt link.index)) = .ok b u := by
  simp only [bind_eq_ok, getDescriptor_eq_ok, VirtioQueue.getDescriptor_eq_ok, Ctx.descAt]
  constructor
  · rintro ⟨desc, t, ⟨⟨hsafe, rfl⟩, rfl⟩, hf⟩
    exact ⟨hsafe, hf⟩
  · rintro ⟨hsafe, hf⟩
    exact ⟨_, _, ⟨⟨hsafe, rfl⟩, rfl⟩, hf⟩

theorem returns_getDescriptor_bind {link : Link} :
    Returns (getDescriptor link >>= f) c ↔ c.queue.DescSafe link.index ∧
      Returns (f (c.descAt link.index)) (c.fetched link (c.descAt link.index)) := by
  simp only [Returns, getDescriptor_bind_eq_ok, exists_and_left]

theorem returns_head_bind {head : UInt16} : Returns (getDescriptor (.head head) >>= f) c ↔ c.queue.DescSafe head ∧
      Returns (f (c.descAt head)) (c.fetched (.head head) (c.descAt head)) :=
  returns_getDescriptor_bind

theorem returns_next_bind {desc : VirtqDesc} :
    Returns (getDescriptor (.next desc) >>= f) c ↔ c.queue.DescSafe desc.next ∧
      Returns (f (c.descAt desc.next)) (c.fetched (.next desc) (c.descAt desc.next)) :=
  returns_getDescriptor_bind

/-! ### Reading and writing -/

def Ctx.writing (c : Ctx D Ram) (addr : UInt64) (data : Bytes) : Ctx D Ram :=
  { c with
    mem := c.mem.store addr data
    log := c.log ++ [.stored addr data (landsIn c.mem.regions addr data.length)] }

@[simp] theorem landsIn_writing (c : Ctx D Ram) (addr : UInt64) (data : Bytes) :
    landsIn (c.writing addr data).mem.regions = landsIn c.mem.regions :=
  (Ram.storeIn_geometry addr data c.mem.regions).landsIn_eq

theorem read_bind {len : Nat} {f : Bytes → Serve D Ram β} :
    (readGuestMemoryAlloc addr len >>= f) c = f (c.mem.load addr len) c := rfl

theorem readU32_bind {f : UInt32 → Serve D Ram β} : (readU32 addr >>= f) c = f (c.mem.u32 addr) c := rfl

theorem write_bind {data : Bytes} {f : Unit → Serve D Ram β} :
    (writeGuestMemory addr data >>= f) c = f () (c.writing addr data) := rfl

theorem writeU32_bind {val : UInt32} {f : Unit → Serve D Ram β} :
    (writeU32 addr val >>= f) c = f () (c.writing addr (u32ToLe val)) := rfl

/-! ### Checked arithmetic -/

section Checked

variable {σ : Type} {s t : σ}

theorem checked_bind_eq_ok {p : Prop} [Decidable p] {a : α} {e : Fault} {f : α → Program σ β} :
    (lift (if p then .ok a else .error e) >>= f) s = .ok b t ↔ p ∧ f a s = .ok b t := by
  split_ifs with h
  · exact (and_iff_right h).symm
  · exact iff_of_false nofun fun hand => h hand.1

theorem addU64_bind_eq_ok {x y : UInt64} {f : UInt64 → Program σ β} :
    (lift (addU64 x y) >>= f) s = .ok b t ↔ x.toNat + y.toNat < 2 ^ 64 ∧ f (x + y) s = .ok b t :=
  checked_bind_eq_ok

theorem addU32_bind_eq_ok {x y : UInt32} {f : UInt32 → Program σ β} :
    (lift (addU32 x y) >>= f) s = .ok b t ↔ x.toNat + y.toNat < 2 ^ 32 ∧ f (x + y) s = .ok b t :=
  checked_bind_eq_ok

theorem returns_checked_bind {p : Prop} [Decidable p] {a : α} {e : Fault} {f : α → Program σ β} :
    Returns (lift (if p then .ok a else .error e) >>= f) s ↔ p ∧ Returns (f a) s := by
  simp only [Returns, checked_bind_eq_ok, exists_and_left]

theorem returns_addU64_bind {x y : UInt64} {f : UInt64 → Program σ β} :
    Returns (lift (addU64 x y) >>= f) s ↔ x.toNat + y.toNat < 2 ^ 64 ∧ Returns (f (x + y)) s :=
  returns_checked_bind

theorem returns_addU32_bind {x y : UInt32} {f : UInt32 → Program σ β} :
    Returns (lift (addU32 x y) >>= f) s ↔ x.toNat + y.toNat < 2 ^ 32 ∧ Returns (f (x + y)) s :=
  returns_checked_bind

theorem returns_ite_throw {p : Prop} [Decidable p] {e : Fault} {x : Program σ α} :
    Returns (if p then throw e else x) s ↔ ¬p ∧ Returns x s := by
  split_ifs with h <;> simp [h]

end Checked

/-! ### Steps that always return -/

/-- The step returns from every state, and leaves the queue. -/
class Total (x : Serve D Ram α) : Prop where
  ok : ∀ c, ∃ a c', x c = .ok a c' ∧ c'.queue = c.queue

namespace Total

theorem returns (hx : Total x) (c : Ctx D Ram) : Returns x c := by
  obtain ⟨a, c', hxs, _⟩ := hx.ok c
  exact .of_ok hxs

instance (a : α) : Total (pure a : Serve D Ram α) := ⟨fun c => ⟨a, c, rfl, rfl⟩⟩

instance bind {f : α → Serve D Ram β} [hx : Total x] [hf : ∀ a, Total (f a)] : Total (x >>= f) where
  ok c := by
    obtain ⟨a, t, hxs, hqueue⟩ := hx.ok c
    obtain ⟨b, c', hfs, hqueue'⟩ := (hf a).ok t
    exact ⟨b, c', bind_eq_ok.mpr ⟨a, t, hxs, hfs⟩, hqueue'.trans hqueue⟩

instance ite {p : Prop} [Decidable p] {y : Serve D Ram α} [Total x] [Total y] : Total (if p then x else y) := by
  split_ifs <;> infer_instance

theorem onDev {x : Program D α} (hx : ∀ s, Returns x s) : Total (onDev x : Serve D Ram α) where
  ok c := by
    obtain ⟨a, dev, hxs⟩ := hx c.dev
    exact ⟨a, { c with dev }, onDev_eq_ok.mpr ⟨dev, hxs, rfl⟩, rfl⟩

instance (addr : UInt64) (len : Nat) : Total (Serve.readGuestMemoryAlloc addr len : Serve D Ram Bytes) :=
  ⟨fun c => ⟨_, c, rfl, rfl⟩⟩

instance (addr : UInt64) (val : UInt8) : Total (Serve.writeU8 addr val : Serve D Ram Unit) :=
  ⟨fun _ => ⟨_, _, rfl, rfl⟩⟩

instance (addr : UInt64) (val : UInt32) : Total (Serve.writeU32 addr val : Serve D Ram Unit) :=
  ⟨fun _ => ⟨_, _, rfl, rfl⟩⟩

instance (addr : UInt64) (data : Bytes) : Total (Serve.writeGuestMemory addr data : Serve D Ram Unit) :=
  ⟨fun _ => ⟨_, _, rfl, rfl⟩⟩

end Total

/-! ### Retiring the chain -/

/-- From every state, what is left to do returns exactly if the chain can be retired. -/
class Settles (x : Serve D Ram α) : Prop where
  returns_iff : ∀ c, Returns x c ↔ c.queue.PushSafe

namespace Settles

instance (head : UInt16) (len : UInt32) (a : α) : Settles (do Serve.pushUsed head len; return a : Serve D Ram α) where
  returns_iff c := by
    rw [← c.queue.pushUsed_returns_iff c.mem head len, returns_bind]
    constructor
    · rintro ⟨_, t, hpush, _⟩
      obtain ⟨queue, mem, hpush, _⟩ := Serve.pushUsed_eq_ok hpush
      exact ⟨_, hpush⟩
    · rintro ⟨⟨queue, mem⟩, hpush⟩
      refine ⟨(), { c with queue, mem, log := c.log ++ [.retired head len] }, ?_, returns_pure _ _⟩
      exact act_eq_ok.mpr (Exec.bind_eq_ok.mpr ⟨(queue, mem), hpush, rfl⟩)

instance {f : α → Serve D Ram β} [hx : Total x] [hf : ∀ a, Settles (f a)] : Settles (x >>= f) where
  returns_iff c := by
    obtain ⟨a, t, hxs, hqueue⟩ := hx.ok c
    rw [returns_bind_of_ok hxs, (hf a).returns_iff, hqueue]

instance {p : Prop} [Decidable p] {y : Serve D Ram α} [Settles x] [Settles y] : Settles (if p then x else y) := by
  split_ifs <;> infer_instance

end Settles

end Programs

end FerrumVM
