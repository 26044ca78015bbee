import FerrumVM.BaseFault

/-! Stateful programs that may fault, with the state kept at the fault, and their weakest
preconditions. A loop takes fuel; `drain` is the loop that serves jobs until none is left, and
`Drained` is the list of jobs such a loop has served on the way from one state to another. -/

namespace Base

abbrev Program (σ α : Type) := EStateM Fault σ α

namespace Program

variable {σ α β γ : Type} {x y : Program σ α} {f : α → Program σ β} {s s' t : σ} {a : α} {e : Fault}
  {jobs : List (α × Bool)}

/-- A computation that neither reads nor writes the state. -/
def lift (x : Exec α) : Program σ α := fun s =>
  match x with
  | .ok a => .ok a s
  | .error e => .error e s

/-- One update of the state that may fault and then leaves the state as it was. -/
def act (f : σ → Exec (α × σ)) : Program σ α := fun s =>
  match f s with
  | .ok (a, s') => .ok a s'
  | .error e => .error e s

def finalState (x : Program σ α) (s : σ) : σ :=
  match x s with
  | .ok _ s' => s'
  | .error _ s' => s'

def Returns (x : Program σ α) (s : σ) : Prop := ∃ a s', x s = .ok a s'

/-! ### What a returning program did -/

@[simp] theorem pure_eq_ok {b : α} : (pure a : Program σ α) s = .ok b s' ↔ a = b ∧ s = s' := by
  show EStateM.Result.ok a s = .ok b s' ↔ _
  rw [EStateM.Result.ok.injEq]

theorem bind_eq_ok {b : β} : (x >>= f) s = .ok b s' ↔ ∃ a t, x s = .ok a t ∧ f a t = .ok b s' := by
  show EStateM.bind x f s = .ok b s' ↔ _
  unfold EStateM.bind
  cases hx : x s with
  | ok a t => simp
  | error e t => simp

theorem get_bind {f : σ → Program σ β} : (get >>= f) s = f s s := rfl

theorem bind_of_ok (h : x s = .ok a t) : (x >>= f) s = f a t := by
  show EStateM.bind x f s = f a t
  rw [EStateM.bind, h]

theorem bind_of_error (h : x s = .error e t) : (x >>= f) s = .error e t := by
  show EStateM.bind x f s = .error e t
  rw [EStateM.bind, h]

@[simp] theorem lift_eq_ok {x : Exec α} : (lift x : Program σ α) s = .ok a s' ↔ x = .ok a ∧ s = s' := by
  cases x with
  | ok b => simp [lift]
  | error e => simp [lift]

@[simp] theorem act_eq_ok {f : σ → Exec (α × σ)} : act f s = .ok a s' ↔ f s = .ok (a, s') := by
  unfold act
  cases f s with
  | ok r => simp [Prod.ext_iff]
  | error e => simp

@[simp] theorem get_eq_ok {a : σ} : (get : Program σ σ) s = .ok a s' ↔ s = a ∧ s = s' := by
  show EStateM.Result.ok s s = .ok a s' ↔ _
  rw [EStateM.Result.ok.injEq]

@[simp] theorem modify_eq_ok {f : σ → σ} {u : PUnit} : (modify f : Program σ PUnit) s = .ok u s' ↔ f s = s' := by
  show EStateM.Result.ok PUnit.unit (f s) = .ok u s' ↔ _
  rw [EStateM.Result.ok.injEq]
  exact and_iff_right rfl

@[simp] theorem throw_ne_ok : (throw e : Program σ α) s ≠ .ok a s' := by
  show EStateM.Result.error e s ≠ .ok a s'
  exact nofun

theorem act_eq_error {f : σ → Exec (α × σ)} (h : act f s = .error e s') : s' = s := by
  unfold act at h
  split at h
  · cases h
  · cases h
    rfl

theorem finalState_of_ok (h : x s = .ok a t) : x.finalState s = t := by
  rw [finalState, h]

theorem finalState_of_error (h : x s = .error e t) : x.finalState s = t := by
  rw [finalState, h]

theorem finalState_bind_of_ok (h : x s = .ok a t) : (x >>= f).finalState s = (f a).finalState t := by
  rw [finalState, bind_of_ok h, finalState]

theorem finalState_bind_of_error (h : x s = .error e t) : (x >>= f).finalState s = t :=
  finalState_of_error (bind_of_error h)

/-! ### Programs that return -/

theorem Returns.of_ok (h : x s = .ok a t) : Returns x s := ⟨a, t, h⟩

@[simp] theorem returns_pure (a : α) (s : σ) : Returns (pure a : Program σ α) s := ⟨a, s, rfl⟩

@[simp] theorem not_returns_throw (e : Fault) (s : σ) : ¬Returns (throw e : Program σ α) s :=
  fun ⟨_, _, h⟩ => throw_ne_ok h

theorem returns_bind : Returns (x >>= f) s ↔ ∃ a t, x s = .ok a t ∧ Returns (f a) t := by
  constructor
  · rintro ⟨b, s', h⟩
    obtain ⟨a, t, hx, hf⟩ := bind_eq_ok.mp h
    exact ⟨a, t, hx, b, s', hf⟩
  · rintro ⟨a, t, hx, b, s', hf⟩
    exact ⟨b, s', bind_eq_ok.mpr ⟨a, t, hx, hf⟩⟩

theorem returns_bind_of_ok (h : x s = .ok a t) : Returns (x >>= f) s ↔ Returns (f a) t := by
  rw [Returns, bind_of_ok h]
  rfl

theorem returns_get_bind {f : σ → Program σ β} : Returns (get >>= f) s ↔ Returns (f s) s := Iff.rfl

theorem returns_lift_bind {x : Exec α} : Returns (lift x >>= f) s ↔ ∃ a, x = .ok a ∧ Returns (f a) s := by
  rw [returns_bind]
  constructor
  · rintro ⟨a, t, hx, hf⟩
    obtain ⟨hok, rfl⟩ := lift_eq_ok.mp hx
    exact ⟨a, hok, hf⟩
  · rintro ⟨a, hok, hf⟩
    exact ⟨a, s, lift_eq_ok.mpr ⟨hok, rfl⟩, hf⟩

theorem returns_ite {c : Prop} [Decidable c] :
    Returns (if c then x else y) s ↔ (c → Returns x s) ∧ (¬c → Returns y s) := by
  split_ifs with h <;> simp [h]

/-- The program returns and its end meets `p`, as a check that can be run. -/
def ends (x : Program σ α) (s : σ) (p : α → σ → Bool) : Bool :=
  match x s with
  | .ok a s' => p a s'
  | .error _ _ => false

theorem eq_ok_of_ends {p : α → σ → Bool} (h : x.ends s p = true) :
    ∃ a, x s = .ok a (x.finalState s) ∧ p a (x.finalState s) = true := by
  unfold ends at h
  unfold finalState
  cases hx : x s with
  | ok a s' =>
    rw [hx] at h
    exact ⟨a, rfl, h⟩
  | error e s' =>
    rw [hx] at h
    cases h

/-- The program faults and its end meets `p`, as a check that can be run. -/
def faults (x : Program σ α) (s : σ) (p : Fault → σ → Bool) : Bool :=
  match x s with
  | .ok _ _ => false
  | .error e s' => p e s'

theorem eq_error_of_faults {p : Fault → σ → Bool} (h : x.faults s p = true) :
    ∃ e, x s = .error e (x.finalState s) ∧ p e (x.finalState s) = true := by
  unfold faults at h
  unfold finalState
  cases hx : x s with
  | ok a s' =>
    rw [hx] at h
    cases h
  | error e s' =>
    rw [hx] at h
    exact ⟨e, rfl, h⟩

/-! ### Weakest preconditions -/

/-- From `s` the program ends in `Q` if it returns and in `E` if it faults. -/
def wp (x : Program σ α) (Q : α → σ → Prop) (E : Fault → σ → Prop) (s : σ) : Prop :=
  match x s with
  | .ok a s' => Q a s'
  | .error e s' => E e s'

variable {Q : α → σ → Prop} {E : Fault → σ → Prop} {s : σ}

theorem wp_of_ok (h : x s = .ok a t) : wp x Q E s ↔ Q a t := by
  rw [wp, h]

theorem wp_of_error (h : x s = .error e t) : wp x Q E s ↔ E e t := by
  rw [wp, h]

theorem wp_of_eq (h : x s = y t) : wp x Q E s ↔ wp y Q E t := by
  unfold wp
  rw [h]

@[simp] theorem wp_bind {R : β → σ → Prop} (x : Program σ α) (f : α → Program σ β) :
    wp (x >>= f) R E s ↔ wp x (fun a t => wp (f a) R E t) E s := by
  show (match EStateM.bind x f s with
    | .ok a s' => R a s'
    | .error e s' => E e s') ↔ _
  unfold EStateM.bind wp
  cases x s <;> rfl

theorem wp_mono {Q' : α → σ → Prop} {E' : Fault → σ → Prop}
    (hQ : ∀ a t, Q a t → Q' a t) (hE : ∀ e t, E e t → E' e t) (h : wp x Q E s) : wp x Q' E' s := by
  unfold wp at h ⊢
  cases hx : x s with
  | ok a t =>
    rw [hx] at h
    exact hQ a t h
  | error e t =>
    rw [hx] at h
    exact hE e t h

/-! ### Loops -/

/-- `loop { .. }`: the body goes round with a new value or breaks with a result. -/
def loop (body : β → Program σ (β ⊕ γ)) : Nat → β → Program σ γ
  | 0, _ => throw .outOfFuel
  | fuel + 1, b => do
      match ← body b with
      | .inl b' => loop body fuel b'
      | .inr c => pure c

section Loop

variable {body : β → Program σ (β ⊕ γ)} {b b' : β} {s t : σ}

theorem loop_of_inl (h : body b s = .ok (.inl b') t) (fuel : Nat) :
    loop body (fuel + 1) b s = loop body fuel b' t := by
  rw [loop, bind_of_ok h]

theorem loop_of_inr {c : γ} (h : body b s = .ok (.inr c) t) (fuel : Nat) : loop body (fuel + 1) b s = .ok c t := by
  rw [loop, bind_of_ok h]
  rfl

theorem loop_of_error (h : body b s = .error e t) (fuel : Nat) : loop body (fuel + 1) b s = .error e t := by
  rw [loop, bind_of_error h]

theorem loop_eq_ok {fuel : Nat} {c : γ} (h : loop body fuel b s = .ok c s') :
    ∃ fuel' r t, fuel = fuel' + 1 ∧ body b s = .ok r t ∧
      (r = .inr c ∧ t = s' ∨ ∃ b', r = .inl b' ∧ loop body fuel' b' t = .ok c s') := by
  cases fuel with
  | zero => exact absurd h throw_ne_ok
  | succ fuel =>
    obtain ⟨r, t, hbody, hrest⟩ := bind_eq_ok.mp h
    refine ⟨fuel, r, t, rfl, hbody, ?_⟩
    cases r with
    | inl b' => exact Or.inr ⟨b', rfl, hrest⟩
    | inr c' =>
      obtain ⟨rfl, rfl⟩ := pure_eq_ok.mp hrest
      exact Or.inl ⟨rfl, rfl⟩

end Loop

/-- The loop comes to an end, be it by a fault, in at most `n` rounds. -/
def StopsWithin (x : Nat → Program σ α) (n : Nat) (s : σ) : Prop := ∀ t, x n s ≠ .error .outOfFuel t

section Stops

variable {body : β → Program σ (β ⊕ γ)} {b b' : β} {s t : σ} {n : Nat}

theorem not_stopsWithin_zero : ¬StopsWithin (fun fuel => loop body fuel b) 0 s := fun h => h s rfl

theorem stopsWithin_of_inr {c : γ} (h : body b s = .ok (.inr c) t) :
    StopsWithin (fun fuel => loop body fuel b) (n + 1) s := by
  intro u hu
  change loop body (n + 1) b s = _ at hu
  rw [loop_of_inr h] at hu
  cases hu

theorem stopsWithin_of_panic {why : Panic} (h : body b s = .error (.panic why) t) :
    StopsWithin (fun fuel => loop body fuel b) (n + 1) s := by
  intro u hu
  change loop body (n + 1) b s = _ at hu
  rw [loop_of_error h] at hu
  cases hu

theorem stopsWithin_succ_iff (h : body b s = .ok (.inl b') t) :
    StopsWithin (fun fuel => loop body fuel b) (n + 1) s ↔ StopsWithin (fun fuel => loop body fuel b') n t := by
  show (∀ u, loop body (n + 1) b s ≠ _) ↔ ∀ u, loop body n b' t ≠ _
  rw [loop_of_inl h]

theorem stopsWithin_bind_of_ok {f : Nat → α → Program σ β} (h : x s = .ok a t) :
    StopsWithin (fun fuel => x >>= f fuel) n s ↔ StopsWithin (fun fuel => f fuel a) n t := by
  show (∀ u, (x >>= f n) s ≠ _) ↔ ∀ u, f n a t ≠ _
  rw [bind_of_ok h]

theorem stopsWithin_bind_of_panic {f : Nat → α → Program σ β} {why : Panic}
    (h : x s = .error (.panic why) t) : StopsWithin (fun fuel => x >>= f fuel) n s := by
  intro u hu
  change (x >>= f n) s = _ at hu
  rw [bind_of_error h] at hu
  cases hu

end Stops

/-- More fuel changes nothing but running out of it. -/
def FuelMono (x : Nat → Program σ α) : Prop :=
  ∀ fuel fuel' s, fuel ≤ fuel' → (∀ t, x fuel s ≠ .error .outOfFuel t) → x fuel' s = x fuel s

namespace FuelMono

theorem const (x : Program σ α) : FuelMono fun _ => x := fun _ _ _ _ _ => rfl

theorem bind {x : Nat → Program σ α} {f : Nat → α → Program σ β} (hx : FuelMono x)
    (hf : ∀ a, FuelMono fun fuel => f fuel a) : FuelMono fun fuel => x fuel >>= f fuel := by
  intro fuel fuel' s hle hrun
  show (x fuel' >>= f fuel') s = (x fuel >>= f fuel) s
  cases hxs : x fuel s with
  | ok a t =>
    rw [bind_of_ok hxs, bind_of_ok ((hx fuel fuel' s hle (by simp [hxs])).trans hxs)]
    refine hf a fuel fuel' t hle fun u hu => hrun u ?_
    show (x fuel >>= f fuel) s = _
    rw [bind_of_ok hxs]
    exact hu
  | error e t =>
    have hne : ∀ u, x fuel s ≠ .error .outOfFuel u := by
      intro u hu
      refine hrun u ?_
      show (x fuel >>= f fuel) s = _
      rw [bind_of_error hu]
    rw [bind_of_error hxs, bind_of_error ((hx fuel fuel' s hle hne).trans hxs)]

theorem loop (body : β → Program σ (β ⊕ γ)) (b : β) : FuelMono fun fuel => loop body fuel b := by
  intro fuel
  induction fuel generalizing b with
  | zero => exact fun _ s _ hrun => absurd rfl (hrun s)
  | succ fuel ih =>
    intro fuel' s hle hrun
    obtain ⟨fuel', rfl⟩ : ∃ n, fuel' = n + 1 := ⟨fuel' - 1, by omega⟩
    show (body b >>= _) s = (body b >>= _) s
    cases hb : body b s with
    | ok r t =>
      rw [bind_of_ok hb, bind_of_ok hb]
      cases r with
      | inr c => rfl
      | inl b' =>
        refine ih b' fuel' t (by omega) fun u hu => hrun u ?_
        show (body b >>= _) s = _
        rw [bind_of_ok hb]
        exact hu
    | error e t => rw [bind_of_error hb, bind_of_error hb]

end FuelMono

/-! ### Frames -/

/-- Where the program returns, what `view` shows of the state is as before. -/
def Keeps {τ : Type} (view : σ → τ) (x : Program σ α) : Prop :=
  ∀ s a s', x s = .ok a s' → view s' = view s

section Keeps

variable {τ : Type} {view : σ → τ}

theorem Keeps.pure (a : α) : Keeps view (pure a : Program σ α) := by
  intro s b s' h
  obtain ⟨_, rfl⟩ := pure_eq_ok.mp h
  rfl

theorem Keeps.lift (x : Exec α) : Keeps view (lift x : Program σ α) := by
  intro s b s' h
  obtain ⟨_, rfl⟩ := lift_eq_ok.mp h
  rfl

theorem Keeps.get : Keeps view (get : Program σ σ) := by
  intro s a s' h
  obtain ⟨_, rfl⟩ := get_eq_ok.mp h
  rfl

end Keeps

/-! ### Invariants -/

/-- Where the program starts in `I` and returns, it ends in `I`. -/
def Preserves (I : σ → Prop) (x : Program σ α) : Prop := ∀ s a s', I s → x s = .ok a s' → I s'

section Preserves

variable {I : σ → Prop}

theorem Keeps.preserves {τ : Type} {view : σ → τ} (h : Keeps view x)
    (hview : ∀ s s', view s' = view s → I s → I s') : Preserves I x :=
  fun s a s' hs hx => hview s s' (h s a s' hx) hs

theorem Preserves.pure (a : α) : Preserves I (pure a : Program σ α) := by
  intro s b s' hs h
  obtain ⟨_, rfl⟩ := pure_eq_ok.mp h
  exact hs

theorem Preserves.bind (hx : Preserves I x) (hf : ∀ a, Preserves I (f a)) : Preserves I (x >>= f) := by
  intro s b s' hs h
  obtain ⟨a, t, hxs, hfs⟩ := bind_eq_ok.mp h
  exact hf a t b s' (hx s a t hs hxs) hfs

theorem Preserves.get_bind {f : σ → Program σ β} (hf : ∀ s b s', I s → f s s = .ok b s' → I s') :
    Preserves I (get >>= f) := by
  intro s b s' hs h
  obtain ⟨a, t, hget, hfs⟩ := bind_eq_ok.mp h
  obtain ⟨rfl, rfl⟩ := get_eq_ok.mp hget
  exact hf s b s' hs hfs

theorem Preserves.lift (x : Exec α) : Preserves I (lift x : Program σ α) := by
  intro s b s' hs h
  obtain ⟨_, rfl⟩ := lift_eq_ok.mp h
  exact hs

theorem Preserves.get : Preserves I (get : Program σ σ) := by
  intro s b s' hs h
  obtain ⟨_, rfl⟩ := get_eq_ok.mp h
  exact hs

theorem Preserves.ite {c : Prop} [Decidable c] (hx : Preserves I x) (hy : Preserves I y) :
    Preserves I (if c then x else y) := by
  split_ifs
  · exact hx
  · exact hy

end Preserves

/-! ### Serving jobs -/

/-- `while let Some(job) = next() { didWork |= serve(job) }`, ending in `atEnd` when the count of
jobs is used up. -/
def drainWith (atEnd : Bool → Program σ Bool) (next : Program σ (Option α))
    (serve : α → Program σ Bool) : Nat → Bool → Program σ Bool
  | 0, didWork => atEnd didWork
  | count + 1, didWork => do
      match ← next with
      | none => pure didWork
      | some job => do
          let worked ← serve job
          drainWith atEnd next serve count (didWork || worked)

def drain (next : Program σ (Option α)) (serve : α → Program σ Bool) (fuel : Nat) : Program σ Bool :=
  drainWith (fun _ => throw .outOfFuel) next serve fuel false

/-- The loop that stops by itself after a batch of jobs. -/
def drainBatch (next : Program σ (Option α)) (serve : α → Program σ Bool) (batch : Nat) : Program σ Bool :=
  drainWith pure next serve batch false

variable {next : Program σ (Option α)} {serve : α → Program σ Bool}

/-- The jobs served, each with the flag it returned, on the way from one state to another. -/
inductive Drained (next : Program σ (Option α)) (serve : α → Program σ Bool) :
    σ → List (α × Bool) → σ → Prop
  | nil (s : σ) : Drained next serve s [] s
  | cons {s s₁ s₂ s' : σ} {job : α} {worked : Bool} {jobs : List (α × Bool)}
      (hnext : next s = .ok (some job) s₁) (hserve : serve job s₁ = .ok worked s₂)
      (hrest : Drained next serve s₂ jobs s') : Drained next serve s ((job, worked) :: jobs) s'

theorem Drained.snoc {s₁ s₂ : σ} {job : α} {worked : Bool}
    (h : Drained next serve s jobs s₁) (hnext : next s₁ = .ok (some job) s₂) (hserve : serve job s₂ = .ok worked s') :
    Drained next serve s (jobs ++ [(job, worked)]) s' := by
  induction h with
  | nil s => exact .cons hnext hserve (.nil s')
  | cons hn hs _ ih => exact .cons hn hs (ih hnext)

theorem Drained.split {job : α} {worked : Bool} {before after : List (α × Bool)}
    (h : Drained next serve s (before ++ (job, worked) :: after) s') :
    ∃ t t1 t2, Drained next serve s before t ∧ next t = .ok (some job) t1 ∧
      serve job t1 = .ok worked t2 ∧ Drained next serve t2 after s' := by
  induction before generalizing s with
  | nil =>
    cases h with
    | cons hnext hserve hrest => exact ⟨s, _, _, .nil s, hnext, hserve, hrest⟩
  | cons first before ih =>
    cases h with
    | cons hnext hserve hrest =>
      obtain ⟨t, t1, t2, hbefore, hthen⟩ := ih hrest
      exact ⟨t, t1, t2, .cons hnext hserve hbefore, hthen⟩

theorem Drained.compare {t' : σ} {jobs' : List (α × Bool)} (h : Drained next serve s jobs t)
    (h' : Drained next serve s jobs' t') : (∃ rest, jobs' = jobs ++ rest ∧ Drained next serve t rest t') ∨
      (∃ rest, jobs = jobs' ++ rest ∧ Drained next serve t' rest t) := by
  induction h generalizing jobs' with
  | nil s => exact Or.inl ⟨jobs', rfl, h'⟩
  | @cons s s₁ s₂ t job worked jobs hnext hserve hrest ih =>
    cases h' with
    | nil => exact Or.inr ⟨_, rfl, .cons hnext hserve hrest⟩
    | cons hnext' hserve' hrest' =>
      rw [hnext] at hnext'
      cases hnext'
      rw [hserve] at hserve'
      cases hserve'
      rcases ih hrest' with ⟨rest, rfl, hr⟩ | ⟨rest, rfl, hr⟩
      · exact Or.inl ⟨rest, rfl, hr⟩
      · exact Or.inr ⟨rest, rfl, hr⟩

theorem Drained.unique {t' : σ} (h : Drained next serve s jobs t) (h' : Drained next serve s jobs t') : t = t' := by
  rcases h.compare h' with ⟨rest, heq, hrest⟩ | ⟨rest, heq, hrest⟩
  · obtain rfl : rest = [] := by simpa using heq
    cases hrest
    rfl
  · obtain rfl : rest = [] := by simpa using heq
    cases hrest
    rfl

/-- The returned flag collects the flags of the jobs. -/
def anyWorked (didWork : Bool) (jobs : List (α × Bool)) : Bool := didWork || jobs.any (·.2)

theorem drainWith_eq_ok {atEnd : Bool → Program σ Bool} {count : Nat} {didWork b : Bool} :
    drainWith atEnd next serve count didWork s = .ok b s' ↔ ∃ jobs t, Drained next serve s jobs t ∧
        ((jobs.length < count ∧ next t = .ok none s' ∧ b = anyWorked didWork jobs) ∨
         (jobs.length = count ∧ atEnd (anyWorked didWork jobs) t = .ok b s')) := by
  induction count generalizing didWork s with
  | zero =>
    constructor
    · intro h
      refine ⟨[], s, .nil s, Or.inr ⟨rfl, ?_⟩⟩
      simpa only [anyWorked, List.any_nil, Bool.or_false, drainWith] using h
    · rintro ⟨jobs, t, hdrained, ⟨hlt, _⟩ | ⟨hlen, hend⟩⟩
      · exact absurd hlt (Nat.not_lt_zero _)
      · obtain rfl := List.length_eq_zero_iff.mp hlen
        cases hdrained
        simpa only [anyWorked, List.any_nil, Bool.or_false, drainWith] using hend
  | succ count ih =>
    rw [drainWith, bind_eq_ok]
    constructor
    · rintro ⟨job?, s₁, hnext, h⟩
      cases job? with
      | none =>
        obtain ⟨hb, hs⟩ := pure_eq_ok.mp h
        subst hs
        refine ⟨[], s, .nil s, Or.inl ⟨Nat.succ_pos _, hnext, ?_⟩⟩
        simpa only [anyWorked, List.any_nil, Bool.or_false] using hb.symm
      | some job =>
        obtain ⟨worked, s₂, hserve, hrest⟩ := bind_eq_ok.mp h
        obtain ⟨jobs, t, hdrained, hcases⟩ := ih.mp hrest
        refine ⟨(job, worked) :: jobs, t, .cons hnext hserve hdrained, ?_⟩
        simpa only [anyWorked, List.any_cons, List.length_cons, Nat.add_lt_add_iff_right,
          Nat.add_right_cancel_iff, Bool.or_assoc] using hcases
    · rintro ⟨jobs, t, hdrained, hcases⟩
      cases hdrained with
      | nil =>
        rcases hcases with ⟨_, hnext, hb⟩ | ⟨hlen, _⟩
        · refine ⟨none, s', hnext, ?_⟩
          rw [hb]
          simp [anyWorked]
        · cases hlen
      | cons hnext hserve hrest =>
        refine ⟨_, _, hnext, bind_eq_ok.mpr ⟨_, _, hserve, ih.mpr ⟨_, t, hrest, ?_⟩⟩⟩
        simpa only [anyWorked, List.any_cons, List.length_cons, Nat.add_lt_add_iff_right,
          Nat.add_right_cancel_iff, Bool.or_assoc] using hcases

theorem drain_eq_ok {fuel : Nat} {b : Bool} : drain next serve fuel s = .ok b s' ↔
      ∃ jobs t, Drained next serve s jobs t ∧ jobs.length < fuel ∧ next t = .ok none s' ∧ b = jobs.any (·.2) := by
  rw [drain, drainWith_eq_ok]
  constructor
  · rintro ⟨jobs, t, hdrained, ⟨hlt, hnext, hb⟩ | ⟨_, hend⟩⟩
    · exact ⟨jobs, t, hdrained, hlt, hnext, by simpa only [anyWorked, Bool.false_or] using hb⟩
    · exact absurd hend throw_ne_ok
  · rintro ⟨jobs, t, hdrained, hlt, hnext, hb⟩
    exact ⟨jobs, t, hdrained, Or.inl ⟨hlt, hnext, by simpa only [anyWorked, Bool.false_or] using hb⟩⟩

theorem drainBatch_eq_ok {batch : Nat} {b : Bool} : drainBatch next serve batch s = .ok b s' ↔
      ∃ jobs t, Drained next serve s jobs t ∧ b = jobs.any (·.2) ∧
        ((jobs.length < batch ∧ next t = .ok none s') ∨ (jobs.length = batch ∧ t = s')) := by
  rw [drainBatch, drainWith_eq_ok]
  constructor
  · rintro ⟨jobs, t, hdrained, ⟨hlt, hnext, hb⟩ | ⟨hlen, hend⟩⟩
    · exact ⟨jobs, t, hdrained, by simpa only [anyWorked, Bool.false_or] using hb, Or.inl ⟨hlt, hnext⟩⟩
    · obtain ⟨hb, hs⟩ := pure_eq_ok.mp hend
      exact ⟨jobs, t, hdrained, by simpa only [anyWorked, Bool.false_or] using hb.symm,
        Or.inr ⟨hlen, hs⟩⟩
  · rintro ⟨jobs, t, hdrained, hb, ⟨hlt, hnext⟩ | ⟨hlen, hs⟩⟩
    · exact ⟨jobs, t, hdrained, Or.inl ⟨hlt, hnext, by simpa only [anyWorked, Bool.false_or] using hb⟩⟩
    · refine ⟨jobs, t, hdrained, Or.inr ⟨hlen, pure_eq_ok.mpr ⟨?_, hs⟩⟩⟩
      simpa only [anyWorked, Bool.false_or] using hb.symm

/-- **Invariant rule.** What fetching a job and serving it keep, the jobs keep. -/
theorem Drained.invariant {I : σ → Prop} (hstep : ∀ s s₁ s₂ job worked, I s →
      next s = .ok (some job) s₁ → serve job s₁ = .ok worked s₂ → I s₂)
    (h : Drained next serve s jobs s') (hs : I s) : I s' := by
  induction h with
  | nil s => exact hs
  | cons hnext hserve _ ih => exact ih (hstep _ _ _ _ _ hs hnext hserve)

end Program

end Base
