import Mathlib.Tactic.Common

/-! Labelled transition systems: the states that runs reach, the runs whose steps all meet a
condition, and the rule that what starts true and survives each step holds of every state reached. -/

namespace Base

structure System (σ ε : Type) where
  init : σ → Prop
  step : σ → ε → σ → Prop

namespace System

variable {σ ε : Type} {S : System σ ε} {allowed : σ → ε → Prop}

/-- The states reached by runs in which every step meets the condition in the state before it. -/
inductive ReachedBy (S : System σ ε) (allowed : σ → ε → Prop) : σ → Prop
  | init {s : σ} (h : S.init s) : ReachedBy S allowed s
  | step {s s' : σ} {e : ε} (hs : ReachedBy S allowed s) (hallowed : allowed s e) (hstep : S.step s e s') :
      ReachedBy S allowed s'

/-- The states reached by any run. -/
def Reachable (S : System σ ε) : σ → Prop := S.ReachedBy fun _ _ => True

theorem Reachable.init {s : σ} (h : S.init s) : S.Reachable s := ReachedBy.init h

theorem Reachable.next {s s' : σ} {e : ε} (h : S.Reachable s) (hstep : S.step s e s') : S.Reachable s' :=
  ReachedBy.step h trivial hstep

theorem ReachedBy.mono {allowed' : σ → ε → Prop} (h : ∀ s e, allowed s e → allowed' s e) {s : σ}
    (hs : S.ReachedBy allowed s) : S.ReachedBy allowed' s := by
  induction hs with
  | init hinit => exact .init hinit
  | step _ hallowed hstep ih => exact .step ih (h _ _ hallowed) hstep

/-- **Invariant rule.** -/
theorem ReachedBy.invariant {I : σ → Prop} (hinit : ∀ s, S.init s → I s)
    (hstep : ∀ s e s', I s → allowed s e → S.step s e s' → I s') {s : σ} (h : S.ReachedBy allowed s) : I s := by
  induction h with
  | init h => exact hinit _ h
  | step _ hallowed hs ih => exact hstep _ _ _ ih hallowed hs

theorem Reachable.invariant {I : σ → Prop} (hinit : ∀ s, S.init s → I s)
    (hstep : ∀ s e s', I s → S.step s e s' → I s') {s : σ} (h : S.Reachable s) : I s :=
  ReachedBy.invariant hinit (fun s e s' hs _ => hstep s e s' hs) h

/-- A run of a function whose steps are allowed steps of the system ends in a state that is reached. -/
theorem ReachedBy.foldlM {next : σ → ε → Option σ}
    (hnext : ∀ s e s', next s e = some s' → allowed s e ∧ S.step s e s') {events : List ε} {s s' : σ}
    (hs : S.ReachedBy allowed s) (h : events.foldlM next s = some s') : S.ReachedBy allowed s' := by
  induction events generalizing s with
  | nil =>
    obtain rfl := Option.some.inj h
    exact hs
  | cons e events ih =>
    rw [List.foldlM_cons, Option.bind_eq_bind, Option.bind_eq_some_iff] at h
    obtain ⟨t, ht, hrest⟩ := h
    exact ih (hs.step (hnext _ _ _ ht).1 (hnext _ _ _ ht).2) hrest

end System

end Base
