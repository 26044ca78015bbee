import Mathlib.Logic.Function.Iterate
import Mathlib.Tactic.Common

/-! Walks: a state goes on from step to step until a step fails, or one neither fails nor goes on. -/

namespace Base

/-- A step that fails does not go on. A step that does neither ends the walk without a failure. -/
structure Walk (σ : Type) where
  next : σ → σ
  go : σ → Prop
  fail : σ → Prop
  not_go_of_fail : ∀ s, fail s → ¬go s

namespace Walk

variable {σ : Type} (w : Walk σ)

/-- The walk from a state comes to step `q`. -/
def Reaches (s : σ) (q : Nat) : Prop := ∀ i < q, w.go (w.next^[i] s)

/-- The walk from a state comes to a step that fails, and all steps it comes to are inside. -/
structure Guarded (inside : σ → Prop) (s : σ) : Prop where
  fails : ∃ q, w.Reaches s q ∧ w.fail (w.next^[q] s)
  inside : ∀ q, w.Reaches s q → inside (w.next^[q] s)

variable {w} {inside : σ → Prop} {s s' : σ} {q : Nat}

theorem reaches_zero : w.Reaches s 0 := fun _ h => absurd h (Nat.not_lt_zero _)

theorem reaches_succ_iff : w.Reaches s (q + 1) ↔ w.go s ∧ w.Reaches (w.next s) q := by
  constructor
  · intro h
    exact ⟨h 0 (Nat.succ_pos q), fun i hi => h (i + 1) (Nat.succ_lt_succ hi)⟩
  · rintro ⟨hgo, hrest⟩ i hi
    cases i with
    | zero => exact hgo
    | succ i => exact hrest i (Nat.lt_of_succ_lt_succ hi)

theorem guarded_of_fail (hfail : w.fail s) : w.Guarded inside s ↔ inside s := by
  constructor
  · exact fun h => h.inside 0 reaches_zero
  · intro hinside
    refine ⟨⟨0, reaches_zero, hfail⟩, fun q hq => ?_⟩
    cases q with
    | zero => exact hinside
    | succ q => exact absurd (reaches_succ_iff.mp hq).1 (w.not_go_of_fail s hfail)

theorem guarded_of_go (hgo : w.go s) : w.Guarded inside s ↔ inside s ∧ w.Guarded inside (w.next s) := by
  constructor
  · rintro ⟨⟨q, hq, hfail⟩, hinside⟩
    refine ⟨hinside 0 reaches_zero, ?_, fun q hq => hinside (q + 1) (reaches_succ_iff.mpr ⟨hgo, hq⟩)⟩
    cases q with
    | zero => exact absurd hgo (w.not_go_of_fail s hfail)
    | succ q => exact ⟨q, (reaches_succ_iff.mp hq).2, hfail⟩
  · rintro ⟨hinside, ⟨q, hq, hfail⟩, hrest⟩
    refine ⟨⟨q + 1, reaches_succ_iff.mpr ⟨hgo, hq⟩, hfail⟩, fun q hq => ?_⟩
    cases q with
    | zero => exact hinside
    | succ q => exact hrest q (reaches_succ_iff.mp hq).2

theorem not_guarded (hfail : ¬w.fail s) (hgo : ¬w.go s) : ¬w.Guarded inside s := by
  rintro ⟨⟨q, hq, hq'⟩, -⟩
  cases q with
  | zero => exact hfail hq'
  | succ q => exact hgo (reaches_succ_iff.mp hq).1

theorem guarded_congr (hnext : w.next s = w.next s') (hgo : w.go s ↔ w.go s') (hfail : w.fail s ↔ w.fail s')
    (hinside : inside s ↔ inside s') : w.Guarded inside s ↔ w.Guarded inside s' := by
  by_cases hs : w.fail s
  · rw [guarded_of_fail hs, guarded_of_fail (hfail.mp hs), hinside]
  by_cases hs' : w.go s
  · rw [guarded_of_go hs', guarded_of_go (hgo.mp hs'), hinside, hnext]
  · exact iff_of_false (not_guarded hs hs') (not_guarded (mt hfail.mpr hs) (mt hgo.mpr hs'))

/-- **Induction along a walk**, from the step that fails to the first. -/
theorem Guarded.induction {P : σ → Prop} (h : w.Guarded inside s) (hfail : ∀ s, w.fail s → inside s → P s)
    (hgo : ∀ s, w.go s → inside s → P (w.next s) → P s) : P s := by
  obtain ⟨⟨q, hq, hq'⟩, hinside⟩ := h
  induction q generalizing s with
  | zero => exact hfail s hq' (hinside 0 reaches_zero)
  | succ q ih =>
    obtain ⟨hs, hrest⟩ := reaches_succ_iff.mp hq
    exact hgo s hs (hinside 0 reaches_zero)
      (ih (fun q hq => hinside (q + 1) (reaches_succ_iff.mpr ⟨hs, hq⟩)) hrest hq')

end Walk

end Base
