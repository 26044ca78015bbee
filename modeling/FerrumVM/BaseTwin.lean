import FerrumVM.BaseProgram

/-! Two runs of one program from states that the program cannot tell apart. Both end the same way, with
the same value or the same fault, and again in such states. -/

namespace Base

namespace Program

variable {σ α β : Type}

/-- The outcomes show the same, and the states are related. -/
def Same (r : σ → σ → Prop) : EStateM.Result Fault σ α → EStateM.Result Fault σ α → Prop
  | .ok a s, .ok b t => a = b ∧ r s t
  | .error e s, .error f t => e = f ∧ r s t
  | _, _ => False

/-- The program cannot tell related states apart. -/
def Respects (r : σ → σ → Prop) (x : Program σ α) : Prop := ∀ s t, r s t → Same r (x s) (x t)

namespace Respects

variable {r : σ → σ → Prop}

theorem pure (a : α) : Respects r (pure a : Program σ α) := fun _ _ h => ⟨rfl, h⟩

theorem lift (x : Exec α) : Respects r (lift x : Program σ α) := by
  intro s t h
  cases x with
  | ok a => exact ⟨rfl, h⟩
  | error e => exact ⟨rfl, h⟩

theorem bind {x : Program σ α} {f : α → Program σ β} (hx : Respects r x) (hf : ∀ a, Respects r (f a)) :
    Respects r (x >>= f) := by
  intro s t h
  have hsame := hx s t h
  cases hs : x s with
  | ok a s' =>
    cases ht : x t with
    | ok b t' =>
      rw [hs, ht] at hsame
      obtain ⟨rfl, hrel⟩ := hsame
      rw [bind_of_ok hs, bind_of_ok ht]
      exact hf a s' t' hrel
    | error e t' =>
      rw [hs, ht] at hsame
      exact hsame.elim
  | error e s' =>
    cases ht : x t with
    | ok b t' =>
      rw [hs, ht] at hsame
      exact hsame.elim
    | error f t' =>
      rw [hs, ht] at hsame
      rw [bind_of_error hs, bind_of_error ht]
      exact hsame

theorem modify {f : σ → σ} (hf : ∀ s t, r s t → r (f s) (f t)) : Respects r (modify f : Program σ PUnit) :=
  fun s t h => ⟨rfl, hf s t h⟩

theorem get_bind {f : σ → Program σ β} (hsame : ∀ s t, r s t → f s = f t) (hf : ∀ s, Respects r (f s)) :
    Respects r (get >>= f) := by
  intro s t h
  rw [bind_of_ok (get_eq_ok.mpr ⟨rfl, rfl⟩), bind_of_ok (get_eq_ok.mpr ⟨rfl, rfl⟩), ← hsame s t h]
  exact hf s s t h

theorem ite {p : Prop} [Decidable p] {x y : Program σ α} (hx : Respects r x) (hy : Respects r y) :
    Respects r (if p then x else y) := by
  split_ifs
  · exact hx
  · exact hy

end Respects

end Program

end Base
