import Mathlib.Data.List.Nodup

/-! Keys that a counter gives out. If a key is taken only from the counter, which then moves past it, no key
is given out twice, and a key that has left the table never stands in it again. -/

namespace Base

/-- The keys in the table, those that were ever given out and those that have left the table, with the counter
they come from. -/
structure Fresh {κ : Type} (rank : κ → Nat) (first next : Nat) (live : κ → Prop) (issued gone : List κ) : Prop where
  first_le : first ≤ next
  live_lt : ∀ k, live k → rank k < next
  issued_ge : ∀ k ∈ issued, first ≤ rank k
  issued_lt : ∀ k ∈ issued, rank k < next
  nodup : issued.Nodup
  gone_lt : ∀ k ∈ gone, rank k < next
  gone_not_live : ∀ k ∈ gone, ¬live k

/-- One step: what is new in the table, and the keys that are given out, come from the counter. -/
structure Counted {κ : Type} (rank : κ → Nat) (next next' : Nat) (live live' : κ → Prop) (new : List κ) : Prop where
  le : next ≤ next'
  entered : ∀ k, live' k → live k ∨ next ≤ rank k ∧ rank k < next'
  told : ∀ k ∈ new, next ≤ rank k ∧ rank k < next'
  nodup : new.Nodup

namespace Counted

variable {κ : Type} {rank : κ → Nat} {next : Nat} {live live' : κ → Prop}

theorem idle (hlive : ∀ k, live' k → live k) : Counted rank next next live live' [] :=
  ⟨Nat.le_refl _, fun k hk => Or.inl (hlive k hk), nofun, .nil⟩

theorem take {k : κ} {new : List κ} (hrank : rank k = next) (hlive : ∀ j, live' j → j = k ∨ live j)
    (hnew : new = [] ∨ new = [k]) : Counted rank next (next + 1) live live' new where
  le := Nat.le_succ _
  entered := by
    intro j hj
    rcases hlive j hj with rfl | hj
    · exact Or.inr ⟨Nat.le_of_eq hrank.symm, by omega⟩
    · exact Or.inl hj
  told := by
    rcases hnew with rfl | rfl
    · exact nofun
    · intro j hj
      rw [List.mem_singleton.mp hj]
      omega
  nodup := by
    rcases hnew with rfl | rfl
    · exact .nil
    · exact List.nodup_singleton _

end Counted

namespace Fresh

variable {κ : Type} {rank : κ → Nat} {first next next' : Nat} {live live' : κ → Prop} {issued gone : List κ}

theorem initial (hle : first ≤ next) (hlive : ∀ k, live k → rank k < next) : Fresh rank first next live [] [] :=
  ⟨hle, hlive, nofun, nofun, .nil, nofun, nofun⟩

theorem step {new left : List κ} (h : Fresh rank first next live issued gone)
    (hstep : Counted rank next next' live live' new) (hleft : ∀ k ∈ left, live k ∧ ¬live' k) :
    Fresh rank first next' live' (issued ++ new) (gone ++ left) where
  first_le := Nat.le_trans h.first_le hstep.le
  live_lt := by
    intro k hk
    rcases hstep.entered k hk with hk | hk
    · exact Nat.lt_of_lt_of_le (h.live_lt k hk) hstep.le
    · exact hk.2
  issued_ge := by
    intro k hk
    rcases List.mem_append.mp hk with hk | hk
    · exact h.issued_ge k hk
    · exact Nat.le_trans h.first_le (hstep.told k hk).1
  issued_lt := by
    intro k hk
    rcases List.mem_append.mp hk with hk | hk
    · exact Nat.lt_of_lt_of_le (h.issued_lt k hk) hstep.le
    · exact (hstep.told k hk).2
  nodup := by
    refine h.nodup.append hstep.nodup ?_
    intro k hold hk
    exact absurd (h.issued_lt k hold) (Nat.not_lt.mpr (hstep.told k hk).1)
  gone_lt := by
    intro k hk
    rcases List.mem_append.mp hk with hk | hk
    · exact Nat.lt_of_lt_of_le (h.gone_lt k hk) hstep.le
    · exact Nat.lt_of_lt_of_le (h.live_lt k (hleft k hk).1) hstep.le
  gone_not_live := by
    intro k hk hlive'
    rcases List.mem_append.mp hk with hk | hk
    · rcases hstep.entered k hlive' with hold | hfresh
      · exact h.gone_not_live k hk hold
      · exact absurd (h.gone_lt k hk) (Nat.not_lt.mpr hfresh.1)
    · exact (hleft k hk).2 hlive'

end Fresh

end Base
