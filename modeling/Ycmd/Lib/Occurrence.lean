import Mathlib.Data.List.Infix

/-! The first occurrence of a list in another, and what stands behind it. -/
namespace Lib
variable {α : Type} {needle l before after : List α}

/-- The list occurs between two parts of the other, and nowhere before. -/
structure FirstOccurrence (needle l before after : List α) : Prop where
  split : l = before ++ needle ++ after
  first : ∀ before' after', l = before' ++ needle ++ after' → before.length ≤ before'.length

namespace FirstOccurrence

/-- There is at most one. -/
theorem after_eq {before' after' : List α} (h : FirstOccurrence needle l before after)
    (h' : FirstOccurrence needle l before' after') : after = after' := by
  have hlength := Nat.le_antisymm (h.first before' after' h'.split) (h'.first before after h.split)
  have hsplit := h.split.symm.trans h'.split
  exact (List.append_inj hsplit (by rw [List.length_append, List.length_append, hlength])).2

theorem cons {a : α} (h : FirstOccurrence needle l before after) (hnot : ¬ needle <+: a :: l) :
    FirstOccurrence needle (a :: l) (a :: before) after := by
  refine ⟨by rw [h.split]; rfl, ?_⟩
  intro before' after' hsplit
  cases before' with
  | nil => exact absurd ⟨after', hsplit.symm⟩ hnot
  | cons b before' => exact Nat.succ_le_succ (h.first before' after' (List.cons.inj hsplit).2)

end FirstOccurrence

variable [DecidableEq α]

/-- What stands behind the first occurrence of a list; it is looked for at the end of the other one too. -/
def behindFirst (needle : List α) : List α → Option (List α)
  | [] => if needle = [] then some [] else none
  | a :: l => if needle.isPrefixOf (a :: l) then some ((a :: l).drop needle.length) else behindFirst needle l

/-- The search finds the first occurrence, if there is any. -/
theorem behindFirst_spec (needle l : List α) :
    (∃ before after, FirstOccurrence needle l before after ∧ behindFirst needle l = some after) ∨
      behindFirst needle l = none ∧ ∀ before after, l ≠ before ++ needle ++ after := by
  induction l with
  | nil =>
    by_cases hneedle : needle = []
    · subst hneedle
      exact .inl ⟨[], [], ⟨rfl, fun _ _ _ => Nat.zero_le _⟩, rfl⟩
    · refine .inr ⟨if_neg hneedle, ?_⟩
      intro before after hsplit
      simp [hneedle] at hsplit
  | cons a l ih =>
    by_cases hprefix : needle <+: a :: l
    · obtain ⟨after, hafter⟩ := id hprefix
      refine .inl ⟨[], after, ⟨hafter.symm, fun _ _ _ => Nat.zero_le _⟩, ?_⟩
      rw [behindFirst, if_pos (List.isPrefixOf_iff_prefix.mpr hprefix), ← hafter, List.drop_left]
    · have hnot : needle.isPrefixOf (a :: l) ≠ true := mt List.isPrefixOf_iff_prefix.mp hprefix
      rw [behindFirst, if_neg hnot]
      rcases ih with ⟨before, after, hfirst, heq⟩ | ⟨hnone, hno⟩
      · exact .inl ⟨a :: before, after, hfirst.cons hprefix, heq⟩
      · refine .inr ⟨hnone, ?_⟩
        intro before after hsplit
        cases before with
        | nil => exact hprefix ⟨after, hsplit.symm⟩
        | cons b before => exact hno before after (List.cons.inj hsplit).2

theorem behindFirst_eq_some_iff : behindFirst needle l = some after ↔ ∃ before, FirstOccurrence needle l before after := by
  rcases behindFirst_spec needle l with ⟨before', after', hfirst, heq⟩ | ⟨hnone, hno⟩
  · rw [heq, Option.some.injEq]
    constructor
    · rintro rfl
      exact ⟨before', hfirst⟩
    · rintro ⟨before, h⟩
      exact hfirst.after_eq h
  · rw [hnone]
    refine iff_of_false (Option.some_ne_none after ∘ Eq.symm) ?_
    rintro ⟨before, h⟩
    exact hno before after h.split

theorem behindFirst_isSome (h : l = before ++ needle ++ after) : ∃ after', behindFirst needle l = some after' := by
  rcases behindFirst_spec needle l with ⟨_, after', -, heq⟩ | ⟨-, hno⟩
  · exact ⟨after', heq⟩
  · exact absurd h (hno before after)

end Lib
