import Mathlib.Data.List.Forall2

/-! Common subsequences of two lists along a relation, and the greatest length of one. -/
namespace Lib
variable {α β : Type} {related : α → β → Prop}

/-- A subsequence of a longer list uses its last element or is one of the others. -/
theorem sublist_concat_cases {l u : List α} {a : α} (h : u.Sublist (l ++ [a])) :
    u.Sublist l ∨ ∃ u', u = u' ++ [a] ∧ u'.Sublist l := by
  obtain ⟨u', last, rfl, hu', hlast⟩ := List.sublist_append_iff.mp h
  rcases List.sublist_singleton.mp hlast with rfl | rfl
  · exact .inl (by rwa [List.append_nil])
  · exact .inr ⟨u', rfl, hu'⟩

theorem dropLast_sublist_of_concat {l u : List α} {a : α} (h : u.Sublist (l ++ [a])) : u.dropLast.Sublist l := by
  rcases sublist_concat_cases h with hu | ⟨u', rfl, hu'⟩
  · exact (List.dropLast_sublist u).trans hu
  · rwa [List.dropLast_concat]

/-- A subsequence of each list, the elements of the one related to those of the other, in order. -/
structure CommonSubsequence (related : α → β → Prop) (l : List α) (m : List β) (u : List α) (v : List β) :
    Prop where
  left : u.Sublist l
  right : v.Sublist m
  matching : List.Forall₂ related u v

namespace CommonSubsequence
variable {l u : List α} {m v : List β} {a : α} {b : β}

theorem nil : CommonSubsequence related l m [] [] := ⟨List.nil_sublist l, List.nil_sublist m, .nil⟩

theorem swap (h : CommonSubsequence related l m u v) : CommonSubsequence (fun b a => related a b) m l v u :=
  ⟨h.right, h.left, h.matching.flip⟩

theorem append {u' : List α} {v' : List β} {l' : List α} {m' : List β} (h : CommonSubsequence related l m u v)
    (h' : CommonSubsequence related l' m' u' v') :
    CommonSubsequence related (l ++ l') (m ++ m') (u ++ u') (v ++ v') :=
  ⟨h.left.append h'.left, h.right.append h'.right, List.rel_append h.matching h'.matching⟩

/-- Its two lists without their last elements are subsequences of what has none of the last ones either. -/
theorem dropLast (h : CommonSubsequence related (l ++ [a]) (m ++ [b]) u v) :
    CommonSubsequence related l m u.dropLast v.dropLast := by
  refine ⟨dropLast_sublist_of_concat h.left, dropLast_sublist_of_concat h.right, ?_⟩
  rw [List.dropLast_eq_take, List.dropLast_eq_take, ← h.matching.length_eq]
  exact List.forall₂_take _ h.matching

end CommonSubsequence

/-- `n` is the length of some common subsequence, and none is longer. -/
structure IsLongestCommon (related : α → β → Prop) (l : List α) (m : List β) (n : Nat) : Prop where
  exists_common : ∃ u v, CommonSubsequence related l m u v ∧ u.length = n
  length_le : ∀ u v, CommonSubsequence related l m u v → u.length ≤ n

namespace IsLongestCommon
variable {l : List α} {m : List β} {a : α} {b : β} {n k : Nat}

theorem eq (h : IsLongestCommon related l m n) (h' : IsLongestCommon related l m k) : n = k := by
  obtain ⟨u, v, hcommon, rfl⟩ := h.exists_common
  obtain ⟨u', v', hcommon', rfl⟩ := h'.exists_common
  exact Nat.le_antisymm (h'.length_le u v hcommon) (h.length_le u' v' hcommon')

theorem swap (h : IsLongestCommon related l m n) : IsLongestCommon (fun b a => related a b) m l n := by
  obtain ⟨u, v, hcommon, rfl⟩ := h.exists_common
  refine ⟨⟨v, u, hcommon.swap, hcommon.matching.length_eq.symm⟩, ?_⟩
  intro v' u' hcommon'
  rw [hcommon'.matching.length_eq]
  exact h.length_le u' v' hcommon'.swap

theorem le_left (h : IsLongestCommon related l m n) : n ≤ l.length := by
  obtain ⟨u, v, hcommon, rfl⟩ := h.exists_common
  exact hcommon.left.length_le

theorem le_right (h : IsLongestCommon related l m n) : n ≤ m.length := h.swap.le_left

theorem nil_left : IsLongestCommon related [] m 0 := by
  refine ⟨⟨[], [], .nil, rfl⟩, ?_⟩
  intro u v hcommon
  exact hcommon.left.length_le

theorem nil_right : IsLongestCommon related l [] 0 := by
  have h : IsLongestCommon (fun b a => related a b) [] l 0 := nil_left
  exact h.swap

/-- Of two related last elements a longest common subsequence can take both. -/
theorem concat_related (hab : related a b) (h : IsLongestCommon related l m n) :
    IsLongestCommon related (l ++ [a]) (m ++ [b]) (n+1) := by
  obtain ⟨u, v, hcommon, rfl⟩ := h.exists_common
  constructor
  · have hlast : CommonSubsequence related [a] [b] [a] [b] := ⟨.refl _, .refl _, .cons hab .nil⟩
    exact ⟨u ++ [a], v ++ [b], hcommon.append hlast, List.length_append⟩
  · intro u' v' hcommon'
    have := h.length_le _ _ hcommon'.dropLast
    rw [List.length_dropLast] at this
    exact Nat.le_succ_of_pred_le this

/-- Of two last elements that are not related one is not taken. -/
theorem concat_unrelated (hab : ¬ related a b) (hl : IsLongestCommon related (l ++ [a]) m n)
    (hm : IsLongestCommon related l (m ++ [b]) k) :
    IsLongestCommon related (l ++ [a]) (m ++ [b]) (max n k) := by
  constructor
  · rcases Nat.le_total n k with hle | hle
    · obtain ⟨u, v, hcommon, rfl⟩ := hm.exists_common
      exact ⟨u, v, ⟨List.sublist_append_of_sublist_left hcommon.left, hcommon.right, hcommon.matching⟩,
        (Nat.max_eq_right hle).symm⟩
    · obtain ⟨u, v, hcommon, rfl⟩ := hl.exists_common
      exact ⟨u, v, ⟨hcommon.left, List.sublist_append_of_sublist_left hcommon.right, hcommon.matching⟩,
        (Nat.max_eq_left hle).symm⟩
  · rintro u v ⟨hleft, hright, hmatching⟩
    rcases sublist_concat_cases hleft with hu | ⟨u', rfl, -⟩
    · exact Nat.le_trans (hm.length_le u v ⟨hu, hright, hmatching⟩) (Nat.le_max_right _ _)
    rcases sublist_concat_cases hright with hv | ⟨v', rfl, -⟩
    · exact Nat.le_trans (hl.length_le _ v ⟨hleft, hv, hmatching⟩) (Nat.le_max_left _ _)
    have hlast := List.forall₂_reverse_iff.mpr hmatching
    rw [List.reverse_append, List.reverse_append] at hlast
    cases hlast with
    | cons hrelated _ => exact absurd hrelated hab

end IsLongestCommon
end Lib
