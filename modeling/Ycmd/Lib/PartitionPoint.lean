import Mathlib.Data.List.TakeWhile

/-! The position in a list up to which a predicate holds and from which on it does not. -/
namespace Lib
variable {α : Type} {p : α → Bool} {l : List α} {i j : Nat}

/-- The predicate holds of the elements before `i` and of none from there on. -/
structure PartitionPoint (p : α → Bool) (l : List α) (i : Nat) : Prop where
  le_length : i ≤ l.length
  before : ∀ a ∈ l.take i, p a = true
  after : ∀ a ∈ l.drop i, p a = false

namespace PartitionPoint

private theorem not_lt (hi : PartitionPoint p l i) (hj : PartitionPoint p l j) : ¬ i < j := by
  intro hlt
  have hmem : i < l.length := Nat.lt_of_lt_of_le hlt hj.le_length
  have hafter : p l[i] = false := by
    apply hi.after
    rw [List.drop_eq_getElem_cons hmem]
    exact List.mem_cons_self
  have hbefore : p l[i] = true := hj.before _ (List.mem_take_iff_getElem.mpr ⟨i, by omega, rfl⟩)
  rw [hafter] at hbefore
  cases hbefore

/-- There is at most one. -/
theorem eq (hi : PartitionPoint p l i) (hj : PartitionPoint p l j) : i = j :=
  Nat.le_antisymm (Nat.not_lt.mp (hj.not_lt hi)) (Nat.not_lt.mp (hi.not_lt hj))

theorem takeWhile_eq (h : PartitionPoint p l i) : l.takeWhile p = l.take i := by
  conv => lhs; rw [← List.take_append_drop i l]
  rw [List.takeWhile_append_of_pos h.before]
  cases hrest : l.drop i with
  | nil => rw [List.takeWhile_nil, List.append_nil]
  | cons a rest =>
    have ha := h.after a (by rw [hrest]; exact List.mem_cons_self)
    rw [List.takeWhile_cons_of_neg (by rw [ha]; exact Bool.false_ne_true), List.append_nil]

theorem find?_eq (h : PartitionPoint p l i) : l.find? (fun a => !p a) = l[i]? := by
  conv => lhs; rw [← List.take_append_drop i l]
  have hnone : (l.take i).find? (fun a => !p a) = none := by
    rw [List.find?_eq_none]
    intro a ha
    simp [h.before a ha]
  rw [List.find?_append, hnone, Option.none_or, ← List.head?_drop]
  cases hrest : l.drop i with
  | nil => rfl
  | cons a rest =>
    have ha := h.after a (by rw [hrest]; exact List.mem_cons_self)
    rw [List.find?_cons_of_pos (by rw [ha]; rfl), List.head?_cons]

end PartitionPoint

theorem drop_length_takeWhile (p : α → Bool) (l : List α) : l.drop (l.takeWhile p).length = l.dropWhile p := by
  have := @List.drop_left _ (l.takeWhile p) (l.dropWhile p)
  rwa [List.takeWhile_append_dropWhile] at this

theorem take_length_takeWhile (p : α → Bool) (l : List α) : l.take (l.takeWhile p).length = l.takeWhile p :=
  (List.prefix_iff_eq_take.mp (List.takeWhile_prefix p)).symm

/-- There is one when the predicate holds of everything before an element of which it holds. -/
theorem exists_partitionPoint (h : l.Pairwise (fun a b => p b = true → p a = true)) : ∃ i, PartitionPoint p l i := by
  refine ⟨(l.takeWhile p).length, (List.takeWhile_prefix p).length_le, ?_, ?_⟩
  · intro a ha
    rw [take_length_takeWhile] at ha
    exact List.mem_takeWhile_imp ha
  · intro b hb
    rw [drop_length_takeWhile] at hb
    have hrest := h.sublist (List.dropWhile_suffix p).sublist
    have hhead := List.head?_dropWhile_not p l
    cases hdrop : l.dropWhile p with
    | nil => simp [hdrop] at hb
    | cons a rest =>
      rw [hdrop] at hb hrest hhead
      have ha : p a = false := by simpa using hhead
      rcases List.mem_cons.mp hb with rfl | hb
      · exact ha
      · exact Bool.eq_false_iff.mpr (fun hpb => by simp [(List.pairwise_cons.mp hrest).1 b hb hpb] at ha)

end Lib
