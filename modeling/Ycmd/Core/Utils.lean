import Ycmd.Lib.Selection

/-! `PartialSort`: the smallest elements of a vector, sorted. -/
namespace Ycmd.Core
open Lib
variable {α : Type}

/-- Zero asks for the whole vector; a long prefix is selected first and sorted after. -/
def partialSort (std : StandardLibrary) (lt : α → α → Bool) (elements : List α)
    (numSortedElements : Nat) : List α :=
  let nbElements := elements.length
  let maxElements :=
    if numSortedElements > 0 ∧ nbElements ≥ numSortedElements then numSortedElements else nbElements
  let sorted :=
    if maxElements ≤ max 1024 (nbElements / 64) then std.partialSort lt maxElements elements
    else
      let selected := std.nthElement lt maxElements elements
      std.sort lt (selected.take maxElements) ++ selected.drop maxElements
  sorted.take maxElements

section Branches
variable (std std' : StandardLibrary) {lt : α → α → Bool} {elements : List α} {k : Nat}

/-- `std::partial_sort`, with the rest erased. -/
def partialSortBranch (lt : α → α → Bool) (k : Nat) (elements : List α) : List α :=
  (std.partialSort lt k elements).take k

/-- `std::nth_element` and `std::sort`, with the rest erased. -/
def nthElementBranch (lt : α → α → Bool) (k : Nat) (elements : List α) : List α :=
  let selected := std.nthElement lt k elements
  (std.sort lt (selected.take k) ++ selected.drop k).take k

theorem partialSort_eq (lt : α → α → Bool) (elements : List α) (numSortedElements : Nat) :
    let k := if numSortedElements > 0 ∧ elements.length ≥ numSortedElements then numSortedElements
      else elements.length
    partialSort std lt elements numSortedElements =
      if k ≤ max 1024 (elements.length / 64) then partialSortBranch std lt k elements
      else nthElementBranch std lt k elements := by
  intro k
  change List.take k (if k ≤ max 1024 (elements.length / 64) then _ else _) = _
  split <;> rfl

theorem smallest_partialSortBranch (h : Sortable lt elements) (hk : k ≤ elements.length) :
    Smallest lt elements k (partialSortBranch std lt k elements) :=
  .of_take hk (std.partialSort_perm hk h) (std.partialSort_sorted hk h) (std.partialSort_least hk h)

/-- Sorting what is selected leaves the same elements before the others. -/
theorem smallest_nthElementBranch (h : Sortable lt elements) (hk : k ≤ elements.length) :
    Smallest lt elements k (nthElementBranch std lt k elements) := by
  have hselected := std.nthElement_perm hk h
  have htake : Sortable lt ((std.nthElement lt k elements).take k) :=
    h.mono fun _ ha => hselected.subset (List.mem_of_mem_take ha)
  have hsort := std.sort_perm htake
  have hlength : (std.sort lt ((std.nthElement lt k elements).take k)).length = k := by
    rw [hsort.length_eq, List.length_take_of_le (hselected.length_eq ▸ hk)]
  refine .of_take hk ?_ ?_ ?_
  · apply (hsort.append_right _).trans
    rwa [List.take_append_drop]
  · rw [List.take_left' hlength]
    exact std.sort_sorted htake
  · rw [List.take_left' hlength, List.drop_left' hlength]
    intro a ha b hb
    exact std.nthElement_least hk h a (hsort.subset ha) b hb

theorem smallest_partialSort (h : Sortable lt elements) (numSortedElements : Nat) :
    Smallest lt elements
      (if numSortedElements > 0 ∧ elements.length ≥ numSortedElements then numSortedElements else elements.length)
      (partialSort std lt elements numSortedElements) := by
  have hk : (if numSortedElements > 0 ∧ elements.length ≥ numSortedElements then numSortedElements
      else elements.length) ≤ elements.length := by
    split
    · exact (‹_ ∧ _›).2
    · exact le_rfl
  rw [partialSort_eq]
  generalize (if numSortedElements > 0 ∧ elements.length ≥ numSortedElements then numSortedElements
    else elements.length) = k at hk ⊢
  split
  · exact smallest_partialSortBranch std h hk
  · exact smallest_nthElementBranch std h hk

/-- The smallest elements are left, sorted, whichever branch is taken and whichever library it calls. -/
theorem partialSort_branches_agree (h : Sortable lt elements) :
    (∀ numSortedElements, Smallest lt elements
      (if 0 < numSortedElements ∧ numSortedElements ≤ elements.length then numSortedElements else elements.length)
      (partialSort std lt elements numSortedElements)) ∧
    ∀ k ≤ elements.length,
      List.Forall₂ (Equivalent lt) (partialSortBranch std lt k elements) (nthElementBranch std' lt k elements) := by
  refine ⟨smallest_partialSort std h, fun k hk => ?_⟩
  exact (smallest_partialSortBranch std h hk).equivalent (smallest_nthElementBranch std' h hk) h

def lessFirst (a b : Nat × Nat) : Bool := a.1 < b.1

theorem partialSort_branches_agree_pairs :
    Smallest lessFirst [(1, 0), (2, 0), (1, 1), (0, 0)] 2
      (partialSort .insertion lessFirst [(1, 0), (2, 0), (1, 1), (0, 0)] 2) ∧
    List.Forall₂ (Equivalent lessFirst) (partialSortBranch .insertion lessFirst 2 [(1, 0), (2, 0), (1, 1), (0, 0)])
      (nthElementBranch .backwards lessFirst 2 [(1, 0), (2, 0), (1, 1), (0, 0)]) := by
  have hsortable : Sortable lessFirst [(1, 0), (2, 0), (1, 1), (0, 0)] :=
    sortable_of_key Prod.fst (fun _ _ _ _ => decide_eq_true_iff)
  have h := partialSort_branches_agree .insertion .backwards hsortable
  exact ⟨h.1 2, h.2 2 (by decide)⟩

/-- Asked for everything, it loses and invents nothing. -/
theorem partialSort_zero_perm (h : Sortable lt elements) : (partialSort std lt elements 0).Perm elements :=
  (smallest_partialSort std h 0).perm

/-- Asked for everything, it sorts. -/
theorem partialSort_zero_sorted (h : Sortable lt elements) : SortedBy lt (partialSort std lt elements 0) :=
  (smallest_partialSort std h 0).sorted

end Branches

/-- With algorithms that all sort by insertion, it keeps the order of elements that may stay where they
are. -/
theorem partialSort_zero_stable {std : StandardLibrary} {lt : α → α → Bool}
    (hsort : std.sort lt = StandardLibrary.insertion.sort lt)
    (hothers : ∀ n, std.partialSort lt n = StandardLibrary.insertion.sort lt ∧
      std.nthElement lt n = StandardLibrary.insertion.sort lt)
    {elements : List α} (h : Sortable lt elements) {a b : α} (hab : lt b a = false)
    (hsub : List.Sublist [a, b] elements) : List.Sublist [a, b] (partialSort std lt elements 0) := by
  have hp := StandardLibrary.insertion.sort_perm h
  have hstable := StandardLibrary.insertion_stable hab hsub
  have hp' := (StandardLibrary.insertion.sort_perm (h.mono hp.subset)).trans hp
  simp only [partialSort, gt_iff_lt, Nat.lt_irrefl, false_and, if_false, hsort, (hothers _).1, (hothers _).2]
  split
  · rwa [List.take_of_length_le hp.length_eq.le]
  · rw [List.take_of_length_le hp.length_eq.le, List.drop_of_length_le hp.length_eq.le, List.append_nil,
      List.take_of_length_le hp'.length_eq.le]
    exact StandardLibrary.insertion_stable hab hstable

end Ycmd.Core
