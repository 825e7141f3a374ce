import Mathlib.Data.List.DropRight
import Ycmd.Lib.PartitionPoint

/-! Regular expressions of one set and one repeated set: whole matches, and the successive matches
of a search. -/
namespace Lib
variable {α : Type}

/-- One element of `first`, then any number of `rest`. -/
structure Pattern (α : Type) where
  first : α → Bool
  rest : α → Bool

namespace Pattern
variable (pattern : Pattern α)

def isMatch : List α → Bool
  | [] => false
  | a :: l => pattern.first a && l.all pattern.rest

/-- The successive matches, each as long as can be, with the number of elements before it. -/
def search (pos : Nat) : List α → List (Nat × List α)
  | [] => []
  | a :: l =>
    if pattern.first a then
      (pos, a :: l.takeWhile pattern.rest) ::
        search (pos + 1 + (l.takeWhile pattern.rest).length) (l.dropWhile pattern.rest)
    else search (pos+1) l
termination_by l => l.length
decreasing_by
  · exact Nat.lt_succ_of_le (List.dropWhile_suffix _).length_le
  · exact Nat.lt_succ_self _

variable {pattern}

theorem isMatch_cons {a : α} {l : List α} :
    pattern.isMatch (a :: l) = true ↔ pattern.first a = true ∧ ∀ b ∈ l, pattern.rest b = true := by
  rw [isMatch, Bool.and_eq_true, List.all_eq_true]

/-- A match is a part of the text, at its position. -/
theorem mem_search {pos : Nat} {l : List α} {found : Nat × List α} (h : found ∈ pattern.search pos l) :
    pos ≤ found.1 ∧ found.2 ≠ [] ∧ found.2 <+: l.drop (found.1 - pos) := by
  fun_induction search pattern pos l with
  | case1 => simp at h
  | case2 pos a l hfirst ih =>
    rcases List.mem_cons.mp h with rfl | h
    · refine ⟨Nat.le_refl pos, List.cons_ne_nil _ _, ?_⟩
      rw [Nat.sub_self, List.drop_zero, List.cons_prefix_cons]
      exact ⟨rfl, List.takeWhile_prefix _⟩
    · obtain ⟨hpos, hne, hprefix⟩ := ih h
      refine ⟨by omega, hne, ?_⟩
      have hskip : (a :: l).drop (1 + (l.takeWhile pattern.rest).length) = l.dropWhile pattern.rest := by
        rw [Nat.add_comm, List.drop_succ_cons, drop_length_takeWhile]
      rwa [← hskip, List.drop_drop, show 1 + (l.takeWhile pattern.rest).length +
        (found.1 - (pos + 1 + (l.takeWhile pattern.rest).length)) = found.1 - pos by omega] at hprefix
  | case3 pos a l hfirst ih =>
    obtain ⟨hpos, hne, hprefix⟩ := ih h
    refine ⟨by omega, hne, ?_⟩
    rwa [show found.1 - pos = found.1 - (pos+1) + 1 by omega, List.drop_succ_cons]

/-- The search goes on where a match has ended. -/
theorem search_pairwise (pattern : Pattern α) (pos : Nat) (l : List α) :
    (pattern.search pos l).Pairwise (fun found later => found.1 + found.2.length ≤ later.1) := by
  fun_induction search pattern pos l with
  | case1 => exact .nil
  | case2 pos a l hfirst ih =>
    refine List.pairwise_cons.mpr ⟨?_, ih⟩
    intro later hlater
    have := (mem_search hlater).1
    rw [List.length_cons]
    omega
  | case3 pos a l hfirst ih => exact ih

/-- Only the positions of the matches depend on the position of the text. -/
theorem map_snd_search (pattern : Pattern α) (pos pos' : Nat) (l : List α) :
    (pattern.search pos l).map Prod.snd = (pattern.search pos' l).map Prod.snd := by
  fun_induction search pattern pos l generalizing pos' with
  | case1 => rw [search]
  | case2 pos a l hfirst ih =>
    rw [search, if_pos hfirst, List.map_cons, List.map_cons, ih]
  | case3 pos a l hfirst ih =>
    rw [search, if_neg hfirst]
    exact ih (pos' + 1)

/-- The search starts afresh behind an element that is in no match. -/
theorem search_append_cons {separator : α} (hfirst : pattern.first separator = false)
    (hrest : pattern.rest separator = false) (pos : Nat) (l m : List α) :
    pattern.search pos (l ++ separator :: m) =
      pattern.search pos l ++ pattern.search (pos + l.length + 1) m := by
  fun_induction search pattern pos l with
  | case1 pos => rw [List.nil_append, search, if_neg (by rw [hfirst]; exact Bool.false_ne_true)]; rfl
  | case2 pos a l ha ih =>
    have htake : (l ++ separator :: m).takeWhile pattern.rest = l.takeWhile pattern.rest := by
      rw [List.takeWhile_append, List.takeWhile_cons_of_neg (by rw [hrest]; exact Bool.false_ne_true), List.append_nil]
      split
      · rename_i hall
        exact ((List.takeWhile_prefix _).eq_of_length hall).symm
      · rfl
    have hdrop : (l ++ separator :: m).dropWhile pattern.rest = l.dropWhile pattern.rest ++ separator :: m := by
      rw [List.dropWhile_append, List.dropWhile_cons_of_neg (by rw [hrest]; exact Bool.false_ne_true)]
      split
      · rename_i hnone
        rw [List.isEmpty_iff.mp hnone, List.nil_append]
      · rfl
    have hlength : (l.takeWhile pattern.rest).length + (l.dropWhile pattern.rest).length = l.length := by
      rw [← List.length_append, List.takeWhile_append_dropWhile]
    rw [List.cons_append, search, if_pos ha, htake, hdrop, ih, List.cons_append, List.length_cons]
    congr 3
    omega
  | case3 pos a l ha ih =>
    rw [List.cons_append, search, if_neg ha, ih, List.length_cons]
    congr 2
    omega

/-- The longest match that ends a text: the part of its last run of `rest` that begins with `first`. -/
def longestSuffix (pattern : Pattern α) (l : List α) : List α :=
  (l.rtakeWhile pattern.rest).dropWhile (fun a => !pattern.first a)

theorem longestSuffix_suffix (l : List α) : pattern.longestSuffix l <:+ l :=
  (List.dropWhile_suffix _).trans (List.rtakeWhile_suffix _ l)

theorem isMatch_longestSuffix {l : List α} (h : pattern.longestSuffix l ≠ []) :
    pattern.isMatch (pattern.longestSuffix l) = true := by
  cases hl : pattern.longestSuffix l with
  | nil => exact absurd hl h
  | cons a m =>
    have hrest : ∀ b ∈ a :: m, pattern.rest b = true := by
      rw [← hl]
      exact fun b hb => List.mem_rtakeWhile_imp ((List.dropWhile_suffix _).subset hb)
    have hfirst : pattern.first a = true := by
      have := List.head?_dropWhile_not (fun a => !pattern.first a) (l.rtakeWhile pattern.rest)
      change pattern.longestSuffix l = a :: m at hl
      unfold longestSuffix at hl
      simpa [hl] using this
    exact isMatch_cons.mpr ⟨hfirst, fun b hb => hrest b (List.mem_cons_of_mem a hb)⟩

theorem rtakeWhile_append_of_pos {p : α → Bool} {l m : List α} (h : ∀ a ∈ m, p a = true) :
    (l ++ m).rtakeWhile p = l.rtakeWhile p ++ m := by
  rw [List.rtakeWhile, List.reverse_append, List.takeWhile_append_of_pos (by simpa using h), List.reverse_append,
    List.reverse_reverse, List.rtakeWhile]

theorem suffix_rtakeWhile {p : α → Bool} {l m : List α} (hm : m <:+ l) (h : ∀ a ∈ m, p a = true) :
    m <:+ l.rtakeWhile p := by
  obtain ⟨pre, rfl⟩ := hm
  rw [rtakeWhile_append_of_pos h]
  exact List.suffix_append _ _

/-- Every match that ends a text ends its longest one. -/
theorem suffix_longestSuffix (hsub : ∀ a, pattern.first a = true → pattern.rest a = true) {l m : List α}
    (hm : m <:+ l) (h : pattern.isMatch m = true) : m <:+ pattern.longestSuffix l := by
  cases m with
  | nil => exact List.nil_suffix
  | cons a m =>
    obtain ⟨hfirst, hrest⟩ := isMatch_cons.mp h
    obtain ⟨pre, hrun⟩ := suffix_rtakeWhile hm (List.forall_mem_cons.mpr ⟨hsub a hfirst, hrest⟩)
    rw [longestSuffix, ← hrun, List.dropWhile_append, List.dropWhile_cons_of_neg (by simp [hfirst])]
    split
    · exact List.suffix_refl _
    · exact List.suffix_append _ _

/-- The run of elements a match can begin with ends the longest match, and is all of it exactly when the
longest match has no other. -/
theorem length_rtakeWhile_first (hsub : ∀ a, pattern.first a = true → pattern.rest a = true) (l : List α) :
    (l.rtakeWhile pattern.first).length = (pattern.longestSuffix l).length ↔
      ∀ a ∈ pattern.longestSuffix l, pattern.first a = true := by
  have hall : ∀ a ∈ l.rtakeWhile pattern.first, pattern.first a = true := fun a ha => List.mem_rtakeWhile_imp ha
  have hsuffix : l.rtakeWhile pattern.first <:+ pattern.longestSuffix l := by
    cases hl : l.rtakeWhile pattern.first with
    | nil => exact List.nil_suffix
    | cons a m =>
      rw [hl, List.forall_mem_cons] at hall
      rw [← hl]
      apply suffix_longestSuffix hsub (List.rtakeWhile_suffix _ l)
      rw [hl]
      exact isMatch_cons.mpr ⟨hall.1, fun b hb => hsub b (hall.2 b hb)⟩
  constructor
  · intro hlen
    rwa [← hsuffix.eq_of_length hlen]
  · intro h
    exact Nat.le_antisymm hsuffix.length_le (suffix_rtakeWhile (longestSuffix_suffix l) h).length_le

end Pattern
end Lib
