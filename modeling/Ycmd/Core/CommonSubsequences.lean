import Ycmd.Core.Result
import Ycmd.Lib.CommonSubsequence

/-! The rows of the dynamic program of the results: every entry is the length of a longest common subsequence
of what has been read of the two sequences. -/
namespace Ycmd.Core
open Lib

/-- Two characters are alike for the word boundary matches. -/
def AlikeBase (character other : Character) : Prop := character.equalsBase other = true

theorem AlikeBase.symm {character other : Character} (h : AlikeBase character other) : AlikeBase other character := by
  unfold AlikeBase Character.equalsBase at *
  rwa [Bool.beq_comm]

theorem alikeBase_comm : (fun character other => AlikeBase other character) = AlikeBase := by
  funext character other
  exact propext ⟨AlikeBase.symm, AlikeBase.symm⟩

/-- The row after the characters `read` of the longer sequence, from the column after `columns` on. -/
def RowFor (read columns : List Character) : List Character → List Nat → Prop
  | other :: shorter, entry :: row =>
    IsLongestCommon AlikeBase read (columns ++ [other]) entry ∧ RowFor read (columns ++ [other]) shorter row
  | [], [] => True
  | _, _ => False

theorem rowFor_zeros (columns shorter : List Character) :
    RowFor [] columns shorter (List.replicate shorter.length 0) := by
  induction shorter generalizing columns with
  | nil => trivial
  | cons other shorter ih => exact ⟨.nil_left, ih (columns ++ [other])⟩

/-- One round of the outer loop: every entry from those to its left, above it, and above that on its left. -/
theorem rowFor_lcsRow {read columns shorter : List Character} {character : Character} {left diagonal : Nat}
    {previous : List Nat} (hleft : IsLongestCommon AlikeBase (read ++ [character]) columns left)
    (hdiagonal : IsLongestCommon AlikeBase read columns diagonal) (hprevious : RowFor read columns shorter previous) :
    RowFor (read ++ [character]) columns shorter (lcsRow character left diagonal shorter previous) := by
  induction shorter generalizing columns left diagonal previous with
  | nil => simp [lcsRow, RowFor]
  | cons other shorter ih =>
    cases previous with
    | nil => exact hprevious.elim
    | cons above previous =>
      obtain ⟨habove, hprevious⟩ := hprevious
      have hentry : IsLongestCommon AlikeBase (read ++ [character]) (columns ++ [other])
          (if character.equalsBase other then diagonal + 1 else max left above) := by
        split
        · exact hdiagonal.concat_related ‹_›
        · exact hleft.concat_unrelated ‹_› habove
      exact ⟨hentry, ih hentry habove hprevious⟩

/-- All rounds of the outer loop. -/
theorem rowFor_foldl {read shorter : List Character} (longer : List Character) {row : List Nat}
    (h : RowFor read [] shorter row) :
    RowFor (read ++ longer) [] shorter
      (longer.foldl (fun previous character => lcsRow character 0 0 shorter previous) row) := by
  induction longer generalizing read row with
  | nil => rwa [List.append_nil]
  | cons character longer ih =>
    rw [List.foldl_cons, List.append_cons]
    exact ih (rowFor_lcsRow .nil_right .nil_right h)

/-- The last entry of a row is that of all columns. -/
theorem RowFor.getLastD {read columns shorter : List Character} {row : List Nat} {entry : Nat}
    (hentry : IsLongestCommon AlikeBase read columns entry) (h : RowFor read columns shorter row) :
    IsLongestCommon AlikeBase read (columns ++ shorter) (row.getLastD entry) := by
  induction shorter generalizing columns row entry with
  | nil =>
    cases row with
    | nil => rwa [List.append_nil]
    | cons next row => exact h.elim
  | cons other shorter ih =>
    cases row with
    | nil => exact h.elim
    | cons next row =>
      rw [List.getLastD_cons, List.append_cons]
      exact ih h.1 h.2

theorem isLongestCommon_rows (longer shorter : List Character) :
    IsLongestCommon AlikeBase longer shorter
      ((longer.foldl (fun previous character => lcsRow character 0 0 shorter previous)
        (List.replicate shorter.length 0)).getLastD 0) := by
  have hrows := rowFor_foldl longer (rowFor_zeros [] shorter)
  exact RowFor.getLastD .nil_right hrows

/-- The sequences are read the longer one first; that makes no difference. -/
theorem isLongestCommon_longestCommonSubsequenceLength (first second : List Character) :
    IsLongestCommon AlikeBase first second (longestCommonSubsequenceLength first second) := by
  unfold longestCommonSubsequenceLength
  by_cases hlonger : first.length > second.length
  · rw [if_pos hlonger, if_pos hlonger]
    exact isLongestCommon_rows first second
  · rw [if_neg hlonger, if_neg hlonger, ← alikeBase_comm]
    exact (isLongestCommon_rows second first).swap

/-- The length is that of a common subsequence, none is longer, and the order of the arguments does not matter. -/
theorem longestCommonSubsequenceLength_spec (first second : List Character) :
    (∃ u v, CommonSubsequence AlikeBase first second u v ∧ u.length = longestCommonSubsequenceLength first second) ∧
    (∀ u v, CommonSubsequence AlikeBase first second u v →
      u.length ≤ longestCommonSubsequenceLength first second) ∧
    longestCommonSubsequenceLength second first = longestCommonSubsequenceLength first second ∧
    longestCommonSubsequenceLength first second ≤ first.length ∧
    longestCommonSubsequenceLength first second ≤ second.length := by
  have hlongest := isLongestCommon_longestCommonSubsequenceLength first second
  have hswapped := (isLongestCommon_longestCommonSubsequenceLength second first).swap
  rw [alikeBase_comm] at hswapped
  exact ⟨hlongest.exists_common, hlongest.length_le, hswapped.eq hlongest, hlongest.le_left, hlongest.le_right⟩

end Ycmd.Core
