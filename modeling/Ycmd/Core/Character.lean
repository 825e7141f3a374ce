import Ycmd.Core.CodePoint
import Ycmd.Lib.StandardLibrary

/-! Characters: grapheme clusters, normalised through canonical decomposition. -/
namespace Ycmd.Core
open Lib

/-- What the code is built with: the generated table and a standard library. -/
structure Environment where
  table : UnicodeTable
  std : StandardLibrary

def codePointCompare (left right : CodePoint) : Bool := left.combiningClass < right.combiningClass

private theorem unsorted_lt (codePoints : List CodePoint) (h : codePoints ≠ []) :
    ((codePoints.dropWhile (fun cp => cp.combiningClass == 0)).dropWhile
      (fun cp => cp.combiningClass != 0)).length < codePoints.length := by
  obtain ⟨cp, rest, rfl⟩ := List.exists_cons_of_ne_nil h
  have hdrop := fun (p : CodePoint → Bool) l => (List.dropWhile_suffix p (l := l)).length_le
  rw [List.dropWhile_cons]
  by_cases hc : cp.combiningClass = 0
  · rw [if_pos (by simpa using hc), List.length_cons]
    have h1 := hdrop (fun cp => cp.combiningClass == 0) rest
    have h2 := hdrop (fun cp => cp.combiningClass != 0) (rest.dropWhile (fun cp => cp.combiningClass == 0))
    omega
  · rw [if_neg (by simpa using hc), List.dropWhile_cons, if_pos (by simpa using hc), List.length_cons]
    have := hdrop (fun cp => cp.combiningClass != 0) rest
    omega

/-- Sorts every run of code points of non-zero combining class. -/
def canonicalSort (std : StandardLibrary) (codePoints : List CodePoint) : List CodePoint :=
  if codePoints = [] then []
  else
    let start := codePoints.dropWhile (fun cp => cp.combiningClass == 0)
    let run := start.takeWhile (fun cp => cp.combiningClass != 0)
    codePoints.takeWhile (fun cp => cp.combiningClass == 0) ++ std.sort codePointCompare run ++
      canonicalSort std (start.dropWhile (fun cp => cp.combiningClass != 0))
termination_by codePoints.length
decreasing_by exact unsorted_lt _ ‹_›

structure Character where
  normal : Bytes
  base : Bytes
  foldedCase : Bytes
  swappedCase : Bytes
  isBase : Bool
  isLetter : Bool
  isPunctuation : Bool
  isUppercase : Bool
  deriving DecidableEq, Repr

/-- The properties that keep a code point out of the base of its character. -/
def BreakProperty.isMark : BreakProperty → Bool
  | .prepend | .extend | .spacingMark => true
  | _ => false

namespace Character

/-- One round of the constructor's loop. -/
def append (character : Character) (codePoint : CodePoint) : Character where
  normal := character.normal ++ codePoint.normal
  base := if codePoint.breakProperty.isMark then character.base else character.base ++ codePoint.foldedCase
  foldedCase := character.foldedCase ++ codePoint.foldedCase
  swappedCase := character.swappedCase ++ codePoint.swappedCase
  isBase := character.isBase && !codePoint.breakProperty.isMark
  isLetter := character.isLetter || codePoint.isLetter
  isPunctuation := character.isPunctuation || codePoint.isPunctuation
  isUppercase := character.isUppercase || codePoint.isUppercase

def ofCodePoints (codePoints : List CodePoint) : Character :=
  codePoints.foldl append ⟨[], [], [], [], true, false, false, false⟩

def equalsBase (character other : Character) : Bool := character.base == other.base

def equalsIgnoreCase (character other : Character) : Bool := character.foldedCase == other.foldedCase

/-- Smart base matching on top of smart case matching. -/
def matchesSmart (character other : Character) : Bool :=
  character.isBase && character.equalsBase other && (!character.isUppercase || other.isUppercase) ||
    !character.isUppercase && character.equalsIgnoreCase other ||
    character.normal == other.normal

end Character

variable (env : Environment)

def normalFormOf (text : Bytes) : Except Failure Bytes :=
  (codePointsOf env.table text).map (List.flatMap CodePoint.normal)

/-- The canonical decomposition asserts that its argument is normalised. -/
def canonicalDecompositionOf (text : Bytes) : Except Failure (List CodePoint) := do
  let normal ← normalFormOf env text
  if normal ≠ text then throw .assertionFailed
  let codePoints ← codePointsOf env.table text
  return canonicalSort env.std codePoints

/-- The character of a cluster, as it is when nothing is cached. -/
def Character.of (text : Bytes) : Except Failure Character :=
  (canonicalDecompositionOf env text).map Character.ofCodePoints

variable {env}

theorem normalFormOf_of_isNormal {text : Bytes} (h : IsNormal env.table text) :
    normalFormOf env text = .ok text := by
  obtain ⟨pieces, hs, hn⟩ := h
  have hsame : pieces.map (fun piece => (CodePoint.of env.table piece).normal) = pieces := by
    rw [List.map_congr_left hn, List.map_id']
  simp only [normalFormOf, codePointsOf, hs, Except.map, List.flatMap_def, List.map_map,
    Function.comp_def, hsame, splitCodePoints_flatten hs]

/-- Building the character of a normalised text neither throws nor fails its assertion. -/
theorem Character.of_isNormal {text : Bytes} (h : IsNormal env.table text) :
    ∃ character, Character.of env text = .ok character := by
  obtain ⟨pieces, hs, -⟩ := id h
  refine ⟨Character.ofCodePoints (canonicalSort env.std (pieces.map (CodePoint.of env.table))), ?_⟩
  simp only [Character.of, canonicalDecompositionOf, normalFormOf_of_isNormal h, codePointsOf, hs, bind,
    Except.bind, Except.map]
  rw [if_neg (fun hne => hne rfl)]
  rfl

end Ycmd.Core
