import Ycmd.Core.Character
import Ycmd.Lib.CanonicalOrder

/-! The order into which the code points of a character are sorted, against the canonical one. -/
namespace Ycmd.Core
open Lib

/-- The class of a code point as a number; those of class zero are starters. -/
def CodePoint.canonicalClass (codePoint : CodePoint) : Nat := codePoint.combiningClass.toNat

/-- The code points of a normalised text: each stands for its own normal form. -/
def Decomposed (table : UnicodeTable) (codePoints : List CodePoint) : Prop :=
  ∀ codePoint ∈ codePoints, splitCodePoints codePoint.normal = .ok [codePoint.normal] ∧
    CodePoint.of table codePoint.normal = codePoint

/-- Neighbours of different non-zero classes may be exchanged. -/
abbrev CanonicallyEquivalent : List CodePoint → List CodePoint → Prop := Exchangeable CodePoint.canonicalClass

/-- What the canonical ordering makes of code points. -/
structure CanonicalOrdering (codePoints ordered : List CodePoint) : Prop where
  perm : ordered.Perm codePoints
  keepsStarters : ∀ (i : Nat) (codePoint : CodePoint), codePoint.combiningClass = 0 →
    (codePoints[i]? = some codePoint ↔ ordered[i]? = some codePoint)
  runs : Runwise CodePoint.canonicalClass (StableSorted CodePoint.canonicalClass) codePoints ordered

theorem codePointCompare_iff (left right : CodePoint) :
    codePointCompare left right = true ↔ left.canonicalClass < right.canonicalClass := by
  simp [codePointCompare, CodePoint.canonicalClass, UInt8.lt_iff_toNat_lt]

theorem sortable_codePointCompare (codePoints : List CodePoint) : Sortable codePointCompare codePoints :=
  sortable_of_key CodePoint.canonicalClass (fun a _ b _ => codePointCompare_iff a b)

theorem sortedBy_codePointCompare {codePoints : List CodePoint} :
    SortedBy codePointCompare codePoints ↔ codePoints.Pairwise (fun a b => a.canonicalClass ≤ b.canonicalClass) :=
  List.Pairwise.iff fun a b => by rw [← Bool.not_eq_true, codePointCompare_iff, Nat.not_lt]

theorem canonicalClass_eq_zero {codePoint : CodePoint} :
    codePoint.canonicalClass = 0 ↔ codePoint.combiningClass = 0 := by
  rw [← UInt8.toNat_inj]
  rfl

section Runs
variable (std : StandardLibrary)

/-- One round of the loop; on nothing it does nothing. -/
theorem canonicalSort_eq (codePoints : List CodePoint) :
    canonicalSort std codePoints =
      codePoints.takeWhile (fun cp => cp.combiningClass == 0) ++
        std.sort codePointCompare
          ((codePoints.dropWhile (fun cp => cp.combiningClass == 0)).takeWhile (fun cp => cp.combiningClass != 0)) ++
        canonicalSort std
          ((codePoints.dropWhile (fun cp => cp.combiningClass == 0)).dropWhile (fun cp => cp.combiningClass != 0)) := by
  by_cases h : codePoints = []
  · subst h
    have hnil : std.sort codePointCompare [] = [] := (std.sort_perm (sortable_codePointCompare [])).eq_nil
    simp [hnil]
  · conv_lhs => rw [canonicalSort, if_neg h]

theorem canonicalSort_starter {codePoint : CodePoint} (h : codePoint.combiningClass = 0)
    (codePoints : List CodePoint) :
    canonicalSort std (codePoint :: codePoints) = codePoint :: canonicalSort std codePoints := by
  rw [canonicalSort_eq std (codePoint :: codePoints), canonicalSort_eq std codePoints,
    List.takeWhile_cons_of_pos (by simpa using h), List.dropWhile_cons_of_pos (by simpa using h)]
  rfl

/-- A run is sorted by itself, up to the starter after it. -/
theorem canonicalSort_run {run : List CodePoint} (hrun : ∀ codePoint ∈ run, codePoint.canonicalClass ≠ 0)
    (codePoints : List CodePoint) (hnext : ∀ codePoint ∈ codePoints.head?, codePoint.combiningClass = 0) :
    canonicalSort std (run ++ codePoints) = std.sort codePointCompare run ++ canonicalSort std codePoints := by
  have hnot : ∀ codePoint ∈ run, (codePoint.combiningClass != 0) = true := by
    intro codePoint hmem
    have := hrun codePoint hmem
    rw [Ne, canonicalClass_eq_zero] at this
    simpa using this
  cases run with
  | nil => rw [(std.sort_perm (sortable_codePointCompare [])).eq_nil, List.nil_append, List.nil_append]
  | cons first run =>
    have hstart : (first :: run ++ codePoints).dropWhile (fun cp => cp.combiningClass == 0) =
        first :: run ++ codePoints :=
      List.dropWhile_cons_of_neg (by simpa using hnot first List.mem_cons_self)
    have hnone : (first :: run ++ codePoints).takeWhile (fun cp => cp.combiningClass == 0) = [] :=
      List.takeWhile_cons_of_neg (by simpa using hnot first List.mem_cons_self)
    rw [canonicalSort_eq, hstart, hnone, List.takeWhile_append_of_pos hnot, List.dropWhile_append_of_pos hnot]
    cases codePoints with
    | nil => simp
    | cons codePoint codePoints =>
      have h := hnext codePoint rfl
      rw [List.takeWhile_cons_of_neg (by simpa using h), List.dropWhile_cons_of_neg (by simpa using h),
        List.append_nil, List.nil_append]

/-- What the loop does, whatever the library: starters stay, and the runs between them are sorted. -/
theorem canonicalSort_runwise (codePoints : List CodePoint) :
    Runwise CodePoint.canonicalClass (fun run run' => run' = std.sort codePointCompare run) codePoints
      (canonicalSort std codePoints) := by
  induction codePoints using @runs_induction _ CodePoint.canonicalClass with
  | last run hrun =>
    have := canonicalSort_run std hrun [] (by simp)
    rw [List.append_nil] at this
    rw [this, canonicalSort, if_pos rfl, List.append_nil]
    exact .last hrun rfl
  | starter run codePoint codePoints hrun hstarter ih =>
    have hzero := canonicalClass_eq_zero.mp hstarter
    rw [canonicalSort_run std hrun _ (by simpa using hzero), canonicalSort_starter std hzero]
    exact .starter hrun rfl hstarter ih

theorem canonicalSort_runwise_perm (codePoints : List CodePoint) :
    Runwise CodePoint.canonicalClass List.Perm codePoints (canonicalSort std codePoints) := by
  apply (canonicalSort_runwise std codePoints).imp
  rintro run run' - rfl
  exact (std.sort_perm (sortable_codePointCompare run)).symm

theorem canonicalSort_perm (codePoints : List CodePoint) : (canonicalSort std codePoints).Perm codePoints :=
  (canonicalSort_runwise_perm std codePoints).perm.symm

/-- Where no order has to be kept, every library computes the canonical one. -/
theorem canonicalSort_of_noTies {codePoints : List CodePoint} (h : NoTies CodePoint.canonicalClass codePoints) :
    canonicalSort std codePoints = canonicalOrder CodePoint.canonicalClass codePoints := by
  rw [← runwise_stableSorted_iff]
  refine ((canonicalSort_runwise std codePoints).imp ?_).stableSorted h
  rintro run run' - rfl
  have hsortable := sortable_codePointCompare run
  exact ⟨std.sort_perm hsortable, sortedBy_codePointCompare.mp (std.sort_sorted hsortable)⟩

end Runs

/-- A text to which every round of the loop appends a part is made of these parts. -/
theorem Character.flatMap_of_append {field : Character → Bytes} {part : CodePoint → Bytes}
    (happend : ∀ character codePoint, field (append character codePoint) = field character ++ part codePoint)
    (codePoints : List CodePoint) (character : Character) :
    field (codePoints.foldl append character) = field character ++ codePoints.flatMap part := by
  induction codePoints generalizing character with
  | nil => simp
  | cons codePoint codePoints ih => rw [List.foldl_cons, ih, List.flatMap_cons, happend, List.append_assoc]

theorem Character.normal_ofCodePoints (codePoints : List CodePoint) :
    (ofCodePoints codePoints).normal = codePoints.flatMap CodePoint.normal :=
  flatMap_of_append (fun _ _ => rfl) codePoints _

theorem Character.foldedCase_ofCodePoints (codePoints : List CodePoint) :
    (ofCodePoints codePoints).foldedCase = codePoints.flatMap CodePoint.foldedCase :=
  flatMap_of_append (fun _ _ => rfl) codePoints _

/-- The base leaves the combining marks out. -/
theorem Character.base_ofCodePoints (codePoints : List CodePoint) :
    (ofCodePoints codePoints).base =
      codePoints.flatMap (fun codePoint => if codePoint.breakProperty.isMark then [] else codePoint.foldedCase) := by
  apply flatMap_of_append
  intro character codePoint
  rw [append]
  split <;> simp

/-- Code points that are their own normal forms can be read off their concatenation. -/
private theorem splitCodePoints_flatMap_normal {codePoints : List CodePoint}
    (h : ∀ codePoint ∈ codePoints, splitCodePoints codePoint.normal = .ok [codePoint.normal]) :
    splitCodePoints (codePoints.flatMap CodePoint.normal) = .ok (codePoints.map CodePoint.normal) := by
  induction codePoints with
  | nil => exact splitCodePoints_nil
  | cons codePoint codePoints ih =>
    rw [List.forall_mem_cons] at h
    rw [List.flatMap_cons, List.map_cons]
    exact splitCodePoints_append h.1 (ih h.2)

variable {table : UnicodeTable}

/-- Decomposed code points can be told apart by the bytes of their normal form. -/
theorem Decomposed.eq_of_normal {codePoints codePoints' : List CodePoint} (h : Decomposed table codePoints)
    (h' : Decomposed table codePoints')
    (heq : (Character.ofCodePoints codePoints).normal = (Character.ofCodePoints codePoints').normal) :
    codePoints = codePoints' := by
  rw [Character.normal_ofCodePoints, Character.normal_ofCodePoints] at heq
  have hsplit := splitCodePoints_flatMap_normal (fun codePoint hmem => (h codePoint hmem).1)
  rw [heq, splitCodePoints_flatMap_normal (fun codePoint hmem => (h' codePoint hmem).1)] at hsplit
  have hread : ∀ l : List CodePoint, Decomposed table l →
      (l.map CodePoint.normal).map (CodePoint.of table) = l := by
    intro l hl
    rw [List.map_map]
    exact (List.map_congr_left (g := id) (fun codePoint hmem => (hl codePoint hmem).2)).trans (List.map_id l)
  rw [← hread codePoints h, ← Except.ok.inj hsplit, hread codePoints' h']

theorem canonicalOrdering_iff {codePoints ordered : List CodePoint} :
    CanonicalOrdering codePoints ordered ↔ ordered = canonicalOrder CodePoint.canonicalClass codePoints := by
  constructor
  · intro h
    exact runwise_stableSorted_iff.mp h.runs
  · intro h
    have hruns := runwise_stableSorted_iff.mpr h
    have hperm : Runwise CodePoint.canonicalClass List.Perm codePoints ordered :=
      hruns.imp (fun _ _ _ h => h.perm.symm)
    exact ⟨hperm.perm.symm, fun i codePoint hzero => hperm.getElem?_starter (canonicalClass_eq_zero.mpr hzero), hruns⟩

/-- If the order is canonical whatever the library does, then no run has ties: one library would break them
in another way. -/
theorem noTies_of_canonicalOrdering {codePoints : List CodePoint}
    (h : ∀ std, CanonicalOrdering codePoints (canonicalSort std codePoints)) :
    NoTies CodePoint.canonicalClass codePoints := by
  obtain ⟨contrary, hcontrary⟩ := StandardLibrary.exists_contrary
  refine (canonicalSort_runwise contrary codePoints).noTies ?_ ?_ (canonicalOrdering_iff.mp (h contrary))
  · rintro run run' rfl
    exact contrary.sort_perm (sortable_codePointCompare run)
  · intro run hrun heq
    have hinsertion : StandardLibrary.insertion.sort codePointCompare run =
        canonicalOrder CodePoint.canonicalClass run := by
      rw [canonicalOrder_run hrun, StandardLibrary.insertion_sort_eq]
      congr 1
      funext a b
      rw [← Bool.not_eq_true, codePointCompare_iff, Nat.not_lt]
    rw [noTies_run hrun]
    apply ties_eq_of_unique hrun
    intro result hperm hsorted
    rw [← hinsertion] at heq ⊢
    exact hcontrary codePointCompare run heq.symm result hperm (sortedBy_codePointCompare.mpr hsorted)

/-- Sorting computes the canonical ordering on every library, so that the normal forms of decomposed code
points are the same exactly for canonical equivalents, exactly when no run has two different code points of
one class. -/
theorem canonicalSort_canonical_iff (table : UnicodeTable) (codePoints : List CodePoint) :
    (∀ std, CanonicalOrdering codePoints (canonicalSort std codePoints) ∧
      (Decomposed table codePoints → ∀ other, Decomposed table other →
        (CanonicallyEquivalent codePoints other ↔
          (Character.ofCodePoints (canonicalSort std codePoints)).normal =
            (Character.ofCodePoints (canonicalSort std other)).normal))) ↔
    NoTies CodePoint.canonicalClass codePoints := by
  constructor
  · intro h
    exact noTies_of_canonicalOrdering (fun std => (h std).1)
  · intro hties std
    have hcanonical := canonicalSort_of_noTies std hties
    refine ⟨canonicalOrdering_iff.mpr hcanonical, fun hdecomposed other hother => ?_⟩
    have hsorted {l : List CodePoint} (hl : Decomposed table l) : Decomposed table (canonicalSort std l) :=
      fun codePoint hmem => hl codePoint ((canonicalSort_perm std l).mem_iff.mp hmem)
    constructor
    · intro hequivalent
      have heq := exchangeable_iff.mp hequivalent
      have hother_ties : NoTies CodePoint.canonicalClass other := by
        have hperm (l : List CodePoint) :
            Runwise CodePoint.canonicalClass List.Perm l (canonicalOrder CodePoint.canonicalClass l) :=
          (runwise_stableSorted_iff.mpr rfl).imp (fun _ _ _ h => h.perm.symm)
        rwa [noTies_congr (hperm other), ← heq, ← noTies_congr (hperm codePoints)]
      rw [hcanonical, canonicalSort_of_noTies std hother_ties, heq]
    · intro hnormal
      have heq := (hsorted hdecomposed).eq_of_normal (hsorted hother) hnormal
      have hother_ties : NoTies CodePoint.canonicalClass other := by
        rwa [noTies_congr (canonicalSort_runwise_perm std other), ← heq,
          ← noTies_congr (canonicalSort_runwise_perm std codePoints)]
      rw [hcanonical, canonicalSort_of_noTies std hother_ties] at heq
      exact exchangeable_iff.mpr heq

/-- Two accents above, as the table has them. -/
def accents : List CodePoint := [
  ⟨[0xcc, 0x81], [0xcc, 0x81], [0xcc, 0x81], false, false, false, .extend, 230⟩,
  ⟨[0xcc, 0x80], [0xcc, 0x80], [0xcc, 0x80], false, false, false, .extend, 230⟩]

/-- A library that begins at the end of the range turns them round. -/
theorem accents_turned_round :
    canonicalSort .backwards accents = accents.reverse ∧
      ¬ CanonicalOrdering accents (canonicalSort .backwards accents) := by
  have hsort : canonicalSort .backwards accents = accents.reverse := by decide +kernel
  refine ⟨hsort, fun h => ?_⟩
  rw [canonicalOrdering_iff, hsort] at h
  exact absurd h (by decide)

end Ycmd.Core
