import Ycmd.Core.Word
import Mathlib.Data.List.Lex

/-! Results: how a candidate matches a query, and the order that ranks the matches. -/
namespace Ycmd.Core
open Lib

/-- The loop over `shorter`, without the zeros at index 0: `left` is the entry just written,
`diagonal` the one above it in the row before. -/
def lcsRow (character : Character) (left diagonal : Nat) : List Character → List Nat → List Nat
  | other :: shorter, above :: previous =>
    let entry := if character.equalsBase other then diagonal + 1 else max left above
    entry :: lcsRow character entry above shorter previous
  | _, _ => []

def longestCommonSubsequenceLength (first second : List Character) : Nat :=
  let longer := if first.length > second.length then first else second
  let shorter := if first.length > second.length then second else first
  let rows := longer.foldl (fun previous character => lcsRow character 0 0 shorter previous)
    (List.replicate shorter.length 0)
  rows.getLastD 0

structure Result where
  firstCharSameInQueryAndText : Bool
  queryIsCandidatePrefix : Bool
  charMatchIndexSum : Nat
  numWbMatches : Nat
  candidate : Candidate
  query : Word
  deriving DecidableEq, Repr

namespace Result

/-- The constructor with its features set; only the default `Result()` is not a subsequence. -/
def build (candidate : Candidate) (query : Word) (charMatchIndexSum : Nat)
    (queryIsCandidatePrefix : Bool) : Result where
  firstCharSameInQueryAndText := match candidate.characters, query.characters with
    | character :: _, queryCharacter :: _ => character.equalsBase queryCharacter
    | _, _ => false
  queryIsCandidatePrefix := queryIsCandidatePrefix
  charMatchIndexSum := charMatchIndexSum
  numWbMatches :=
    if query.isEmpty || candidate.isEmpty then 0
    else longestCommonSubsequenceLength query.characters candidate.wordBoundaryChars
  candidate := candidate
  query := query

def text (result : Result) : Bytes := result.candidate.text

def numWordBoundaryChars (result : Result) : Nat := result.candidate.wordBoundaryChars.length

/-- The comparisons from the prefix flag on. -/
def rankLess (result other : Result) : Bool :=
  if result.queryIsCandidatePrefix ≠ other.queryIsCandidatePrefix then result.queryIsCandidatePrefix
  else if result.numWbMatches ≠ other.numWbMatches then result.numWbMatches > other.numWbMatches
  else if result.numWordBoundaryChars ≠ other.numWordBoundaryChars then
    result.numWordBoundaryChars < other.numWordBoundaryChars
  else if result.charMatchIndexSum ≠ other.charMatchIndexSum then
    result.charMatchIndexSum < other.charMatchIndexSum
  else if result.candidate.length ≠ other.candidate.length then
    result.candidate.length < other.candidate.length
  else if result.candidate.textIsLowercase ≠ other.candidate.textIsLowercase then
    result.candidate.textIsLowercase
  else lexLess result.candidate.caseSwappedText other.candidate.caseSwappedText

/-- `operator<`. -/
def less (result other : Result) : Bool :=
  if !result.query.isEmpty then
    if result.firstCharSameInQueryAndText ≠ other.firstCharSameInQueryAndText then
      result.firstCharSameInQueryAndText
    else if result.numWbMatches = result.query.length ∨ other.numWbMatches = result.query.length then
      if result.numWbMatches ≠ other.numWbMatches then result.numWbMatches > other.numWbMatches
      else if result.numWordBoundaryChars ≠ other.numWordBoundaryChars then
        result.numWordBoundaryChars < other.numWordBoundaryChars
      else result.rankLess other
    else result.rankLess other
  else lexLess result.candidate.caseSwappedText other.candidate.caseSwappedText

end Result

namespace Candidate

/-- The loop over the candidate's characters; `queryCharacters` are those still to be matched. -/
def matchLoop (candidate : Candidate) (query : Word) (queryIndex candidateIndex indexSum : Nat)
    (queryCharacters : List Character) : List Character → Option Result
  | [] => none
  | character :: characters =>
    match queryCharacters with
    | [] => none
    | queryCharacter :: rest =>
      if queryCharacter.matchesSmart character then
        if rest = [] then
          some (.build candidate query (indexSum + candidateIndex) (candidateIndex == queryIndex))
        else matchLoop candidate query (queryIndex+1) (candidateIndex+1) (indexSum + candidateIndex)
          rest characters
      else matchLoop candidate query queryIndex (candidateIndex+1) indexSum queryCharacters characters

/-- `none` is the default `Result()`, which is no subsequence and points at no candidate. -/
def queryMatchResult (candidate : Candidate) (query : Word) : Option Result :=
  if query.isEmpty then some (.build candidate query 0 false)
  else if candidate.length < query.length then none
  else matchLoop candidate query 0 0 0 query.characters candidate.characters

end Candidate

/-- No entry of a row exceeds the number of columns up to it. -/
def Staircase : Nat → List Nat → Prop
  | _, [] => True
  | n, entry :: row => entry ≤ n + 1 ∧ Staircase (n+1) row

theorem staircase_lcsRow {character : Character} {n left diagonal : Nat} {shorter : List Character}
    {previous : List Nat} (hl : left ≤ n) (hd : diagonal ≤ n) (hp : Staircase n previous) :
    Staircase n (lcsRow character left diagonal shorter previous) := by
  induction shorter generalizing n left diagonal previous with
  | nil => simp [lcsRow, Staircase]
  | cons other shorter ih =>
    cases previous with
    | nil => simp [lcsRow, Staircase]
    | cons above previous =>
      obtain ⟨ha, hp⟩ := hp
      have hentry : (if character.equalsBase other then diagonal + 1 else max left above) ≤ n + 1 := by
        split <;> omega
      exact ⟨hentry, ih hentry ha hp⟩

theorem length_lcsRow (character : Character) (left diagonal : Nat) (shorter : List Character)
    (previous : List Nat) :
    (lcsRow character left diagonal shorter previous).length = min shorter.length previous.length := by
  induction shorter generalizing left diagonal previous with
  | nil => simp [lcsRow]
  | cons other shorter ih =>
    cases previous with
    | nil => simp [lcsRow]
    | cons above previous => simp [lcsRow, ih]

theorem Staircase.getLastD_le {n : Nat} {row : List Nat} (h : Staircase n row) :
    row.getLastD 0 ≤ n + row.length := by
  induction row generalizing n with
  | nil => simp
  | cons entry row ih =>
    cases row with
    | nil => exact h.1
    | cons next row =>
      have := ih h.2
      simp only [List.getLastD_cons, List.length_cons] at this ⊢
      omega

private theorem staircase_zeros (n k : Nat) : Staircase n (List.replicate k 0) := by
  induction k generalizing n with
  | zero => trivial
  | succ k ih => exact ⟨Nat.zero_le _, ih (n+1)⟩

private theorem staircase_rows (longer shorter : List Character) {row : List Nat} (h : Staircase 0 row)
    (hl : row.length = shorter.length) :
    Staircase 0 (longer.foldl (fun previous character => lcsRow character 0 0 shorter previous) row) ∧
      (longer.foldl (fun previous character => lcsRow character 0 0 shorter previous) row).length =
        shorter.length := by
  induction longer generalizing row with
  | nil => exact ⟨h, hl⟩
  | cons character longer ih =>
    exact ih (staircase_lcsRow (Nat.le_refl 0) (Nat.le_refl 0) h) (by simp [length_lcsRow, hl])

/-- A common subsequence is no longer than the first sequence. -/
theorem longestCommonSubsequenceLength_le (first second : List Character) :
    longestCommonSubsequenceLength first second ≤ first.length := by
  unfold longestCommonSubsequenceLength
  extract_lets longer shorter rows
  obtain ⟨hstairs, hlength⟩ := staircase_rows longer shorter (staircase_zeros 0 shorter.length) (by simp)
  have hlast := hstairs.getLastD_le
  have hshorter : shorter.length ≤ first.length := by
    simp only [shorter]
    split <;> omega
  rw [hlength] at hlast
  exact hlast.trans (by omega)

namespace Result

/-- What every result of matching against one query has in common. -/
def RankedFor (query : Word) (result : Result) : Prop :=
  result.query = query ∧ result.numWbMatches ≤ query.length

theorem rankedFor_build (candidate : Candidate) (query : Word) (charMatchIndexSum : Nat) (isPrefix : Bool) :
    (build candidate query charMatchIndexSum isPrefix).RankedFor query := by
  refine ⟨rfl, ?_⟩
  simp only [build]
  split
  · exact Nat.zero_le _
  · exact longestCommonSubsequenceLength_le _ _

private def rank (flag : Bool) : Nat := if flag then 0 else 1

private def tailKey (result : Result) : List Nat :=
  result.charMatchIndexSum :: result.candidate.length :: rank result.candidate.textIsLowercase ::
    result.candidate.caseSwappedText.map UInt8.toNat

/-- The numbers `operator<` compares, in the order in which it compares them. -/
def key (query : Word) (result : Result) : List Nat :=
  if query.isEmpty then result.candidate.caseSwappedText.map UInt8.toNat
  else
    rank result.firstCharSameInQueryAndText ::
      if result.numWbMatches = query.length then
        0 :: result.numWordBoundaryChars :: rank result.queryIsCandidatePrefix :: tailKey result
      else
        1 :: rank result.queryIsCandidatePrefix :: (query.length - result.numWbMatches) ::
          result.numWordBoundaryChars :: tailKey result

private theorem less_step {a b : Nat} {as bs : List Nat} {c : Prop} [Decidable c] {p q : Bool}
    (hc : c ↔ a ≠ b) (hp : a ≠ b → (p = true ↔ a < b)) (hq : a = b → (q = true ↔ as < bs)) :
    (if c then p else q) = true ↔ a :: as < b :: bs := by
  rw [List.cons_lt_cons_iff]
  by_cases h : a = b
  · rw [if_neg (fun hcc => hc.mp hcc h), hq h]
    simp [h]
  · rw [if_pos (hc.mpr h), hp h]
    simp [h]

private theorem flag_step {a b : Bool} {as bs : List Nat} {q : Bool}
    (hq : a = b → (q = true ↔ as < bs)) :
    (if a ≠ b then a else q) = true ↔ rank a :: as < rank b :: bs := by
  apply less_step
  · cases a <;> cases b <;> simp [rank]
  · cases a <;> cases b <;> simp [rank]
  · intro h
    exact hq (by revert h; cases a <;> cases b <;> simp [rank])

private theorem tail_step {result other : Result} :
    (if result.charMatchIndexSum ≠ other.charMatchIndexSum then
        decide (result.charMatchIndexSum < other.charMatchIndexSum)
      else if result.candidate.length ≠ other.candidate.length then
        decide (result.candidate.length < other.candidate.length)
      else if result.candidate.textIsLowercase ≠ other.candidate.textIsLowercase then
        result.candidate.textIsLowercase
      else lexLess result.candidate.caseSwappedText other.candidate.caseSwappedText) = true ↔
    tailKey result < tailKey other := by
  refine less_step Iff.rfl (by simp) (fun _ => less_step Iff.rfl (by simp) (fun _ => flag_step (fun _ => ?_)))
  simp [lexLess]

/-- The comparison is a lexicographic one. -/
theorem less_iff_key {query : Word} {result other : Result} (h : result.RankedFor query)
    (h' : other.RankedFor query) : result.less other = true ↔ key query result < key query other := by
  obtain ⟨hq, hle⟩ := h
  obtain ⟨-, hle'⟩ := h'
  unfold less key
  rw [hq]
  by_cases hempty : query.isEmpty
  · simp [hempty, lexLess]
  · simp only [hempty, Bool.not_false, if_true, Bool.false_eq_true, if_false]
    apply flag_step
    intro _
    by_cases hfull : result.numWbMatches = query.length <;> by_cases hfull' : other.numWbMatches = query.length
    · simp only [hfull, hfull', true_or, if_true, ne_eq, not_true, if_false]
      rw [List.cons_lt_cons_self]
      apply less_step Iff.rfl (by simp)
      intro hwb
      unfold rankLess
      apply flag_step
      intro _
      rw [if_neg (by simp [hfull, hfull']), if_neg (by simpa using hwb)]
      exact tail_step
    · have : other.numWbMatches < query.length := by omega
      simpa [hfull, hfull', Ne.symm hfull', List.cons_lt_cons_iff] using this
    · simp [hfull, hfull', List.cons_lt_cons_iff]
      exact hle
    · simp only [hfull, hfull', or_self, if_false]
      rw [List.cons_lt_cons_self]
      unfold rankLess
      refine flag_step (fun _ => less_step (by omega) ?_ (fun _ => less_step Iff.rfl (by simp) (fun _ => tail_step)))
      simp only [gt_iff_lt, decide_eq_true_eq]
      omega

/-- The results of matching against one query can be sorted. -/
theorem sortable {query : Word} {results : List Result} (h : ∀ result ∈ results, result.RankedFor query) :
    Sortable less results :=
  sortable_of_key (key query) (fun a ha b hb => less_iff_key (h a ha) (h b hb))

end Result

namespace Candidate
variable {candidate : Candidate} {query : Word} {result : Result}

private theorem matchLoop_built {queryIndex candidateIndex indexSum : Nat} {queryCharacters characters : List Character}
    (h : matchLoop candidate query queryIndex candidateIndex indexSum queryCharacters characters = some result) :
    ∃ indexSum isPrefix, result = .build candidate query indexSum isPrefix := by
  induction characters generalizing queryIndex candidateIndex indexSum queryCharacters with
  | nil => simp [matchLoop] at h
  | cons character characters ih =>
    cases queryCharacters with
    | nil => simp [matchLoop] at h
    | cons queryCharacter rest =>
      simp only [matchLoop] at h
      split at h
      · split at h
        · exact ⟨_, _, (Option.some.inj h).symm⟩
        · exact ih h
      · exact ih h

/-- A match is a match of this candidate against this query. -/
theorem queryMatchResult_built (h : candidate.queryMatchResult query = some result) :
    ∃ indexSum isPrefix, result = .build candidate query indexSum isPrefix := by
  unfold queryMatchResult at h
  split at h
  · exact ⟨0, false, (Option.some.inj h).symm⟩
  · split at h
    · cases h
    · exact matchLoop_built h

theorem queryMatchResult_ranked (h : candidate.queryMatchResult query = some result) : result.RankedFor query := by
  obtain ⟨indexSum, isPrefix, rfl⟩ := queryMatchResult_built h
  exact Result.rankedFor_build _ _ _ _

theorem queryMatchResult_candidate (h : candidate.queryMatchResult query = some result) :
    result.candidate = candidate := by
  obtain ⟨indexSum, isPrefix, rfl⟩ := queryMatchResult_built h
  rfl

theorem queryMatchResult_text (h : candidate.queryMatchResult query = some result) : result.text = candidate.text := by
  rw [Result.text, queryMatchResult_candidate h]

/-- What a match says of the candidate: whether it begins as the query does, and how many characters of the query
are found in order among those that begin its words. -/
theorem queryMatchResult_features (h : candidate.queryMatchResult query = some result) :
    (result.firstCharSameInQueryAndText = true ↔ ∃ character ∈ candidate.characters.head?,
      ∃ queryCharacter ∈ query.characters.head?, character.equalsBase queryCharacter = true) ∧
    result.numWbMatches = longestCommonSubsequenceLength query.characters candidate.wordBoundaryChars := by
  obtain ⟨indexSum, isPrefix, rfl⟩ := queryMatchResult_built h
  constructor
  · cases hcandidate : candidate.characters <;> cases hquery : query.characters <;>
      simp [Result.build, hcandidate, hquery]
  · by_cases hempty : query.isEmpty = true
    · have hnone : query.characters = [] := List.isEmpty_iff.mp hempty
      have hle := longestCommonSubsequenceLength_le query.characters candidate.wordBoundaryChars
      rw [hnone] at hle
      simp only [Result.build, hempty, Bool.true_or, if_true, hnone]
      exact (Nat.le_zero.mp hle).symm
    · rw [Bool.not_eq_true] at hempty
      have hlength : query.length ≤ candidate.length := by
        by_contra hlt
        rw [queryMatchResult, if_neg (by simp [hempty]), if_pos (Nat.lt_of_not_le hlt)] at h
        cases h
      have hcandidate : candidate.isEmpty = false := by
        have hne := List.isEmpty_eq_false_iff.mp hempty
        exact List.isEmpty_eq_false_iff.mpr
          (List.ne_nil_of_length_pos (Nat.lt_of_lt_of_le (List.length_pos_of_ne_nil hne) hlength))
      simp only [Result.build, hempty, hcandidate, Bool.or_self, Bool.false_eq_true, if_false]

end Candidate

/-- The results of the candidates that match a query. -/
abbrev ResultFor (query : Word) :=
  {result : Result // ∃ candidate : Candidate, candidate.queryMatchResult query = some result}

theorem ResultFor.matched {query : Word} (result : ResultFor query) :
    result.1.candidate.queryMatchResult query = some result.1 := by
  obtain ⟨result, candidate, h⟩ := result
  rw [Candidate.queryMatchResult_candidate h, h]

theorem ResultFor.ranked {query : Word} (result : ResultFor query) : result.1.RankedFor query :=
  Candidate.queryMatchResult_ranked result.matched

/-- The results for one query are in a strict weak order, which compares their keys; those of equal
keys, and no others, are incomparable. The keys are what the characters of candidate and query say they are. -/
theorem less_orders_results (query : Word) :
    IsStrictWeakOrder (ResultFor query) (fun a b => a.1.less b.1 = true) ∧
    (∀ a : ResultFor query,
      (a.1.firstCharSameInQueryAndText = true ↔ ∃ character ∈ a.1.candidate.characters.head?,
        ∃ queryCharacter ∈ query.characters.head?, character.equalsBase queryCharacter = true) ∧
      a.1.numWbMatches = longestCommonSubsequenceLength query.characters a.1.candidate.wordBoundaryChars) ∧
    ∀ a b : ResultFor query,
      (a.1.less b.1 = true ↔ a.1.key query < b.1.key query) ∧
      (a.1.less b.1 = true → b.1.less a.1 = false) ∧
      (a.1.less b.1 = false ∧ b.1.less a.1 = false ↔ a.1.key query = b.1.key query) := by
  have hkey (a b : ResultFor query) := Result.less_iff_key a.ranked b.ranked
  refine ⟨strictWeakOrder_of_key (fun a => a.1.key query) hkey,
    fun a => Candidate.queryMatchResult_features a.matched, fun a b => ⟨hkey a b, ?_, ?_⟩⟩
  · intro hab
    rw [← Bool.not_eq_true, hkey]
    exact lt_asymm ((hkey a b).mp hab)
  · rw [← Bool.not_eq_true, ← Bool.not_eq_true, hkey, hkey, not_lt, not_lt, and_comm]
    exact le_antisymm_iff.symm

end Ycmd.Core
