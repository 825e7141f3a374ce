import Ycmd.Core.Result
import Ycmd.Lib.Embedding
import Mathlib.Algebra.Order.BigOperators.Group.List
import Mathlib.Order.Bounds.Basic

/-! The one pass over a candidate's characters against every way to find the query in them. -/
namespace Ycmd.Core
open Lib

namespace Candidate
variable {candidate : Candidate} {query : Word}

/-- The loop finds the first positions. It keeps their sum, and compares the last of them only. -/
theorem matchLoop_eq {queryIndex candidateIndex indexSum : Nat} {queryCharacters characters : List Character}
    (hne : queryCharacters ≠ []) :
    matchLoop candidate query queryIndex candidateIndex indexSum queryCharacters characters =
      (firstPositions Character.matchesSmart candidateIndex queryCharacters characters).map fun positions =>
        .build candidate query (indexSum + positions.sum)
          (positions.getLastD 0 + 1 == queryIndex + queryCharacters.length) := by
  induction characters generalizing queryIndex candidateIndex indexSum queryCharacters with
  | nil =>
    obtain ⟨queryCharacter, rest, rfl⟩ := List.exists_cons_of_ne_nil hne
    rfl
  | cons character characters ih =>
    obtain ⟨queryCharacter, rest, rfl⟩ := List.exists_cons_of_ne_nil hne
    rw [matchLoop, firstPositions]
    split
    · split
      · rename_i hrest
        subst hrest
        simp [firstPositions]
      · rename_i hrest
        rw [ih hrest, Option.map_map]
        apply Option.map_congr
        intro positions hpositions
        have hlength := (embeddingFrom_firstPositions hpositions).matching.length_eq
        obtain ⟨position, later, rfl⟩ : ∃ position later, positions = position :: later :=
          List.exists_cons_of_length_pos (hlength ▸ List.length_pos_iff.mpr hrest)
        simp [Nat.add_assoc, Nat.add_comm 1]
    · exact ih hne

theorem queryMatchResult_eq (hne : query.isEmpty = false) :
    candidate.queryMatchResult query =
      (firstPositions Character.matchesSmart 0 query.characters candidate.characters).map fun positions =>
        .build candidate query positions.sum (positions.getLastD 0 + 1 == query.length) := by
  have hcharacters : query.characters ≠ [] := by simpa [Word.isEmpty] using hne
  rw [queryMatchResult, hne, if_neg Bool.false_ne_true]
  split
  · rename_i hlt
    have hnone : firstPositions Character.matchesSmart 0 query.characters candidate.characters = none := by
      rw [← Option.not_isSome_iff_eq_none, firstPositions_isSome_iff]
      rintro ⟨positions, h⟩
      exact Nat.not_lt_of_ge h.length_le hlt
    rw [hnone, Option.map_none]
  · rw [matchLoop_eq hcharacters, Nat.zero_add]
    simp [Word.length]

/-- A non-empty query matches exactly when its characters are found in order in the candidate's. The sum
is then the least of all ways to find them, and the flag tells whether they are found at its beginning. -/
theorem queryMatchResult_least (candidate : Candidate) (query : Word) (hne : query.isEmpty = false) :
    ((candidate.queryMatchResult query).isSome = true ↔
      ∃ positions, Embedding Character.matchesSmart query.characters candidate.characters positions) ∧
    ∀ result, candidate.queryMatchResult query = some result →
      IsLeast {sum | ∃ positions,
          Embedding Character.matchesSmart query.characters candidate.characters positions ∧ positions.sum = sum}
        result.charMatchIndexSum ∧
      (result.queryIsCandidatePrefix = true ↔
        RelatedPrefix Character.matchesSmart query.characters candidate.characters) := by
  rw [queryMatchResult_eq hne, Option.isSome_map, firstPositions_isSome_iff]
  refine ⟨Iff.rfl, fun result hresult => ?_⟩
  obtain ⟨first, hfirst, rfl⟩ := Option.map_eq_some_iff.mp hresult
  have hembedding := embeddingFrom_firstPositions hfirst
  refine ⟨⟨⟨first, embeddingFrom_zero.mp hembedding, rfl⟩, ?_⟩, ?_⟩
  · rintro sum ⟨positions, hpositions, rfl⟩
    obtain ⟨first', hfirst', hle⟩ := (embeddingFrom_zero.mpr hpositions).first_le
    obtain rfl := Option.some.inj (hfirst.symm.trans hfirst')
    exact hle.sum_le_sum
  · have hfirst_ne : first ≠ [] := by
      rintro rfl
      have := hembedding.matching.length_eq
      simp [Word.isEmpty, List.length_eq_zero_iff.mp this] at hne
    rw [← firstPositions_prefix hfirst hfirst_ne]
    exact beq_iff_eq

/-- The query Aa is found in aAa after its first letter only. -/
theorem queryMatchResult_least_letters :
    let lower : Character := ⟨ascii "a", ascii "a", ascii "a", ascii "A", true, true, false, false⟩
    let upper : Character := ⟨ascii "A", ascii "a", ascii "a", ascii "a", true, true, false, true⟩
    let candidate : Candidate := .build (.build (ascii "aAa") [lower, upper, lower])
    let query : Word := .build (ascii "Aa") [upper, lower]
    query.isEmpty = false ∧ ∃ result, candidate.queryMatchResult query = some result ∧
      IsLeast {sum | ∃ positions,
        Embedding Character.matchesSmart query.characters candidate.characters positions ∧ positions.sum = sum} 3 := by
  intro lower upper candidate query
  have hsome : candidate.queryMatchResult query = some (.build candidate query 3 false) := by decide
  exact ⟨rfl, _, hsome, ((queryMatchResult_least candidate query rfl).2 _ hsome).1⟩

end Candidate
end Ycmd.Core
