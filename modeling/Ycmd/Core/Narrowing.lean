import Ycmd.Core.AnswerHistory
import Ycmd.Core.ByteFilter
import Ycmd.Lib.Lockstep

/-! Answers of one query against those of another: a query with more characters is answered with fewer
identifiers, and a query that asks for some of the answers with the best of them. -/
namespace Ycmd.Core
open Lib

/-- The characters of the query are among those of the narrower one, in their order. -/
def Word.Narrows (query narrower : Word) : Prop := query.characters.Sublist narrower.characters

/-- What embeds a list embeds what is left when elements are taken out of it. -/
private theorem SublistForall₂.of_sublist {α β : Type} {R : α → β → Prop} {l l' : List α} {m : List β}
    (hsublist : l'.Sublist l) (h : List.SublistForall₂ R l m) : List.SublistForall₂ R l' m := by
  induction h generalizing l' with
  | nil =>
    obtain rfl := List.sublist_nil.mp hsublist
    exact .nil
  | cons hab _ ih =>
    cases hsublist with
    | cons _ hsublist => exact .cons_right (ih hsublist)
    | cons_cons _ hsublist => exact .cons hab (ih hsublist)
  | cons_right _ ih => exact .cons_right (ih hsublist)

variable {env : Environment}

/-- A candidate that has the narrower query as a subsequence has the query as one. -/
theorem Word.Narrows.hasSubsequence {word word' : Word} {candidate : Candidate} (h : word.Narrows word')
    (hsubsequence : candidate.HasSubsequence word') : candidate.HasSubsequence word :=
  SublistForall₂.of_sublist h hsubsequence

/-- The bytes of fewer characters are fewer. -/
theorem Word.Narrows.containsBytes {query narrower : Bytes} {word word' : Word} {candidate : Word}
    (hword : Word.of env query = .ok word) (hword' : Word.of env narrower = .ok word')
    (h : word.Narrows word') (hcontains : candidate.containsBytes word' = true) :
    candidate.containsBytes word = true := by
  have hbits : ∀ i, word.bytesPresent.getLsbD i = true → word'.bytesPresent.getLsbD i = true := by
    intro i hi
    rw [(Word.of_characters hword).1] at hi
    obtain ⟨character, hmem, byte, hbyte, hi⟩ := (getLsbD_computeBytesPresent word.characters i).mp hi
    rw [(Word.of_characters hword').1]
    exact (getLsbD_computeBytesPresent word'.characters i).mpr ⟨character, h.subset hmem, byte, hbyte, hi⟩
  rw [Word.containsBytes, beq_iff_eq] at hcontains ⊢
  apply BitVec.eq_of_getLsbD_eq
  intro i _
  rw [BitVec.getLsbD_and, Bool.and_eq_right_iff_imp]
  intro hi
  have hi' := hbits i hi
  rw [← hcontains, BitVec.getLsbD_and, Bool.and_eq_true] at hi'
  exact hi'.1

namespace IdentifierDatabase

theorem answers_iff {query text : Bytes} {word : Word} (hword : Word.of env query = .ok word) :
    Answers env query text ↔ ∃ candidate, Candidate.of env text = .ok candidate ∧ candidate.Matches word := by
  constructor
  · rintro ⟨word', hword', result, candidate, hof, hmatch⟩
    obtain rfl := Except.ok.inj (hword.symm.trans hword')
    refine ⟨candidate, hof, ?_⟩
    unfold Candidate.matchFor at hmatch
    split at hmatch
    · cases hmatch
    · rename_i htests
      rw [Bool.or_eq_true, not_or, Bool.not_eq_true, Bool.not_eq_true, Bool.not_eq_false'] at htests
      exact ⟨htests.1, htests.2, by rw [hmatch]; rfl⟩
  · rintro ⟨candidate, hof, hne, hcontains, hsome⟩
    obtain ⟨result, hresult⟩ := Option.isSome_iff_exists.mp hsome
    refine ⟨word, hword, result, candidate, hof, ?_⟩
    simp [Candidate.matchFor, hne, hcontains, hresult]

/-- What a narrower query matches is matched. -/
theorem answers_of_narrower {query narrower : Bytes} {word word' : Word} (hword : Word.of env query = .ok word)
    (hword' : Word.of env narrower = .ok word') (h : word.Narrows word') {text : Bytes}
    (hanswers : Answers env narrower text) : Answers env query text := by
  obtain ⟨candidate, hof, hne, hcontains, hsome⟩ := (answers_iff hword').mp hanswers
  rw [Candidate.queryMatchResult_isSome] at hsome
  exact (answers_iff hword).mpr ⟨candidate, hof, hne, h.containsBytes hword hword' hcontains,
    (Candidate.queryMatchResult_isSome candidate word).mpr (h.hasSubsequence hsome)⟩

theorem Character.matchesSmart_self (character : Character) : character.matchesSmart character = true := by
  rw [Character.matchesSmart, beq_self_eq_true, Bool.or_true]

/-- An identifier matches itself, and so each query whose characters are among its own. -/
theorem answers_of_own {query text : Bytes} {word word' : Word} (hword : Word.of env query = .ok word)
    (hword' : Word.of env text = .ok word') (hne : text ≠ []) (h : word.Narrows word') : Answers env query text := by
  have hof : Candidate.of env text = .ok (.build word') := by
    rw [Candidate.of, hword']
    rfl
  have hempty : (Candidate.build word').isEmpty = false :=
    Bool.eq_false_iff.mpr (fun hempty => hne ((Candidate.of_ok hof).2.mp hempty))
  have hself : Answers env text text := by
    refine (answers_iff hword').mpr ⟨_, hof, hempty, ?_, ?_⟩
    · rw [Word.containsBytes, beq_iff_eq]
      exact BitVec.and_self
    · rw [Candidate.queryMatchResult_isSome]
      exact List.sublistForall₂_iff.mpr
        ⟨word'.characters, List.forall₂_same.mpr (fun c _ => Character.matchesSmart_self c), List.Sublist.refl _⟩
  exact answers_of_narrower hword hword' h hself

/-- Neither of two identifiers comes before the other. -/
def Tied (env : Environment) (query text text' : Bytes) : Prop :=
  ¬ Precedes env query text text' ∧ ¬ Precedes env query text' text

theorem exists_results_of_gives {word : Word} {texts : List Bytes}
    (h : ∀ text ∈ texts, ∃ result, Gives env word text result) :
    ∃ results : List Result, results.map Result.text = texts ∧ ∀ result ∈ results, Gives env word result.text result := by
  induction texts with
  | nil => exact ⟨[], rfl, List.forall_mem_nil _⟩
  | cons text texts ih =>
    rw [List.forall_mem_cons] at h
    obtain ⟨result, hgives⟩ := h.1
    obtain ⟨results, rfl, hresults⟩ := ih h.2
    obtain rfl := hgives.text_eq
    exact ⟨result :: results, rfl, List.forall_mem_cons.mpr ⟨hgives, hresults⟩⟩

/-- The results behind answers. -/
theorem Answered.exists_results {query : Bytes} {word : Word} {identifiers : Set Bytes} {answers : List Bytes}
    (h : Answered env query identifiers answers) (hword : Word.of env query = .ok word) :
    ∃ results : List Result, results.map Result.text = answers ∧ results.Nodup ∧ SortedBy Result.less results ∧
      ∀ result, result ∈ results ↔ ∃ text ∈ identifiers, Gives env word text result := by
  have hgives : ∀ text ∈ answers, ∃ result, Gives env word text result := by
    intro text htext
    obtain ⟨word', hword', result, hgives⟩ := ((h.mem text).mp htext).2
    obtain rfl := Except.ok.inj (hword.symm.trans hword')
    exact ⟨result, hgives⟩
  obtain ⟨results, rfl, hresults⟩ := exists_results_of_gives hgives
  refine ⟨results, rfl, h.nodup.of_map, ?_, ?_⟩
  · apply (List.pairwise_map.mp h.ordered).imp_of_mem
    intro result result' hmem hmem' hle
    rwa [precedes_iff hword (hresults result' hmem') (hresults result hmem), Bool.not_eq_true] at hle
  · intro result
    constructor
    · intro hmem
      have htext := ((h.mem result.text).mp (List.mem_map_of_mem hmem)).1
      exact ⟨result.text, htext, hresults result hmem⟩
    · rintro ⟨text, htext, hg⟩
      obtain ⟨result', hmem', rfl⟩ := List.mem_map.mp ((h.mem text).mpr ⟨htext, word, hword, result, hg⟩)
      rwa [hg.functional (hresults result' hmem')]

/-- Two answers to a query about the same identifiers differ in the order of ties only. -/
theorem Answered.tied {query : Bytes} {identifiers : Set Bytes} {answers answers' : List Bytes}
    (h : Answered env query identifiers answers) (h' : Answered env query identifiers answers') :
    answers.Perm answers' ∧ List.Forall₂ (Tied env query) answers answers' := by
  have hperm : answers.Perm answers' := by
    apply (List.perm_ext_iff_of_nodup h.nodup h'.nodup).mpr
    intro text
    rw [h.mem, h'.mem]
  refine ⟨hperm, ?_⟩
  cases answers with
  | nil =>
    obtain rfl := List.nil_perm.mp hperm
    exact .nil
  | cons first rest =>
    obtain ⟨word, hword, -⟩ := ((h.mem first).mp List.mem_cons_self).2
    obtain ⟨results, hmap, hnodup, hsorted, hmem⟩ := h.exists_results hword
    obtain ⟨results', rfl, hnodup', hsorted', hmem'⟩ := h'.exists_results hword
    rw [← hmap]
    have hresults : results'.Perm results := by
      apply (List.perm_ext_iff_of_nodup hnodup' hnodup).mpr
      intro result
      rw [hmem, hmem']
    have hgives : ∀ result ∈ results, Gives env word result.text result := by
      intro result hresult
      obtain ⟨text, -, hg⟩ := (hmem result).mp hresult
      rwa [hg.text_eq]
    have hsortable : Sortable Result.less results := Result.sortable (fun result hr => (hgives result hr).ranked)
    have hequivalent := hsorted.equivalent hsorted' hresults hsortable
    rw [List.forall₂_map_left_iff, List.forall₂_map_right_iff, List.forall₂_iff_get]
    refine ⟨hequivalent.length_eq, fun i hi hi' => ?_⟩
    have hgives' := hgives _ (hresults.subset (List.get_mem results' ⟨i, hi'⟩))
    have htie := hequivalent.get hi hi'
    unfold Tied
    rw [precedes_iff hword (hgives _ (List.get_mem results ⟨i, hi⟩)) hgives',
      precedes_iff hword hgives' (hgives _ (List.get_mem results ⟨i, hi⟩)), Bool.not_eq_true, Bool.not_eq_true]
    exact htie

/-- Of the identifiers that answer a query, those that a narrower one matches as well. -/
theorem Answered.of_narrower {query narrower : Bytes} {word word' : Word} (hword : Word.of env query = .ok word)
    (hword' : Word.of env narrower = .ok word') (hnarrows : word.Narrows word') {identifiers : Set Bytes}
    {answers again : List Bytes} (h : Answered env query identifiers answers)
    (hagain : Answered env narrower {text | text ∈ answers} again) : Answered env narrower identifiers again := by
  refine ⟨hagain.nodup, fun text => ?_, hagain.ordered⟩
  rw [hagain.mem, Set.mem_ofPred_eq, h.mem, and_assoc]
  apply and_congr_right
  intro _
  exact and_iff_right_of_imp (answers_of_narrower hword hword' hnarrows)

/-- The answers that are kept are the answers among the identifiers that are kept. -/
theorem Answered.filter {query : Bytes} {identifiers : Set Bytes} {answers : List Bytes}
    (h : Answered env query identifiers answers) (kept : Bytes → Bool) :
    Answered env query {text | text ∈ identifiers ∧ kept text = true} (answers.filter kept) := by
  refine ⟨h.nodup.filter kept, fun text => ?_, h.ordered.filter kept⟩
  rw [List.mem_filter, h.mem, Set.mem_ofPred_eq, and_right_comm]

/-- A query that asks for some of the answers returns as many, and could have been answered with others behind
them. -/
theorem answered_of_limited {db db' : IdentifierDatabase} (h : Built env db) {query filetype : Bytes}
    {maxCandidates : Nat} (hmax : 0 < maxCandidates) {best : List Bytes}
    (hrun : IdentifierCompleter.candidatesForQueryAndType env query filetype maxCandidates db = .ok best db') :
    ∃ rest, Answered env query (stored db filetype) (best ++ rest) ∧
      best.length = min maxCandidates (best ++ rest).length := by
  obtain ⟨results, hok, rfl⟩ := (IdentifierCompleter.candidatesForQueryAndType_ok env).mp hrun
  have hcomputed := computes_resultsForQueryAndType env db.1 query filetype maxCandidates db ⟨rfl, h.2⟩
  rw [hok] at hcomputed
  have hresults := hcomputed.1
  cases hl : db.1.lookup filetype with
  | none =>
    rw [hl] at hresults
    obtain rfl := Except.ok.inj hresults
    exact ⟨[], ⟨List.nodup_nil, by simp [stored, candidateSet, hl], List.Pairwise.nil⟩, by simp⟩
  | some paths =>
    simp only [hl] at hresults
    cases hword : Word.of env query with
    | error failure => simp [hword, Except.map] at hresults
    | ok word =>
      rw [hword] at hresults
      obtain rfl := Except.ok.inj hresults
      obtain ⟨hnodup, hmem⟩ := mem_matchingResults h.1 hl word
      have hsortable := sortable_matchingResults h.1 hl word
      have hsmallest := smallest_partialSort env.std hsortable maxCandidates
      obtain ⟨rest, hperm, hsorted⟩ := hsmallest.exists_sorted hsortable
      refine ⟨rest.map Result.text, ?_, ?_⟩
      · rw [← List.map_append]
        apply answered_of_sorted hword (hperm.nodup_iff.mpr hnodup) hsorted
        intro result
        rw [hperm.mem_iff, hmem]
      · rw [← List.map_append, List.length_map, List.length_map, hperm.length_eq, hsmallest.length]
        split <;> omega

/-- Answers that are limited are the first of all answers, but for ties. -/
theorem limited_answers_best (env : Environment) {db db' : IdentifierDatabase} (h : Reachable env db)
    (h' : Reachable env db') {query filetype : Bytes} (hstored : stored db' filetype = stored db filetype)
    {maxCandidates : Nat} (hmax : 0 < maxCandidates) {best answers : List Bytes} {after after' : IdentifierDatabase}
    (hrun : IdentifierCompleter.candidatesForQueryAndType env query filetype maxCandidates db = .ok best after)
    (hrun' : IdentifierCompleter.candidatesForQueryAndType env query filetype 0 db' = .ok answers after') :
    best.length = min maxCandidates answers.length ∧
      List.Forall₂ (Tied env query) best (answers.take maxCandidates) ∧
      ∀ text ∈ answers, text ∉ best → ∀ text' ∈ best, ¬ Precedes env query text text' := by
  obtain ⟨rest, hanswered, hlength⟩ := answered_of_limited h.built hmax hrun
  have hall := answered_of_ok h'.built hrun'
  rw [hstored] at hall
  obtain ⟨hperm, htied⟩ := hanswered.tied hall
  rw [hperm.length_eq] at hlength
  have htake : List.Forall₂ (Tied env query) best (answers.take best.length) := by
    have := List.forall₂_take best.length htied
    rwa [List.take_left] at this
  refine ⟨hlength, ?_, ?_⟩
  · rwa [hlength, ← List.take_eq_take_min] at htake
  · intro text htext hnot text' htext'
    have hrest : text ∈ rest := (List.mem_append.mp (hperm.symm.subset htext)).resolve_left hnot
    exact (List.pairwise_append.mp hanswered.ordered).2.2 text' htext' text hrest

/-- A database that holds two identifiers of letters. -/
def lettersDatabase : IdentifierDatabase :=
  stateAfter (Operation.perform letterEnvironment (.recreateIdentifiers [ascii "Aa", ascii "a"] (ascii "cpp") [])) .empty

theorem lettersDatabase_reachable : Reachable letterEnvironment lettersDatabase := .perform .empty _

theorem limited_answers_best_letters :
    ∃ after after', IdentifierCompleter.candidatesForQueryAndType letterEnvironment (ascii "a") (ascii "cpp") 1
        lettersDatabase = .ok [ascii "a"] after ∧
      IdentifierCompleter.candidatesForQueryAndType letterEnvironment (ascii "a") (ascii "cpp") 0
        lettersDatabase = .ok [ascii "a", ascii "Aa"] after' ∧
      ¬ Precedes letterEnvironment (ascii "a") (ascii "Aa") (ascii "a") := by
  obtain ⟨after, hrun⟩ := exists_run_of_outcome (a := [ascii "a"])
    (m := IdentifierCompleter.candidatesForQueryAndType letterEnvironment (ascii "a") (ascii "cpp") 1)
    (s := lettersDatabase) (by decide +kernel)
  obtain ⟨after', hrun'⟩ := exists_run_of_outcome (a := [ascii "a", ascii "Aa"])
    (m := IdentifierCompleter.candidatesForQueryAndType letterEnvironment (ascii "a") (ascii "cpp") 0)
    (s := lettersDatabase) (by decide +kernel)
  have hbest := limited_answers_best letterEnvironment lettersDatabase_reachable lettersDatabase_reachable rfl
    (by decide) hrun hrun'
  exact ⟨after, after', hrun, hrun', hbest.2.2 (ascii "Aa") (by simp) (by decide) (ascii "a") (by simp)⟩

end IdentifierDatabase
end Ycmd.Core
