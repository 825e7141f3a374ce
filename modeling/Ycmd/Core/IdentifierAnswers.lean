import Ycmd.Core.IdentifierSets

/-! What a query is answered from the sets of identifiers, each answer once. -/
namespace Ycmd.Core
open Lib

/-- A candidate that passes the tests a query makes. -/
def Candidate.Matches (candidate : Candidate) (query : Word) : Prop :=
  candidate.isEmpty = false ∧ candidate.containsBytes query = true ∧
    (candidate.queryMatchResult query).isSome = true

/-- What a query's loop gets from a candidate. -/
def Candidate.matchFor (candidate : Candidate) (query : Word) : Option Result :=
  if candidate.isEmpty || !candidate.containsBytes query then none else candidate.queryMatchResult query

theorem Candidate.queryMatchResult_of_matchFor {candidate : Candidate} {query : Word} {result : Result}
    (h : candidate.matchFor query = some result) : candidate.queryMatchResult query = some result := by
  unfold Candidate.matchFor at h
  split at h
  · cases h
  · exact h

/-- The candidates whose text is not seen before. -/
def firstByText (seen : List Bytes) : List Candidate → List Candidate
  | [] => []
  | candidate :: candidates =>
    if candidate.text ∈ seen then firstByText seen candidates
    else candidate :: firstByText (candidate.text :: seen) candidates

theorem mem_of_mem_firstByText {seen : List Bytes} {candidates : List Candidate} {candidate : Candidate}
    (h : candidate ∈ firstByText seen candidates) : candidate ∈ candidates := by
  induction candidates generalizing seen with
  | nil => simp [firstByText] at h
  | cons c candidates ih =>
    rw [firstByText] at h
    split at h
    · exact List.mem_cons_of_mem _ (ih h)
    · rcases List.mem_cons.mp h with rfl | h
      · exact List.mem_cons_self
      · exact List.mem_cons_of_mem _ (ih h)

theorem exists_mem_firstByText (seen : List Bytes) {candidates : List Candidate} {candidate : Candidate}
    (h : candidate ∈ candidates) :
    candidate.text ∈ seen ∨ ∃ c ∈ firstByText seen candidates, c.text = candidate.text := by
  induction candidates generalizing seen with
  | nil => simp at h
  | cons c candidates ih =>
    rw [firstByText]
    rcases List.mem_cons.mp h with rfl | h
    · split
      · exact .inl ‹_›
      · exact .inr ⟨_, List.mem_cons_self, rfl⟩
    · split
      · exact ih seen h
      · rcases ih (c.text :: seen) h with hseen | ⟨c', hc', htext⟩
        · rcases List.mem_cons.mp hseen with heq | hseen
          · exact .inr ⟨c, List.mem_cons_self, heq.symm⟩
          · exact .inl hseen
        · exact .inr ⟨c', List.mem_cons_of_mem _ hc', htext⟩

/-- A loop that skips texts it has seen goes over the first candidates of each text. -/
theorem foldl_eq_firstByText {step : List Bytes × List Result → Candidate → List Bytes × List Result}
    {f : Candidate → Option Result}
    (hstep : ∀ acc candidate, step acc candidate =
      if candidate.text ∈ acc.1 then acc else (candidate.text :: acc.1, acc.2 ++ (f candidate).toList))
    (candidates : List Candidate) (acc : List Bytes × List Result) :
    (candidates.foldl step acc).2 = acc.2 ++ (firstByText acc.1 candidates).filterMap f := by
  induction candidates generalizing acc with
  | nil => simp [firstByText]
  | cons candidate candidates ih =>
    rw [List.foldl_cons, ih, hstep, firstByText]
    split
    · rfl
    · cases hf : f candidate <;> simp [hf]

namespace IdentifierDatabase

theorem matchingResults_eq (env : Environment) (query : Word) (paths : FilepathToCandidates) :
    matchingResults env query paths =
      (firstByText [] ((env.std.iterate paths.entries).flatMap (fun file => file.2))).filterMap
        (fun c => c.matchFor query) := by
  rw [matchingResults, ← List.foldl_flatMap, foldl_eq_firstByText, List.nil_append]
  intro acc candidate
  simp only [consider, Candidate.matchFor]
  by_cases hseen : candidate.text ∈ acc.1
  · simp [hseen]
  · cases candidate.containsBytes query <;> cases candidate.isEmpty <;>
      cases candidate.queryMatchResult query <;> simp [hseen]

/-- Where the loop stands after some candidates: their texts are the ones seen, and the results
are the matching ones, each text once. -/
structure Considered (query : Word) (candidates : List Candidate) (acc : List Bytes × List Result) : Prop where
  seen : ∀ text, text ∈ acc.1 ↔ ∃ candidate ∈ candidates, candidate.text = text
  nodup : (acc.2.map Result.text).Nodup
  texts : ∀ text, text ∈ acc.2.map Result.text ↔
    ∃ candidate ∈ candidates, candidate.text = text ∧ candidate.Matches query
  ranked : ∀ result ∈ acc.2, result.RankedFor query

variable {query : Word} {candidates : List Candidate} {acc : List Bytes × List Result}

theorem considered_nil (query : Word) : Considered query [] ([], []) where
  seen := by simp
  nodup := List.nodup_nil
  texts := by simp
  ranked := by simp

private theorem exists_append_singleton {P : Candidate → Prop} (candidate : Candidate) :
    (∃ c ∈ candidates ++ [candidate], P c) ↔ (∃ c ∈ candidates, P c) ∨ P candidate := by
  simp only [List.mem_append, List.mem_singleton, or_and_right, exists_or, exists_eq_left]

private theorem Considered.skip (h : Considered query candidates acc) {candidate : Candidate}
    (hno : ¬ candidate.Matches query) :
    Considered query (candidates ++ [candidate]) (candidate.text :: acc.1, acc.2) where
  seen text := by rw [exists_append_singleton, List.mem_cons, h.seen, or_comm, eq_comm]
  nodup := h.nodup
  texts text := by simp only [exists_append_singleton, h.texts, hno, and_false, or_false]
  ranked := h.ranked

private theorem Considered.again (h : Considered query candidates acc) {candidate : Candidate}
    (hc : candidate ∈ candidates) : Considered query (candidates ++ [candidate]) acc := by
  have hadd (P : Candidate → Prop) : (∃ c ∈ candidates ++ [candidate], P c) ↔ ∃ c ∈ candidates, P c := by
    rw [exists_append_singleton, or_iff_left_of_imp (fun hp => ⟨candidate, hc, hp⟩)]
  exact ⟨fun text => (h.seen text).trans (hadd _).symm, h.nodup,
    fun text => (h.texts text).trans (hadd _).symm, h.ranked⟩

private theorem Considered.add (h : Considered query candidates acc) {candidate : Candidate} {result : Result}
    (hfresh : candidate.text ∉ acc.1) (hmatch : candidate.Matches query)
    (hresult : candidate.queryMatchResult query = some result) :
    Considered query (candidates ++ [candidate]) (candidate.text :: acc.1, acc.2 ++ [result]) where
  seen text := by rw [exists_append_singleton, List.mem_cons, h.seen, or_comm, eq_comm]
  nodup := by
    rw [List.map_append, List.map_singleton, Candidate.queryMatchResult_text hresult, ← List.concat_eq_append,
      List.nodup_concat]
    refine ⟨fun hmem => hfresh ?_, h.nodup⟩
    obtain ⟨c, hc, htext, -⟩ := (h.texts _).mp hmem
    exact (h.seen _).mpr ⟨c, hc, htext⟩
  texts text := by
    rw [List.map_append, List.mem_append, h.texts, exists_append_singleton, List.map_singleton, List.mem_singleton,
      Candidate.queryMatchResult_text hresult, eq_comm]
    simp only [hmatch, and_true]
  ranked r hr := by
    rcases List.mem_append.mp hr with hr | hr
    · exact h.ranked r hr
    · rw [List.mem_singleton.mp hr]
      exact Candidate.queryMatchResult_ranked hresult

/-- One round of the loop. Candidates of equal text are the same candidate. -/
theorem Considered.step (h : Considered query candidates acc) (candidate : Candidate)
    (hsame : ∀ c ∈ candidates, c.text = candidate.text → c = candidate) :
    Considered query (candidates ++ [candidate]) (consider query acc candidate) := by
  unfold consider
  by_cases hseen : candidate.text ∈ acc.1
  · simp only [hseen, if_true]
    obtain ⟨c, hc, htext⟩ := (h.seen _).mp hseen
    obtain rfl := hsame c hc htext
    exact h.again hc
  · simp only [hseen, if_false]
    split
    · rename_i hfilter
      apply h.skip
      intro hm
      simp [hm.1, hm.2.1] at hfilter
    · rename_i hfilter
      simp only [Bool.or_eq_true, Bool.not_eq_true', not_or, Bool.not_eq_true, Bool.not_eq_false] at hfilter
      split
      · rename_i result hresult
        exact h.add hseen ⟨hfilter.1, hfilter.2, by simp [hresult]⟩ hresult
      · rename_i hresult
        apply h.skip
        intro hm
        simp [Candidate.Matches, hresult] at hm

theorem Considered.foldl (h : Considered query candidates acc) (more : List Candidate)
    (hsame : ∀ c ∈ candidates ++ more, ∀ c' ∈ candidates ++ more, c.text = c'.text → c = c') :
    Considered query (candidates ++ more) (more.foldl (consider query) acc) := by
  induction more generalizing candidates acc with
  | nil => simpa using h
  | cons candidate more ih =>
    have := h.step candidate (fun c hc => hsame c (by simp [hc]) candidate (by simp))
    have := ih this (by simpa using hsame)
    simpa using this

variable {env : Environment}

/-- The results of a query, before they are sorted. -/
theorem matchingResults_considered (env : Environment) (query : Word) (paths : FilepathToCandidates)
    (hbuilt : ∀ path candidates, paths.lookup path = some candidates →
      ∀ candidate ∈ candidates, Candidate.of env candidate.text = .ok candidate) :
    ∃ seen, Considered query ((env.std.iterate paths.entries).flatMap (fun file => file.2))
      (seen, matchingResults env query paths) := by
  have hsame : ∀ c ∈ (env.std.iterate paths.entries).flatMap (fun file => file.2),
      Candidate.of env c.text = .ok c := by
    intro c hc
    obtain ⟨file, hfile, hc⟩ := List.mem_flatMap.mp hc
    exact hbuilt file.1 file.2 ((mem_iterate_entries _ _ _).mp hfile) c hc
  have := (considered_nil query).foldl ((env.std.iterate paths.entries).flatMap (fun file => file.2))
    (fun c hc c' hc' h => by
      have h1 := hsame c (by simpa using hc)
      have h2 := hsame c' (by simpa using hc')
      rw [h, h2] at h1
      exact (Except.ok.inj h1).symm)
  rw [List.nil_append, List.foldl_flatMap] at this
  exact ⟨_, this⟩

theorem mem_flatMap_files (env : Environment) {map : FiletypeCandidateMap} {filetype : Bytes} {paths : FilepathToCandidates}
    (hl : map.lookup filetype = some paths) (candidate : Candidate) :
    candidate ∈ (env.std.iterate paths.entries).flatMap (fun file => file.2) ↔
      ∃ filepath, candidate ∈ candidateSet map filetype filepath := by
  simp only [candidateSet, hl, Option.getD_some, List.mem_flatMap]
  constructor
  · rintro ⟨file, hfile, hc⟩
    exact ⟨file.1, by rwa [(mem_iterate_entries _ _ _).mp hfile]⟩
  · rintro ⟨filepath, hc⟩
    cases hp : paths.lookup filepath with
    | none => simp [hp] at hc
    | some candidates => exact ⟨⟨filepath, candidates⟩, (mem_iterate_entries _ _ _).mpr hp, by simpa [hp] using hc⟩

/-- The identifiers of a filetype that are neither empty nor long are the candidates' texts. -/
theorem Refines.exists_candidate {sets : IdentifierSets} {db : IdentifierDatabase} (h : Refines env sets db)
    (filetype text : Bytes) (P : Candidate → Prop) :
    (∃ filepath, ∃ candidate ∈ candidateSet db.1 filetype filepath,
        candidate.text = text ∧ candidate.isEmpty = false ∧ P candidate) ↔
      text ≠ [] ∧ text.length ≤ 80 ∧ (∃ filepath, text ∈ sets filetype filepath) ∧
        ∃ candidate, Candidate.of env text = .ok candidate ∧ P candidate := by
  constructor
  · rintro ⟨filepath, candidate, hc, rfl, hempty, hp⟩
    have hbuilt := h.built filetype filepath candidate hc
    have hne : candidate.text ≠ [] := fun he => by
      rw [(Candidate.of_ok hbuilt).2.mpr he] at hempty
      cases hempty
    obtain ⟨identifier, hi, hshort⟩ := (h.texts filetype filepath candidate.text).mp ⟨candidate, hc, rfl⟩
    unfold shorten at hshort
    split at hshort
    · exact absurd hshort.symm hne
    · rename_i hle
      rw [← hshort]
      rw [← hshort] at hbuilt hne
      exact ⟨hne, by omega, ⟨filepath, hi⟩, candidate, hbuilt, hp⟩
  · rintro ⟨hne, hle, ⟨filepath, hi⟩, candidate, hof, hp⟩
    have hshort : shorten text = text := if_neg (by omega)
    obtain ⟨candidate', hc, htext⟩ := (h.texts filetype filepath text).mpr ⟨text, hi, hshort⟩
    have hbuilt := h.built filetype filepath candidate' hc
    rw [htext, hof] at hbuilt
    obtain rfl := Except.ok.inj hbuilt
    refine ⟨filepath, candidate, hc, htext, ?_, hp⟩
    rw [← Bool.not_eq_true, (Candidate.of_ok hof).2]
    exact hne

/-- What a database of some sets answers. -/
theorem Refines.answers {sets : IdentifierSets} {db : IdentifierDatabase} (h : Refines env sets db)
    {query filetype : Bytes} {results : List Result} {db' : IdentifierDatabase}
    (hrun : resultsForQueryAndType env query filetype 0 db = .ok results db') :
    (results.map Result.text).Nodup ∧
      ∀ text, text ∈ results.map Result.text ↔
        text ≠ [] ∧ text.length ≤ 80 ∧ (∃ filepath, text ∈ sets filetype filepath) ∧
          ∃ candidate, Candidate.of env text = .ok candidate ∧ ∃ word, Word.of env query = .ok word ∧
            candidate.containsBytes word = true ∧ (candidate.queryMatchResult word).isSome = true := by
  have hcomputed := computes_resultsForQueryAndType env db.1 query filetype 0 db ⟨rfl, h.sound⟩
  rw [hrun] at hcomputed
  have hresults := hcomputed.1
  simp only [← h.exists_candidate]
  cases hl : db.1.lookup filetype with
  | none =>
    rw [hl] at hresults
    obtain rfl := Except.ok.inj hresults
    simp [candidateSet, hl]
  | some paths =>
    simp only [hl] at hresults
    cases hw : Word.of env query with
    | error failure => simp [hw, Except.map] at hresults
    | ok word =>
      rw [hw] at hresults
      obtain rfl := Except.ok.inj hresults
      obtain ⟨seen, hconsidered⟩ := matchingResults_considered env word paths (by
        intro path candidates hp
        have := h.built filetype path
        simpa only [candidateSet, hl, Option.getD_some, hp] using this)
      have hperm := (partialSort_zero_perm env.std (Result.sortable hconsidered.ranked)).map Result.text
      refine ⟨hperm.nodup_iff.mpr hconsidered.nodup, fun text => ?_⟩
      rw [hperm.mem_iff, hconsidered.texts]
      simp only [mem_flatMap_files env hl, Candidate.Matches, Except.ok.injEq, exists_eq_left']
      constructor
      · rintro ⟨candidate, ⟨filepath, hc⟩, htext, hempty, hrest⟩
        exact ⟨filepath, candidate, hc, htext, hempty, hrest⟩
      · rintro ⟨filepath, candidate, hc, htext, hempty, hrest⟩
        exact ⟨candidate, ⟨filepath, hc⟩, htext, hempty, hrest⟩

/-- A query that decodes is answered. -/
theorem Refines.returns {sets : IdentifierSets} {db : IdentifierDatabase} (h : Refines env sets db)
    {query : Bytes} (hquery : Decodable query) (filetype : Bytes) :
    ∃ results db', resultsForQueryAndType env query filetype 0 db = .ok results db' := by
  obtain ⟨word, hw⟩ := Word.exists_of env hquery
  have hcomputes := computes_resultsForQueryAndType env db.1 query filetype 0
  cases hl : db.1.lookup filetype with
  | none =>
    obtain ⟨db', hok, -⟩ := hcomputes.ok ⟨rfl, h.sound⟩ (by rw [hl])
    exact ⟨_, db', hok⟩
  | some paths =>
    obtain ⟨db', hok, -⟩ := hcomputes.ok ⟨rfl, h.sound⟩ (by rw [hl]; simp only [hw]; rfl)
    exact ⟨_, db', hok⟩

/-- The empty query is answered with all identifiers of the filetype that are neither empty nor long. -/
theorem Refines.answers_nil {sets : IdentifierSets} {db : IdentifierDatabase} (h : Refines env sets db)
    (filetype : Bytes) :
    ∃ results db', resultsForQueryAndType env [] filetype 0 db = .ok results db' ∧
      ∀ text, text ∈ results.map Result.text ↔
        text ≠ [] ∧ text.length ≤ 80 ∧ ∃ filepath, text ∈ sets filetype filepath := by
  obtain ⟨characters, hword, hnil⟩ := Word.of_split env splitCodePoints_nil
  obtain rfl := hnil.mpr rfl
  obtain ⟨results, db', hrun⟩ := h.returns ((Word.of_isOk env []).mp (by rw [hword]; rfl)) filetype
  refine ⟨results, db', hrun, ?_⟩
  intro text
  rw [(h.answers hrun).2 text]
  constructor
  · rintro ⟨hne, hle, hstored, -⟩
    exact ⟨hne, hle, hstored⟩
  · rintro ⟨hne, hle, filepath, hmem⟩
    obtain ⟨candidate, hcandidate, htext⟩ :=
      (h.texts filetype filepath text).mpr ⟨text, hmem, if_neg (by omega)⟩
    have hof := h.built filetype filepath candidate hcandidate
    rw [htext] at hof
    refine ⟨hne, hle, ⟨filepath, hmem⟩, candidate, hof, _, hword, ?_, ?_⟩
    · simp [Word.containsBytes, Word.build, Word.computeBytesPresent]
    · simp [Candidate.queryMatchResult, Word.build, Word.isEmpty]

/-- After any run, a query returns each matching identifier of the filetype once and nothing else. -/
theorem results_refine_sets (env : Environment) (ops : List Operation)
    (hdec : ∀ op ∈ ops, ∀ identifier ∈ op.identifiers, Decodable identifier) :
    ∃ db, Operation.run env ops .empty = .ok () db ∧ ∀ query filetype,
      (∀ results db', resultsForQueryAndType env query filetype 0 db = .ok results db' →
        (results.map Result.text).Nodup ∧
          ∀ text, text ∈ results.map Result.text ↔
            text ≠ [] ∧ text.length ≤ 80 ∧
              (∃ filepath, text ∈ ops.foldl Operation.apply (fun _ _ => ∅) filetype filepath) ∧
              ∃ candidate, Candidate.of env text = .ok candidate ∧ ∃ word, Word.of env query = .ok word ∧
                candidate.containsBytes word = true ∧ (candidate.queryMatchResult word).isSome = true) ∧
      (Decodable query → ∃ results db', resultsForQueryAndType env query filetype 0 db = .ok results db') := by
  obtain ⟨db, hrun, h⟩ := run_refines env hdec
  exact ⟨db, hrun, fun query filetype => ⟨fun results db' => h.answers, fun hquery => h.returns hquery filetype⟩⟩

/-- The letter A of the table, over a library that sorts by insertion. -/
def letterEnvironment : Environment where
  table.codePoints := [⟨ascii "A", ascii "A", ascii "a", ascii "a", true, false, true, 0, 0⟩,
    ⟨ascii "a", ascii "a", ascii "a", ascii "A", true, false, false, 0, 0⟩]
  table.normal_closed := by
    simp only [List.mem_cons, List.not_mem_nil, or_false, forall_eq_or_imp, forall_eq]
    exact ⟨⟨[ascii "A"], by decide +kernel, by decide +kernel⟩, ⟨[ascii "a"], by decide +kernel, by decide +kernel⟩⟩
  std := .insertion

/-- An identifier added twice is returned once, and one that was replaced is not returned. -/
theorem results_refine_sets_replaced :
    ∃ db results db', Operation.run letterEnvironment
        [.addSingleIdentifier (ascii "Ab") (ascii "cpp") (ascii "f"),
          .recreateIdentifiers [ascii "Ac", [], ascii "Ac"] (ascii "cpp") (ascii "f")] .empty = .ok () db ∧
      resultsForQueryAndType letterEnvironment (ascii "a") (ascii "cpp") 0 db = .ok results db' ∧
      (results.map Result.text).Nodup ∧ ascii "Ac" ∈ results.map Result.text ∧
      ascii "Ab" ∉ results.map Result.text := by
  have hmatches : (do
      let candidate ← Candidate.of letterEnvironment (ascii "Ac")
      let word ← Word.of letterEnvironment (ascii "a")
      return candidate.containsBytes word && (candidate.queryMatchResult word).isSome) = Except.ok true := by
    decide +kernel
  obtain ⟨candidate, hcandidate, hmatches⟩ := bind_ok hmatches
  obtain ⟨word, hword, hmatches⟩ := bind_ok hmatches
  obtain ⟨hbytes, hsubsequence⟩ := (Bool.and_eq_true _ _).mp (Except.ok.inj hmatches)
  obtain ⟨db, hrun, h⟩ := results_refine_sets letterEnvironment
    [.addSingleIdentifier (ascii "Ab") (ascii "cpp") (ascii "f"),
      .recreateIdentifiers [ascii "Ac", [], ascii "Ac"] (ascii "cpp") (ascii "f")] (by decide +kernel)
  obtain ⟨hsound, hreturns⟩ := h (ascii "a") (ascii "cpp")
  obtain ⟨results, db', hok⟩ := hreturns (by decide +kernel)
  obtain ⟨hnodup, htexts⟩ := hsound results db' hok
  refine ⟨db, results, db', hrun, hok, hnodup, (htexts _).mpr ⟨by decide, by decide, ⟨ascii "f", ?_⟩, ?_⟩, ?_⟩
  · simp [Operation.apply, IdentifierSets.replace]
  · exact ⟨candidate, hcandidate, word, hword, hbytes, hsubsequence⟩
  · rw [htexts]
    rintro ⟨-, -, ⟨filepath, hmem⟩, -⟩
    have hne : ascii "Ab" ≠ ascii "Ac" ∧ ascii "Ab" ≠ [] := by decide
    by_cases hfile : filepath = ascii "f"
    · simp [Operation.apply, IdentifierSets.replace, hfile, hne] at hmem
    · simp [Operation.apply, IdentifierSets.replace, hfile] at hmem

end IdentifierDatabase
end Ycmd.Core
