import Ycmd.Core.ByteFilter
import Ycmd.Core.IdentifierRuns
import Ycmd.Lib.Utf8
import Ycmd.Requests

/-! The two places that test the bytes of a query before they match: the query of the identifier
database and `handle_filter_and_sort_candidates`, each against itself without the test. -/
namespace Ycmd
open Lib Ycmd.Core

/-- A result with what it is the result for. -/
structure ResultAnd (T : Type) where
  extraObject : T
  result : Core.Result

def ResultAnd.less {T : Type} (resultAnd other : ResultAnd T) : Bool := resultAnd.result.less other.result

structure FilterAndSortCandidatesRequest where
  candidates : List Json
  sortProperty : Option String
  query : String

/-- `c[ sort_property ]` as a string. An unset key equals none of the members'; where none is found the
end iterator is read. -/
def sortString (sortProperty : Option String) : Json → Except Interrupt Bytes
  | .obj members => match sortProperty.bind (fun key => members.lookup key) with
    | some v => match (fromJson v : Decode String) with
      | .ok s => .ok (utf8 s.toList)
      | .error _ => .error .thrown
    | none => .error .undefined
  | _ => .error .thrown

def matchingObjects (query : Word) (candidates : List Candidate) : List (ResultAnd Nat) :=
  candidates.zipIdx.filterMap (fun c =>
    if c.1.isEmpty || !c.1.containsBytes query then none
    else (c.1.queryMatchResult query).map (fun result => ⟨c.2, result⟩))

/-- What the handler does once it has the strings to match, all candidates being asked for. -/
def filterAndSort (env : Core.Environment) (objects : Word → List Candidate → List (ResultAnd Nat))
    (req : FilterAndSortCandidatesRequest) (strings : List Bytes) : EStateM Failure CandidateCache (List Json) := do
  let repositoryCandidates ← getElements env strings
  let queryObject ← below (makeWord env (utf8 req.query.toList))
  let resultAndObjects := partialSort env.std ResultAnd.less (objects queryObject repositoryCandidates) 0
  return resultAndObjects.map (fun r => req.candidates.getD r.extraObject .null)

def handleFilterAndSortCandidates (env : Core.Environment) (req : FilterAndSortCandidatesRequest) :
    Except Interrupt (EStateM Failure CandidateCache (List Json)) :=
  (req.candidates.mapM (sortString req.sortProperty)).map (filterAndSort env matchingObjects req)

section Unfiltered
variable (env : Core.Environment)

/-- The objects matched without the test of the bytes. -/
def objectsWithoutFilter (query : Word) (candidates : List Candidate) : List (ResultAnd Nat) :=
  candidates.zipIdx.filterMap (fun c =>
    if c.1.isEmpty then none else (c.1.queryMatchResult query).map (fun result => ⟨c.2, result⟩))

def handleWithoutFilter (req : FilterAndSortCandidatesRequest) :
    Except Interrupt (EStateM Failure CandidateCache (List Json)) :=
  (req.candidates.mapM (sortString req.sortProperty)).map (filterAndSort env objectsWithoutFilter req)

/-- A candidate of the query's loop without the test of the bytes. -/
def considerWithoutFilter (query : Word) (acc : List Bytes × List Core.Result) (candidate : Candidate) :
    List Bytes × List Core.Result :=
  let (seen, results) := acc
  if candidate.text ∈ seen then (seen, results)
  else if candidate.isEmpty then (candidate.text :: seen, results)
  else match candidate.queryMatchResult query with
    | some result => (candidate.text :: seen, results ++ [result])
    | none => (candidate.text :: seen, results)

def matchingWithoutFilter (query : Word) (pathsToCandidates : FilepathToCandidates) : List Core.Result :=
  ((env.std.iterate pathsToCandidates.entries).foldl
    (fun acc file => file.2.foldl (considerWithoutFilter query) acc) ([], [])).2

/-- `ResultsForQueryAndType` without the test of the bytes. -/
def resultsWithoutFilter (query filetype : Bytes) (maxResults : Nat) : DatabaseM (List Core.Result) := fun db =>
  match db.1.lookup filetype with
  | none => .ok [] db
  | some pathsToCandidates =>
    let results : DatabaseM (List Core.Result) := do
      let queryObject ← below (below (makeWord env query))
      return partialSort env.std Result.less (matchingWithoutFilter env queryObject pathsToCandidates) maxResults
    results db

end Unfiltered

/-- A test made before a partial function drops nothing exactly when it holds where the function is defined. -/
theorem length_filterMap_test {α β : Type} (p : α → Bool) (f : α → Option β) (l : List α) :
    (l.filterMap (fun a => if p a then f a else none)).length ≤ (l.filterMap f).length ∧
    ((l.filterMap (fun a => if p a then f a else none)).length = (l.filterMap f).length ↔
      ∀ a ∈ l, (f a).isSome = true → p a = true) := by
  induction l with
  | nil => simp
  | cons a l ih =>
    rw [List.forall_mem_cons, ← ih.2]
    have hle := ih.1
    cases hf : f a with
    | none => simpa [hf] using hle
    | some b =>
      cases hp : p a with
      | true => simpa [hf, hp] using hle
      | false =>
        have hlost : ¬ ((some b).isSome = true → false = true) := by simp
        rw [List.filterMap_cons_none (by simp [hp]), List.filterMap_cons_some hf, List.length_cons]
        exact ⟨by omega, iff_of_false (by omega) (fun h => hlost h.1)⟩

/-- And then changes nothing. -/
theorem filterMap_test {α β : Type} {p : α → Bool} {f : α → Option β} {l : List α}
    (h : ∀ a ∈ l, (f a).isSome = true → p a = true) :
    l.filterMap (fun a => if p a then f a else none) = l.filterMap f := by
  apply List.filterMap_congr
  intro a ha
  cases hf : f a with
  | none => simp
  | some b => simp [h a ha (by simp [hf])]

/-- The match of a candidate without the test. -/
def matchWithoutFilter (query : Word) (candidate : Candidate) : Option Core.Result :=
  if candidate.isEmpty then none else candidate.queryMatchResult query

theorem matchFor_eq (query : Word) (candidate : Candidate) :
    candidate.matchFor query = if candidate.containsBytes query then matchWithoutFilter query candidate else none := by
  unfold Candidate.matchFor matchWithoutFilter
  cases candidate.containsBytes query <;> cases candidate.isEmpty <;> rfl

theorem matchingWithoutFilter_eq (env : Core.Environment) (query : Word) (paths : FilepathToCandidates) :
    matchingWithoutFilter env query paths =
      (firstByText [] ((env.std.iterate paths.entries).flatMap (fun file => file.2))).filterMap
        (matchWithoutFilter query) := by
  rw [matchingWithoutFilter, ← List.foldl_flatMap, foldl_eq_firstByText, List.nil_append]
  intro acc candidate
  simp only [considerWithoutFilter, matchWithoutFilter]
  by_cases hseen : candidate.text ∈ acc.1
  · simp [hseen]
  · cases hempty : candidate.isEmpty <;> cases hmatch : candidate.queryMatchResult query <;> simp [hseen]

variable {env : Core.Environment} {word : Word}

theorem ranked_of_matchWithoutFilter {candidate : Candidate} {result : Core.Result}
    (h : matchWithoutFilter word candidate = some result) : result.RankedFor word := by
  unfold matchWithoutFilter at h
  split at h
  · cases h
  · exact Candidate.queryMatchResult_ranked h

/-- A match of a candidate that is not empty passes the test unless the candidate hides it. -/
theorem matchWithoutFilter_imp_iff {text query : Bytes} {candidate : Candidate}
    (h : Candidate.of env text = .ok candidate) (hquery : Word.of env query = .ok word) :
    ((matchWithoutFilter word candidate).isSome = true → candidate.containsBytes word = true) ↔
      ¬ candidate.Hides word := by
  rw [← containsBytes_of_match_iff h hquery, matchWithoutFilter]
  split
  · rename_i hempty
    apply iff_of_true (by simp)
    intro hmatch
    by_contra hcontains
    obtain ⟨hsubsequence, queryCharacter, hmem, -⟩ :=
      not_not.mp (mt (containsBytes_of_match_iff h hquery).mpr (fun hkeeps => hcontains (hkeeps hmatch)))
    rw [Candidate.HasSubsequence, List.isEmpty_iff.mp hempty] at hsubsequence
    cases hq : word.characters with
    | nil => simp [hq] at hmem
    | cons c l =>
      rw [hq] at hsubsequence
      cases hsubsequence
  · rfl

/-- Where everything is sorted, a test has dropped something exactly when something is missing. -/
theorem length_partialSort_test {α β : Type} (std : StandardLibrary) {lt : β → β → Bool} {p : α → Bool}
    {f : α → Option β} {l : List α} (h : Sortable lt (l.filterMap f)) :
    (partialSort std lt (l.filterMap (fun a => if p a then f a else none)) 0).length =
        (partialSort std lt (l.filterMap f) 0).length ↔
      ∀ a ∈ l, (f a).isSome = true → p a = true := by
  have hsubset : l.filterMap (fun a => if p a then f a else none) ⊆ l.filterMap f := by
    intro b hb
    obtain ⟨a, ha, hfa⟩ := List.mem_filterMap.mp hb
    split at hfa
    · exact List.mem_filterMap.mpr ⟨a, ha, hfa⟩
    · cases hfa
  rw [(partialSort_zero_perm std (h.mono hsubset)).length_eq, (partialSort_zero_perm std h).length_eq]
  exact (length_filterMap_test p f l).2

theorem sortable_filterMap {candidates : List Candidate} :
    Sortable Core.Result.less (candidates.filterMap (matchWithoutFilter word)) := by
  have hranked : ∀ result ∈ candidates.filterMap (matchWithoutFilter word), result.RankedFor word := by
    intro result hresult
    obtain ⟨c, -, hc⟩ := List.mem_filterMap.mp hresult
    exact ranked_of_matchWithoutFilter hc
  exact Result.sortable hranked

section Query
variable {db : IdentifierDatabase} {filetype : Bytes} {paths : FilepathToCandidates}

/-- The query with and without the test, past the lookup and the query's word. -/
theorem results_run (h : IdentifierDatabase.Reachable env db) (hl : db.1.lookup filetype = some paths) {query : Bytes}
    (hquery : Word.of env query = .ok word) :
    ∃ db', ∀ maxResults,
      IdentifierDatabase.resultsForQueryAndType env query filetype maxResults db =
        .ok (partialSort env.std Result.less (IdentifierDatabase.matchingResults env word paths) maxResults) db' ∧
      resultsWithoutFilter env query filetype maxResults db =
        .ok (partialSort env.std Result.less (matchingWithoutFilter env word paths) maxResults) db' := by
  obtain ⟨db', hword, -⟩ := ((computes_makeWord query).below (J := Memo.Sound (Candidate.of env))).below
    (J := fun _ => True) |>.ok (s := db) ⟨trivial, h.built.2⟩ hquery
  refine ⟨db', fun maxResults => ⟨?_, ?_⟩⟩
  · simp only [IdentifierDatabase.resultsForQueryAndType, hl, bind, EStateM.bind, hword]
    rfl
  · simp only [resultsWithoutFilter, hl, bind, EStateM.bind, hword]
    rfl

end Query

/-- For every database the query returns what it would without the test exactly when no candidate hides a
match. -/
theorem results_unfiltered_iff {db : IdentifierDatabase} (h : IdentifierDatabase.Reachable env db)
    {query : Bytes} (filetype : Bytes) (hquery : Word.of env query = .ok word) :
    (∀ maxResults, IdentifierDatabase.resultsForQueryAndType env query filetype maxResults db =
        resultsWithoutFilter env query filetype maxResults db) ↔
      ∀ filepath, ∀ candidate ∈ IdentifierDatabase.candidateSet db.1 filetype filepath,
        ¬ candidate.Hides word := by
  cases hl : db.1.lookup filetype with
  | none => simp [IdentifierDatabase.resultsForQueryAndType, resultsWithoutFilter, hl,
      IdentifierDatabase.candidateSet]
  | some paths =>
    have hstored := IdentifierDatabase.mem_firstByText_iff h.built.1 hl
    have hkeeps {filepath : Bytes} {candidate : Candidate}
        (hc : candidate ∈ IdentifierDatabase.candidateSet db.1 filetype filepath) :=
      matchWithoutFilter_imp_iff (h.built.1 filetype filepath candidate hc).1 hquery
    obtain ⟨db', hruns⟩ := results_run h hl hquery
    simp only [fun maxResults => (hruns maxResults).1, fun maxResults => (hruns maxResults).2,
      EStateM.Result.ok.injEq, and_true, IdentifierDatabase.matchingResults_eq, matchFor_eq, matchingWithoutFilter_eq]
    constructor
    · intro hsame filepath candidate hcandidate
      have hall := (length_partialSort_test env.std sortable_filterMap).mp (congrArg List.length (hsame 0))
      exact (hkeeps hcandidate).mp (hall candidate ((hstored candidate).mpr ⟨filepath, hcandidate⟩))
    · intro hnone maxResults
      rw [filterMap_test]
      intro c hc
      obtain ⟨filepath, hcandidate⟩ := (hstored c).mp hc
      exact (hkeeps hcandidate).mpr (hnone filepath c hcandidate)

theorem ResultAnd.sortable {T : Type} {results : List (ResultAnd T)}
    (h : ∀ r ∈ results, r.result.RankedFor word) : Sortable less results :=
  sortable_of_key (fun r => r.result.key word) (fun a ha b hb => Result.less_iff_key (h a ha) (h b hb))

theorem matchingObjects_eq (query : Word) (candidates : List Candidate) :
    matchingObjects query candidates = candidates.zipIdx.filterMap (fun c =>
      if c.1.containsBytes query then (matchWithoutFilter query c.1).map (fun result => ⟨c.2, result⟩) else none) := by
  apply List.filterMap_congr
  intro c _
  unfold matchWithoutFilter
  cases c.1.containsBytes query <;> cases c.1.isEmpty <;> simp

theorem objectsWithoutFilter_eq (query : Word) (candidates : List Candidate) :
    objectsWithoutFilter query candidates = candidates.zipIdx.filterMap (fun c =>
      (matchWithoutFilter query c.1).map (fun result => ⟨c.2, result⟩)) := by
  apply List.filterMap_congr
  intro c _
  unfold matchWithoutFilter
  cases c.1.isEmpty <;> simp

theorem sortable_objects {candidates : List Candidate} :
    Sortable ResultAnd.less (candidates.zipIdx.filterMap (fun c =>
      (matchWithoutFilter word c.1).map (fun result => (⟨c.2, result⟩ : ResultAnd Nat)))) := by
  have hranked : ∀ r ∈ candidates.zipIdx.filterMap (fun c =>
      (matchWithoutFilter word c.1).map (fun result => (⟨c.2, result⟩ : ResultAnd Nat))),
      r.result.RankedFor word := by
    intro r hr
    obtain ⟨c, -, hc⟩ := List.mem_filterMap.mp hr
    obtain ⟨result, hresult, rfl⟩ := Option.map_eq_some_iff.mp hc
    exact ranked_of_matchWithoutFilter hresult
  exact ResultAnd.sortable hranked

theorem forall_mem_zipIdx {α : Type} {l : List α} (p : α → Prop) : (∀ c ∈ l.zipIdx, p c.1) ↔ ∀ a ∈ l, p a := by
  constructor
  · intro h a ha
    obtain ⟨i, hi, rfl⟩ := List.getElem_of_mem ha
    exact h (l[i], i) (List.mem_zipIdx_iff_getElem?.mpr (List.getElem?_eq_getElem hi))
  · intro h c hc
    exact h c.1 (List.mem_of_getElem? (List.mem_zipIdx_iff_getElem?.mp hc))

/-- For every request the handler returns what it would without the test exactly when none of its candidates
hides a match. -/
theorem filterAndSort_unfiltered_iff {caches : CandidateCache} (hs : CandidatesSound env caches)
    (req : FilterAndSortCandidatesRequest) {strings : List Bytes} {candidates : List Candidate}
    (hcandidates : (strings.map shorten).mapM (Candidate.of env) = .ok candidates)
    (hquery : Word.of env (utf8 req.query.toList) = .ok word) :
    filterAndSort env matchingObjects req strings caches = filterAndSort env objectsWithoutFilter req strings caches ↔
      ∀ candidate ∈ candidates, ¬ candidate.Hides word := by
  obtain ⟨caches', helements, hs'⟩ := (computes_getElements strings).ok hs hcandidates
  obtain ⟨caches'', hword, -⟩ :=
    ((computes_makeWord (utf8 req.query.toList)).below (J := Memo.Sound (Candidate.of env))).ok hs' hquery
  have hrun (objects : Word → List Candidate → List (ResultAnd Nat)) :
      filterAndSort env objects req strings caches =
        .ok ((partialSort env.std ResultAnd.less (objects word candidates) 0).map
          (fun r => req.candidates.getD r.extraObject .null)) caches'' := by
    simp only [filterAndSort, bind, EStateM.bind, helements, hword]
    rfl
  have hbuilt := (IdentifierDatabase.candidates_built (mapM_ok_iff.mp hcandidates)).1
  have hindexed : (∀ c ∈ candidates.zipIdx, ((matchWithoutFilter word c.1).map
        (fun result => (⟨c.2, result⟩ : ResultAnd Nat))).isSome = true → c.1.containsBytes word = true) ↔
      ∀ candidate ∈ candidates, ¬ candidate.Hides word := by
    simp only [Option.isSome_map]
    apply (forall_mem_zipIdx (fun c => (matchWithoutFilter word c).isSome = true → c.containsBytes word = true)).trans
    exact forall₂_congr (fun c hc => matchWithoutFilter_imp_iff (hbuilt c hc) hquery)
  rw [hrun, hrun, ← hindexed, matchingObjects_eq, objectsWithoutFilter_eq]
  constructor
  · intro hsame
    have hlength := congrArg List.length (EStateM.Result.ok.inj hsame).1
    rw [List.length_map, List.length_map] at hlength
    exact (length_partialSort_test env.std sortable_objects).mp hlength
  · intro h
    rw [filterMap_test h]

/-- The test hides no match, and its two callers return what they would without it, exactly as long as no
candidate has lost a byte of the query to case folding. Such a byte is one that a combining mark of the candidate
folds to. -/
theorem filter_hides_nothing_iff (env : Core.Environment) (query : String) (word : Word)
    (hquery : Word.of env (utf8 query.toList) = .ok word) :
    (∀ text candidate, Candidate.of env text = .ok candidate →
      ((candidate.isEmpty = false → (candidate.queryMatchResult word).isSome = true →
        candidate.containsBytes word = true) ↔ ¬ candidate.Hides word)) ∧
    (∀ db, IdentifierDatabase.Reachable env db → ∀ filetype,
      ((∀ maxResults, IdentifierDatabase.resultsForQueryAndType env (utf8 query.toList) filetype maxResults db =
          resultsWithoutFilter env (utf8 query.toList) filetype maxResults db) ↔
        ∀ filepath, ∀ candidate ∈ IdentifierDatabase.candidateSet db.1 filetype filepath,
          ¬ candidate.Hides word)) ∧
    (∀ db, IdentifierDatabase.Reachable env db → ∀ objects sortProperty strings candidates,
      objects.mapM (sortString sortProperty) = .ok strings →
      (strings.map shorten).mapM (Candidate.of env) = .ok candidates →
      ((handleFilterAndSortCandidates env ⟨objects, sortProperty, query⟩).map (fun handler => handler db.2) =
          (handleWithoutFilter env ⟨objects, sortProperty, query⟩).map (fun handler => handler db.2) ↔
        ∀ candidate ∈ candidates, ¬ candidate.Hides word)) ∧
    ∀ text candidate, Candidate.of env text = .ok candidate → candidate.Hides word →
      ∃ queryCharacter ∈ word.characters, ∃ character ∈ candidate.characters,
        queryCharacter.equalsIgnoreCase character = true ∧
        ∃ byte ∈ queryCharacter.base, character.InMark env byte ∧
          ∀ other ∈ candidate.characters, byte ∉ other.base := by
  refine ⟨fun text candidate h => ?_, fun db hdb filetype => results_unfiltered_iff hdb filetype hquery, ?_,
    fun text candidate h => Candidate.Hides.exists_inMark h hquery⟩
  · rw [← matchWithoutFilter_imp_iff h hquery, matchWithoutFilter]
    cases candidate.isEmpty <;> simp
  · intro db hdb objects sortProperty strings candidates hstrings hcandidates
    rw [← filterAndSort_unfiltered_iff hdb.built.2 ⟨objects, sortProperty, query⟩ hcandidates hquery]
    simp only [handleFilterAndSortCandidates, handleWithoutFilter, hstrings, Except.map, Except.ok.injEq]

theorem filter_hides_nothing_iff_letter :
    ∃ word candidate, Word.of IdentifierDatabase.letterEnvironment (utf8 "a".toList) = .ok word ∧
      Candidate.of IdentifierDatabase.letterEnvironment (ascii "A") = .ok candidate ∧
      ((candidate.isEmpty = false → (candidate.queryMatchResult word).isSome = true →
        candidate.containsBytes word = true) ↔ ¬ candidate.Hides word) := by
  obtain ⟨word, hword⟩ :=
    Word.exists_of IdentifierDatabase.letterEnvironment (by decide +kernel : Decodable (utf8 "a".toList))
  obtain ⟨candidateWord, hcandidate⟩ :=
    Word.exists_of IdentifierDatabase.letterEnvironment (by decide +kernel : Decodable (ascii "A"))
  have hof : Candidate.of IdentifierDatabase.letterEnvironment (ascii "A") = .ok (.build candidateWord) := by
    rw [Candidate.of, hcandidate]
    rfl
  exact ⟨word, _, hword, hof,
    (filter_hides_nothing_iff IdentifierDatabase.letterEnvironment "a" word hword).1 _ _ hof⟩

/-- The combining iota below and the letter it folds to, as the table has them. -/
def iotaCodePoints : List RawCodePoint := [
  ⟨[0xcd, 0x85], [0xcd, 0x85], [0xce, 0xb9], [0xce, 0x99], false, false, false, 4, 240⟩,
  ⟨[0xce, 0xb9], [0xce, 0xb9], [0xce, 0xb9], [0xce, 0x99], true, false, false, 0, 0⟩]

theorem iotaCodePoints_normal_closed :
    ∀ entry ∈ iotaCodePoints, ∃ pieces, splitCodePoints entry.normal = .ok pieces ∧
      ∀ piece ∈ pieces, (findCodePoint iotaCodePoints piece).normal = piece := by
  simp only [iotaCodePoints, List.mem_cons, List.not_mem_nil, or_false, forall_eq_or_imp, forall_eq]
  exact ⟨⟨[[0xcd, 0x85]], by decide +kernel, by decide +kernel⟩,
    ⟨[[0xce, 0xb9]], by decide +kernel, by decide +kernel⟩⟩

def iotaEnvironment : Core.Environment where
  table := ⟨iotaCodePoints, iotaCodePoints_normal_closed⟩
  std := .insertion

/-- The letter matches a lone combining iota, whose base is empty. -/
theorem combining_iota_hidden :
    ∃ candidate word, Candidate.of iotaEnvironment [0xcd, 0x85] = .ok candidate ∧
      Word.of iotaEnvironment (utf8 "ι".toList) = .ok word ∧ candidate.isEmpty = false ∧
      (candidate.queryMatchResult word).isSome = true ∧ candidate.containsBytes word = false := by
  have hmatches : (do
      let candidate ← Candidate.of iotaEnvironment [0xcd, 0x85]
      let word ← Word.of iotaEnvironment (utf8 "ι".toList)
      return !candidate.isEmpty && (candidate.queryMatchResult word).isSome && !candidate.containsBytes word) =
        Except.ok true := by
    decide +kernel
  obtain ⟨candidate, hcandidate, hmatches⟩ := bind_ok hmatches
  obtain ⟨word, hword, hmatches⟩ := bind_ok hmatches
  have htests := Except.ok.inj hmatches
  simp only [Bool.and_eq_true, Bool.not_eq_true'] at htests
  exact ⟨candidate, word, hcandidate, hword, htests.1.1, htests.1.2, htests.2⟩

end Ycmd
