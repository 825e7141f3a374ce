import Ycmd.Core.IdentifierAnswers
import Ycmd.Core.IdentifierCompleter
import Ycmd.Core.IdentifierRuns

/-! Answers against the history of a database: the order of what was added, the files it was added
through, and what hash maps and sorting algorithms are free to choose. -/
namespace Ycmd.Core
open Lib

/-- The library orders the code points of a cluster alike, so that the same characters are built. -/
def Environment.SameCharacters (env : Environment) (std : StandardLibrary) : Prop :=
  std.sort codePointCompare = env.std.sort codePointCompare

theorem canonicalSort_congr {std std' : StandardLibrary} (h : std'.sort codePointCompare = std.sort codePointCompare)
    (codePoints : List CodePoint) : canonicalSort std' codePoints = canonicalSort std codePoints := by
  induction codePoints using canonicalSort.induct with
  | case1 => rw [canonicalSort, canonicalSort, if_pos rfl, if_pos rfl]
  | case2 codePoints hne start ih =>
    rw [canonicalSort, canonicalSort, if_neg hne, if_neg hne, h]
    exact congrArg (List.append _) ih

variable {env : Environment} {std : StandardLibrary}

theorem Character.of_congr (h : env.SameCharacters std) : Character.of ⟨env.table, std⟩ = Character.of env := by
  funext text
  simp only [Character.of, canonicalDecompositionOf, canonicalSort_congr h]
  rfl

theorem Word.of_congr (h : env.SameCharacters std) : Word.of ⟨env.table, std⟩ = Word.of env := by
  funext text
  simp only [Word.of, Character.of_congr h]

theorem Candidate.of_congr (h : env.SameCharacters std) : Candidate.of ⟨env.table, std⟩ = Candidate.of env := by
  funext text
  simp only [Candidate.of, Word.of_congr h]

namespace IdentifierDatabase

/-- The identifiers stored under a filetype. -/
def stored (db : IdentifierDatabase) (filetype : Bytes) : Set Bytes :=
  {text | ∃ filepath, ∃ candidate ∈ candidateSet db.1 filetype filepath, candidate.text = text}

/-- The result an identifier gives for a query. -/
def Gives (env : Environment) (query : Word) (text : Bytes) (result : Result) : Prop :=
  ∃ candidate, Candidate.of env text = .ok candidate ∧ candidate.matchFor query = some result

/-- An identifier that the query matches. -/
def Answers (env : Environment) (query text : Bytes) : Prop :=
  ∃ word, Word.of env query = .ok word ∧ ∃ result, Gives env word text result

/-- Of two identifiers that the query matches the first has the lesser result. -/
def Precedes (env : Environment) (query text text' : Bytes) : Prop :=
  ∃ word, Word.of env query = .ok word ∧ ∃ result result',
    Gives env word text result ∧ Gives env word text' result' ∧ result.less result' = true

theorem Gives.text_eq {query : Word} {text : Bytes} {result : Result} (h : Gives env query text result) :
    result.text = text := by
  obtain ⟨candidate, hof, hmatch⟩ := h
  rw [Candidate.queryMatchResult_text (Candidate.queryMatchResult_of_matchFor hmatch)]
  exact (Candidate.of_ok hof).1

theorem Gives.ranked {query : Word} {text : Bytes} {result : Result} (h : Gives env query text result) :
    result.RankedFor query := by
  obtain ⟨candidate, -, hmatch⟩ := h
  exact Candidate.queryMatchResult_ranked (Candidate.queryMatchResult_of_matchFor hmatch)

theorem Gives.functional {query : Word} {text : Bytes} {result result' : Result} (h : Gives env query text result)
    (h' : Gives env query text result') : result = result' := by
  obtain ⟨candidate, hof, hmatch⟩ := h
  obtain ⟨candidate', hof', hmatch'⟩ := h'
  obtain rfl := Except.ok.inj (hof.symm.trans hof')
  exact Option.some.inj (hmatch.symm.trans hmatch')

theorem precedes_iff {query text text' : Bytes} {word : Word} {result result' : Result}
    (hword : Word.of env query = .ok word) (h : Gives env word text result) (h' : Gives env word text' result') :
    Precedes env query text text' ↔ result.less result' = true := by
  constructor
  · rintro ⟨word', hword', r, r', hr, hr', hless⟩
    obtain rfl := Except.ok.inj (hword.symm.trans hword')
    rwa [h.functional hr, h'.functional hr']
  · intro hless
    exact ⟨word, hword, result, result', h, h', hless⟩

theorem Precedes.asymmetric {query text text' : Bytes} (h : Precedes env query text text') :
    ¬ Precedes env query text' text := by
  obtain ⟨word, hword, result, result', hgives, hgives', hless⟩ := h
  rw [precedes_iff hword hgives' hgives, Result.less_iff_key hgives'.ranked hgives.ranked]
  exact lt_asymm ((Result.less_iff_key hgives.ranked hgives'.ranked).mp hless)

section Congr
variable (h : env.SameCharacters std)
include h

theorem gives_congr : Gives ⟨env.table, std⟩ = Gives env := by
  funext query text result
  simp only [Gives, Candidate.of_congr h]

theorem answers_congr : Answers ⟨env.table, std⟩ = Answers env := by
  funext query text
  simp only [Answers, Word.of_congr h, gives_congr h]

theorem precedes_congr : Precedes ⟨env.table, std⟩ = Precedes env := by
  funext query text text'
  simp only [Precedes, Word.of_congr h, gives_congr h]

end Congr

/-- The results of a query, before they are sorted: those of the identifiers stored, each once. -/
theorem mem_matchingResults {db : IdentifierDatabase} (h : MapBuilt env db.1) {filetype : Bytes}
    {paths : FilepathToCandidates} (hl : db.1.lookup filetype = some paths) (query : Word) :
    (matchingResults env query paths).Nodup ∧ ∀ result, result ∈ matchingResults env query paths ↔
      ∃ text ∈ stored db filetype, Gives env query text result := by
  have hfiles : ∀ path candidates, paths.lookup path = some candidates →
      ∀ candidate ∈ candidates, Candidate.of env candidate.text = .ok candidate := by
    intro path candidates hp
    have := h filetype path
    simp only [candidateSet, hl, Option.getD_some, hp] at this
    exact fun candidate hc => (this candidate hc).1
  obtain ⟨seen, hconsidered⟩ := matchingResults_considered env query paths hfiles
  refine ⟨hconsidered.nodup.of_map, fun result => ?_⟩
  rw [matchingResults_eq, List.mem_filterMap]
  constructor
  · rintro ⟨candidate, hmem, hmatch⟩
    obtain ⟨filepath, hc⟩ := (mem_firstByText_iff h hl candidate).mp hmem
    exact ⟨candidate.text, ⟨filepath, candidate, hc, rfl⟩, candidate, (h filetype filepath candidate hc).1, hmatch⟩
  · rintro ⟨text, ⟨filepath, c, hc, rfl⟩, candidate, hof, hmatch⟩
    obtain rfl : c = candidate := Except.ok.inj ((h filetype filepath c hc).1.symm.trans hof)
    exact ⟨c, (mem_firstByText_iff h hl c).mpr ⟨filepath, hc⟩, hmatch⟩

theorem sortable_matchingResults {db : IdentifierDatabase} (h : MapBuilt env db.1) {filetype : Bytes}
    {paths : FilepathToCandidates} (hl : db.1.lookup filetype = some paths) (query : Word) :
    Sortable Result.less (matchingResults env query paths) := by
  have hranked : ∀ result ∈ matchingResults env query paths, result.RankedFor query := by
    intro result hresult
    obtain ⟨text, -, hgives⟩ := ((mem_matchingResults h hl query).2 result).mp hresult
    exact hgives.ranked
  exact Result.sortable hranked

/-- What a query that returns has made of the identifiers: those it matches, each once, in order. -/
structure Answered (env : Environment) (query : Bytes) (identifiers : Set Bytes) (answers : List Bytes) : Prop where
  nodup : answers.Nodup
  mem : ∀ text, text ∈ answers ↔ text ∈ identifiers ∧ Answers env query text
  ordered : answers.Pairwise (fun text text' => ¬ Precedes env query text' text)

/-- The texts of the results of some identifiers, once they are sorted. -/
theorem answered_of_sorted {query : Bytes} {word : Word} (hword : Word.of env query = .ok word)
    {identifiers : Set Bytes} {results : List Result} (hnodup : results.Nodup) (hsorted : SortedBy Result.less results)
    (hmem : ∀ result, result ∈ results ↔ ∃ text ∈ identifiers, Gives env word text result) :
    Answered env query identifiers (results.map Result.text) := by
  have hgives : ∀ result ∈ results, Gives env word result.text result := by
    intro result hresult
    obtain ⟨text, -, hgives⟩ := (hmem result).mp hresult
    rwa [hgives.text_eq]
  refine ⟨hnodup.map_on ?_, ?_, ?_⟩
  · intro result hresult result' hresult' heq
    exact (hgives result hresult).functional (heq ▸ hgives result' hresult')
  · intro text
    rw [List.mem_map]
    constructor
    · rintro ⟨result, hresult, rfl⟩
      obtain ⟨text, htext, hg⟩ := (hmem result).mp hresult
      rw [hg.text_eq]
      exact ⟨htext, word, hword, result, hg⟩
    · rintro ⟨htext, word', hword', result, hg⟩
      obtain rfl := Except.ok.inj (hword.symm.trans hword')
      exact ⟨result, (hmem result).mpr ⟨text, htext, hg⟩, hg.text_eq⟩
  · rw [List.pairwise_map]
    apply hsorted.imp_of_mem
    intro result result' hresult hresult' hle
    rw [precedes_iff hword (hgives result' hresult') (hgives result hresult), hle]
    exact Bool.false_ne_true

theorem answered_of_ok {db db' : IdentifierDatabase} (h : Built env db) {query filetype : Bytes} {answers : List Bytes}
    (hrun : IdentifierCompleter.candidatesForQueryAndType env query filetype 0 db = .ok answers db') :
    Answered env query (stored db filetype) answers := by
  obtain ⟨results, hok, rfl⟩ := (IdentifierCompleter.candidatesForQueryAndType_ok env).mp hrun
  have hcomputed := (computes_resultsForQueryAndType env db.1 query filetype 0 db ⟨rfl, h.2⟩)
  rw [hok] at hcomputed
  have hresults := hcomputed.1
  cases hl : db.1.lookup filetype with
  | none =>
    rw [hl] at hresults
    obtain rfl := Except.ok.inj hresults
    exact ⟨List.nodup_nil, by simp [stored, candidateSet, hl], List.Pairwise.nil⟩
  | some paths =>
    simp only [hl] at hresults
    cases hword : Word.of env query with
    | error failure => simp [hword, Except.map] at hresults
    | ok word =>
      rw [hword] at hresults
      obtain rfl := Except.ok.inj hresults
      obtain ⟨hnodup, hmem⟩ := mem_matchingResults h.1 hl word
      have hsortable := sortable_matchingResults h.1 hl word
      have hperm := partialSort_zero_perm env.std hsortable
      apply answered_of_sorted hword (hperm.nodup_iff.mpr hnodup) (partialSort_zero_sorted env.std hsortable)
      intro result
      rw [hperm.mem_iff, hmem]

/-- A query of valid text is answered. -/
theorem exists_answers {db : IdentifierDatabase} (h : Built env db) {query : Bytes} (hdec : Decodable query)
    (filetype : Bytes) :
    ∃ answers after, IdentifierCompleter.candidatesForQueryAndType env query filetype 0 db = .ok answers after := by
  obtain ⟨word, hword⟩ := Word.exists_of env hdec
  have hcomputes := computes_resultsForQueryAndType env db.1 query filetype 0
  cases hl : db.1.lookup filetype with
  | none =>
    obtain ⟨after, hrun, -⟩ := hcomputes.ok ⟨rfl, h.2⟩ (by rw [hl])
    exact ⟨_, after, (IdentifierCompleter.candidatesForQueryAndType_ok env).mpr ⟨_, hrun, rfl⟩⟩
  | some paths =>
    obtain ⟨after, hrun, -⟩ := hcomputes.ok ⟨rfl, h.2⟩ (by rw [hl]; simp only [hword]; rfl)
    exact ⟨_, after, (IdentifierCompleter.candidatesForQueryAndType_ok env).mpr ⟨_, hrun, rfl⟩⟩

theorem Answers.decodable {query text : Bytes} (h : Answers env query text) : Decodable query := by
  obtain ⟨word, hword, -⟩ := h
  exact (Word.of_isOk env query).mp (by rw [hword]; rfl)

/-- Whatever runs have left the identifiers under the filetype, and whatever the libraries they ran on, a
query that returns gives the same list. -/
def HistoryFree (env : Environment) (query filetype : Bytes) (identifiers : Set Bytes) : Prop :=
  ∀ std std' db db', Reachable ⟨env.table, std⟩ db → Reachable ⟨env.table, std'⟩ db' →
    stored db filetype = identifiers → stored db' filetype = identifiers →
    ∀ answers answers' after after',
      IdentifierCompleter.candidatesForQueryAndType ⟨env.table, std⟩ query filetype 0 db = .ok answers after →
      IdentifierCompleter.candidatesForQueryAndType ⟨env.table, std'⟩ query filetype 0 db' = .ok answers' after' →
      answers = answers'

/-- Whatever order a library gives to the code points of a character, the query matches the same identifiers,
and of two of them the same one comes before the other. -/
structure Decided (env : Environment) (query : Bytes) (identifiers : Set Bytes) : Prop where
  matched : ∀ std std', ∀ text ∈ identifiers,
    Answers ⟨env.table, std⟩ query text → Answers ⟨env.table, std'⟩ query text
  ordered : ∀ std, ∀ text ∈ identifiers, ∀ text' ∈ identifiers, text ≠ text' →
    Answers ⟨env.table, std⟩ query text → Answers ⟨env.table, std⟩ query text' →
      (∀ std', Precedes ⟨env.table, std'⟩ query text text') ∨ ∀ std', Precedes ⟨env.table, std'⟩ query text' text

/-- Then the answers are determined by what is stored. -/
theorem Decided.unique {query : Bytes} {identifiers : Set Bytes} (hdecided : Decided env query identifiers)
    {std std' : StandardLibrary} {answers answers' : List Bytes}
    (h : Answered ⟨env.table, std⟩ query identifiers answers)
    (h' : Answered ⟨env.table, std'⟩ query identifiers answers') : answers = answers' := by
  have hmem (text : Bytes) : text ∈ answers ↔ text ∈ answers' := by
    rw [h.mem, h'.mem]
    constructor
    · rintro ⟨htext, hanswers⟩
      exact ⟨htext, hdecided.matched std std' text htext hanswers⟩
    · rintro ⟨htext, hanswers⟩
      exact ⟨htext, hdecided.matched std' std text htext hanswers⟩
  have hdecide {text text' : Bytes} (ht : text ∈ answers) (ht' : text' ∈ answers) (hne : text ≠ text') :=
    hdecided.ordered std text ((h.mem text).mp ht).1 text' ((h.mem text').mp ht').1 hne
      ((h.mem text).mp ht).2 ((h.mem text').mp ht').2
  have hordered : answers'.Pairwise (fun text text' => ¬ Precedes ⟨env.table, std⟩ query text' text) := by
    apply (h'.ordered.and h'.nodup).imp_of_mem
    rintro text text' ht ht' ⟨hle, hne⟩
    rcases hdecide ((hmem text).mpr ht) ((hmem text').mpr ht') hne with hfirst | hsecond
    · exact (hfirst std).asymmetric
    · exact absurd (hsecond std') hle
  refine ((List.perm_ext_iff_of_nodup h.nodup h'.nodup).mpr hmem).eq_of_pairwise ?_ h.ordered hordered
  intro text text' ht ht' hle hle'
  by_contra hne
  rcases hdecide ht ((hmem text').mpr ht') hne with hfirst | hsecond
  · exact hle' (hfirst std)
  · exact hle (hsecond std)

theorem Decided.historyFree {query : Bytes} {identifiers : Set Bytes} (hdecided : Decided env query identifiers)
    (filetype : Bytes) : HistoryFree env query filetype identifiers := by
  intro std std' db db' h h' hstored hstored' answers answers' after after' hrun hrun'
  have hanswered := answered_of_ok h.built hrun
  have hanswered' := answered_of_ok h'.built hrun'
  rw [hstored] at hanswered
  rw [hstored'] at hanswered'
  exact hdecided.unique hanswered hanswered'

/-- A database that holds some identifiers in one file, in the order in which they were added. -/
theorem exists_recreated (env : Environment) {identifiers : List Bytes}
    (hstocked : ∀ identifier ∈ identifiers, Decodable identifier ∧ identifier.length ≤ 80) (filetype : Bytes) :
    ∃ db candidates paths, Reachable env db ∧ db.1.lookup filetype = some paths ∧
      paths.entries = [⟨[], candidates⟩] ∧ candidates.map (fun candidate => candidate.text) = identifiers ∧
      stored db filetype = {text | text ∈ identifiers} := by
  obtain ⟨candidates, caches, hrun, -, -, htexts⟩ := getElements_decodable
    (candidatesSound_empty : CandidatesSound env .empty) (fun identifier hmem => (hstocked identifier hmem).1)
  have hself : identifiers.map shorten = identifiers := by
    refine (List.map_congr_left (g := id) (fun identifier hmem => ?_)).trans (List.map_id _)
    exact if_neg (Nat.not_lt.mpr (hstocked identifier hmem).2)
  rw [hself] at htexts
  have hperform : Operation.perform env (.recreateIdentifiers identifiers filetype []) .empty = _ :=
    recreateIdentifiersNoLock_eq ∅ hrun filetype []
  have hreachable := Reachable.perform (.empty : Reachable env .empty) (.recreateIdentifiers identifiers filetype [])
  rw [stateAfter, hperform] at hreachable
  refine ⟨_, candidates, _, hreachable, AList.lookup_insert _, ?_, htexts, ?_⟩
  · rw [setCandidateSet, AList.lookup_insert, Option.getD_some, AList.lookup_empty, Option.getD_none,
      AList.insert_insert]
    rfl
  · ext text
    rw [← htexts, stored, Set.mem_ofPred_eq, Set.mem_ofPred_eq, List.mem_map]
    simp only [candidateSet_setCandidateSet]
    constructor
    · rintro ⟨filepath, candidate, hc, htext⟩
      by_cases hpath : filepath = []
      · rw [if_pos ⟨trivial, hpath⟩] at hc
        exact ⟨candidate, hc, htext⟩
      · simp [hpath, candidateSet] at hc
    · rintro ⟨candidate, hc, htext⟩
      exact ⟨[], candidate, by rwa [if_pos ⟨trivial, rfl⟩], htext⟩

/-- The comparison of results is made for those of one query: across queries it can hold both ways. -/
theorem less_not_asymmetric : ¬ ∀ a b : Result, a.less b = true → b.less a = false := by
  intro h
  let candidate (caseSwappedText : Bytes) : Candidate :=
    { text := [], characters := [], bytesPresent := 0, caseSwappedText, wordBoundaryChars := [], textIsLowercase := true }
  let empty : Result := ⟨false, false, 0, 0, candidate [0], ⟨[], [], 0⟩⟩
  let other : Result := ⟨true, false, 0, 0, candidate [1], ⟨[], [Character.ofCodePoints []], 0⟩⟩
  have := h empty other (by decide)
  revert this
  decide

theorem codePointCompare_asymmetric (a b : CodePoint) (h : codePointCompare a b = true) :
    codePointCompare b a = false := by
  simp only [codePointCompare, decide_eq_true_eq, decide_eq_false_iff_not, UInt8.lt_iff_toNat_lt] at h ⊢
  omega

theorem matchFor_of_gives {db : IdentifierDatabase} (h : MapBuilt env db.1) {filetype filepath : Bytes}
    {candidate : Candidate} (hc : candidate ∈ candidateSet db.1 filetype filepath) {word : Word} {result : Result}
    (hgives : Gives env word candidate.text result) : candidate.matchFor word = some result := by
  obtain ⟨c, hof, hmatch⟩ := hgives
  obtain rfl : candidate = c := Except.ok.inj ((h filetype filepath candidate hc).1.symm.trans hof)
  exact hmatch

/-- The loop comes first to what was added first. -/
theorem matchingResults_of_recreated {db : IdentifierDatabase} (h : MapBuilt env db.1) {filetype : Bytes}
    {paths : FilepathToCandidates} (hl : db.1.lookup filetype = some paths)
    (hiterate : ∀ {α : Type} (l : List α), env.std.iterate l = l) {candidate candidate' : Candidate}
    {candidates : List Candidate} (hentries : paths.entries = [⟨[], candidate :: candidate' :: candidates⟩])
    (hne : candidate.text ≠ candidate'.text) {word : Word} {result result' : Result}
    (hgives : Gives env word candidate.text result) (hgives' : Gives env word candidate'.text result') :
    ∃ results, matchingResults env word paths = result :: result' :: results := by
  have hfiles : (env.std.iterate paths.entries).flatMap (fun file => file.2) =
      candidate :: candidate' :: candidates := by
    rw [hiterate, hentries]
    simp
  have hmatch {c : Candidate} (hc : c ∈ candidate :: candidate' :: candidates) {r : Result}
      (hg : Gives env word c.text r) : c.matchFor word = some r := by
    obtain ⟨filepath, hmem⟩ := (mem_flatMap_files env hl c).mp (hfiles ▸ hc)
    exact matchFor_of_gives h hmem hg
  refine ⟨(firstByText [candidate'.text, candidate.text] candidates).filterMap (fun c => c.matchFor word), ?_⟩
  rw [matchingResults_eq, hfiles, firstByText, if_neg List.not_mem_nil, firstByText,
    if_neg (by rw [List.mem_singleton]; exact Ne.symm hne),
    List.filterMap_cons_some (f := fun c : Candidate => c.matchFor word) (hmatch (by simp) hgives),
    List.filterMap_cons_some (f := fun c : Candidate => c.matchFor word) (hmatch (by simp) hgives')]

/-- With a library that sorts results by insertion, an identifier added before another is returned before
it unless it has to come after it. -/
theorem exists_answers_in_order (env : Environment)
    (hsort : env.std.sort Result.less = StandardLibrary.insertion.sort Result.less)
    (hothers : ∀ n, env.std.partialSort Result.less n = StandardLibrary.insertion.sort Result.less ∧
      env.std.nthElement Result.less n = StandardLibrary.insertion.sort Result.less)
    (hiterate : ∀ {α : Type} (l : List α), env.std.iterate l = l) {query : Bytes} (filetype : Bytes)
    {text text' : Bytes} (identifiers : List Bytes)
    (hstocked : ∀ identifier ∈ text :: text' :: identifiers, Decodable identifier ∧ identifier.length ≤ 80)
    (hanswers : Answers env query text) (hanswers' : Answers env query text') (hne : text ≠ text')
    (hle : ¬ Precedes env query text' text) :
    ∃ db answers after, Reachable env db ∧ stored db filetype = {t | t ∈ text :: text' :: identifiers} ∧
      IdentifierCompleter.candidatesForQueryAndType env query filetype 0 db = .ok answers after ∧
      answers.Nodup ∧ List.Sublist [text, text'] answers := by
  obtain ⟨word, hword, result, hgives⟩ := hanswers
  obtain ⟨word', hword', result', hgives'⟩ := hanswers'
  obtain rfl := Except.ok.inj (hword.symm.trans hword')
  rw [precedes_iff hword hgives' hgives, Bool.not_eq_true] at hle
  obtain ⟨db, candidates, paths, hreachable, hl, hentries, htexts, hstored⟩ := exists_recreated env hstocked filetype
  obtain ⟨candidate, rest, rfl, rfl, hrest⟩ := List.map_eq_cons_iff.mp htexts
  obtain ⟨candidate', rest', rfl, rfl, -⟩ := List.map_eq_cons_iff.mp hrest
  obtain ⟨results, hresults⟩ :=
    matchingResults_of_recreated hreachable.built.1 hl hiterate hentries hne hgives hgives'
  have hsublist : List.Sublist [result, result']
      (partialSort env.std Result.less (matchingResults env word paths) 0) := by
    apply partialSort_zero_stable hsort hothers (sortable_matchingResults hreachable.built.1 hl word) hle
    rw [hresults]
    exact ((List.nil_sublist _).cons_cons _).cons_cons _
  obtain ⟨after, hrun, -⟩ := (computes_resultsForQueryAndType env db.1 query filetype 0).ok ⟨rfl, hreachable.built.2⟩
    (a := partialSort env.std Result.less (matchingResults env word paths) 0) (by simp only [hl, hword]; rfl)
  have hanswers := (IdentifierCompleter.candidatesForQueryAndType_ok env).mpr ⟨_, hrun, rfl⟩
  have hordered := hsublist.map Result.text
  rw [List.map_cons, List.map_cons, List.map_nil, hgives.text_eq, hgives'.text_eq] at hordered
  exact ⟨db, _, after, hreachable, hstored, hanswers, (answered_of_ok hreachable.built hanswers).nodup, hordered⟩

/-- In a list without repetition two elements stand in one order. -/
theorem eq_of_pair_sublists {α : Type} {a b : α} {l : List α} (hl : l.Nodup) (h : List.Sublist [a, b] l)
    (h' : List.Sublist [b, a] l) : a = b := by
  induction l with
  | nil => cases h
  | cons c l ih =>
    rw [List.nodup_cons] at hl
    cases h with
    | cons _ h =>
      cases h' with
      | cons _ h' => exact ih hl.2 h h'
      | cons_cons _ h' => exact absurd (h.subset (by simp)) hl.1
    | cons_cons _ h =>
      cases h' with
      | cons _ h' => exact absurd (h'.subset (by simp)) hl.1
      | cons_cons _ h' => rfl

/-- What is stored under a filetype, as a list. -/
theorem exists_stored_list {db : IdentifierDatabase} (h : Reachable env db) (filetype : Bytes) :
    ∃ identifiers : List Bytes, (∀ text, text ∈ stored db filetype ↔ text ∈ identifiers) ∧
      ∀ text ∈ identifiers, Decodable text ∧ text.length ≤ 80 := by
  have hstocked : ∀ text ∈ stored db filetype, Decodable text ∧ text.length ≤ 80 := by
    rintro text ⟨filepath, candidate, hc, rfl⟩
    obtain ⟨hof, hlength⟩ := h.built.1 filetype filepath candidate hc
    exact ⟨(Candidate.of_isOk env candidate.text).mp (by rw [hof]; rfl), hlength⟩
  cases hl : db.1.lookup filetype with
  | none => exact ⟨[], by simp [stored, candidateSet, hl], by simp⟩
  | some paths =>
    have hmem : ∀ text, text ∈ stored db filetype ↔
        text ∈ ((env.std.iterate paths.entries).flatMap (fun file => file.2)).map (fun c => c.text) := by
      intro text
      rw [List.mem_map]
      simp only [mem_flatMap_files env hl, stored, Set.mem_ofPred_eq]
      constructor
      · rintro ⟨filepath, candidate, hc, htext⟩
        exact ⟨candidate, ⟨filepath, hc⟩, htext⟩
      · rintro ⟨candidate, ⟨filepath, hc⟩, htext⟩
        exact ⟨filepath, candidate, hc, htext⟩
    exact ⟨_, hmem, fun text ht => hstocked text ((hmem text).mpr ht)⟩

/-- Two identifiers of which the second does not precede the first can be answered in their order, on a
library that builds the same characters. -/
theorem exists_ordered_run {db : IdentifierDatabase} (h : Reachable env db) (std : StandardLibrary)
    {query filetype text text' : Bytes} (ht : text ∈ stored db filetype) (ht' : text' ∈ stored db filetype)
    (hne : text ≠ text') (hanswers : Answers ⟨env.table, std⟩ query text)
    (hanswers' : Answers ⟨env.table, std⟩ query text') (hle : ¬ Precedes ⟨env.table, std⟩ query text' text) :
    ∃ beside db₁ answers after, Reachable ⟨env.table, beside⟩ db₁ ∧ stored db₁ filetype = stored db filetype ∧
      IdentifierCompleter.candidatesForQueryAndType ⟨env.table, beside⟩ query filetype 0 db₁ = .ok answers after ∧
      answers.Nodup ∧ List.Sublist [text, text'] answers := by
  obtain ⟨beside, hasymmetric, hinsertion, hothers, hiterate⟩ := std.exists_insertion_beside
  have hsame : (⟨env.table, std⟩ : Environment).SameCharacters beside :=
    hasymmetric codePointCompare codePointCompare_asymmetric
  obtain ⟨identifiers, hmem, hstocked⟩ := exists_stored_list h filetype
  have hall : ∀ identifier ∈ text :: text' :: identifiers, Decodable identifier ∧ identifier.length ≤ 80 :=
    List.forall_mem_cons.mpr ⟨hstocked text ((hmem text).mp ht),
      List.forall_mem_cons.mpr ⟨hstocked text' ((hmem text').mp ht'), hstocked⟩⟩
  have hset : {u | u ∈ text :: text' :: identifiers} = stored db filetype := by
    ext u
    rw [Set.mem_ofPred_eq, List.mem_cons, List.mem_cons, ← hmem]
    constructor
    · rintro (rfl | rfl | hu) <;> assumption
    · intro hu
      exact .inr (.inr hu)
  rw [← answers_congr hsame] at hanswers hanswers'
  rw [← precedes_congr hsame] at hle
  obtain ⟨db₁, answers, after, h₁, hstored, hrun⟩ :=
    exists_answers_in_order ⟨env.table, beside⟩ (hinsertion Result.less less_not_asymmetric) (hothers Result.less)
      hiterate filetype identifiers hall hanswers hanswers' hne hle
  exact ⟨beside, db₁, answers, after, h₁, hstored.trans hset, hrun⟩

section Conversely
variable {db : IdentifierDatabase} (h : Reachable env db) {query filetype : Bytes}
  (hfree : HistoryFree env query filetype (stored db filetype))
include h hfree

/-- What matches on one library matches on every other. -/
theorem HistoryFree.matched {std : StandardLibrary} (std' : StandardLibrary) {text : Bytes}
    (ht : text ∈ stored db filetype) (hanswers : Answers ⟨env.table, std⟩ query text) :
    Answers ⟨env.table, std'⟩ query text := by
  obtain ⟨identifiers, hmem, hstocked⟩ := exists_stored_list h filetype
  have hset : {u | u ∈ identifiers} = stored db filetype := by
    ext u
    exact (hmem u).symm
  have hruns (std : StandardLibrary) : ∃ db₁ answers after, Reachable ⟨env.table, std⟩ db₁ ∧
      stored db₁ filetype = stored db filetype ∧
      IdentifierCompleter.candidatesForQueryAndType ⟨env.table, std⟩ query filetype 0 db₁ = .ok answers after := by
    obtain ⟨db₁, candidates, paths, h₁, -, -, -, hstored⟩ := exists_recreated ⟨env.table, std⟩ hstocked filetype
    obtain ⟨answers, after, hrun⟩ := exists_answers h₁.built hanswers.decodable filetype
    exact ⟨db₁, answers, after, h₁, hstored.trans hset, hrun⟩
  obtain ⟨db₁, answers, after, h₁, hstored, hrun⟩ := hruns std
  obtain ⟨db₂, answers', after', h₂, hstored', hrun'⟩ := hruns std'
  have hsame := hfree std std' db₁ db₂ h₁ h₂ hstored hstored' answers answers' after after' hrun hrun'
  have hanswer : text ∈ answers := ((answered_of_ok h₁.built hrun).mem text).mpr ⟨hstored ▸ ht, hanswers⟩
  rw [hsame] at hanswer
  exact (((answered_of_ok h₂.built hrun').mem text).mp hanswer).2

/-- What may come first on one library has to on every other. -/
theorem HistoryFree.precedes {std : StandardLibrary} (std' : StandardLibrary) {text text' : Bytes}
    (ht : text ∈ stored db filetype) (ht' : text' ∈ stored db filetype) (hne : text ≠ text')
    (hanswers : Answers ⟨env.table, std⟩ query text) (hanswers' : Answers ⟨env.table, std⟩ query text')
    (hle : ¬ Precedes ⟨env.table, std⟩ query text' text) : Precedes ⟨env.table, std'⟩ query text text' := by
  by_contra hle'
  obtain ⟨beside, db₁, answers, after, h₁, hstored, hrun, hnodup, hsublist⟩ :=
    exists_ordered_run h std ht ht' hne hanswers hanswers' hle
  obtain ⟨beside', db₂, answers', after', h₂, hstored', hrun', -, hsublist'⟩ :=
    exists_ordered_run h std' ht' ht (Ne.symm hne) (hfree.matched h std' ht' hanswers')
      (hfree.matched h std' ht hanswers) hle'
  have hsame := hfree beside beside' db₁ db₂ h₁ h₂ hstored hstored' answers answers' after after' hrun hrun'
  rw [← hsame] at hsublist'
  exact hne (eq_of_pair_sublists hnodup hsublist hsublist')

theorem HistoryFree.decided : Decided env query (stored db filetype) where
  matched _ std' _ ht hanswers := hfree.matched h std' ht hanswers
  ordered std text ht text' ht' hne hanswers hanswers' := by
    by_cases hle : Precedes ⟨env.table, std⟩ query text' text
    · exact .inr fun std' => hfree.precedes h std' ht' ht (Ne.symm hne) hanswers' hanswers hle.asymmetric
    · exact .inl fun std' => hfree.precedes h std' ht ht' hne hanswers hanswers' hle

end Conversely

/-- For what any run leaves under a filetype and for every query, the answer is the same after all other runs
that leave it, on all libraries, exactly when it is decided what matches and in what order; and a query of
valid text is answered. -/
theorem answer_is_history_free_iff (env : Environment) (db : IdentifierDatabase) (h : Reachable env db)
    (query filetype : Bytes) :
    (HistoryFree env query filetype (stored db filetype) ↔ Decided env query (stored db filetype)) ∧
    (Decodable query → ∃ answers after,
      IdentifierCompleter.candidatesForQueryAndType env query filetype 0 db = .ok answers after) := by
  refine ⟨⟨fun hfree => hfree.decided h, fun hdecided => hdecided.historyFree filetype⟩, ?_⟩
  intro hdec
  exact exists_answers h.built hdec filetype

theorem answer_is_history_free_iff_letter :
    (HistoryFree letterEnvironment (ascii "a") (ascii "cpp")
        (stored (stateAfter (Operation.perform letterEnvironment
          (.recreateIdentifiers [ascii "A", ascii "Aa"] (ascii "cpp") (ascii "f"))) .empty) (ascii "cpp")) ↔
      Decided letterEnvironment (ascii "a")
        (stored (stateAfter (Operation.perform letterEnvironment
          (.recreateIdentifiers [ascii "A", ascii "Aa"] (ascii "cpp") (ascii "f"))) .empty) (ascii "cpp"))) ∧
    (Decodable (ascii "a") → ∃ answers after,
      IdentifierCompleter.candidatesForQueryAndType letterEnvironment (ascii "a") (ascii "cpp") 0
        (stateAfter (Operation.perform letterEnvironment
          (.recreateIdentifiers [ascii "A", ascii "Aa"] (ascii "cpp") (ascii "f"))) .empty) = .ok answers after) :=
  answer_is_history_free_iff letterEnvironment _ (.perform .empty _) (ascii "a") (ascii "cpp")

/-- The letter s and the long one, which have the same swapped case, as the table has them. -/
def longLetterCodePoints : List RawCodePoint := [
  ⟨ascii "S", ascii "S", ascii "s", ascii "s", true, false, true, 0, 0⟩,
  ⟨ascii "s", ascii "s", ascii "s", ascii "S", true, false, false, 0, 0⟩,
  ⟨[0xc5, 0xbf], [0xc5, 0xbf], ascii "s", ascii "S", true, false, false, 0, 0⟩]

theorem longLetterCodePoints_normal_closed :
    ∀ entry ∈ longLetterCodePoints, ∃ pieces, splitCodePoints entry.normal = .ok pieces ∧
      ∀ piece ∈ pieces, (findCodePoint longLetterCodePoints piece).normal = piece := by
  simp only [longLetterCodePoints, List.mem_cons, List.not_mem_nil, or_false, forall_eq_or_imp, forall_eq]
  exact ⟨⟨[ascii "S"], by decide +kernel, by decide +kernel⟩, ⟨[ascii "s"], by decide +kernel, by decide +kernel⟩,
    ⟨[[0xc5, 0xbf]], by decide +kernel, by decide +kernel⟩⟩

def longLetterEnvironment : Environment where
  table := ⟨longLetterCodePoints, longLetterCodePoints_normal_closed⟩
  std := .insertion

/-- For the query s the answers are in the order in which the two were added. -/
theorem long_letter_order_depends :
    ∃ db db' answers answers' after after',
      Reachable longLetterEnvironment db ∧ Reachable longLetterEnvironment db' ∧
      stored db (ascii "cpp") = stored db' (ascii "cpp") ∧
      IdentifierCompleter.candidatesForQueryAndType longLetterEnvironment (ascii "s") (ascii "cpp") 0 db =
        .ok answers after ∧
      IdentifierCompleter.candidatesForQueryAndType longLetterEnvironment (ascii "s") (ascii "cpp") 0 db' =
        .ok answers' after' ∧ answers ≠ answers' := by
  have hmatches : (do
      let candidate ← Candidate.of longLetterEnvironment (ascii "s")
      let candidate' ← Candidate.of longLetterEnvironment [0xc5, 0xbf]
      let word ← Word.of longLetterEnvironment (ascii "s")
      return (candidate.matchFor word).any fun result => (candidate'.matchFor word).any fun result' =>
        !result.less result' && !result'.less result) = Except.ok true := by
    decide +kernel
  obtain ⟨candidate, hcandidate, hmatches⟩ := bind_ok hmatches
  obtain ⟨candidate', hcandidate', hmatches⟩ := bind_ok hmatches
  obtain ⟨word, hword, hmatches⟩ := bind_ok hmatches
  obtain ⟨result, hresult, hmatches⟩ := (Option.any_eq_true _ _).mp (Except.ok.inj hmatches)
  obtain ⟨result', hresult', hless⟩ := (Option.any_eq_true _ _).mp hmatches
  simp only [Bool.and_eq_true, Bool.not_eq_true'] at hless
  have hgives : Gives longLetterEnvironment word (ascii "s") result := ⟨candidate, hcandidate, hresult⟩
  have hgives' : Gives longLetterEnvironment word [0xc5, 0xbf] result' := ⟨candidate', hcandidate', hresult'⟩
  have hanswers : Answers longLetterEnvironment (ascii "s") (ascii "s") := ⟨word, hword, result, hgives⟩
  have hanswers' : Answers longLetterEnvironment (ascii "s") [0xc5, 0xbf] := ⟨word, hword, result', hgives'⟩
  obtain ⟨db, answers, after, h, hstored, hrun, hnodup, hsublist⟩ :=
    exists_answers_in_order longLetterEnvironment rfl (fun _ => ⟨rfl, rfl⟩) (fun _ => rfl)
      (ascii "cpp") [] (by decide +kernel) hanswers hanswers' (by decide)
      (by rw [precedes_iff hword hgives' hgives, hless.2]; exact Bool.false_ne_true)
  obtain ⟨db', answers', after', h', hstored', hrun', -, hsublist'⟩ :=
    exists_answers_in_order longLetterEnvironment rfl (fun _ => ⟨rfl, rfl⟩) (fun _ => rfl)
      (ascii "cpp") [] (by decide +kernel) hanswers' hanswers (by decide)
      (by rw [precedes_iff hword hgives hgives', hless.1]; exact Bool.false_ne_true)
  refine ⟨db, db', answers, answers', after, after', h, h', ?_, hrun, hrun', ?_⟩
  · rw [hstored, hstored']
    ext text
    simp [or_comm]
  · rintro rfl
    exact absurd (eq_of_pair_sublists hnodup hsublist hsublist') (by decide)

end IdentifierDatabase
end Ycmd.Core
