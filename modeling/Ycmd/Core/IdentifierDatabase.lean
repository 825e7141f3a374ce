import Ycmd.Core.Repository
import Ycmd.Core.Utils
import Mathlib.Data.List.AList

/-! The identifier database: candidates stored by filetype and file path. -/
namespace Ycmd.Core
open Lib

abbrev FilepathToIdentifiers := AList (fun _ : Bytes => List Bytes)
abbrev FiletypeIdentifierMap := AList (fun _ : Bytes => FilepathToIdentifiers)
abbrev FilepathToCandidates := AList (fun _ : Bytes => List Candidate)
abbrev FiletypeCandidateMap := AList (fun _ : Bytes => FilepathToCandidates)

/-- The map of one database, above the caches it shares with the rest of the process. -/
abbrev IdentifierDatabase := FiletypeCandidateMap × CandidateCache
abbrev DatabaseM := EStateM Failure IdentifierDatabase

namespace IdentifierDatabase
variable (env : Environment)

def empty : IdentifierDatabase := (∅, .empty)

def candidateSet (map : FiletypeCandidateMap) (filetype filepath : Bytes) : List Candidate :=
  (((map.lookup filetype).getD ∅).lookup filepath).getD []

/-- Both subscripts create the entry they do not find. -/
def setCandidateSet (map : FiletypeCandidateMap) (filetype filepath : Bytes)
    (candidates : List Candidate) : FiletypeCandidateMap :=
  map.insert filetype (((map.lookup filetype).getD ∅).insert filepath candidates)

/-- What is written through the reference that `GetCandidateSet` returns. -/
def assign (filetype filepath : Bytes) (candidates : List Candidate) : DatabaseM Unit :=
  fun (map, caches) => .ok () (setCandidateSet map filetype filepath candidates, caches)

def getCandidateSet (filetype filepath : Bytes) : DatabaseM (List Candidate) := do
  let (map, _) ← get
  assign filetype filepath (candidateSet map filetype filepath)
  return candidateSet map filetype filepath

def addSingleIdentifier (newCandidate filetype filepath : Bytes) : DatabaseM Unit := do
  match ← below (getElements env [newCandidate]) with
  | [] => throw .danglingPointer
  | candidate :: _ =>
    let currentIdentifierSet ← getCandidateSet filetype filepath
    if currentIdentifierSet.all (fun c => c.text != candidate.text) then
      assign filetype filepath (currentIdentifierSet ++ [candidate])

/-- The entry is created before the candidates are obtained, and cleared only after. -/
def recreateIdentifiersNoLock (newCandidates : List Bytes) (filetype filepath : Bytes) : DatabaseM Unit := do
  let _ ← getCandidateSet filetype filepath
  let candidates ← below (getElements env newCandidates)
  assign filetype filepath candidates

def recreateIdentifiers (newCandidates : List Bytes) (filetype filepath : Bytes) : DatabaseM Unit :=
  recreateIdentifiersNoLock env newCandidates filetype filepath

def recreateIdentifiersFromMap (map : FiletypeIdentifierMap) : DatabaseM Unit :=
  (env.std.iterate map.entries).forM (fun ⟨filetype, pathsToCandidates⟩ =>
    (env.std.iterate pathsToCandidates.entries).forM (fun ⟨filepath, identifiers⟩ =>
      recreateIdentifiersNoLock env identifiers filetype filepath))

/-- One candidate of the query's loop. The set of candidates seen compares their texts. -/
def consider (query : Word) (acc : List Bytes × List Result) (candidate : Candidate) :
    List Bytes × List Result :=
  let (seen, results) := acc
  if candidate.text ∈ seen then (seen, results)
  else if candidate.isEmpty || !candidate.containsBytes query then (candidate.text :: seen, results)
  else match candidate.queryMatchResult query with
    | some result => (candidate.text :: seen, results ++ [result])
    | none => (candidate.text :: seen, results)

/-- The results before they are sorted, the files in the order the hash map yields them. -/
def matchingResults (query : Word) (pathsToCandidates : FilepathToCandidates) : List Result :=
  ((env.std.iterate pathsToCandidates.entries).foldl
    (fun acc file => file.2.foldl (consider query) acc) ([], [])).2

def resultsForQueryAndType (query filetype : Bytes) (maxResults : Nat) : DatabaseM (List Result) := fun db =>
  match db.1.lookup filetype with
  | none => .ok [] db
  | some pathsToCandidates =>
    let results : DatabaseM (List Result) := do
      let queryObject ← below (below (makeWord env query))
      return partialSort env.std Result.less (matchingResults env queryObject pathsToCandidates) maxResults
    results db

/-- A query changes nothing but what is cached, and does not depend on it. -/
theorem computes_resultsForQueryAndType (env : Environment) (map : FiletypeCandidateMap) (query filetype : Bytes)
    (maxResults : Nat) :
    Computes (fun db => db.1 = map ∧ CandidatesSound env db.2)
      (resultsForQueryAndType env query filetype maxResults)
      (match map.lookup filetype with
        | none => .ok []
        | some paths => (Word.of env query).map (fun word =>
            partialSort env.std Result.less (matchingResults env word paths) maxResults)) := by
  rintro ⟨map, caches⟩ ⟨rfl, hs⟩
  cases hl : map.lookup filetype with
  | none => simpa only [resultsForQueryAndType, hl, true_and] using hs
  | some paths =>
    have hcaches : Computes (CandidatesSound env) (below (makeWord env query)) (Word.of env query) :=
      (computes_makeWord query).below (J := Memo.Sound (Candidate.of env))
    have hword := hcaches.below (J := fun m => m = map)
    have := hword.map (fun word =>
      partialSort env.std Result.less (matchingResults env word paths) maxResults) (map, caches) ⟨rfl, hs⟩
    rw [← bind_pure_comp] at this
    simpa only [resultsForQueryAndType, hl] using this

end IdentifierDatabase
end Ycmd.Core
