import Ycmd.Core.IdentifierUtils

/-! The completer of identifiers: its database behind the names its users call. -/
namespace Ycmd.Core
open Lib
namespace IdentifierCompleter
variable (env : Environment)

def addSingleIdentifierToDatabase (newCandidate filetype filepath : Bytes) : DatabaseM Unit :=
  IdentifierDatabase.addSingleIdentifier env newCandidate filetype filepath

def clearForFileAndAddIdentifiersToDatabase (newCandidates : List Bytes) (filetype filepath : Bytes) :
    DatabaseM Unit :=
  IdentifierDatabase.recreateIdentifiers env newCandidates filetype filepath

def addIdentifiersToDatabaseFromTagFiles (weaklyCanonical : Bytes → Bytes) (files : Files)
    (absolutePathsToTagFiles : List Bytes) : DatabaseM Unit :=
  absolutePathsToTagFiles.forM (fun path =>
    IdentifierDatabase.recreateIdentifiersFromMap env (extractIdentifiersFromTagsFile weaklyCanonical files path))

def candidatesForQueryAndType (query filetype : Bytes) (maxCandidates : Nat) : DatabaseM (List Bytes) := do
  let results ← IdentifierDatabase.resultsForQueryAndType env query filetype maxCandidates
  return results.map Result.text

theorem candidatesForQueryAndType_ok {query filetype : Bytes} {maxCandidates : Nat} {answers : List Bytes}
    {db db' : IdentifierDatabase} :
    candidatesForQueryAndType env query filetype maxCandidates db = .ok answers db' ↔
      ∃ results, IdentifierDatabase.resultsForQueryAndType env query filetype maxCandidates db = .ok results db' ∧
        results.map Result.text = answers := by
  simp only [candidatesForQueryAndType, bind, EStateM.bind]
  cases IdentifierDatabase.resultsForQueryAndType env query filetype maxCandidates db with
  | ok results db'' =>
    simp only [pure, EStateM.pure, EStateM.Result.ok.injEq]
    constructor
    · rintro ⟨rfl, rfl⟩
      exact ⟨results, ⟨rfl, rfl⟩, rfl⟩
    · rintro ⟨_, ⟨rfl, rfl⟩, rfl⟩
      exact ⟨rfl, rfl⟩
  | error failure db'' => simp

end IdentifierCompleter
end Ycmd.Core
