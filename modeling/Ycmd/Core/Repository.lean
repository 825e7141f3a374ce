import Ycmd.Lib.Memo
import Ycmd.Core.Result

/-! The process-wide repositories of code points, characters and candidates, and the
constructors that go through them. Each cache sits on those its objects are built with. -/
namespace Ycmd.Core
open Lib

abbrev Repository (α : Type) := Memo Bytes α
abbrev CodePointCache := Repository CodePoint × Unit
abbrev CharacterCache := Repository Character × CodePointCache
abbrev CandidateCache := Repository Candidate × CharacterCache

def CandidateCache.empty : CandidateCache := (.empty, .empty, .empty, ())

variable (env : Environment)

def breakIntoCodePoints (text : Bytes) : EStateM Failure CodePointCache (List CodePoint) := do
  let codePoints ← ofExcept (splitCodePoints text)
  Memo.fetch (fun codePoint => pure (CodePoint.of env.table codePoint)) .danglingPointer codePoints

def normalizeInput (text : Bytes) : EStateM Failure CodePointCache Bytes := do
  let codePoints ← breakIntoCodePoints env text
  return codePoints.flatMap CodePoint.normal

def canonicalDecompose (text : Bytes) : EStateM Failure CodePointCache (List CodePoint) := do
  let normal ← normalizeInput env text
  if normal ≠ text then throw .assertionFailed
  let codePoints ← breakIntoCodePoints env text
  return canonicalSort env.std codePoints

def makeCharacter (text : Bytes) : EStateM Failure CodePointCache Character :=
  Character.ofCodePoints <$> canonicalDecompose env text

def makeWord (text : Bytes) : EStateM Failure CharacterCache Word := do
  let codePoints ← below (breakIntoCodePoints env text)
  let characters ← Memo.fetch (makeCharacter env) .danglingPointer (breakCodePointsIntoCharacters codePoints)
  return .build text characters

def makeCandidate (text : Bytes) : EStateM Failure CharacterCache Candidate :=
  Candidate.build <$> makeWord env text

/-- The repository of candidates takes the empty string for a long one. -/
def shorten (element : Bytes) : Bytes := if element.length > 80 then [] else element

/-- `Repository< Candidate >::GetElements`. -/
def getElements (elements : List Bytes) : EStateM Failure CandidateCache (List Candidate) :=
  Memo.fetch (makeCandidate env) .danglingPointer (elements.map shorten)

/-- Every cached object is the one its text denotes. -/
def CodePointsSound (caches : CodePointCache) : Prop :=
  Memo.Sound (fun text => (.ok (CodePoint.of env.table text) : Except Failure CodePoint)) caches.1 ∧ True

def CharactersSound (caches : CharacterCache) : Prop :=
  Memo.Sound (Character.of env) caches.1 ∧ CodePointsSound env caches.2

def CandidatesSound (caches : CandidateCache) : Prop :=
  Memo.Sound (Candidate.of env) caches.1 ∧ CharactersSound env caches.2

variable {env}

theorem candidatesSound_empty : CandidatesSound env .empty :=
  ⟨Memo.sound_empty _, Memo.sound_empty _, Memo.sound_empty _, trivial⟩

theorem computes_breakIntoCodePoints (text : Bytes) :
    Computes (CodePointsSound env) (breakIntoCodePoints env text) (codePointsOf env.table text) := by
  have hmake : ∀ codePoint : Bytes, Computes (fun _ : Unit => True)
      (pure (CodePoint.of env.table codePoint)) (.ok (CodePoint.of env.table codePoint) : Except Failure CodePoint) :=
    fun _ => Computes.pure _
  have hpure : codePointsOf env.table text = splitCodePoints text >>= fun codePoints =>
      codePoints.mapM (fun codePoint => (.ok (CodePoint.of env.table codePoint) : Except Failure CodePoint)) := by
    cases h : splitCodePoints text with
    | error failure => simp only [codePointsOf, h, Except.map, bind, Except.bind]
    | ok codePoints =>
      simp only [codePointsOf, h, Except.map, bind, Except.bind]
      exact (List.mapM_pure (m := Except Failure)).symm
  rw [hpure]
  exact (Computes.ofExcept _).bind (fun codePoints _ => Memo.computes_fetch hmake _ codePoints)

theorem computes_normalizeInput (text : Bytes) :
    Computes (CodePointsSound env) (normalizeInput env text) (normalFormOf env text) := by
  unfold normalizeInput
  rw [bind_pure_comp]
  exact (computes_breakIntoCodePoints text).map (List.flatMap CodePoint.normal)

theorem computes_canonicalDecompose (text : Bytes) :
    Computes (CodePointsSound env) (canonicalDecompose env text) (canonicalDecompositionOf env text) := by
  apply (computes_normalizeInput text).bind
  intro normal _
  split
  · exact Computes.throw _
  · exact (computes_breakIntoCodePoints text).bind (fun codePoints _ => Computes.pure _)

theorem computes_makeCharacter (text : Bytes) :
    Computes (CodePointsSound env) (makeCharacter env text) (Character.of env text) :=
  (computes_canonicalDecompose text).map Character.ofCodePoints

/-- Whatever is cached, the constructors build the objects the texts denote, or throw alike. -/
theorem computes_makeWord (text : Bytes) :
    Computes (CharactersSound env) (makeWord env text) (Word.of env text) := by
  apply (computes_breakIntoCodePoints text).below.bind
  intro codePoints _
  exact (Memo.computes_fetch computes_makeCharacter _ _).bind (fun characters _ => Computes.pure _)

theorem computes_makeCandidate (text : Bytes) :
    Computes (CharactersSound env) (makeCandidate env text) (Candidate.of env text) :=
  (computes_makeWord text).map Candidate.build

theorem computes_getElements (elements : List Bytes) :
    Computes (CandidatesSound env) (getElements env elements)
      ((elements.map shorten).mapM (Candidate.of env)) :=
  Memo.computes_fetch computes_makeCandidate _ _

end Ycmd.Core
