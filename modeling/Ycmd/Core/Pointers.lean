import Mathlib.Order.CompletePartialOrder
import Ycmd.Lib.Lockstep
import Ycmd.Core.IdentifierAnswers

/-! The pointers the repositories hand out: whichever calls are made, and wherever they throw, a pointer
denotes the object of its string and no string has two. -/
namespace Ycmd.Core
open Lib

/-- The types that have a repository. -/
inductive Stored where
  | codePoint
  | character
  | candidate
  deriving DecidableEq, Repr

namespace Stored

abbrev Object : Stored → Type
  | codePoint => CodePoint
  | character => Character
  | candidate => Candidate

/-- `Repository< T >::Instance()`. -/
def repository (caches : CandidateCache) : (T : Stored) → Repository T.Object
  | codePoint => caches.2.2.1
  | character => caches.2.1
  | candidate => caches.1

/-- The string an element is looked up with, and built from. -/
def key : Stored → Bytes → Bytes
  | codePoint, element => element
  | character, element => element
  | candidate, element => shorten element

variable (env : Environment)

/-- The object of a string, as it is when nothing is cached. -/
def object : (T : Stored) → Bytes → Except Failure T.Object
  | codePoint, text => .ok (CodePoint.of env.table text)
  | character, text => Character.of env text
  | candidate, text => Candidate.of env text

/-- `Repository< T >::GetElements`. -/
def getElements (elements : List Bytes) : Stored → EStateM Failure CandidateCache (List Nat)
  | codePoint => below (below (Memo.getElements (fun text => pure (CodePoint.of env.table text)) elements))
  | character => below (Memo.getElements (makeCharacter env) elements)
  | candidate => Memo.getElements (makeCandidate env) (elements.map shorten)

end Stored

structure ElementsCall where
  stored : Stored
  elements : List Bytes

variable (env : Environment)

/-- The repositories after a sequence of calls, each of which may throw part-way. -/
def runCalls (caches : CandidateCache) (calls : List ElementsCall) : CandidateCache :=
  calls.foldl (fun caches call => stateAfter (call.stored.getElements env call.elements) caches) caches

variable {env}

theorem advances_breakIntoCodePoints (text : Bytes) : Advances (breakIntoCodePoints env text) :=
  (Advances.ofExcept (splitCodePoints text)).bind (fun codePoints =>
    Memo.advances_fetch (fun _ => .pure _) _ codePoints)

theorem advances_canonicalDecompose (text : Bytes) : Advances (canonicalDecompose env text) := by
  have hnormalize : Advances (normalizeInput env text) :=
    (advances_breakIntoCodePoints text).bind (fun codePoints => .pure _)
  apply hnormalize.bind
  intro normal
  split
  · exact .throw _
  · exact (advances_breakIntoCodePoints text).bind (fun codePoints => .pure _)

theorem advances_makeCharacter (text : Bytes) : Advances (makeCharacter env text) :=
  (advances_canonicalDecompose text).map Character.ofCodePoints

theorem advances_makeCandidate (text : Bytes) : Advances (makeCandidate env text) := by
  apply Advances.map
  apply (advances_breakIntoCodePoints text).below.bind
  intro codePoints
  exact (Memo.advances_fetch advances_makeCharacter _ _).bind (fun characters => .pure _)

theorem computes_makeCodePoint (text : Bytes) :
    Computes (fun _ : Unit => True) (pure (CodePoint.of env.table text))
      (.ok (CodePoint.of env.table text) : Except Failure CodePoint) :=
  .pure _

/-- The repository of a type holds this pointer for an element. -/
def Holds (T : Stored) (caches : CandidateCache) (element : Bytes) (p : Nat) : Prop :=
  (T.repository caches).holder.lookup (T.key element) = some (some p)

namespace Stored
variable {T : Stored} {caches caches' : CandidateCache} {elements : List Bytes}

/-- A call takes no pointer back, in any of the repositories. -/
theorem advances_getElements (T : Stored) (elements : List Bytes) : Advances (T.getElements env elements) := by
  cases T with
  | codePoint => exact (Memo.advances_getElements (fun _ => .pure _) elements).below.below
  | character => exact (Memo.advances_getElements advances_makeCharacter elements).below
  | candidate => exact Memo.advances_getElements advances_makeCandidate (elements.map shorten)

/-- A call leaves only objects of their strings, also where it throws. -/
theorem keeps_getElements (T : Stored) (elements : List Bytes) :
    Keeps (CandidatesSound env) (T.getElements env elements) (fun _ => True) := by
  cases T with
  | codePoint => exact (Memo.keeps_getElements computes_makeCodePoint elements).below.below
  | character => exact (Memo.keeps_getElements computes_makeCharacter elements).below
  | candidate => exact Memo.keeps_getElements computes_makeCandidate (elements.map shorten)

/-- The pointers a call returns are held for its elements. -/
theorem returns_getElements (T : Stored) (elements : List Bytes) :
    Returns (T.getElements env elements) (fun ps caches => List.Forall₂ (Holds T caches) elements ps) := by
  cases T with
  | codePoint => exact (Memo.returns_getElements (fun _ => .pure _) elements).below.below
  | character => exact (Memo.returns_getElements advances_makeCharacter elements).below
  | candidate =>
    intro caches ps caches' h
    have hheld : List.Forall₂ (fun text p => caches'.1.holder.lookup text = some (some p)) (elements.map shorten) ps :=
      Memo.returns_getElements advances_makeCandidate (elements.map shorten) caches ps caches' h
    rw [List.forall₂_map_left_iff] at hheld
    exact hheld

end Stored

namespace Holds
variable {T : Stored} {caches caches' : CandidateCache} {element : Bytes} {p p' : Nat}

theorem mono (h : Holds T caches element p) (hle : caches ≤ caches') : Holds T caches' element p := by
  cases T with
  | codePoint => exact hle.2.2.1 _ p h
  | character => exact hle.2.1 _ p h
  | candidate => exact hle.1 _ p h

theorem eq (h : Holds T caches element p) (h' : Holds T caches element p') : p = p' :=
  Option.some.inj (Option.some.inj (h.symm.trans h'))

/-- What a repository holds denotes the object of its string. -/
theorem denotes (h : Holds T caches element p) (hsound : CandidatesSound env caches) :
    ∃ a, T.object env (T.key element) = .ok a ∧ (T.repository caches).heap[p]? = some a := by
  cases T with
  | codePoint =>
    obtain ⟨a, ha, hobject⟩ := hsound.2.2.1 _ p h
    exact ⟨a, hobject, ha⟩
  | character =>
    obtain ⟨a, ha, hobject⟩ := hsound.2.1 _ p h
    exact ⟨a, hobject, ha⟩
  | candidate =>
    obtain ⟨a, ha, hobject⟩ := hsound.1 _ p h
    exact ⟨a, hobject, ha⟩

end Holds

theorem runCalls_append (caches : CandidateCache) (calls later : List ElementsCall) :
    runCalls env caches (calls ++ later) = runCalls env (runCalls env caches calls) later :=
  List.foldl_append

/-- The run lemmas: no sequence of calls takes a pointer back, and all leave only objects of their strings. -/
theorem le_runCalls (caches : CandidateCache) (calls : List ElementsCall) : caches ≤ runCalls env caches calls := by
  induction calls generalizing caches with
  | nil => exact le_refl caches
  | cons call calls ih => exact (call.stored.advances_getElements call.elements caches).trans (ih _)

theorem candidatesSound_runCalls {caches : CandidateCache} (h : CandidatesSound env caches)
    (calls : List ElementsCall) : CandidatesSound env (runCalls env caches calls) := by
  induction calls generalizing caches with
  | nil => exact h
  | cons call calls ih => exact ih ((call.stored.keeps_getElements call.elements).stateAfter h)

/-- After a call that has returned, and whatever is called then, its pointers are still held. -/
theorem holds_later {T : Stored} {elements : List Bytes} {caches caches' : CandidateCache} {ps : List Nat}
    (h : T.getElements env elements caches = .ok ps caches') (later : List ElementsCall) :
    List.Forall₂ (Holds T (runCalls env caches (⟨T, elements⟩ :: later))) elements ps := by
  have hstate : stateAfter (T.getElements env elements) caches = caches' := by rw [stateAfter, h]
  change List.Forall₂ (Holds T (runCalls env (stateAfter (T.getElements env elements) caches) later)) elements ps
  rw [hstate]
  exact (T.returns_getElements elements caches ps caches' h).imp (fun _ _ hp => hp.mono (le_runCalls caches' later))

/-- Two calls hand out one pointer for one string. -/
theorem same_pointer {T : Stored} {caches : CandidateCache} {elements elements' : List Bytes} {ps ps' : List Nat}
    (h : List.Forall₂ (Holds T caches) elements ps) (h' : List.Forall₂ (Holds T caches) elements' ps') :
    ∀ element p p', (element, p) ∈ elements.zip ps → (element, p') ∈ elements'.zip ps' → p = p' := by
  intro element p p' hmem hmem'
  have hp : Holds T caches element p := (List.forall₂_iff_zip.mp h).2 hmem
  exact hp.eq ((List.forall₂_iff_zip.mp h').2 hmem')

/-- After any calls, and before any others: a call that returns hands out one pointer for each element, which
denotes the object of its string then and later, and one pointer for one string, in the same call and in a later
one. -/
theorem pointers_denote (env : Environment) (T : Stored) (calls later : List ElementsCall) (elements : List Bytes)
    (ps : List Nat) (caches : CandidateCache)
    (h : T.getElements env elements (runCalls env .empty calls) = .ok ps caches) :
    ps.length = elements.length ∧
    List.Forall₂ (fun element p => ∃ a, T.object env (T.key element) = .ok a ∧
      (T.repository (runCalls env .empty (calls ++ ⟨T, elements⟩ :: later))).heap[p]? = some a) elements ps ∧
    (∀ element p p', (element, p) ∈ elements.zip ps → (element, p') ∈ elements.zip ps → p = p') ∧
    ∀ elements' ps' caches',
      T.getElements env elements' (runCalls env .empty (calls ++ ⟨T, elements⟩ :: later)) = .ok ps' caches' →
      ∀ element p p', (element, p) ∈ elements.zip ps → (element, p') ∈ elements'.zip ps' → p = p' := by
  have hheld := holds_later h
  have hsound : CandidatesSound env (runCalls env .empty (calls ++ ⟨T, elements⟩ :: later)) :=
    candidatesSound_runCalls candidatesSound_empty _
  rw [runCalls_append] at hsound ⊢
  refine ⟨(hheld []).length_eq.symm, (hheld later).imp (fun _ _ hp => hp.denotes hsound), ?_, ?_⟩
  · exact same_pointer (hheld []) (hheld [])
  · intro elements' ps' caches' h'
    have hlater := hheld (later ++ [⟨T, elements'⟩])
    rw [← List.cons_append, runCalls_append] at hlater
    exact same_pointer hlater (holds_later h' [])

/-- A call that throws at its second string, the same again without it, and once more with a long string. -/
theorem pointers_denote_retried :
    ∃ ps caches,
      Stored.getElements IdentifierDatabase.letterEnvironment [ascii "a", ascii "A"] .candidate
        (runCalls IdentifierDatabase.letterEnvironment .empty [⟨.candidate, [ascii "a", [0xff], ascii "A"]⟩]) =
          .ok ps caches ∧
      List.Forall₂ (fun element p => ∃ a, Candidate.of IdentifierDatabase.letterEnvironment (shorten element) = .ok a ∧
        (Stored.repository (runCalls IdentifierDatabase.letterEnvironment .empty
          [⟨.candidate, [ascii "a", [0xff], ascii "A"]⟩, ⟨.candidate, [ascii "a", ascii "A"]⟩,
            ⟨.candidate, [List.replicate 81 97]⟩]) .candidate).heap[p]? = some a) [ascii "a", ascii "A"] ps := by
  have hreturns : (outcome (Stored.getElements IdentifierDatabase.letterEnvironment [ascii "a", ascii "A"] .candidate
      (runCalls IdentifierDatabase.letterEnvironment .empty [⟨.candidate, [ascii "a", [0xff], ascii "A"]⟩]))).1.isOk =
        true := by
    decide +kernel
  cases hrun : Stored.getElements IdentifierDatabase.letterEnvironment [ascii "a", ascii "A"] .candidate
      (runCalls IdentifierDatabase.letterEnvironment .empty [⟨.candidate, [ascii "a", [0xff], ascii "A"]⟩]) with
  | error failure caches => simp [hrun, outcome] at hreturns
  | ok ps caches =>
    exact ⟨ps, caches, rfl, (pointers_denote _ .candidate [⟨.candidate, [ascii "a", [0xff], ascii "A"]⟩]
      [⟨.candidate, [List.replicate 81 97]⟩] _ ps caches hrun).2.1⟩

end Ycmd.Core
