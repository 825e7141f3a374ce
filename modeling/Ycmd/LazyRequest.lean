import Ycmd.Lib.Lazy
import Ycmd.Lib.Lockstep
import Ycmd.RequestWrap

/-! The members of a `RequestWrapper` as they are: each is computed when it is first asked for, from others that
are computed then, and kept. -/
namespace Ycmd.RequestWrapper
open Lib Clangd

inductive Member where
  | lines
  | lineBytes
  | lineValue
  | firstFiletype
  | startColumn
  | startCodepoint
  | columnCodepoint
  | query
  | queryBytes
  deriving DecidableEq, Repr

abbrev Member.Value : Member → Type
  | .lines => List (View UInt8)
  | .lineBytes => View UInt8
  | .lineValue => View Char
  | .firstFiletype => String
  | .startColumn => Nat
  | .startCodepoint => Nat
  | .columnCodepoint => Nat
  | .query => View Char
  | .queryBytes => View UInt8

/-- What a wrapper keeps: the values there are, and the text that some of them are views of. -/
structure Wrapped where
  unicodeLineValue : List Char
  value : (member : Member) → Option member.Value

/-- As it is made for a request. -/
def Wrapped.fresh : Wrapped := ⟨[], fun _ => none⟩

abbrev WrappedM := EStateM Interrupt Wrapped

def Member.cell (member : Member) : Cell Wrapped member.Value where
  get wrapped := wrapped.value member
  put value wrapped := { wrapped with value := Function.update wrapped.value member (some value) }
  get_put _ _ := Function.update_self _ _ _

namespace Lazy

section Members
variable (text : TextLibrary) (classes : CharacterClasses) (req : SimpleRequest)

def lines : WrappedM (List (View UInt8)) := Member.lines.cell.force do
  let file ← ofExcept req.file
  return splitLines (contentsOfFile file)

theorem line_lt {fileLines : List (View UInt8)} (h : 1 ≤ req.lineNum ∧ req.lineNum.toNat ≤ fileLines.length) :
    req.lineNum.toNat - 1 < fileLines.length := by
  omega

def lineBytes : WrappedM (View UInt8) := Member.lineBytes.cell.force do
  let fileLines ← lines req
  if h : 1 ≤ req.lineNum ∧ req.lineNum.toNat ≤ fileLines.length then
    return fileLines.get ⟨req.lineNum.toNat - 1, line_lt req h⟩
  else return .ofString [] 0

/-- The text is decoded into the wrapper, which is what is viewed. -/
def lineValue : WrappedM (View Char) := Member.lineValue.cell.force do
  let bytes ← lineBytes req
  modify (fun wrapped => { wrapped with unicodeLineValue := text.decode bytes.elems })
  let wrapped ← get
  return .ofString wrapped.unicodeLineValue NUL

def firstFiletype : WrappedM String := Member.firstFiletype.cell.force (ofExcept (Ycmd.firstFiletype req))

def columnCodepoint : WrappedM Nat := Member.columnCodepoint.cell.force do
  let line ← lineBytes req
  let prefixBytes ← ofExcept ((line.fromData 0 (columnNum req)).getDM (.error .undefined))
  return text.countAsDecoded prefixBytes.elems

def startCodepoint : WrappedM Nat := Member.startCodepoint.cell.force do
  let filetype ← firstFiletype req
  let column ← columnCodepoint text req
  let line ← lineValue text req
  ofExcept (startOfLongestIdentifierEndingAt column (identifierRegexForFiletype classes filetype) line)

def startColumn : WrappedM Nat := Member.startColumn.cell.force do
  let line ← lineValue text req
  let start ← startCodepoint text classes req
  let unicodePrefix ← ofExcept ((line.fromData 0 start).getDM (.error .undefined))
  return text.countAsEncoded unicodePrefix.elems

def query : WrappedM (View Char) := Member.query.cell.force do
  let line ← lineValue text req
  let start ← startCodepoint text classes req
  let column ← columnCodepoint text req
  ofExcept ((line.substr (sizeSub start 1) (sizeSub column start)).getDM (.error .thrown))

def queryBytes : WrappedM (View UInt8) := Member.queryBytes.cell.force do
  let line ← lineBytes req
  let start ← startColumn text classes req
  ofExcept ((line.substr (sizeSub start 1) (sizeSub (columnNum req) start)).getDM (.error .thrown))

/-- The call operator of a member. -/
def access : (member : Member) → WrappedM member.Value
  | .lines => lines req
  | .lineBytes => lineBytes req
  | .lineValue => lineValue text req
  | .firstFiletype => firstFiletype req
  | .startColumn => startColumn text classes req
  | .startCodepoint => startCodepoint text classes req
  | .columnCodepoint => columnCodepoint text req
  | .query => query text classes req
  | .queryBytes => queryBytes text classes req

/-- A wrapper after its members have been asked for one after the other, whether they were returned or threw. -/
def accessed (members : List Member) (wrapped : Wrapped) : Wrapped :=
  members.foldl (fun wrapped member => stateAfter (access text classes req member) wrapped) wrapped

end Members
end Lazy

/-- What a member is, computed from the request alone. -/
def valueOf (text : TextLibrary) (classes : CharacterClasses) (req : SimpleRequest) :
    (member : Member) → Except Interrupt member.Value
  | .lines => lines req
  | .lineBytes => lineBytes req
  | .lineValue => lineValue text req
  | .firstFiletype => Ycmd.firstFiletype req
  | .startColumn => startColumn text classes req
  | .startCodepoint => startCodepoint text classes req
  | .columnCodepoint => columnCodepoint text req
  | .query => query text classes req
  | .queryBytes => queryBytes text classes req

/-- A wrapper that keeps at least as many values. -/
instance : Preorder Wrapped where
  le wrapped wrapped' := ∀ member, (wrapped.value member).isSome = true → (wrapped'.value member).isSome = true
  le_refl _ _ h := h
  le_trans _ _ _ h h' member hmember := h' member (h member hmember)

section Advances
variable (text : TextLibrary) (classes : CharacterClasses) (req : SimpleRequest)

theorem le_put (member : Member) (v : member.Value) (wrapped : Wrapped) : wrapped ≤ member.cell.put v wrapped := by
  intro member' hmember'
  change (Function.update wrapped.value member (some v) member').isSome = true
  by_cases heq : member' = member
  · subst heq
    rw [Function.update_self]
    rfl
  · rwa [Function.update_of_ne heq]

theorem advances_member {member : Member} {build : WrappedM member.Value} (hbuild : Advances build) :
    Advances (member.cell.force build) :=
  Cell.advances_force hbuild (fun wrapped v => le_put member v wrapped)

theorem advances_lines : Advances (Lazy.lines req) := by
  apply advances_member
  exact (Advances.ofExcept _).bind (fun _ => Advances.pure _)

theorem advances_lineBytes : Advances (Lazy.lineBytes req) := by
  apply advances_member
  apply (advances_lines req).bind
  intro fileLines
  split
  · exact Advances.pure _
  · exact Advances.pure _

theorem advances_lineValue : Advances (Lazy.lineValue text req) := by
  apply advances_member
  apply (advances_lineBytes req).bind
  intro bytes wrapped member hmember
  exact hmember

theorem advances_firstFiletype : Advances (Lazy.firstFiletype req) := by
  apply advances_member
  exact Advances.ofExcept _

theorem advances_columnCodepoint : Advances (Lazy.columnCodepoint text req) := by
  apply advances_member
  apply (advances_lineBytes req).bind
  intro line
  exact (Advances.ofExcept _).bind (fun _ => Advances.pure _)

theorem advances_startCodepoint : Advances (Lazy.startCodepoint text classes req) := by
  apply advances_member
  apply (advances_firstFiletype req).bind
  intro filetype
  apply (advances_columnCodepoint text req).bind
  intro column
  exact (advances_lineValue text req).bind (fun _ => Advances.ofExcept _)

theorem advances_startColumn : Advances (Lazy.startColumn text classes req) := by
  apply advances_member
  apply (advances_lineValue text req).bind
  intro line
  apply (advances_startCodepoint text classes req).bind
  intro start
  exact (Advances.ofExcept _).bind (fun _ => Advances.pure _)

/-- What is done for the query once there is the line. -/
theorem advances_queryOfLine (line : View Char) : Advances (do
    let start ← Lazy.startCodepoint text classes req
    let column ← Lazy.columnCodepoint text req
    ofExcept ((line.substr (sizeSub start 1) (sizeSub column start)).getDM (.error .thrown)) :
      WrappedM (View Char)) := by
  apply (advances_startCodepoint text classes req).bind
  intro start
  exact (advances_columnCodepoint text req).bind (fun _ => Advances.ofExcept _)

theorem advances_query : Advances (Lazy.query text classes req) := by
  apply advances_member
  exact (advances_lineValue text req).bind (advances_queryOfLine text classes req)

theorem advances_queryBytes : Advances (Lazy.queryBytes text classes req) := by
  apply advances_member
  apply (advances_lineBytes req).bind
  intro line
  exact (advances_startColumn text classes req).bind (fun _ => Advances.ofExcept _)

/-- No value is lost. -/
theorem advances_access (member : Member) : Advances (Lazy.access text classes req member) := by
  cases member with
  | lines => exact advances_lines req
  | lineBytes => exact advances_lineBytes req
  | lineValue => exact advances_lineValue text req
  | firstFiletype => exact advances_firstFiletype req
  | startColumn => exact advances_startColumn text classes req
  | startCodepoint => exact advances_startCodepoint text classes req
  | columnCodepoint => exact advances_columnCodepoint text req
  | query => exact advances_query text classes req
  | queryBytes => exact advances_queryBytes text classes req

theorem le_accessed (members : List Member) (wrapped : Wrapped) :
    wrapped ≤ Lazy.accessed text classes req members wrapped := by
  induction members generalizing wrapped with
  | nil => exact le_refl wrapped
  | cons member members ih => exact (advances_access text classes req member wrapped).trans (ih _)

end Advances

/-- The values kept are those of the request, the line is viewed where it has been decoded to, and the query is
a part of it. -/
structure Wrapped.Sound (text : TextLibrary) (classes : CharacterClasses) (req : SimpleRequest) (wrapped : Wrapped) :
    Prop where
  value : ∀ member v, wrapped.value member = some v → valueOf text classes req member = .ok v
  viewed : ∀ v, wrapped.value .lineValue = some v → v = .ofString wrapped.unicodeLineValue NUL
  queried : (wrapped.value .query).isSome = true → (wrapped.value .lineValue).isSome = true

section Sound
variable {text : TextLibrary} {classes : CharacterClasses} {req : SimpleRequest}

theorem sound_fresh : Wrapped.fresh.Sound text classes req :=
  ⟨fun _ _ h => (nomatch h), fun _ h => (nomatch h), fun h => (nomatch h)⟩

theorem Wrapped.Sound.put {wrapped : Wrapped} (h : wrapped.Sound text classes req) (member : Member)
    {v : member.Value} (hv : valueOf text classes req member = .ok v)
    (hviewed : ∀ line, (member.cell.put v wrapped).value .lineValue = some line →
      line = .ofString wrapped.unicodeLineValue NUL)
    (hqueried : member = .query → (wrapped.value .lineValue).isSome = true) :
    (member.cell.put v wrapped).Sound text classes req := by
  refine ⟨?_, hviewed, ?_⟩
  · intro member' v' hv'
    change Function.update wrapped.value member (some v) member' = some v' at hv'
    by_cases heq : member' = member
    · subst heq
      rw [Function.update_self] at hv'
      rwa [← Option.some.inj hv']
    · rw [Function.update_of_ne heq] at hv'
      exact h.value member' v' hv'
  · intro hquery
    have hkept := le_put member v wrapped
    by_cases heq : member = .query
    · exact hkept .lineValue (hqueried heq)
    · change (Function.update wrapped.value member (some v) .query).isSome = true at hquery
      rw [Function.update_of_ne (Ne.symm heq)] at hquery
      exact hkept .lineValue (h.queried hquery)

/-- The members that are neither the line nor the query. -/
theorem computes_other (member : Member) {build : WrappedM member.Value} (hline : member ≠ .lineValue)
    (hquery : member ≠ .query)
    (hbuild : Computes (Wrapped.Sound text classes req) build (valueOf text classes req member)) :
    Computes (Wrapped.Sound text classes req) (member.cell.force build) (valueOf text classes req member) := by
  apply Cell.computes_force (Q := fun _ _ => True) hbuild (fun _ _ _ _ => trivial)
  · intro wrapped v h hget
    exact h.value member v hget
  · intro wrapped v h _ hv
    apply h.put member hv
    · intro line hget
      change Function.update wrapped.value member (some v) .lineValue = some line at hget
      rw [Function.update_of_ne hline.symm] at hget
      exact h.viewed line hget
    · intro heq
      exact absurd heq hquery

theorem computes_lines : Computes (Wrapped.Sound text classes req) (Lazy.lines req) (lines req) := by
  apply computes_other .lines (by decide) (by decide)
  exact (Computes.ofExcept _).bind (fun file _ => Computes.pure _)

theorem computes_lineBytes : Computes (Wrapped.Sound text classes req) (Lazy.lineBytes req) (lineBytes req) := by
  apply computes_other .lineBytes (by decide) (by decide)
  apply computes_lines.bind
  intro fileLines _
  split
  · exact Computes.pure _
  · exact Computes.pure _

/-- Decoding the line once more would change nothing. -/
theorem computes_lineValue :
    Computes (Wrapped.Sound text classes req) (Lazy.lineValue text req) (lineValue text req) := by
  unfold Lazy.lineValue
  apply Cell.computes_force (Q := fun v wrapped => v = .ofString wrapped.unicodeLineValue NUL)
  · apply computes_lineBytes.bind
    intro bytes hbytes wrapped h
    refine ⟨rfl, h.value, ?_, h.queried⟩
    intro v hv
    have hline : lineValue text req = .ok v := h.value .lineValue v hv
    rw [lineValue, hbytes] at hline
    exact (Except.ok.inj hline).symm
  · intro wrapped v wrapped' hrun
    obtain ⟨bytes, wrapped₁, -, hrun⟩ := run_bind_ok hrun
    obtain ⟨rfl, rfl⟩ := EStateM.Result.ok.inj hrun
    rfl
  · intro wrapped v h hget
    exact h.value .lineValue v hget
  · intro wrapped v h hviewed hv
    apply h.put .lineValue hv
    · intro line hline
      change Function.update wrapped.value .lineValue (some v) .lineValue = some line at hline
      rw [Function.update_self] at hline
      rwa [← Option.some.inj hline]
    · intro heq
      cases heq

theorem computes_firstFiletype :
    Computes (Wrapped.Sound text classes req) (Lazy.firstFiletype req) (Ycmd.firstFiletype req) := by
  apply computes_other .firstFiletype (by decide) (by decide)
  exact Computes.ofExcept _

theorem computes_columnCodepoint :
    Computes (Wrapped.Sound text classes req) (Lazy.columnCodepoint text req) (columnCodepoint text req) := by
  apply computes_other .columnCodepoint (by decide) (by decide)
  apply computes_lineBytes.bind
  intro line _
  exact (Computes.ofExcept _).bind (fun prefixBytes _ => Computes.pure _)

theorem computes_startCodepoint :
    Computes (Wrapped.Sound text classes req) (Lazy.startCodepoint text classes req)
      (startCodepoint text classes req) := by
  apply computes_other .startCodepoint (by decide) (by decide)
  apply computes_firstFiletype.bind
  intro filetype _
  apply computes_columnCodepoint.bind
  intro column _
  apply computes_lineValue.bind
  intro line _
  exact Computes.ofExcept _

theorem computes_startColumn :
    Computes (Wrapped.Sound text classes req) (Lazy.startColumn text classes req) (startColumn text classes req) := by
  apply computes_other .startColumn (by decide) (by decide)
  apply computes_lineValue.bind
  intro line _
  apply computes_startCodepoint.bind
  intro start _
  exact (Computes.ofExcept _).bind (fun unicodePrefix _ => Computes.pure _)

/-- The query is built once the line has been. -/
theorem computes_query :
    Computes (Wrapped.Sound text classes req) (Lazy.query text classes req) (query text classes req) := by
  unfold Lazy.query
  apply Cell.computes_force (Q := fun _ wrapped => (wrapped.value .lineValue).isSome = true)
  · apply computes_lineValue.bind
    intro line _
    apply computes_startCodepoint.bind
    intro start _
    apply computes_columnCodepoint.bind
    intro column _
    exact Computes.ofExcept _
  · apply Returns.bind_of_advances
    · intro wrapped line wrapped' hrun
      have hget : wrapped'.value .lineValue = some line := Cell.returns_force wrapped line wrapped' hrun
      rw [hget]
      rfl
    · intro wrapped wrapped' hle
      exact hle .lineValue
    · exact advances_queryOfLine text classes req
  · intro wrapped v h hget
    exact h.value .query v hget
  · intro wrapped v h hline hv
    apply h.put .query hv
    · intro line hget
      exact h.viewed line hget
    · intro _
      exact hline

theorem computes_queryBytes :
    Computes (Wrapped.Sound text classes req) (Lazy.queryBytes text classes req) (queryBytes text classes req) := by
  apply computes_other .queryBytes (by decide) (by decide)
  apply computes_lineBytes.bind
  intro line _
  apply computes_startColumn.bind
  intro start _
  exact Computes.ofExcept _

/-- Whatever has been kept, a member is what it is for the request. -/
theorem computes_access (member : Member) :
    Computes (Wrapped.Sound text classes req) (Lazy.access text classes req member)
      (valueOf text classes req member) := by
  cases member with
  | lines => exact computes_lines
  | lineBytes => exact computes_lineBytes
  | lineValue => exact computes_lineValue
  | firstFiletype => exact computes_firstFiletype
  | startColumn => exact computes_startColumn
  | startCodepoint => exact computes_startCodepoint
  | columnCodepoint => exact computes_columnCodepoint
  | query => exact computes_query
  | queryBytes => exact computes_queryBytes

theorem Wrapped.Sound.accessed {wrapped : Wrapped} (h : wrapped.Sound text classes req) (members : List Member) :
    (Lazy.accessed text classes req members wrapped).Sound text classes req := by
  induction members generalizing wrapped with
  | nil => exact h
  | cons member members ih => exact ih ((computes_access member).stateAfter h)

theorem access_eq_force (member : Member) :
    ∃ build, Lazy.access text classes req member = member.cell.force build := by
  cases member <;> exact ⟨_, rfl⟩

/-- The views of the decoded line that a member hands out. -/
def Member.views : (member : Member) → member.Value → List (View Char)
  | .lineValue, view => [view]
  | .query, view => [view]
  | .lines, _ | .lineBytes, _ | .firstFiletype, _ | .startColumn, _ | .startCodepoint, _ | .columnCodepoint, _
  | .queryBytes, _ => []

/-- Views of the line are views of the text that it is kept as. -/
theorem Wrapped.Sound.memory_suffix {wrapped : Wrapped} (h : wrapped.Sound text classes req) {member : Member}
    {v : member.Value} (hv : wrapped.value member = some v) :
    ∀ view ∈ member.views v, view.memory <:+ wrapped.unicodeLineValue ++ [NUL] := by
  cases member with
  | lineValue =>
    intro view hview
    obtain rfl := List.mem_singleton.mp hview
    have hmemory : view.memory = wrapped.unicodeLineValue ++ [NUL] := by rw [h.viewed _ hv, View.memory_ofString]
    exact hmemory ▸ List.suffix_refl _
  | query =>
    intro view hview
    obtain rfl := List.mem_singleton.mp hview
    obtain ⟨line, hline⟩ := Option.isSome_iff_exists.mp (h.queried (by rw [hv]; rfl))
    have hquery : query text classes req = .ok view := h.value .query view hv
    obtain ⟨line', hline', hquery⟩ := bind_ok hquery
    obtain rfl := Except.ok.inj ((h.value .lineValue line hline).symm.trans hline')
    obtain ⟨start, -, hquery⟩ := bind_ok hquery
    obtain ⟨column, -, hquery⟩ := bind_ok hquery
    rw [← View.memory_ofString, ← h.viewed line hline]
    cases hpart : line.substr (sizeSub start 1) (sizeSub column start) with
    | none =>
      rw [hpart] at hquery
      cases hquery
    | some part =>
      rw [hpart] at hquery
      obtain rfl := Except.ok.inj hquery
      exact View.memory_suffix_of_substr hpart
  | lines | lineBytes | firstFiletype | startColumn | startCodepoint | columnCodepoint | queryBytes =>
    exact List.forall_mem_nil _

end Sound

/-- In whatever order the members of a wrapper are asked for, and whichever of them throw, each is what it is for
the request. Once it has been returned it is returned again and nothing is computed; a view of the decoded line is
one of the text that is kept ever after. -/
theorem members_computed_once (text : TextLibrary) (classes : CharacterClasses) (req : SimpleRequest)
    (before : List Member) (member : Member) :
    (outcome (Lazy.access text classes req member (Lazy.accessed text classes req before .fresh))).1 =
        valueOf text classes req member ∧
      ∀ v wrapped, Lazy.access text classes req member (Lazy.accessed text classes req before .fresh) =
          .ok v wrapped →
        ∀ later,
          Lazy.access text classes req member (Lazy.accessed text classes req later wrapped) =
            .ok v (Lazy.accessed text classes req later wrapped) ∧
          ∀ view ∈ member.views v,
            view.memory <:+ (Lazy.accessed text classes req later wrapped).unicodeLineValue ++ [NUL] := by
  have hsound : (Lazy.accessed text classes req before .fresh).Sound text classes req := sound_fresh.accessed before
  refine ⟨(computes_access member).outcome_fst hsound, ?_⟩
  intro v wrapped hrun later
  obtain ⟨build, haccess⟩ : ∃ build, Lazy.access text classes req member = member.cell.force build :=
    access_eq_force member
  have hget : wrapped.value member = some v := by
    rw [haccess] at hrun
    exact Cell.returns_force _ v wrapped hrun
  have hwrapped : wrapped.Sound text classes req := by
    have := (computes_access member).stateAfter hsound
    rwa [stateAfter, hrun] at this
  have hlater := hwrapped.accessed later
  have hkept : (Lazy.accessed text classes req later wrapped).value member = some v := by
    obtain ⟨v', hv'⟩ := Option.isSome_iff_exists.mp
      (le_accessed text classes req later wrapped member (by rw [hget]; rfl))
    rw [hv', Except.ok.inj ((hlater.value member v' hv').symm.trans (hwrapped.value member v hget))]
  refine ⟨?_, hlater.memory_suffix hkept⟩
  rw [haccess]
  exact Cell.force_of_get hkept

end Ycmd.RequestWrapper
