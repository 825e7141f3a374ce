import Mathlib.Logic.Function.Basic
import Mathlib.Data.List.Basic

/-! The documents a language server holds: what `didOpen`, `didChange` and `didClose` mean to it,
and when each is legal. -/
namespace Ycmd.Lsp

inductive Notification where
  | didOpen (uri languageId : String) (version : Int) (text : String)
  | didChange (uri : String) (version : Int) (text : String)
  | didClose (uri : String)
  deriving DecidableEq, Repr

structure Document where
  version : Int
  text : String
  deriving DecidableEq, Repr

/-- The open documents by their URI. -/
abbrev Store := String → Option Document

namespace Store

def empty : Store := fun _ => none

/-- `none` for a notification that is not legal. A change has to come with a newer version. -/
def apply (st : Store) : Notification → Option Store
  | .didOpen uri _ version text => match st uri with
    | none => some (Function.update st uri (some ⟨version, text⟩))
    | some _ => none
  | .didChange uri version text => match st uri with
    | some document =>
      if document.version < version then some (Function.update st uri (some ⟨version, text⟩)) else none
    | none => none
  | .didClose uri => match st uri with
    | some _ => some (Function.update st uri none)
    | none => none

def replay (st : Store) : List Notification → Option Store
  | [] => some st
  | n :: ns => (st.apply n).bind (fun st' => replay st' ns)

theorem replay_append (st : Store) (ns ms : List Notification) :
    st.replay (ns ++ ms) = (st.replay ns).bind (fun st' => st'.replay ms) := by
  induction ns generalizing st with
  | nil => rfl
  | cons n ns ih =>
    simp only [List.cons_append, replay]
    cases st.apply n with
    | none => rfl
    | some st' => exact ih st'

theorem replay_singleton (st : Store) (n : Notification) : st.replay [n] = st.apply n := by
  simp only [replay]
  cases st.apply n <;> rfl

/-- Closing documents takes out exactly those named. -/
theorem replay_didClose {st st' : Store} {uris : List String}
    (h : st.replay (uris.map Notification.didClose) = some st') (uri : String) :
    st' uri = if uri ∈ uris then none else st uri := by
  induction uris generalizing st with
  | nil => simp_all [replay]
  | cons u uris ih =>
    simp only [List.map_cons, replay, apply] at h
    cases hu : st u with
    | none => simp [hu] at h
    | some document =>
      simp only [hu, Option.bind_some] at h
      rw [ih h]
      by_cases h1 : uri = u
      · simp [h1]
      · simp [h1]

end Store
end Ycmd.Lsp
