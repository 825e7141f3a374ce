import Ycmd.Clangd.Completions
import Ycmd.Handlers

/-! The two calls that are made of the server, and what their callers make of an answer. -/
namespace Ycmd.Clangd
open Lib Lsp Protocol

/-- What `init` returns once its request is answered; an exception of the decoding leaves it. -/
def initReturns (responseMessage : Json) : Decode Bool := do
  let response : ResponseMessage InitializeResult ← fromJson responseMessage
  if response.error.isSome then return false
  else if response.result.isNone then return false
  else return true

section Init
variable (layout : Layout) (XXH64 : String → UInt64) (s : Server) {c : ClangdCompleter} (req : EventNotification)
  {message : Json}

/-- The caller of `init` goes on with the completer as `init` leaves it. -/
theorem resumeInit_of_returns {initialised : Bool} (hc : c.initialised = false)
    (h : initReturns message = .ok initialised) :
    resumeInit layout XXH64 s c req message = handleFileEvent layout XXH64 s { c with initialised } req := by
  unfold initReturns at h
  unfold resumeInit
  obtain ⟨response, hresponse, h⟩ := bind_ok h
  simp only [hresponse]
  have hc : { c with initialised := false } = c := by rw [← hc]
  split at h
  · rw [if_pos ‹_›, ← Except.ok.inj h, hc]
  · rw [if_neg ‹_›]
    split at h
    · rw [if_pos ‹_›, ← Except.ok.inj h, hc]
    · rw [if_neg ‹_›, ← Except.ok.inj h]

theorem resumeInit_of_raises {e : JsonError} (h : initReturns message = .error e) :
    resumeInit layout XXH64 s c req message = some { s with clangdCompleter := some c } := by
  unfold initReturns at h
  unfold resumeInit
  cases hresponse : (fromJson message : Decode (ResponseMessage InitializeResult)) with
  | error e' => rfl
  | ok response =>
    rw [hresponse] at h
    change (if response.error.isSome then _ else if response.result.isNone then _ else _) = _ at h
    split at h
    · cases h
    · split at h <;> cases h

end Init

/-- The callers of `get_response`. -/
inductive Caller where
  | init
  | computeCandidates
  deriving DecidableEq

namespace Caller

/-- The results that the protocol gives the call it makes. -/
def result : Caller → Json → Bool
  | init, v => initializeResult v
  | computeCandidates, v => v.isNull || completionResult v

def Preserves : Caller → Json → Prop
  | init, message => Lsp.Preserves InitializeResult message
  | computeCandidates, message => Lsp.Preserves CompletionsResponse message

/-- It returns without what it has called for. -/
def GivesUp : Caller → Json → Prop
  | init, message => initReturns message = .ok false
  | computeCandidates, message => resumeComputeCandidates message = .ok []

/-- Errors are taken with their data; a server that says what it is says in which version; no list of items
is null. -/
def takes (caller : Caller) (message : Json) : Bool :=
  mayHave message "error" (·.contains "data") &&
  mayHave message "result" (fun v => match caller with
    | init => mayHave v "serverInfo" (·.contains "version")
    | computeCandidates => !v.isNull)

theorem givesUp_of_preserves (caller : Caller) {message : Json} (h : caller.Preserves message)
    (herror : message.contains "error" = true) : caller.GivesUp message := by
  cases caller with
  | init =>
    obtain ⟨response, hresponse, -, hsome⟩ := h
    change initReturns message = _
    rw [initReturns, hresponse]
    change (if response.error.isSome then _ else _) = _
    rw [if_pos (hsome.trans herror)]
    rfl
  | computeCandidates =>
    obtain ⟨response, hresponse, -, hsome⟩ := h
    obtain ⟨error, herror⟩ := Option.isSome_iff_exists.mp (hsome.trans herror)
    change resumeComputeCandidates message = _
    simp only [resumeComputeCandidates, hresponse, bind, Except.bind, herror]
    rfl

end Caller

theorem initializeResult_taken_iff {v : Json} (h : initializeResult v = true) :
    (v.isNull = false ∧ (fromJson v : Decode InitializeResult).isOk = true) ↔
      mayHave v "serverInfo" (·.contains "version") = true := by
  rw [initializeResult, Bool.and_eq_true] at h
  obtain ⟨capabilities, hfind, -⟩ := has_iff.mp h.1
  have hnull := Json.isNull_of_find? hfind
  rw [Accepted.initializeResult_isOk, Accepted.initializeResult, has, hfind, Option.any_some, and_iff_right hnull]
  simp only [Accepted.anything, Bool.true_and]
  have hinfo := h.2
  unfold mayHave at hinfo ⊢
  cases hfindInfo : v.find? "serverInfo" with
  | none => simp
  | some info =>
    rw [hfindInfo, Option.all_some, serverInfo, Bool.and_eq_true] at hinfo
    obtain ⟨name, hfindName, -⟩ := has_iff.mp hinfo.1
    have hnull := Json.isNull_of_find? hfindName
    rw [Option.all_some, Option.all_some, Accepted.orNull, hnull, Bool.false_or, Accepted.serverInfo, hinfo.1,
      Bool.true_and, has, Json.contains]
    have hversion := hinfo.2
    rw [mayHave] at hversion
    cases hfindVersion : info.find? "version" with
    | none => simp
    | some version =>
      rw [hfindVersion] at hversion
      simpa using hversion

/-- An answer reaches its caller as it is exactly when it has the members that the decoders ask for beyond
the protocol. -/
theorem answer_preserved_iff (caller : Caller) {message : Json} (h : answer caller.result message = true) :
    (caller.Preserves message ∧ (message.contains "error" = true → caller.GivesUp message)) ↔
      caller.takes message = true := by
  rw [and_iff_left_of_imp (fun hpreserves => caller.givesUp_of_preserves hpreserves)]
  rw [answer, Bool.and_eq_true, Bool.and_eq_true, Bool.or_eq_true] at h
  obtain ⟨⟨hversion, -⟩, hbody⟩ := h
  have hjsonrpc : has message "jsonrpc" isString = true := by
    apply has_imp hversion
    intro v hv
    cases v with
    | str s => rfl
    | _ => cases hv
  simp only [Bool.and_eq_true, Bool.not_eq_true', Json.contains, Option.isSome_eq_false_iff,
    Option.isNone_iff_eq_none] at hbody
  rcases hbody with ⟨hresult, herror⟩ | ⟨herror, hresult⟩
  · obtain ⟨v, hfind, hvalid⟩ := has_iff.mp hresult
    rw [Caller.takes, mayHave, herror, Option.all_none, Bool.true_and, mayHave, hfind, Option.all_some]
    cases caller with
    | init => exact (preserves_result_iff hjsonrpc hfind herror).trans (initializeResult_taken_iff hvalid)
    | computeCandidates =>
      apply (preserves_result_iff hjsonrpc hfind herror).trans
      rw [and_iff_left (by rw [fromJson_variant]; rfl)]
      simp
  · obtain ⟨v, hfind, hvalid⟩ := has_iff.mp herror
    rw [Caller.takes, mayHave, hfind, Option.all_some, mayHave, hresult, Option.all_none, Bool.and_true]
    cases caller <;> exact preserves_error_iff hjsonrpc hresult hfind hvalid

/-- The response with this error to a call. -/
def errorAnswer (error : Json) : Json := .obj [("error", error), ("id", .str "1"), ("jsonrpc", .str "2.0")]

theorem answer_preserved_data :
    let message := errorAnswer (.obj [("code", .int (-32602)), ("data", .null), ("message", .str "no such file")])
    Caller.init.Preserves message ∧ (message.contains "error" = true → Caller.init.GivesUp message) :=
  (answer_preserved_iff .init rfl).mpr rfl

/-- An error without data is raised as an exception in both of the callers. -/
theorem error_without_data_raises :
    let message := errorAnswer (.obj [("code", .int (-32602)), ("message", .str "no such file")])
    (answer Caller.init.result message = true ∧ ¬ Caller.init.Preserves message ∧ ¬ Caller.init.GivesUp message) ∧
    answer Caller.computeCandidates.result message = true ∧ ¬ Caller.computeCandidates.Preserves message ∧
      ¬ Caller.computeCandidates.GivesUp message := by
  refine ⟨⟨rfl, ?_, ?_⟩, rfl, ?_, ?_⟩
  · rintro ⟨response, hresponse, -⟩
    cases hresponse
  · intro h
    cases h
  · rintro ⟨response, hresponse, -⟩
    cases hresponse
  · intro h
    cases h

end Ycmd.Clangd
