import Ycmd.Lib.Machine
import Ycmd.Api
import Ycmd.Lsp.Read
import Ycmd.Handlers

/-! `handle_session`: one HTTP request from its handler to its response, through the clauses that
catch what the handler throws; and `listen`, which starts the sessions. -/
namespace Ycmd
open Lib

/-- The request methods that have a handler, and the others. -/
inductive Verb where
  | get
  | post
  | other
  deriving DecidableEq, Repr

structure Request where
  method : Verb
  target : String
  body : Bytes
  deriving DecidableEq, Repr

inductive Status where
  | ok
  | notFound
  | internalServerError
  deriving DecidableEq, Repr

structure Response where
  result : Status := .ok
  body : String := ""
  deriving DecidableEq, Repr

/-- `boost::system::system_error`: its `what()` and the message of its code. -/
structure SystemError where
  what : String
  message : String
  deriving DecidableEq, Repr

/-- What a handler can throw, by the clauses that tell exceptions apart. -/
inductive Exn where
  | shutdownResult (response : Response)
  | systemError (ec : SystemError)
  | other (typeName what : String)
  deriving DecidableEq, Repr

inductive Handler where
  | healthy
  | ready
  | shutdown
  | initializeOptions
  | completions
  | eventNotification
  | runCompleterCommand
  | filterAndSortCandidates
  | semanticCompletionAvailable
  | signatureHelpAvailable
  | definedSubcommands
  | detailedDiagnostic
  | debugInfo
  | receiveMessages
  | semanticTokens
  | inlayHints
  deriving DecidableEq, Repr

/-- `HANDLERS`. -/
def handlers : List ((Verb × String) × Handler) := [
  ((.get, "/healthy"), .healthy),
  ((.get, "/ready"), .ready),
  ((.post, "/shutdown"), .shutdown),
  ((.post, "/initialize"), .initializeOptions),
  ((.post, "/completions"), .completions),
  ((.post, "/event_notification"), .eventNotification),
  ((.post, "/run_completer_command"), .runCompleterCommand),
  ((.post, "/filter_and_sort_candidates"), .filterAndSortCandidates),
  ((.post, "/semantic_completion_available"), .semanticCompletionAvailable),
  ((.get, "/signature_help_available"), .signatureHelpAvailable),
  ((.post, "/defined_subcommands"), .definedSubcommands),
  ((.post, "/detailed_diagnostic"), .detailedDiagnostic),
  ((.post, "/debug_info"), .debugInfo),
  ((.post, "/receive_messages"), .receiveMessages),
  ((.post, "/semantic_tokens"), .semanticTokens),
  ((.post, "/inlay_hints"), .inlayHints)]

def kindName : JsonErrorKind → String
  | .parseError => "parse_error"
  | .typeError => "type_error"
  | .outOfRange => "out_of_range"

/-- An exception of the JSON library as a `std::exception`. -/
def Exn.ofJson (e : JsonError) : Exn :=
  .other (kindName e.kind) ("[json.exception." ++ kindName e.kind ++ "." ++ toString e.id ++ "] " ++ e.detail)

/-- The conversion in `response.body() = json( ... )`. -/
def bodyOf {α : Type} [ToJson α] (a : α) : Except Exn String :=
  match (fromJson (toJson a) : Decode String) with
  | .ok body => .ok body
  | .error e => .error (.ofJson e)

/-- What a session has done when it ends: the responses written, whether the acceptor was cancelled,
and the exception that left it, if one did. -/
structure Session where
  written : List Response
  cancelled : Bool
  escaped : Option Exn
  deriving DecidableEq, Repr

/-- The inner `try`: the handler's response, or one for what it has thrown. The clauses convert the
report of the error to a string themselves, and what that throws is not caught here. -/
def respond (traceback : String) (outcome : Except Exn Response) : Except Exn (Response × Bool) :=
  match outcome with
  | .ok response => .ok (response, false)
  | .error (.shutdownResult response) => .ok (response, true)
  | .error (.systemError ec) => do
    let body ← bodyOf ({ exception := ec.what, message := ec.message, traceback } : ErrorResponse)
    pure ({ result := .internalServerError, body }, false)
  | .error (.other typeName what) => do
    let body ← bodyOf ({ exception := typeName, message := what, traceback } : ErrorResponse)
    pure ({ result := .internalServerError, body }, false)

variable (urlPath : String → Except SystemError String)

/-- `handle_session` after the request has been read. `urlPath` is the URL library's parsing of the
target, `outcome` how the handler ends if one is found. -/
def handleSession (traceback : String) (req : Request) (outcome : Except Exn Response) : Session :=
  match answer with
  | .ok (response, doShutdown) => { written := [response], cancelled := doShutdown, escaped := none }
  | .error (.systemError _) => { written := [], cancelled := false, escaped := none }
  | .error e => { written := [], cancelled := false, escaped := some e }
where
  answer : Except Exn (Response × Bool) :=
    match urlPath req.target with
    | .error ec => .error (.systemError ec)
    | .ok path => match handlers.lookup (req.method, path) with
      | none => .ok ({ result := .notFound }, false)
      | some _ => respond traceback outcome

/-- The handler ends in a way the session has a response for. -/
def Ends (outcome : Except Exn Response) : Prop :=
  match outcome with
  | .ok _ => True
  | .error (.shutdownResult _) => True
  | .error _ => False

/-- The target is a URL, and its handler, if it has one, ends well. -/
def Answerable (req : Request) (outcome : Except Exn Response) : Prop :=
  ∃ path, urlPath req.target = .ok path ∧
    (handlers.lookup (req.method, path) = none ∨ Ends outcome)

/-- Reporting an error throws: an object is no string. -/
theorem respond_of_not_ends (traceback : String) {outcome : Except Exn Response} (h : ¬ Ends outcome) :
    ∃ what, respond traceback outcome = .error (.other "type_error" what) := by
  cases outcome with
  | ok response => exact absurd trivial h
  | error e =>
    cases e with
    | shutdownResult response => exact absurd trivial h
    | systemError ec => exact ⟨_, rfl⟩
    | other typeName what => exact ⟨_, rfl⟩

theorem respond_of_ends (traceback : String) {outcome : Except Exn Response} (h : Ends outcome) :
    ∃ response doShutdown, respond traceback outcome = .ok (response, doShutdown) := by
  cases outcome with
  | ok response => exact ⟨response, false, rfl⟩
  | error e =>
    cases e with
    | shutdownResult response => exact ⟨response, true, rfl⟩
    | _ => cases h

variable {urlPath}

/-- A session answers, and throws nothing, exactly when its request is answerable. -/
theorem handleSession_answers_iff (traceback : String) {req : Request} {outcome : Except Exn Response} :
    (∃ response, (handleSession urlPath traceback req outcome).written = [response]) ∧
      (handleSession urlPath traceback req outcome).escaped = none ↔ Answerable urlPath req outcome := by
  unfold handleSession Answerable handleSession.answer
  cases hurl : urlPath req.target with
  | error ec => simp
  | ok path =>
    simp only [Except.ok.injEq, exists_eq_left']
    cases hh : handlers.lookup (req.method, path) with
    | none => simp
    | some handler =>
      by_cases he : Ends outcome
      · obtain ⟨response, doShutdown, hr⟩ := respond_of_ends traceback he
        simp [hr, he]
      · obtain ⟨what, hr⟩ := respond_of_not_ends traceback he
        simp [hr, he]

/-- `handle_unexpected_exception`: whether it aborts the process. -/
def handleUnexpectedException (ep : Option Exn) : Bool := ep.isSome

/-- The sessions in progress, by the order they started in, and those that have ended. -/
structure Listener where
  inProgress : List Request := []
  ended : List Session := []
  cancelled : Bool := false
  aborted : Bool := false
  deriving DecidableEq, Repr

inductive ListenStep where
  | accept (req : Request)
  | finish (i : Nat) (outcome : Except Exn Response) (traceback : String)

def listenStep (urlPath : String → Except SystemError String) (l : Listener) : ListenStep → Option Listener
  | .accept req =>
    if l.aborted || l.cancelled then none else some { l with inProgress := l.inProgress ++ [req] }
  | .finish i outcome traceback =>
    if l.aborted then none
    else l.inProgress[i]?.map fun req =>
      let session := handleSession urlPath traceback req outcome
      { inProgress := l.inProgress.eraseIdx i
        ended := l.ended ++ [session]
        cancelled := l.cancelled || session.cancelled
        aborted := handleUnexpectedException session.escaped }

def listen (urlPath : String → Except SystemError String) : Machine Listener ListenStep := ⟨listenStep urlPath⟩

/-- The process runs, and every client whose session has ended got one response. -/
structure Serves (l : Listener) : Prop where
  running : l.aborted = false
  answered : ∀ session ∈ l.ended, ∃ response, session.written = [response]

/-- The session that ends here was answerable. -/
def EndsWell (urlPath : String → Except SystemError String) (l : Listener) : ListenStep → Prop
  | .accept _ => True
  | .finish i outcome _ => ∀ req, l.inProgress[i]? = some req → Answerable urlPath req outcome

theorem serves_step {l l' : Listener} {a : ListenStep} (hl : Serves l) (h : listenStep urlPath l a = some l') :
    Serves l' ↔ EndsWell urlPath l a := by
  cases a with
  | accept req =>
    simp only [listenStep] at h
    split at h
    · cases h
    · obtain rfl := Option.some.inj h
      exact ⟨fun _ => trivial, fun _ => ⟨hl.running, hl.answered⟩⟩
  | finish i outcome traceback =>
    simp only [listenStep, hl.running] at h
    obtain ⟨req, hreq, rfl⟩ := Option.map_eq_some_iff.mp h
    have hwell : EndsWell urlPath l (.finish i outcome traceback) ↔ Answerable urlPath req outcome := by
      simp [EndsWell, hreq]
    rw [hwell, ← handleSession_answers_iff traceback]
    constructor
    · intro hs
      have hend := hs.answered _ (List.mem_append.mpr (.inr List.mem_cons_self))
      exact ⟨hend, Option.isNone_iff_eq_none.mp (by simpa [handleUnexpectedException] using hs.running)⟩
    · rintro ⟨hwritten, hescaped⟩
      refine ⟨by simp [handleUnexpectedException, hescaped], fun session hsession => ?_⟩
      rcases List.mem_append.mp hsession with hsession | hsession
      · exact hl.answered session hsession
      · rw [List.mem_singleton.mp hsession]
        exact hwritten

theorem serves_empty : Serves {} := ⟨rfl, by simp⟩

/-- In any run of the server, every request gets one response and none stops it exactly when every
session that ends was answerable. -/
theorem listen_serves_iff (urlPath : String → Except SystemError String) (schedule : List ListenStep) :
    (∀ l ∈ (listen urlPath).states {} schedule, Serves l) ↔
      ∀ p ∈ (listen urlPath).steps {} schedule, EndsWell urlPath p.1 p.2 :=
  (listen urlPath).states_iff_steps (fun _ _ _ hl h => serves_step hl h) serves_empty

structure InitializeRequest where
  userOptions : Json

instance : FromJson InitializeRequest where
  fromJson j := do
    let userOptions ← fromMember j "user_options"
    pure { userOptions }

/-- `json_request`. -/
def jsonRequest {α : Type} [FromJson α] (parse : Bytes → Decode Json) (req : Request) : Except Exn (α × Json) :=
  match (parse req.body).bind (fun j => (fromJson j : Decode α).map (fun r => (r, j))) with
  | .ok r => .ok r
  | .error e => .error (.ofJson e)

/-- `handle_initialize`: the response, and the server with its new options. -/
def handleInitialize (parse : Bytes → Decode Json) (dump : Json → String) (s : Server) (req : Request) :
    Except Exn (Response × Server) := do
  let (requestData, _) ← (jsonRequest parse req : Except Exn (InitializeRequest × Json))
  pure ({ body := dump (.bool true) }, { s with userOptions := requestData.userOptions })

/-- A target that is a path. -/
def plainPath (target : String) : Except SystemError String := .ok target

def dumpTrue (_ : Json) : String := "true"

def badInitialize : Request := { method := .post, target := "/initialize", body := ascii "\x7d" }

/-- One client's malformed `/initialize`: it gets no response, and no other client is answered again. -/
theorem malformed_initialize_aborts : ∃ l, (listen plainPath).run {} [.accept badInitialize,
      .accept { method := .get, target := "/healthy", body := [] },
      .finish 0 ((handleInitialize Lsp.parseBraces dumpTrue {} badInitialize).map Prod.fst) ""] = some l ∧
    l.ended.map Session.written = [[]] ∧ l.aborted = true ∧
    (∀ a, (listen plainPath).step l a = none) ∧ ¬ Serves l := by
  refine ⟨_, rfl, rfl, rfl, fun a => ?_, fun hs => ?_⟩
  · cases a <;> rfl
  · cases hs.running

end Ycmd
