import Ycmd.Clangd.Pump
import Ycmd.Clangd.SyncRuns
import Ycmd.Requests

/-! The server with its one semantic completer, and the handlers that make it and use it. Requests
are taken after their decoding; what follows an exception is left to the session, and the other
requests go on. -/
namespace Ycmd
open Lib Lsp Clangd

inductive SemanticCompleterKind where
  | clangd
  | jedi
  | none
  deriving DecidableEq, Repr

def completerForRequest (req : SimpleRequest) : Except Interrupt SemanticCompleterKind := do
  let filetype ← firstFiletype req
  if filetype = "cpp" then pure .clangd
  else if filetype = "python" then pure .jedi
  else pure .none

/-- What `RequestWrapper` computes from the line the request is at: the length of the query, unless
that throws, and the column in code points. -/
structure LineText where
  queryLength : SimpleRequest → Option Nat
  columnCodepoint : SimpleRequest → Nat

/-- What resumes when a call of `get_response` is answered. -/
inductive Continuation where
  | init (request : EventNotification)
  | computeCandidates

/-- `after` holds, for each run of `sync_files`, the completion request it is part of. -/
structure ClangdCompleter where
  rpc : Rpc := { pumping := false }
  syncs : Syncs := {}
  initialised : Bool := false
  awaiting : List Continuation := []
  after : List (Option SimpleRequest) := []

/-- What passes between the server and clangd; an answer is a message that completed a call. -/
inductive Traffic where
  | request (message : Json)
  | notification (n : Notification)
  | answer (handler : Nat) (message : Json)

structure Server where
  userOptions : Json := .null
  clangdCompleter : Option ClangdCompleter := none
  traffic : List Traffic := []
  emptyAccess : Bool := false
  undefined : Bool := false

/-- What constructing the completer and launching clangd meet. -/
structure Environment where
  pipes : Bool
  searchPath : String
  launched : Bool
  pid : Int

def call (s : Server) (c : ClangdCompleter) (method : String) (payload : Json) (k : Continuation) : Server :=
  { s with
    clangdCompleter := some { c with rpc := getResponse c.rpc method payload, awaiting := c.awaiting ++ [k] }
    traffic := s.traffic ++ [.request (requestFor c.rpc method payload)] }

/-- The runs of `sync_files` after a step, with what the step has sent. -/
def withSyncs (s : Server) (c : ClangdCompleter) (syncs : Syncs) : Server :=
  { s with
    clangdCompleter := some { c with syncs }
    traffic := s.traffic ++
      (syncs.sync.sent.drop c.syncs.sync.sent.length).map (fun a => .notification a.notification)
    undefined := s.undefined || syncs.sync.undefined }

def initializeParams (pid : Int) : Json := .obj [
  ("capabilities", .obj [
    ("textDocument", .obj [("completion", .obj [("snippetSupport", .bool false)])]),
    ("workspace", .obj [("applyEdit", .bool false)])]),
  ("initializationOptions", .null), ("processId", .int pid), ("rootUri", .str "/foo"), ("workspaceFolders", .null)]

/-- The position is computed in `uint64_t`. -/
def completionParams (text : LineText) (req : SimpleRequest) : Json :=
  let position : Position := {
    line := ((req.lineNum - 1) % 2^64).toNat
    character := (((text.columnCodepoint req : Int) - 1) % 2^64).toNat }
  .obj [("position", toJson position), ("textDocument", .obj [("uri", .str (URI req.filepath))])]

variable (layout : Layout) (XXH64 : String → UInt64) (text : LineText)

/-- `co_await sync_files( ... )`, up to its first iteration. -/
def startSync (s : Server) (c : ClangdCompleter) (fileData : FileDataMap) (after : Option SimpleRequest) :
    Option Server :=
  (syncStep layout XXH64 c.syncs (.start fileData)).map
    (fun syncs => withSyncs s { c with after := c.after ++ [after] } syncs)

/-- `ClangdCompleter::handle_event_notification`. -/
def handleFileEvent (s : Server) (c : ClangdCompleter) (req : EventNotification) : Option Server :=
  match req.eventName with
  | .fileReadyToParse => if c.initialised then startSync layout XXH64 s c req.fileData none
    else some { s with clangdCompleter := some c }
  | _ => some { s with clangdCompleter := some c }

/-- `user_options` may name the program; otherwise it is looked for. -/
def clangdPath (userOptions : Json) (env : Environment) : Decode String :=
  match userOptions.find? "clangd_binary_path" with
  | some path => fromJson path
  | none => .ok env.searchPath

/-- `ClangdCompleter::init` on a completer just made, up to its suspension, with what its caller does
next when it does not suspend. -/
def init (s : Server) (c : ClangdCompleter) (req : EventNotification) (env : Environment) : Option Server :=
  match clangdPath s.userOptions env with
  | .error _ => some { s with clangdCompleter := some c }
  | .ok path =>
    if path = "" then handleFileEvent layout XXH64 s c req
    else if env.launched then
      some (call s { c with rpc := { c.rpc with pumping := true } } "initialize"
        (initializeParams env.pid) (.init req))
    else some { s with clangdCompleter := some c }

/-- `init` resumes, and its caller after it. -/
def resumeInit (s : Server) (c : ClangdCompleter) (req : EventNotification) (message : Json) : Option Server :=
  match (fromJson message : Decode (ResponseMessage InitializeResult)) with
  | .error _ => some { s with clangdCompleter := some c }
  | .ok response =>
    if response.error.isSome then handleFileEvent layout XXH64 s c req
    else if response.result.isNone then handleFileEvent layout XXH64 s c req
    else handleFileEvent layout XXH64 s { c with initialised := true } req

/-- `handle_event_notification`. -/
def handleEventNotification (s : Server) (req : EventNotification) (env : Environment) : Option Server :=
  match completerForRequest req.toSimpleRequest with
  | .error .thrown => some s
  | .error .undefined => some { s with undefined := true }
  | .ok .clangd => match s.clangdCompleter with
    | some c => handleFileEvent layout XXH64 s c req
    | none => if env.pipes then init layout XXH64 s {} req env else some s
  | .ok _ => some s

/-- Whether the request gets past the check of its query, and the user options after that check. -/
def queryGate (userOptions : Json) (req : CompletionRequest) : Except Interrupt (Bool × Json) :=
  match req.forceSemantic with
  | none => shortQuery
  | some force => match (fromJson force : Decode Bool) with
    | .error _ => .error .thrown
    | .ok true => .ok (true, userOptions)
    | .ok false => shortQuery
where
  shortQuery := match text.queryLength req.toSimpleRequest, userOptions.index "min_num_of_chars_for_completion" with
    | some length, .ok (minimum, userOptions) => .ok (!Json.natLt length minimum, userOptions)
    | _, _ => .error .thrown

/-- `handle_completions`, up to its suspension. -/
def handleCompletions (s : Server) (req : CompletionRequest) : Option Server :=
  match queryGate text s.userOptions req with
  | .error _ => some s
  | .ok (false, userOptions) => some { s with userOptions }
  | .ok (true, userOptions) =>
    let s := { s with userOptions }
    match completerForRequest req.toSimpleRequest with
    | .error .thrown => some s
    | .error .undefined => some { s with undefined := true }
    | .ok .clangd => match s.clangdCompleter with
      | none => some { s with emptyAccess := true }
      | some c => if !c.initialised then some s
        else startSync layout XXH64 s c req.fileData (some req.toSimpleRequest)
    | .ok _ => some s

/-- The pump's handling of a message, and what the handler it calls resumes. -/
def handleServerMessage (s : Server) (c : ClangdCompleter) (message : Json) : Option Server :=
  (rpcStep c.rpc (.message message)).bind fun rpc =>
    let c' := { c with rpc }
    match rpc.invoked.drop c.rpc.invoked.length with
    | [] => some { s with clangdCompleter := some c' }
    | (handler, message) :: _ =>
      let s := { s with traffic := s.traffic ++ [.answer handler message] }
      match c.awaiting[handler]? with
      | some (.init req) => resumeInit layout XXH64 s c' req message
      | _ => some { s with clangdCompleter := some c' }

/-- A step of the run of `sync_files` that executes. A completion goes on where its run has ended. -/
def iterateSync (s : Server) (c : ClangdCompleter) : Option Server :=
  (syncStep layout XXH64 c.syncs .iterate).map fun syncs =>
    let s := withSyncs s c syncs
    let c' := { c with syncs }
    match c.syncs.active.bind (fun i =>
        syncs.runs[i]?.bind (fun run => if run.pc = .done then c.after[i]? else none)) with
    | some (some req) => call s c' "textDocument/completion" (completionParams text req) .computeCandidates
    | _ => s

inductive ServerStep where
  | initializeOptions (userOptions : Json)
  | eventNotification (req : EventNotification) (env : Environment)
  | completions (req : CompletionRequest)
  | message (message : Json)
  | resume (i : Nat)
  | iterate

/-- No run of `sync_files` executes. -/
def Server.idle (s : Server) : Bool :=
  match s.clangdCompleter with
  | some c => c.syncs.active.isNone
  | none => true

def serverStep (s : Server) (a : ServerStep) : Option Server :=
  if s.undefined || s.emptyAccess then none
  else match a, s.idle with
  | .initializeOptions userOptions, true => some { s with userOptions }
  | .eventNotification req env, true => handleEventNotification layout XXH64 s req env
  | .completions req, true => handleCompletions layout XXH64 text s req
  | .message message, true => s.clangdCompleter.bind (fun c => handleServerMessage layout XXH64 s c message)
  | .resume i, true => s.clangdCompleter.bind
    (fun c => (syncStep layout XXH64 c.syncs (.resume i)).map (withSyncs s c))
  | .iterate, _ => s.clangdCompleter.bind (iterateSync layout XXH64 text s)
  | _, false => none

def server : Machine Server ServerStep := ⟨serverStep layout XXH64 text⟩

end Ycmd
