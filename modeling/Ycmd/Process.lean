import Ycmd.Clangd.Returns
import Ycmd.Clangd.SyncSerial
import Ycmd.DecodingErrors
import Ycmd.OptionRuns
import Ycmd.SentCompletions

/-! The process as a whole: the server with clangd, the database of the general completer, and the coroutines of the
completion requests, which are suspended while clangd is told of the files and while it is asked. -/
namespace Ycmd
open Lib Lsp Clangd Ycmd.Core General Completions

/-- What a completion request awaits: the end of its run of `sync_files`, or the answer to its call. -/
inductive Awaited where
  | syncFiles (run : Nat)
  | response (handler : Nat)
  deriving DecidableEq, Repr

/-- A suspended `handle_completions` with its local variables. The requests are numbered as they come. -/
structure Frame where
  number : Nat
  req : CompletionRequest
  forceSemantic : Bool
  awaited : Awaited

def Frame.awaits (awaited : Awaited) (frame : Frame) : Bool := frame.awaited = awaited

/-- The run has ended, and the request that awaits it goes on to its call. -/
def Frame.resume (run handler : Nat) (frame : Frame) : Frame :=
  if frame.awaits (.syncFiles run) then { frame with awaited := .response handler } else frame

/-- `undefined` once the general completer has read past the end of a vector or a view. -/
structure Process where
  server : Server := {}
  database : IdentifierDatabase := .empty
  undefined : Bool := false
  requests : Nat := 0
  frames : List Frame := []
  answers : List (Nat × Except (Interrupt ⊕ Failure) Json) := []

inductive ProcessStep where
  | server (step : ServerStep)
  | filterAndSortCandidates (req : FilterAndSortCandidatesRequest)

section Steps
variable (layout : Layout) (XXH64 : String → UInt64) (env : Core.Environment) (classes : CharacterClasses)
  (text : TextLibrary)

/-- What follows in `handle_completions` when clangd has answered. -/
def resumeCompletions (laterOptions : Json) (req : CompletionRequest) (force : Bool) (responseMessage : Json) :
    CompleterM Json := do
  let semantic ← interrupting ((resumeComputeCandidates responseMessage).mapError (fun _ => .thrown))
  let candidates ← (if !force && semantic.isEmpty then
      identifierCandidates env classes text laterOptions req.toSimpleRequest
    else pure semantic)
  let startColumn ← interrupting (RequestWrapper.startColumn text classes req.toSimpleRequest)
  return toJson
    ({ completions := candidates, completionStartColumn := Int32.ofNat startColumn } : Api.CompletionsResponse)

/-- The body of an answer, or why there is none. -/
def answerOf (m : CompleterM Json) (db : IdentifierDatabase) : Except (Interrupt ⊕ Failure) Json := (outcome (m db)).1

def isUndefined {α : Type} : EStateM.Result (Interrupt ⊕ Failure) IdentifierDatabase α → Bool
  | .error (.inl .undefined) _ => true
  | _ => false

/-- The general completer is used, and perhaps throws. -/
def Process.perform {α : Type} (p : Process) (m : CompleterM α) : Process :=
  { p with
    database := stateAfter m p.database
    undefined := p.undefined || isUndefined (m p.database) }

/-- A request ends, with an answer or an exception. -/
def Process.finish (p : Process) (number : Nat) (m : CompleterM Json) : Process :=
  { p.perform m with answers := p.answers ++ [(number, answerOf m p.database)] }

@[simp] theorem Process.finish_requests (p : Process) (number : Nat) (m : CompleterM Json) :
    (p.finish number m).requests = p.requests := rfl
@[simp] theorem Process.finish_frames (p : Process) (number : Nat) (m : CompleterM Json) :
    (p.finish number m).frames = p.frames := rfl

/-- Whether the request comes to await clangd, and then its `force_semantic`. -/
def suspends (s : Server) (req : CompletionRequest) : Option Bool :=
  match forceSemantic req, queryGate (requestText text classes) s.userOptions req,
    completerForRequest req.toSimpleRequest, s.clangdCompleter with
  | .ok force, .ok (true, _), .ok .clangd, some c => if c.initialised then some force else none
  | _, _, _, _ => none

/-- What a request that does not await clangd finds of it. -/
def clangdAnswer (s : Server) : ClangdAnswer :=
  match s.clangdCompleter with
  | none => .noCompleter
  | some _ => .notInitialised

/-- The number of the run of `sync_files` that a request starts. -/
def nextRun (s : Server) : Nat := s.clangdCompleter.elim 0 (fun c => c.syncs.runs.length)

/-- The handler that the pump has called. -/
def invokedBy (s s' : Server) : Option Nat := do
  let c ← s.clangdCompleter
  let c' ← s'.clangdCompleter
  (c'.rpc.invoked.drop c.rpc.invoked.length).head?.map Prod.fst

/-- The run of `sync_files` that executes, when it has ended with a call, and that call. -/
def calledBy (s s' : Server) : Option (Nat × Nat) := do
  let c ← s.clangdCompleter
  let c' ← s'.clangdCompleter
  let run ← c.syncs.active
  if c.awaiting.length < c'.awaiting.length then some (run, c.awaiting.length) else none

/-- What a step of the server does to the requests. -/
def Process.after (p : Process) (server : Server) : ServerStep → Process
  | .completions req =>
    let p' := { p with server, requests := p.requests + 1 }
    match suspends classes text p.server req with
    | some force => { p' with frames := p.frames ++ [⟨p.requests, req, force, .syncFiles (nextRun p.server)⟩] }
    | none => p'.finish p.requests (Completions.handleCompletions env classes text p.server.userOptions
        server.userOptions req (clangdAnswer p.server))
  | .eventNotification requestData _ =>
    { p with server : Process }.perform (CoreRequest.serve env classes text (.eventNotification requestData))
  | .iterate => match calledBy p.server server with
    | none => { p with server }
    | some (run, handler) => { p with server, frames := p.frames.map (Frame.resume run handler) }
  | .message responseMessage => match invokedBy p.server server with
    | none => { p with server }
    | some handler => match p.frames.find? (Frame.awaits (.response handler)) with
      | none => { p with server }
      | some frame =>
        { p with server, frames := p.frames.eraseP (Frame.awaits (.response handler)) : Process }.finish frame.number
          (resumeCompletions env classes text server.userOptions frame.req frame.forceSemantic responseMessage)
  | .initializeOptions _ => { p with server }
  | .resume _ => { p with server }

def processStep (p : Process) (a : ProcessStep) : Option Process :=
  if p.undefined then none
  else match a with
  | .server step => (serverStep layout XXH64 (requestText text classes) p.server step).map
      (fun server => p.after env classes text server step)
  | .filterAndSortCandidates req =>
    if p.server.undefined || p.server.emptyAccess || !p.server.idle then none
    else some (p.perform (CoreRequest.serve env classes text (.filterAndSortCandidates req)))

def process : Machine Process ProcessStep := ⟨processStep layout XXH64 env classes text⟩

end Steps

section Expected
variable (layout : Layout) (XXH64 : String → UInt64) (env : Core.Environment) (classes : CharacterClasses)
  (text : TextLibrary)

/-- The request with this number comes when the process is as given. -/
def Requested (schedule : List ProcessStep) (number : Nat) (req : CompletionRequest) (p : Process) : Prop :=
  ∃ before after, schedule = before ++ .server (.completions req) :: after ∧
    (process layout XXH64 env classes text).run {} before = some p ∧ p.requests = number

/-- What the call has sent clangd is the request for completions at the cursor of this one. -/
def AsksFor (text : LineText) (r : Rpc) (handler : Nat) (req : SimpleRequest) : Prop :=
  ∃ message, r.requests[handler]? = some message ∧
    message.find? "method" = some (.str "textDocument/completion") ∧
    message.find? "params" = some (completionParams text req)

/-- The call for this request is in the queue of those that nothing has answered. -/
def CallPending (text : LineText) (c : ClangdCompleter) (handler : Nat) (req : SimpleRequest) : Prop :=
  handler ∈ c.rpc.pendingRequests.map PendingRequest.handler ∧ AsksFor text c.rpc handler req

/-- The run of `sync_files` with the files of this request has not ended. -/
def RunUnderway (c : ClangdCompleter) (i : Nat) (req : SimpleRequest) : Prop :=
  c.after[i]? = some (some req) ∧
    ∃ run, c.syncs.runs[i]? = some run ∧ run.fileData = req.fileData ∧ run.pc ≠ .done

/-- What a suspended request awaits has not come. -/
def Waits (text : LineText) (c : ClangdCompleter) (req : SimpleRequest) : Awaited → Prop
  | .syncFiles i => RunUnderway c i req
  | .response handler => CallPending text c handler req

def Awaits (text : LineText) (s : Server) (req : SimpleRequest) (awaited : Awaited) : Prop :=
  ∃ c, s.clangdCompleter = some c ∧ Waits text c req awaited

/-- How a request has ended: at once, or by the first response to the call that was made for it. -/
inductive Ended (schedule : List ProcessStep) (number : Nat) : Except (Interrupt ⊕ Failure) Json → Prop where
  | atOnce {req : CompletionRequest} {requested : Process} {server : Server}
    (hrequested : Requested layout XXH64 env classes text schedule number req requested)
    (hsuspends : suspends classes text requested.server req = none)
    (hstep : serverStep layout XXH64 (requestText text classes) requested.server (.completions req) = some server) :
    Ended schedule number (answerOf (Completions.handleCompletions env classes text
      requested.server.userOptions server.userOptions req (clangdAnswer requested.server)) requested.database)
  | onResponse {req : CompletionRequest} {requested p : Process} {before after : List ProcessStep}
    {c : ClangdCompleter} {handler : Nat} {responseMessage : Json}
    (hrequested : Requested layout XXH64 env classes text before number req requested)
    (hsuspends : (suspends classes text requested.server req).isSome)
    (hschedule : schedule = before ++ .server (.message responseMessage) :: after)
    (hrun : (process layout XXH64 env classes text).run {} before = some p) (hc : p.server.clangdCompleter = some c)
    (hpending : CallPending (requestText text classes) c handler req.toSimpleRequest)
    (hresponds : respondsTo handler responseMessage = true) :
    Ended schedule number (answerOf (Completions.handleCompletions env classes text
      requested.server.userOptions p.server.userOptions req (.answered responseMessage)) p.database)

/-- Each of the requests so far has ended once or waits. -/
structure Attended (schedule : List ProcessStep) (p : Process) : Prop where
  once : (p.answers.map Prod.fst ++ p.frames.map Frame.number).Perm (List.range p.requests)
  apart : (p.frames.map Frame.awaited).Nodup
  ended : ∀ answer ∈ p.answers, Ended layout XXH64 env classes text schedule answer.1 answer.2
  waits : ∀ frame ∈ p.frames,
    (∃ requested, Requested layout XXH64 env classes text schedule frame.number frame.req requested ∧
      suspends classes text requested.server frame.req = some frame.forceSemantic) ∧
    Awaits (requestText text classes) p.server frame.req.toSimpleRequest frame.awaited

end Expected

section Runs
variable {layout : Layout} {XXH64 : String → UInt64} {s s' : Syncs} {i : Nat} {run : Run}

theorem iterateRun_runs (hr : s.runs[i]? = some run) (h : iterateRun layout XXH64 s i run = some s') :
    ∃ pc, s'.runs = s.runs.set i { run with pc } := by
  unfold iterateRun at h
  split at h
  · split at h <;> exact Option.some.inj h ▸ ⟨_, rfl⟩
  · exact Option.some.inj h ▸ ⟨_, rfl⟩
  · split at h
    · split at h <;> exact Option.some.inj h ▸ ⟨_, rfl⟩
    · obtain ⟨hlt, rfl⟩ := List.getElem?_eq_some_iff.mp hr
      exact Option.some.inj h ▸ ⟨_, (List.set_getElem_self hlt).symm⟩
  · exact Option.some.inj h ▸ ⟨_, rfl⟩
  · cases h

theorem resumeRun_runs (h : resumeRun s i run = some s') :
    ∃ pc, pc ≠ .done ∧ s'.runs = s.runs.set i { run with pc } := by
  unfold resumeRun at h
  split at h
  · exact Option.some.inj h ▸ ⟨_, Pc.noConfusion, rfl⟩
  · exact Option.some.inj h ▸ ⟨_, Pc.noConfusion, rfl⟩
  · cases h

/-- A step leaves every run there with its files, and ends none but the one that executes. -/
theorem run_step {a : SyncStep} (h : syncStep layout XXH64 s a = some s') (hr : s.runs[i]? = some run) :
    ∃ pc, s'.runs[i]? = some { run with pc } ∧ (pc = .done → run.pc = .done ∨ a = .iterate ∧ s.active = some i) := by
  have hset (j : Nat) (runj : Run) (pc : Pc) (hj : s.runs[j]? = some runj)
      (hruns : s'.runs = s.runs.set j { runj with pc })
      (hdone : pc = .done → a = .iterate ∧ s.active = some j) :
      ∃ pc, s'.runs[i]? = some { run with pc } ∧
        (pc = .done → run.pc = .done ∨ a = .iterate ∧ s.active = some i) := by
    by_cases hij : j = i
    · subst hij
      obtain rfl := Option.some.inj (hj.symm.trans hr)
      refine ⟨pc, ?_, fun hpc => .inr (hdone hpc)⟩
      rw [hruns, List.getElem?_set_self (List.getElem?_eq_some_iff.mp hr).1]
    · refine ⟨run.pc, ?_, .inl⟩
      rw [hruns, List.getElem?_set_ne hij]
      exact hr
  obtain ⟨-, ⟨fileData, -, -, rfl⟩ | ⟨j, runj, -, -, hj, h⟩ | ⟨j, runj, rfl, hactive, hj, h⟩⟩ := syncStep_cases h
  · refine ⟨run.pc, ?_, .inl⟩
    rw [List.getElem?_append_left (List.getElem?_eq_some_iff.mp hr).1]
    exact hr
  · obtain ⟨pc, hpc, hruns⟩ := resumeRun_runs h
    exact hset j runj pc hj hruns (fun hdone => absurd hdone hpc)
  · obtain ⟨pc, hruns⟩ := iterateRun_runs hj h
    exact hset j runj pc hj hruns (fun _ => ⟨rfl, hactive⟩)

theorem length_runs_step {a : SyncStep} (h : syncStep layout XXH64 s a = some s') :
    s'.runs.length = s.runs.length + a.fileData?.toList.length := by
  have := congrArg List.length (fileData_step h)
  rwa [List.length_append, List.length_map, List.length_map] at this

end Runs

/-- What a message does to the calls: nothing, or it returns the one that it responds to. -/
theorem message_effect {r r' : Rpc} {message : Json} (hm : Matched r) (hlt : r.requests.length < 2^53)
    (h : rpcStep r (.message message) = some r') :
    Matched r' ∧ r'.requests = r.requests ∧
      ((r'.invoked = r.invoked ∧ r'.pendingRequests = r.pendingRequests) ∨
      ∃ handler, respondsTo handler message = true ∧ r'.invoked = r.invoked ++ [(handler, message)] ∧
        ∀ other ∈ r.pendingRequests.map PendingRequest.handler, other ≠ handler →
          other ∈ r'.pendingRequests.map PendingRequest.handler) := by
  refine ⟨matched_step r (.message message) r' hm hlt h, ?_⟩
  obtain ⟨_, _, h0, -⟩ | ⟨_, h0, -, hok | ⟨-, rfl⟩⟩ := rpcStep_cases h
  · cases h0
  · obtain rfl := RpcStep.message.inj h0
    have hpending := (handleMessage_effect hm hlt hok).1
    obtain rfl | ⟨-, idPos, id, before, entry, after, -, -, -, hl, rfl⟩ := handleMessage_cases hok
    · exact ⟨rfl, .inl ⟨rfl, rfl⟩⟩
    · refine ⟨rfl, .inr ⟨entry.handler, ?_, rfl, ?_⟩⟩
      · have hnodup := (List.nodup_append.mp hm.once).1
        rw [hl, List.map_append, List.map_cons, List.nodup_middle, List.nodup_cons, ← List.map_append] at hnodup
        by_contra hnot
        exact hnodup.1 ((hpending entry.handler).mpr ⟨by simp [hl], by simpa using hnot⟩)
      · intro other hmem hne
        rw [hl] at hmem
        simp only [List.map_append, List.map_cons, List.mem_append, List.mem_cons] at hmem ⊢
        tauto
  · exact ⟨rfl, .inl ⟨rfl, rfl⟩⟩

/-- The completer's lists have an entry for each run and for each call, of which there are at most so many. -/
structure Aligned (n : Nat) (c : ClangdCompleter) : Prop where
  length_after : c.after.length = c.syncs.runs.length
  length_awaiting : c.awaiting.length = c.rpc.requests.length
  matched : Matched c.rpc
  few : c.rpc.requests.length ≤ n

/-- A step keeps that, and what the requests await but for what is met. -/
structure Goes (text : LineText) (n : Nat) (met : Awaited → Prop) (c : ClangdCompleter) (s' : Server) : Prop where
  aligned : ∀ c', s'.clangdCompleter = some c' → Aligned n c'
  awaits : ∀ req awaited, Waits text c req awaited → ¬ met awaited → Awaits text s' req awaited

def nothing (_ : Awaited) : Prop := False

section Completer
variable {layout : Layout} {XXH64 : String → UInt64} {text : LineText} {n : Nat} {c c' : ClangdCompleter}
  {s s' : Server} {req : SimpleRequest} {i handler : Nat} {met : Awaited → Prop}

theorem Aligned.mono (h : Aligned n c) : Aligned (n + 1) c :=
  ⟨h.length_after, h.length_awaiting, h.matched, Nat.le_succ_of_le h.few⟩

theorem aligned_empty (n : Nat) : Aligned n {} :=
  ⟨rfl, rfl, ⟨rfl, by simp, by simp, by simp, by simp⟩, Nat.zero_le n⟩

theorem goes_of_completer (hs : s'.clangdCompleter = some c') (h : Aligned n c')
    (hawaits : ∀ req awaited, Waits text c req awaited → ¬ met awaited → Waits text c' req awaited) :
    Goes text n met c s' where
  aligned := by
    intro c'' hc''
    exact Option.some.inj (hs.symm.trans hc'') ▸ h
  awaits := fun req awaited hw hnot => ⟨c', hs, hawaits req awaited hw hnot⟩

theorem Goes.self (h : Aligned n c) (hs : s'.clangdCompleter = some c) : Goes text n met c s' :=
  goes_of_completer hs h (fun _ _ hw _ => hw)

theorem Goes.mono (h : Goes text n met c s') : Goes text (n + 1) met c s' :=
  ⟨fun c' hc' => (h.aligned c' hc').mono, h.awaits⟩

/-- What the requests await does not depend on the rest of the completer. -/
theorem Goes.of_waits (h : Goes text n met c' s')
    (hwaits : ∀ req awaited, Waits text c req awaited → Waits text c' req awaited) : Goes text n met c s' :=
  ⟨h.aligned, fun req awaited hw hnot => h.awaits req awaited (hwaits req awaited hw) hnot⟩

theorem RunUnderway.lt (h : RunUnderway c i req) : i < c.after.length := (List.getElem?_eq_some_iff.mp h.1).1

theorem CallPending.lt (h : CallPending text c handler req) (hc : Aligned n c) : handler < c.awaiting.length := by
  obtain ⟨entry, hentry, rfl⟩ := List.mem_map.mp h.1
  rw [hc.length_awaiting]
  exact (hc.matched.pending entry hentry).2

/-- A run that a request awaits goes on being awaited until it has ended. -/
theorem RunUnderway.step {a : SyncStep} {syncs : Syncs} (h : RunUnderway c i req)
    (hstep : syncStep layout XXH64 c.syncs a = some syncs)
    (hgoes : ∀ run, syncs.runs[i]? = some run → run.pc = .done → ¬ (a = .iterate ∧ c.syncs.active = some i))
    {after : List (Option SimpleRequest)} (hafter : after[i]? = c.after[i]?) :
    RunUnderway { c with syncs, after } i req := by
  obtain ⟨hreq, run, hr, hfiles, hpc⟩ := h
  obtain ⟨pc, hr', hdone⟩ := run_step hstep hr
  refine ⟨hafter.trans hreq, _, hr', hfiles, fun hpc' => ?_⟩
  rcases hdone hpc' with h | h
  · exact hpc h
  · exact hgoes _ hr' hpc' h

theorem Waits.withRpc {awaited : Awaited} (h : Waits text c req awaited) {rpc : Rpc}
    (hrequests : rpc.requests = c.rpc.requests)
    (hpending : ∀ handler ∈ c.rpc.pendingRequests.map PendingRequest.handler, awaited = .response handler →
      handler ∈ rpc.pendingRequests.map PendingRequest.handler) :
    Waits text { c with rpc } req awaited := by
  cases awaited with
  | syncFiles i => exact h
  | response handler =>
    obtain ⟨hmem, message, hmessage, hasks⟩ := h
    exact ⟨hpending handler hmem rfl, message, hrequests ▸ hmessage, hasks⟩

theorem goes_startSync (hc : Aligned n c) {fileData : FileDataMap} {after : Option SimpleRequest}
    (h : startSync layout XXH64 s c fileData after = some s') :
    Goes text n nothing c s' ∧
      ∀ req, after = some req → req.fileData = fileData → Awaits text s' req (.syncFiles c.syncs.runs.length) := by
  obtain ⟨syncs, hstep, rfl⟩ := Option.map_eq_some_iff.mp h
  have hlength : syncs.runs.length = c.syncs.runs.length + 1 := length_runs_step hstep
  constructor
  · refine goes_of_completer rfl ⟨?_, hc.length_awaiting, hc.matched, hc.few⟩ ?_
    · rw [List.length_append, List.length_singleton, hlength, hc.length_after]
    · intro req awaited hw _
      cases awaited with
      | syncFiles i =>
        have hw : RunUnderway c i req := hw
        exact hw.step hstep (by simp) (List.getElem?_append_left hw.lt)
      | response handler => exact hw
  · rintro req rfl rfl
    refine ⟨_, rfl, ?_, ?_⟩
    · rw [← hc.length_after]
      exact List.getElem?_concat_length
    · obtain ⟨-, ⟨fileData, heq, -, rfl⟩ | ⟨_, _, heq, -⟩ | ⟨_, _, heq, -⟩⟩ := syncStep_cases hstep
      · obtain rfl := SyncStep.start.inj heq
        exact ⟨_, List.getElem?_concat_length, rfl, Pc.noConfusion⟩
      · cases heq
      · cases heq

theorem goes_handleFileEvent (hc : Aligned n c) {req : EventNotification}
    (h : handleFileEvent layout XXH64 s c req = some s') : Goes text n nothing c s' := by
  unfold handleFileEvent at h
  split at h
  · split at h
    · exact (goes_startSync hc h).1
    · exact Option.some.inj h ▸ .self hc rfl
  · exact Option.some.inj h ▸ .self hc rfl

/-- A call, with the number of those before it. -/
theorem goes_call (hc : Aligned n c) (hn : n + 1 < 2^53) (method : String) (payload : Json) (k : Continuation) :
    Goes text (n + 1) nothing c (call s c method payload k) := by
  have hfew := hc.few
  refine goes_of_completer rfl ⟨hc.length_after, ?_, hc.matched.getResponse (by omega) method payload, ?_⟩ ?_
  · simp [getResponse, hc.length_awaiting]
  · simpa [getResponse] using hfew
  · intro req awaited hw _
    cases awaited with
    | syncFiles i => exact hw
    | response handler =>
      obtain ⟨hmem, message, hmessage, hasks⟩ := hw
      refine ⟨?_, message, ?_, hasks⟩
      · simp only [getResponse, List.map_append, List.mem_append]
        exact .inl hmem
      · exact (List.getElem?_append_left (List.getElem?_eq_some_iff.mp hmessage).1).trans hmessage

theorem awaits_call (hc : Aligned n c) (req : SimpleRequest) :
    Awaits text (call s c "textDocument/completion" (completionParams text req) .computeCandidates) req
      (.response c.awaiting.length) := by
  refine ⟨_, rfl, ?_, requestFor c.rpc _ (completionParams text req), ?_, requestFor_method _ _ _, rfl⟩
  · simp [getResponse, newEntry, hc.length_awaiting]
  · rw [hc.length_awaiting]
    exact List.getElem?_concat_length

theorem rpc_handleFileEvent {req : EventNotification} (h : handleFileEvent layout XXH64 s c req = some s') :
    ∃ c', s'.clangdCompleter = some c' ∧ c'.rpc = c.rpc := by
  unfold handleFileEvent at h
  split at h
  · split at h
    · obtain ⟨syncs, -, rfl⟩ := Option.map_eq_some_iff.mp h
      exact ⟨_, rfl, rfl⟩
    · exact Option.some.inj h ▸ ⟨c, rfl, rfl⟩
  · exact Option.some.inj h ▸ ⟨c, rfl, rfl⟩

theorem goes_resumeInit (text : LineText) (hc : Aligned n c) {req : EventNotification} {message : Json}
    (h : resumeInit layout XXH64 s c req message = some s') :
    Goes text n nothing c s' ∧ ∃ c', s'.clangdCompleter = some c' ∧ c'.rpc = c.rpc := by
  unfold resumeInit at h
  split at h
  · exact Option.some.inj h ▸ ⟨.self hc rfl, c, rfl, rfl⟩
  · split at h
    · exact ⟨goes_handleFileEvent hc h, rpc_handleFileEvent h⟩
    · split at h
      · exact ⟨goes_handleFileEvent hc h, rpc_handleFileEvent h⟩
      · have hc' : Aligned n { c with initialised := true } := ⟨hc.length_after, hc.length_awaiting, hc.matched, hc.few⟩
        have hgoes : Goes text n nothing { c with initialised := true } s' := goes_handleFileEvent hc' h
        obtain ⟨c', hc'', hrpc⟩ := rpc_handleFileEvent h
        refine ⟨hgoes.of_waits (fun req awaited hw => ?_), c', hc'', hrpc⟩
        cases awaited <;> exact hw

theorem goes_init (hc : Aligned n c) (hn : n + 1 < 2^53) {req : EventNotification} {env : Environment}
    (h : init layout XXH64 s c req env = some s') : Goes text (n + 1) nothing c s' := by
  unfold init at h
  split at h
  · exact Option.some.inj h ▸ .self hc.mono rfl
  · split at h
    · exact (goes_handleFileEvent hc h).mono
    · split at h
      · have hc' : Aligned n { c with rpc := { c.rpc with pumping := true } } :=
          ⟨hc.length_after, hc.length_awaiting,
            ⟨hc.matched.nextId, hc.matched.pending, hc.matched.once, hc.matched.invoked, hc.matched.requests⟩, hc.few⟩
        have hgoes : Goes text (n + 1) nothing { c with rpc := { c.rpc with pumping := true } } s' :=
          Option.some.inj h ▸ goes_call hc' hn "initialize" (initializeParams env.pid) (.init req)
        refine hgoes.of_waits (fun req awaited hw => ?_)
        cases awaited <;> exact hw
      · exact Option.some.inj h ▸ .self hc.mono rfl

end Completer

/-- What a step of the server keeps. -/
structure Proceeds (text : LineText) (n : Nat) (met : Awaited → Prop) (s s' : Server) : Prop where
  aligned : ∀ c, s'.clangdCompleter = some c → Aligned n c
  awaits : ∀ req awaited, Awaits text s req awaited → ¬ met awaited → Awaits text s' req awaited

section Server
variable {layout : Layout} {XXH64 : String → UInt64} {text : LineText} {n : Nat} {c : ClangdCompleter}
  {s s' : Server} {req : SimpleRequest} {met : Awaited → Prop}

theorem Goes.proceeds (h : Goes text n met c s') (hs : s.clangdCompleter = some c) : Proceeds text n met s s' where
  aligned := h.aligned
  awaits := by
    rintro req awaited ⟨c', hc', hw⟩ hnot
    obtain rfl := Option.some.inj (hs.symm.trans hc')
    exact h.awaits req awaited hw hnot

/-- Before there is a completer nothing is awaited. -/
theorem Goes.proceeds_none (h : Goes text n met c s') (hs : s.clangdCompleter = none) : Proceeds text n met s s' where
  aligned := h.aligned
  awaits := by
    rintro req awaited ⟨c', hc', -⟩
    simp [hs] at hc'

theorem Proceeds.self (h : ∀ c, s.clangdCompleter = some c → Aligned n c)
    (hs : s'.clangdCompleter = s.clangdCompleter) : Proceeds text n met s s' :=
  ⟨fun c hc => h c (hs.symm.trans hc), fun _ _ hw _ => by rwa [Awaits, hs]⟩

theorem Proceeds.mono (h : Proceeds text n met s s') : Proceeds text (n + 1) met s s' :=
  ⟨fun c hc => (h.aligned c hc).mono, h.awaits⟩

theorem proceeds_handleEventNotification (hs : ∀ c, s.clangdCompleter = some c → Aligned n c) (hn : n + 1 < 2^53)
    {req : EventNotification} {env : Environment} (h : handleEventNotification layout XXH64 s req env = some s') :
    Proceeds text (n + 1) nothing s s' := by
  have hsame {s' : Server} (heq : s'.clangdCompleter = s.clangdCompleter) : Proceeds text (n + 1) nothing s s' :=
    (Proceeds.self hs heq).mono
  unfold handleEventNotification at h
  split at h
  · exact Option.some.inj h ▸ hsame rfl
  · exact Option.some.inj h ▸ hsame rfl
  · split at h
    · next c hc => exact ((goes_handleFileEvent (hs c hc) h).proceeds hc).mono
    · next hnone =>
      split at h
      · exact (goes_init (aligned_empty n) hn h).proceeds_none hnone
      · exact Option.some.inj h ▸ hsame rfl
  · exact Option.some.inj h ▸ hsame rfl

theorem proceeds_handleCompletions (hs : ∀ c, s.clangdCompleter = some c → Aligned n c) {req : CompletionRequest}
    (h : handleCompletions layout XXH64 text s req = some s') : Proceeds text n nothing s s' := by
  unfold handleCompletions at h
  split at h
  · exact Option.some.inj h ▸ .self hs rfl
  · exact Option.some.inj h ▸ .self hs rfl
  · simp only at h
    split at h
    · exact Option.some.inj h ▸ .self hs rfl
    · exact Option.some.inj h ▸ .self hs rfl
    · split at h
      · exact Option.some.inj h ▸ .self hs rfl
      · next c hc =>
        split at h
        · exact Option.some.inj h ▸ .self hs rfl
        · exact (goes_startSync (hs c hc) h).1.proceeds hc
    · exact Option.some.inj h ▸ .self hs rfl

/-- The pump handles a message, and calls at most one handler. -/
theorem proceeds_handleServerMessage (text : LineText) (hs : s.clangdCompleter = some c) (hc : Aligned n c)
    (hn : n < 2^53) {message : Json} (h : handleServerMessage layout XXH64 s c message = some s') :
    (invokedBy s s' = none ∧ Proceeds text n nothing s s') ∨
    ∃ handler, invokedBy s s' = some handler ∧ Proceeds text n (· = .response handler) s s' ∧
      respondsTo handler message = true := by
  obtain ⟨rpc, hstep, h⟩ := Option.bind_eq_some_iff.mp h
  have hfew := hc.few
  obtain ⟨hmatched, hrequests, ⟨hinvoked, hpending⟩ | ⟨handler, hresponds, hinvoked, hpending⟩⟩ :=
    message_effect hc.matched (by omega) hstep
  all_goals have hc' : Aligned n { c with rpc } :=
    ⟨hc.length_after, hc.length_awaiting.trans (congrArg _ hrequests.symm), hmatched, hrequests ▸ hfew⟩
  · simp only [hinvoked, List.drop_length] at h
    refine Option.some.inj h ▸ .inl ⟨by simp [invokedBy, hs, hinvoked], (goes_of_completer rfl hc' ?_).proceeds hs⟩
    exact fun req awaited hw _ => hw.withRpc hrequests (fun handler hmem _ => hpending ▸ hmem)
  · have hkept : ∀ req awaited, Waits text c req awaited → awaited ≠ .response handler →
        Waits text { c with rpc } req awaited := by
      intro req awaited hw hnot
      exact hw.withRpc hrequests (fun other hmem heq => hpending other hmem (fun h => hnot (h ▸ heq)))
    simp only [hinvoked, List.drop_left] at h
    right
    split at h
    · obtain ⟨hgoes, c', hc'', hrpc⟩ := goes_resumeInit text hc' h
      refine ⟨handler, by simp [invokedBy, hs, hc'', hrpc, hinvoked], Goes.proceeds ⟨hgoes.aligned, ?_⟩ hs, hresponds⟩
      exact fun req awaited hw hnot => hgoes.awaits req awaited (hkept req awaited hw hnot) (fun h => h)
    · obtain rfl := Option.some.inj h
      exact ⟨handler, by simp [invokedBy, hs, hinvoked], (goes_of_completer rfl hc' hkept).proceeds hs, hresponds⟩

/-- A step of the run that executes may end it. -/
theorem proceeds_iterateSync (hs : s.clangdCompleter = some c) (hc : Aligned n c) (hn : n + 1 < 2^53)
    (h : iterateSync layout XXH64 text s c = some s') :
    (calledBy s s' = none ∧ Proceeds text n nothing s s') ∨
    ∃ run, calledBy s s' = some (run, c.awaiting.length) ∧ Proceeds text (n + 1) (· = .syncFiles run) s s' ∧
      ∀ req, Awaits text s req (.syncFiles run) → Awaits text s' req (.response c.awaiting.length) := by
  obtain ⟨syncs, hstep, h⟩ := Option.map_eq_some_iff.mp h
  have hlength : syncs.runs.length = c.syncs.runs.length := length_runs_step hstep
  have hc' : Aligned n { c with syncs } := ⟨hc.length_after.trans hlength.symm, hc.length_awaiting, hc.matched, hc.few⟩
  simp only at h
  split at h
  · next req heq =>
    obtain ⟨i, hactive, heq⟩ := Option.bind_eq_some_iff.mp heq
    obtain ⟨run, hr, heq⟩ := Option.bind_eq_some_iff.mp heq
    split at heq
    · next hdone =>
      right
      refine ⟨i, ?_, ?_, ?_⟩
      · rw [← h]
        simp [calledBy, hs, hactive, call]
      · have hgoes : Goes text (n + 1) nothing { c with syncs } s' :=
          h ▸ goes_call hc' hn "textDocument/completion" (completionParams text req) .computeCandidates
        refine Goes.proceeds ⟨hgoes.aligned, fun req awaited hw hnot => hgoes.awaits req awaited ?_ (fun h => h)⟩ hs
        cases awaited with
        | syncFiles j =>
          have hw : RunUnderway c j req := hw
          refine hw.step hstep (fun _ _ _ hj => hnot ?_) rfl
          rw [Option.some.inj (hactive.symm.trans hj.2)]
        | response handler => exact hw
      · rintro req' ⟨c', hc'', hreq, -⟩
        obtain rfl := Option.some.inj (hs.symm.trans hc'')
        obtain rfl := Option.some.inj (Option.some.inj (hreq.symm.trans heq))
        exact h ▸ awaits_call hc' req'
    · cases heq
  · next hnot =>
    left
    refine ⟨by rw [← h]; simp [calledBy, hs, withSyncs], ?_⟩
    refine h ▸ (goes_of_completer rfl hc' ?_).proceeds hs
    intro req awaited hw _
    cases awaited with
    | syncFiles i =>
      have hw : RunUnderway c i req := hw
      refine hw.step hstep (fun run hr hpc hi => hnot req ?_) rfl
      simp [hi.2, hr, hpc, hw.1]
    | response handler => exact hw

theorem proceeds_resume (hs : s.clangdCompleter = some c) (hc : Aligned n c) {i : Nat} {syncs : Syncs}
    (hstep : syncStep layout XXH64 c.syncs (.resume i) = some syncs) :
    Proceeds text n nothing s (withSyncs s c syncs) := by
  have hlength : syncs.runs.length = c.syncs.runs.length := length_runs_step hstep
  have hc' : Aligned n { c with syncs } := ⟨hc.length_after.trans hlength.symm, hc.length_awaiting, hc.matched, hc.few⟩
  refine (goes_of_completer rfl hc' ?_).proceeds hs
  intro req awaited hw _
  cases awaited with
  | syncFiles i =>
    have hw : RunUnderway c i req := hw
    exact hw.step hstep (by simp) rfl
  | response handler => exact hw

end Server

section Completions
variable {layout : Layout} {XXH64 : String → UInt64} {env : Core.Environment} {classes : CharacterClasses}
  {text : TextLibrary} {s s' : Server} {req : CompletionRequest} {force : Bool}

/-- A request that suspends has got past the check of its query, to a completer that is initialised. -/
theorem suspends_iff : suspends classes text s req = some force ↔ forceSemantic req = .ok force ∧
    (∃ options, queryGate (requestText text classes) s.userOptions req = .ok (true, options)) ∧
    completerForRequest req.toSimpleRequest = .ok .clangd ∧
    ∃ c, s.clangdCompleter = some c ∧ c.initialised = true := by
  unfold suspends
  constructor
  · intro h
    split at h
    · next force' options c hforce hgate hkind hc =>
      split at h
      · next hi =>
        obtain rfl := Option.some.inj h
        exact ⟨hforce, ⟨options, hgate⟩, hkind, c, hc, hi⟩
      · cases h
    · cases h
  · rintro ⟨hforce, ⟨options, hgate⟩, hkind, c, hc, hi⟩
    simp [hforce, hgate, hkind, hc, hi]

/-- It awaits the run that it starts. -/
theorem awaits_handleCompletions {n : Nat} (hs : ∀ c, s.clangdCompleter = some c → Aligned n c)
    (hsuspends : suspends classes text s req = some force)
    (h : Ycmd.handleCompletions layout XXH64 (requestText text classes) s req = some s') :
    Awaits (requestText text classes) s' req.toSimpleRequest (.syncFiles (nextRun s)) := by
  obtain ⟨-, ⟨options, hgate⟩, hkind, c, hc, hi⟩ := suspends_iff.mp hsuspends
  simp only [Ycmd.handleCompletions, hgate, hkind, hc, hi, Bool.not_true, Bool.false_eq_true, if_false] at h
  have hstarted : Awaits (requestText text classes) s' req.toSimpleRequest (.syncFiles c.syncs.runs.length) :=
    (goes_startSync (hs c hc) h).2 req.toSimpleRequest rfl rfl
  simpa [nextRun, hc] using hstarted

/-- What a request is answered with when clangd has answered does not depend on the suspension. -/
theorem resumeCompletions_eq (hsuspends : suspends classes text s req = some force)
    (laterOptions responseMessage : Json) :
    resumeCompletions env classes text laterOptions req force responseMessage =
      Completions.handleCompletions env classes text s.userOptions laterOptions req (.answered responseMessage) := by
  obtain ⟨hforce, ⟨options, hgate⟩, hkind, -⟩ := suspends_iff.mp hsuspends
  unfold resumeCompletions Completions.handleCompletions computeCandidatesSemantic
  rw [hforce, hgate, hkind]
  rfl

end Completions

section Process
variable {layout : Layout} {XXH64 : String → UInt64} {env : Core.Environment} {classes : CharacterClasses}
  {text : TextLibrary} {schedule : List ProcessStep} {p p' : Process} {a : ProcessStep} {number : Nat}
  {req : CompletionRequest}

theorem Requested.append (h : Requested layout XXH64 env classes text schedule number req p) (a : ProcessStep) :
    Requested layout XXH64 env classes text (schedule ++ [a]) number req p := by
  obtain ⟨before, after, rfl, hrun, hnumber⟩ := h
  exact ⟨before, after ++ [a], by simp, hrun, hnumber⟩

theorem Ended.append {result : Except (Interrupt ⊕ Failure) Json}
    (h : Ended layout XXH64 env classes text schedule number result) (a : ProcessStep) :
    Ended layout XXH64 env classes text (schedule ++ [a]) number result := by
  cases h with
  | atOnce hrequested hsuspends hstep => exact .atOnce (hrequested.append a) hsuspends hstep
  | @onResponse _ _ _ before after _ _ responseMessage hrequested hsuspends hschedule hrun hc hpending hresponds =>
    have hlater : schedule ++ [a] = before ++ .server (.message responseMessage) :: (after ++ [a]) := by
      rw [hschedule, List.append_assoc, List.cons_append]
    exact .onResponse hrequested hsuspends hlater hrun hc hpending hresponds

/-- The request that comes now. -/
theorem requested_last (hrun : (process layout XXH64 env classes text).run {} schedule = some p)
    (req : CompletionRequest) :
    Requested layout XXH64 env classes text (schedule ++ [.server (.completions req)]) p.requests req p :=
  ⟨schedule, [], rfl, hrun, rfl⟩

theorem Frame.resume_eq (run handler : Nat) (frame : Frame) :
    (frame.awaited = .syncFiles run ∧ frame.resume run handler = { frame with awaited := .response handler }) ∨
      frame.awaited ≠ .syncFiles run ∧ frame.resume run handler = frame := by
  by_cases h : frame.awaited = .syncFiles run
  · exact .inl ⟨h, if_pos (decide_eq_true h)⟩
  · exact .inr ⟨h, if_neg (by simpa [Frame.awaits] using h)⟩

/-- A step at which no request comes or ends. -/
theorem Attended.goOn (h : Attended layout XXH64 env classes text schedule p) (a : ProcessStep)
    (hrequests : p'.requests = p.requests) (hanswers : p'.answers = p.answers)
    {f : Frame → Frame} (hframes : p'.frames = p.frames.map f)
    (hf : ∀ frame, (f frame).number = frame.number ∧ (f frame).req = frame.req ∧
      (f frame).forceSemantic = frame.forceSemantic)
    (hapart : ((p.frames.map f).map Frame.awaited).Nodup)
    (hawaits : ∀ frame ∈ p.frames,
      Awaits (requestText text classes) p'.server frame.req.toSimpleRequest (f frame).awaited) :
    Attended layout XXH64 env classes text (schedule ++ [a]) p' where
  once := by
    have hnumbers : p.frames.map (Frame.number ∘ f) = p.frames.map Frame.number :=
      List.map_congr_left (fun frame _ => (hf frame).1)
    rw [hrequests, hanswers, hframes, List.map_map, hnumbers]
    exact h.once
  apart := hframes ▸ hapart
  ended := by
    rw [hanswers]
    exact fun answer hanswer => (h.ended answer hanswer).append a
  waits := by
    intro frame' hframe'
    rw [hframes] at hframe'
    obtain ⟨frame, hframe, rfl⟩ := List.mem_map.mp hframe'
    obtain ⟨⟨requested, hrequested, hsuspends⟩, -⟩ := h.waits frame hframe
    obtain ⟨hnumber, hreq, hforce⟩ := hf frame
    rw [hnumber, hreq, hforce]
    exact ⟨⟨requested, hrequested.append a, hsuspends⟩, hawaits frame hframe⟩

theorem Attended.same (h : Attended layout XXH64 env classes text schedule p) (a : ProcessStep)
    (hrequests : p'.requests = p.requests) (hanswers : p'.answers = p.answers) (hframes : p'.frames = p.frames)
    (hawaits : ∀ frame ∈ p.frames,
      Awaits (requestText text classes) p'.server frame.req.toSimpleRequest frame.awaited) :
    Attended layout XXH64 env classes text (schedule ++ [a]) p' := by
  refine h.goOn a hrequests hanswers (f := id) (hframes.trans (List.map_id _).symm) (fun _ => ⟨rfl, rfl, rfl⟩) ?_
    hawaits
  rw [List.map_id]
  exact h.apart

/-- A request that comes and suspends. -/
theorem Attended.begin (h : Attended layout XXH64 env classes text schedule p)
    (hrun : (process layout XXH64 env classes text).run {} schedule = some p) (frame : Frame)
    (hnumber : frame.number = p.requests)
    (hsuspends : suspends classes text p.server frame.req = some frame.forceSemantic)
    (hnew : frame.awaited ∉ p.frames.map Frame.awaited) (hrequests : p'.requests = p.requests + 1)
    (hanswers : p'.answers = p.answers) (hframes : p'.frames = p.frames ++ [frame])
    (hawaits : ∀ frame' ∈ p.frames,
      Awaits (requestText text classes) p'.server frame'.req.toSimpleRequest frame'.awaited)
    (hawaits' : Awaits (requestText text classes) p'.server frame.req.toSimpleRequest frame.awaited) :
    Attended layout XXH64 env classes text (schedule ++ [.server (.completions frame.req)]) p' where
  once := by
    rw [hrequests, hanswers, hframes, List.map_append, List.map_singleton, ← List.append_assoc, List.range_succ,
      hnumber]
    exact h.once.append_right _
  apart := by
    rw [hframes, List.map_append, List.map_singleton, ← List.concat_eq_append]
    exact h.apart.concat hnew
  ended := by
    rw [hanswers]
    exact fun answer hanswer => (h.ended answer hanswer).append _
  waits := by
    intro frame' hframe'
    rw [hframes, List.mem_append, List.mem_singleton] at hframe'
    rcases hframe' with hframe' | rfl
    · obtain ⟨⟨requested, hrequested, hsuspends⟩, -⟩ := h.waits frame' hframe'
      exact ⟨⟨requested, hrequested.append _, hsuspends⟩, hawaits frame' hframe'⟩
    · exact ⟨⟨p, hnumber ▸ requested_last hrun frame'.req, hsuspends⟩, hawaits'⟩

/-- A request that ends, which had not before. -/
theorem Attended.finish (h : Attended layout XXH64 env classes text schedule p) (a : ProcessStep)
    {result : Except (Interrupt ⊕ Failure) Json} (hanswers : p'.answers = p.answers ++ [(number, result)])
    (hframes : p'.frames.Sublist p.frames)
    (honce : (number :: (p.answers.map Prod.fst ++ p'.frames.map Frame.number)).Perm (List.range p'.requests))
    (hended : Ended layout XXH64 env classes text (schedule ++ [a]) number result)
    (hawaits : ∀ frame ∈ p'.frames,
      Awaits (requestText text classes) p'.server frame.req.toSimpleRequest frame.awaited) :
    Attended layout XXH64 env classes text (schedule ++ [a]) p' where
  once := by
    rw [hanswers, List.map_append, List.map_singleton, List.append_assoc, List.singleton_append]
    exact List.perm_middle.trans honce
  apart := h.apart.sublist (hframes.map _)
  ended := by
    intro answer hanswer
    rw [hanswers, List.mem_append, List.mem_singleton] at hanswer
    rcases hanswer with hanswer | rfl
    · exact (h.ended answer hanswer).append a
    · exact hended
  waits := by
    intro frame hframe
    obtain ⟨⟨requested, hrequested, hsuspends⟩, -⟩ := h.waits frame (hframes.subset hframe)
    exact ⟨⟨requested, hrequested.append a, hsuspends⟩, hawaits frame hframe⟩

/-- The request that awaits a call ends when clangd responds to it. -/
theorem Attended.answer (h : Attended layout XXH64 env classes text schedule p)
    (hrun : (process layout XXH64 env classes text).run {} schedule = some p) {server : Server} {frame : Frame}
    {before after : List Frame} {handler : Nat} {message : Json} (hl : p.frames = before ++ frame :: after)
    (hawaited : frame.awaited = .response handler) (hresponds : respondsTo handler message = true)
    (hoptions : server.userOptions = p.server.userOptions)
    (hawaits : ∀ frame ∈ p.frames, frame.awaited ≠ .response handler →
      Awaits (requestText text classes) server frame.req.toSimpleRequest frame.awaited) :
    Attended layout XXH64 env classes text (schedule ++ [.server (.message message)])
      ({ p with server, frames := before ++ after : Process }.finish frame.number
        (resumeCompletions env classes text server.userOptions frame.req frame.forceSemantic message)) := by
  have hsublist : (before ++ after).Sublist p.frames := by
    rw [hl]
    exact (List.sublist_cons_self _ _).append_left _
  obtain ⟨⟨requested, hrequested, hsuspends⟩, c, hc, hpending⟩ := h.waits frame (by simp [hl])
  rw [hawaited] at hpending
  refine h.finish _ rfl hsublist ?_ ?_ ?_
  · refine List.Perm.trans ?_ h.once
    simp only [Process.finish_frames, hl, List.map_append, List.map_cons]
    rw [← List.append_assoc, ← List.append_assoc]
    exact List.perm_middle.symm
  · rw [resumeCompletions_eq hsuspends, hoptions]
    exact .onResponse hrequested (by simp [hsuspends]) rfl hrun hc hpending hresponds
  · -- no other request awaits the same call
    intro frame' hframe'
    have hapart := h.apart
    rw [hl, List.map_append, List.map_cons, List.nodup_middle, List.nodup_cons, ← List.map_append, hawaited] at hapart
    exact hawaits frame' (hsublist.subset hframe') (fun heq => hapart.1 (heq ▸ List.mem_map_of_mem hframe'))

/-- The run that is started next is awaited by nothing. -/
theorem Awaits.ne_nextRun {n : Nat} {s : Server} {r : SimpleRequest} {awaited : Awaited}
    (h : Awaits (requestText text classes) s r awaited) (hs : ∀ c, s.clangdCompleter = some c → Aligned n c) :
    awaited ≠ .syncFiles (nextRun s) := by
  rintro rfl
  obtain ⟨c, hc, hw⟩ := h
  have hw : RunUnderway c (nextRun s) r := hw
  have hlt := hw.lt
  simp [nextRun, hc, (hs c hc).length_after] at hlt

/-- The call that is made next is awaited by nothing. -/
theorem Awaits.ne_nextCall {n : Nat} {s : Server} {c : ClangdCompleter} {r : SimpleRequest} {awaited : Awaited}
    (h : Awaits (requestText text classes) s r awaited) (hs : s.clangdCompleter = some c) (hc : Aligned n c) :
    awaited ≠ .response c.awaiting.length := by
  rintro rfl
  obtain ⟨c', hc', hw⟩ := h
  obtain rfl := Option.some.inj (hs.symm.trans hc')
  have hw : CallPending (requestText text classes) c c.awaiting.length r := hw
  exact Nat.lt_irrefl _ (hw.lt hc)

/-- The invariant of the process. -/
structure Attending (layout : Layout) (XXH64 : String → UInt64) (env : Core.Environment) (classes : CharacterClasses)
    (text : TextLibrary) (schedule : List ProcessStep) (p : Process) : Prop where
  attended : Attended layout XXH64 env classes text schedule p
  aligned : ∀ c, p.server.clangdCompleter = some c → Aligned schedule.length c

theorem Attending.awaits (h : Attending layout XXH64 env classes text schedule p) :
    ∀ frame ∈ p.frames, Awaits (requestText text classes) p.server frame.req.toSimpleRequest frame.awaited :=
  fun frame hframe => (h.attended.waits frame hframe).2

theorem Proceeds.aligned_append {text : LineText} {met : Awaited → Prop} {s s' : Server}
    (h : Proceeds text (schedule.length + 1) met s s') (a : ProcessStep) :
    ∀ c, s'.clangdCompleter = some c → Aligned (schedule ++ [a]).length c := by
  rw [List.length_append, List.length_singleton]
  exact h.aligned

/-- A step that no request sees. -/
theorem Attending.same (h : Attending layout XXH64 env classes text schedule p) (a : ProcessStep)
    (hproceeds : Proceeds (requestText text classes) (schedule.length + 1) nothing p.server p'.server)
    (hrequests : p'.requests = p.requests) (hanswers : p'.answers = p.answers) (hframes : p'.frames = p.frames) :
    Attending layout XXH64 env classes text (schedule ++ [a]) p' where
  attended := h.attended.same a hrequests hanswers hframes
    (fun frame hframe => hproceeds.awaits _ _ (h.awaits frame hframe) (fun h => h))
  aligned := hproceeds.aligned_append a

theorem attending_completions (h : Attending layout XXH64 env classes text schedule p)
    (hrun : (process layout XXH64 env classes text).run {} schedule = some p) {server : Server}
    (hstep : serverStep layout XXH64 (requestText text classes) p.server (.completions req) = some server)
    (hs : Ycmd.handleCompletions layout XXH64 (requestText text classes) p.server req = some server) :
    Attending layout XXH64 env classes text (schedule ++ [.server (.completions req)])
      (p.after env classes text server (.completions req)) := by
  have hproceeds := (proceeds_handleCompletions h.aligned hs).mono
  have hawaits : ∀ frame ∈ p.frames, Awaits (requestText text classes) server frame.req.toSimpleRequest frame.awaited :=
    fun frame hframe => hproceeds.awaits _ _ (h.awaits frame hframe) (fun h => h)
  have haligned := hproceeds.aligned_append (.server (.completions req))
  cases hsuspends : suspends classes text p.server req with
  | some force =>
    have hafter : p.after env classes text server (.completions req) = { p with
        server, requests := p.requests + 1
        frames := p.frames ++ [⟨p.requests, req, force, .syncFiles (nextRun p.server)⟩] } := by
      simp only [Process.after, hsuspends]
    rw [hafter]
    refine ⟨h.attended.begin hrun ⟨p.requests, req, force, .syncFiles (nextRun p.server)⟩ rfl hsuspends ?_ rfl rfl rfl
      hawaits (awaits_handleCompletions h.aligned hsuspends hs), haligned⟩
    intro hmem
    obtain ⟨frame, hframe, heq⟩ := List.mem_map.mp hmem
    exact (h.awaits frame hframe).ne_nextRun h.aligned heq
  | none =>
    have hafter : p.after env classes text server (.completions req) =
        { p with server, requests := p.requests + 1 : Process }.finish p.requests
          (Completions.handleCompletions env classes text p.server.userOptions server.userOptions req
            (clangdAnswer p.server)) := by
      simp only [Process.after, hsuspends]
    rw [hafter]
    refine ⟨h.attended.finish _ rfl (List.Sublist.refl _) ?_ ?_ hawaits, haligned⟩
    · rw [Process.finish_requests, Process.finish_frames, List.range_succ]
      exact (List.perm_append_singleton _ _).symm.trans (h.attended.once.append_right _)
    · exact .atOnce (requested_last hrun req) hsuspends hstep

theorem attending_message (h : Attending layout XXH64 env classes text schedule p)
    (hrun : (process layout XXH64 env classes text).run {} schedule = some p) (hn : schedule.length < 2^53)
    {server : Server} {c : ClangdCompleter} {message : Json} (hc : p.server.clangdCompleter = some c)
    (hs : handleServerMessage layout XXH64 p.server c message = some server) :
    Attending layout XXH64 env classes text (schedule ++ [.server (.message message)])
      (p.after env classes text server (.message message)) := by
  obtain ⟨hinvoked, hproceeds⟩ | ⟨handler, hinvoked, hproceeds, hresponds⟩ :=
    proceeds_handleServerMessage (requestText text classes) hc (h.aligned c hc) hn hs
  · have hafter : p.after env classes text server (.message message) = { p with server } := by
      simp only [Process.after, hinvoked]
    rw [hafter]
    exact h.same _ hproceeds.mono rfl rfl rfl
  · have haligned := hproceeds.mono.aligned_append (.server (.message message))
    have hawaits : ∀ frame ∈ p.frames, frame.awaited ≠ .response handler →
        Awaits (requestText text classes) server frame.req.toSimpleRequest frame.awaited :=
      fun frame hframe hne => hproceeds.awaits _ _ (h.awaits frame hframe) hne
    cases hfind : p.frames.find? (Frame.awaits (.response handler)) with
    | none =>
      have hafter : p.after env classes text server (.message message) = { p with server } := by
        simp only [Process.after, hinvoked, hfind]
      rw [hafter]
      refine ⟨h.attended.same _ rfl rfl rfl (fun frame hframe => hawaits frame hframe ?_), haligned⟩
      simpa [Frame.awaits] using List.find?_eq_none.mp hfind frame hframe
    | some frame =>
      obtain ⟨hawaited, before, after, hl, hbefore⟩ := List.find?_eq_some_iff_append.mp hfind
      have hawaited : frame.awaited = .response handler := by simpa [Frame.awaits] using hawaited
      have herase : p.frames.eraseP (Frame.awaits (.response handler)) = before ++ after := by
        rw [hl, List.eraseP_append_right _ (by simpa using hbefore),
          List.eraseP_cons_of_pos (by simpa [Frame.awaits] using hawaited)]
      have hafter : p.after env classes text server (.message message) =
          { p with server, frames := before ++ after : Process }.finish frame.number
            (resumeCompletions env classes text server.userOptions frame.req frame.forceSemantic message) := by
        simp only [Process.after, hinvoked, hfind, herase]
      rw [hafter]
      have hanswer := h.attended.answer hrun hl hawaited hresponds (userOptions_handleServerMessage hs) hawaits
      exact ⟨hanswer, haligned⟩

theorem attending_iterate (h : Attending layout XXH64 env classes text schedule p) (hn : schedule.length + 1 < 2^53)
    {server : Server} {c : ClangdCompleter} (hc : p.server.clangdCompleter = some c)
    (hs : iterateSync layout XXH64 (requestText text classes) p.server c = some server) :
    Attending layout XXH64 env classes text (schedule ++ [.server .iterate])
      (p.after env classes text server .iterate) := by
  obtain ⟨hcalled, hproceeds⟩ | ⟨run, hcalled, hproceeds, hgoesOn⟩ := proceeds_iterateSync hc (h.aligned c hc) hn hs
  · have hafter : p.after env classes text server .iterate = { p with server } := by
      simp only [Process.after, hcalled]
    rw [hafter]
    exact h.same _ hproceeds.mono rfl rfl rfl
  · have hafter : p.after env classes text server .iterate =
        { p with server, frames := p.frames.map (Frame.resume run c.awaiting.length) } := by
      simp only [Process.after, hcalled]
    rw [hafter]
    refine ⟨h.attended.goOn _ rfl rfl rfl (fun frame => ?_) ?_ (fun frame hframe => ?_), hproceeds.aligned_append _⟩
    · obtain ⟨-, heq⟩ | ⟨-, heq⟩ := frame.resume_eq run c.awaiting.length <;> rw [heq] <;> exact ⟨rfl, rfl, rfl⟩
    · -- the new call is none of those that are awaited
      rw [List.map_map]
      refine (List.nodup_map_iff_inj_on h.attended.apart.of_map).mpr ?_
      intro frame hframe frame' hframe' heq
      have hne := (h.awaits frame hframe).ne_nextCall hc (h.aligned c hc)
      have hne' := (h.awaits frame' hframe').ne_nextCall hc (h.aligned c hc)
      have hinj : frame.awaited = frame'.awaited → frame = frame' :=
        fun heq => List.inj_on_of_nodup_map h.attended.apart hframe hframe' heq
      obtain ⟨hrun, hresume⟩ | ⟨-, hresume⟩ := frame.resume_eq run c.awaiting.length <;>
        obtain ⟨hrun', hresume'⟩ | ⟨-, hresume'⟩ := frame'.resume_eq run c.awaiting.length <;>
        simp only [Function.comp, hresume, hresume'] at heq
      · exact hinj (hrun.trans hrun'.symm)
      · exact absurd heq.symm hne'
      · exact absurd heq hne
      · exact hinj heq
    · have hawaits := h.awaits frame hframe
      obtain ⟨hrun, heq⟩ | ⟨hrun, heq⟩ := frame.resume_eq run c.awaiting.length
      · rw [heq]
        exact hgoesOn _ (hrun ▸ hawaits)
      · rw [heq]
        exact hproceeds.awaits _ _ hawaits hrun

/-- The step lemma. -/
theorem attending_step (hrun : (process layout XXH64 env classes text).run {} schedule = some p)
    (h : Attending layout XXH64 env classes text schedule p) (hn : schedule.length + 1 < 2^53)
    (hstep : (process layout XXH64 env classes text).step p a = some p') :
    Attending layout XXH64 env classes text (schedule ++ [a]) p' := by
  replace hstep : processStep layout XXH64 env classes text p a = some p' := hstep
  unfold processStep at hstep
  split at hstep
  · cases hstep
  split at hstep
  · next step =>
    obtain ⟨server, hs, rfl⟩ := Option.map_eq_some_iff.mp hstep
    obtain ⟨-, -, ⟨userOptions, rfl, rfl⟩ | ⟨req, env', rfl, hs'⟩ | ⟨req, rfl, hs'⟩ | ⟨message, c, rfl, hc, hs'⟩ |
      ⟨i, c, syncs, rfl, hc, hsyncs, rfl⟩ | ⟨c, rfl, hc, hs'⟩⟩ := serverStep_cases hs
    · have hproceeds : Proceeds (requestText text classes) schedule.length nothing p.server
          { p.server with userOptions } := .self h.aligned rfl
      exact h.same _ hproceeds.mono rfl rfl rfl
    · exact h.same _ (proceeds_handleEventNotification h.aligned hn hs') rfl rfl rfl
    · exact attending_completions h hrun hs hs'
    · exact attending_message h hrun (by omega) hc hs'
    · exact h.same _ (proceeds_resume hc (h.aligned c hc) hsyncs).mono rfl rfl rfl
    · exact attending_iterate h hn hc hs'
  · split at hstep
    · cases hstep
    · exact Option.some.inj hstep ▸ h.same _ (Proceeds.self h.aligned rfl).mono rfl rfl rfl

/-- Over any interleaving of fewer than 2^53 steps each completion request is answered at most once, and with what
`handle_completions` makes of it: at once, or of the first response to a call for this very request. A request without
an answer waits, for a run of `sync_files` that has not ended or for a call that nothing has answered. -/
theorem completions_answered_once (layout : Layout) (XXH64 : String → UInt64) (env : Core.Environment)
    (classes : CharacterClasses) (text : TextLibrary) (schedule : List ProcessStep) (hlength : schedule.length < 2^53)
    {p : Process} (h : (process layout XXH64 env classes text).run {} schedule = some p) :
    Attended layout XXH64 env classes text schedule p := by
  have hattending : Attending layout XXH64 env classes text schedule p := by
    revert hlength
    refine (process layout XXH64 env classes text).run_history
      (P := fun schedule p => schedule.length < 2^53 → Attending layout XXH64 env classes text schedule p) ?_ ?_ h
    · exact fun _ => ⟨⟨.refl _, List.nodup_nil, by simp, by simp⟩, by simp⟩
    · intro schedule p a p' hrun ih hstep hlength
      rw [List.length_append, List.length_singleton] at hlength
      exact attending_step hrun (ih (by omega)) hlength hstep
  exact hattending.attended

/-- Clangd starts when a file is visited, and a completion in it is forced before clangd has been told of it. -/
def visitedThenForced : List ProcessStep :=
  let req : CompletionRequest := { completionAt (oneFile "int x;") with forceSemantic := some (.bool true) }
  [.server (.eventNotification { req with eventName := .bufferVisit }
      { pipes := true, searchPath := "/usr/bin/clangd", launched := true, pid := 1 }),
    .server (.message (.obj [("id", .int 0), ("jsonrpc", .str "2.0"), ("result", .obj [("capabilities", .obj [])])])),
    .server (.completions req), .server .iterate, .server (.resume 0), .server .iterate, .server .iterate,
    .server .iterate, .server (.message (.obj [("id", .int 1), ("jsonrpc", .str "2.0"), ("result", .arr [])]))]

theorem completions_answered_once_forced :
    ∃ p, (process atFront sampleHash IdentifierDatabase.letterEnvironment asciiClasses .leading).run {}
        visitedThenForced = some p ∧ p.requests = 1 ∧ p.frames.length = 0 ∧ p.answers.map Prod.fst = [0] ∧
      Attended atFront sampleHash IdentifierDatabase.letterEnvironment asciiClasses .leading visitedThenForced p :=
  ⟨_, rfl, rfl, rfl, rfl, completions_answered_once atFront sampleHash IdentifierDatabase.letterEnvironment asciiClasses
    .leading visitedThenForced (by decide) rfl⟩

end Process

end Ycmd
