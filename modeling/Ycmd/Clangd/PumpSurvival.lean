import Ycmd.Lsp.Protocol
import Ycmd.Clangd.Pump

/-! Which messages of a conforming server end the message pump. -/
namespace Ycmd.Clangd
open Lib Lsp Protocol

theorem isOk_of_isIntegerIn {low high : Int} {j : Json} (h : isIntegerIn low high j = true) :
    (fromJson j : Decode Int).isOk = true ∧ (fromJson j : Decode Nat).isOk = true := by
  cases j with
  | int n => exact ⟨rfl, rfl⟩
  | float x => exact ⟨rfl, rfl⟩
  | _ => cases h

theorem isOk_of_isString {j : Json} (h : isString j = true) : (fromJson j : Decode String).isOk = true := by
  cases j with
  | str s => rfl
  | _ => cases h

/-- A required member decodes unless its value is one of those the decoder rejects. -/
theorem fromMember_isOk_of_has {α : Type} [FromJson α] {j : Json} {key : String} {valid : Json → Bool}
    (rejected : Json → Bool) (h : has j key valid = true)
    (hv : ∀ v, valid v = true → (fromJson v : Decode α).isOk = !rejected v) :
    (fromMember j key : Decode α).isOk = !has j key rejected := by
  obtain ⟨v, hf, hvalid⟩ := has_iff.mp h
  rw [fromMember_isOk, has, hf, Option.any_some, Option.any_some, hv v hvalid]

/-- The same of a member that may be left out. -/
theorem fromOptionalMember_isOk_of_mayHave {α : Type} [FromJson α] {j : Json} {key : String}
    {valid : Json → Bool} (rejected : Json → Bool) (h : mayHave j key valid = true)
    (hv : ∀ v, valid v = true → (v.isNull || (fromJson v : Decode α).isOk) = !rejected v) :
    (fromOptionalMember j key : Decode (Option α)).isOk = !has j key rejected := by
  rw [fromOptionalMember_isOk, has]
  cases hf : j.find? key with
  | none => rfl
  | some v =>
    rw [mayHave, hf, Option.all_some] at h
    rw [Option.all_some, Option.any_some, hv v h]

theorem has_never (j : Json) (key : String) : has j key (fun _ => false) = false := by
  cases h : j.find? key <;> simp [has, h]

theorem fromMember_isOk_of_valid {α : Type} [FromJson α] {j : Json} {key : String} {valid : Json → Bool}
    (h : has j key valid = true) (hv : ∀ v, valid v = true → (fromJson v : Decode α).isOk = true) :
    (fromMember j key : Decode α).isOk = true := by
  rw [fromMember_isOk_of_has (fun _ => false) h hv, has_never, Bool.not_false]

theorem fromOptionalMember_isOk_of_valid {α : Type} [FromJson α] {j : Json} {key : String} {valid : Json → Bool}
    (h : mayHave j key valid = true) (hv : ∀ v, valid v = true → (fromJson v : Decode α).isOk = true) :
    (fromOptionalMember j key : Decode (Option α)).isOk = true := by
  rw [fromOptionalMember_isOk_of_mayHave (fun _ => false) h
    (fun v hvalid => by rw [hv v hvalid, Bool.or_true, Bool.not_false]), has_never, Bool.not_false]

theorem position_isOk {j : Json} (h : position j = true) : (fromJson j : Decode Position).isOk = true := by
  simp only [position, Bool.and_eq_true] at h
  have hline : (fromMember j "line" : Decode Nat).isOk = true :=
    fromMember_isOk_of_valid h.1 (fun v hv => (isOk_of_isIntegerIn hv).2)
  have hcharacter : (fromMember j "character" : Decode Nat).isOk = true :=
    fromMember_isOk_of_valid h.2 (fun v hv => (isOk_of_isIntegerIn hv).2)
  refine (isOk_bind fun line => isOk_bind (c := true) fun character => rfl).trans ?_
  rw [hline, hcharacter]
  rfl

theorem range_isOk {j : Json} (h : range j = true) : (fromJson j : Decode Range).isOk = true := by
  simp only [range, Bool.and_eq_true] at h
  have hstart : (fromMember j "start" : Decode Position).isOk = true :=
    fromMember_isOk_of_valid h.1 (fun v hv => position_isOk hv)
  have hend : (fromMember j "end" : Decode Position).isOk = true :=
    fromMember_isOk_of_valid h.2 (fun v hv => position_isOk hv)
  refine (isOk_bind fun start => isOk_bind (c := true) fun «end» => rfl).trans ?_
  rw [hstart, hend]
  rfl

/-- Of the optional members only the code can be of a type the decoder does not take. -/
theorem diagnostic_isOk {j : Json} (h : diagnostic j = true) :
    (fromJson j : Decode Diagnostic).isOk = !hasStringCode j := by
  simp only [diagnostic, Bool.and_eq_true] at h
  obtain ⟨⟨⟨⟨⟨⟨⟨hrange, hseverity⟩, hcode⟩, -⟩, hsource⟩, hmessage⟩, -⟩, -⟩ := h
  have hrange : (fromMember j "range" : Decode Range).isOk = true :=
    fromMember_isOk_of_valid hrange (fun v hv => range_isOk hv)
  have hseverity : (fromOptionalMember j "severity" : Decode (Option Int)).isOk = true :=
    fromOptionalMember_isOk_of_valid hseverity (fun v hv => (isOk_of_isIntegerIn hv).1)
  have hcode : (fromOptionalMember j "code" : Decode (Option Int)).isOk = !hasStringCode j := by
    apply fromOptionalMember_isOk_of_mayHave isString hcode
    intro v hv
    cases v with
    | int n => rfl
    | float x => rfl
    | str s => rfl
    | _ => cases hv
  have hsource : (fromOptionalMember j "source" : Decode (Option String)).isOk = true :=
    fromOptionalMember_isOk_of_valid hsource (fun v hv => isOk_of_isString hv)
  have hmessage : (fromMember j "message" : Decode String).isOk = true :=
    fromMember_isOk_of_valid hmessage (fun v hv => isOk_of_isString hv)
  refine (isOk_bind fun range => isOk_bind fun severity => isOk_bind fun code => isOk_bind fun source =>
    isOk_bind (c := true) fun message => rfl).trans ?_
  rw [hrange, hseverity, hcode, hsource, hmessage]
  simp

theorem diagnostics_isOk {j : Json} (h : isArrayOf diagnostic j = true) :
    (fromJson j : Decode (List Diagnostic)).isOk = !someArray hasStringCode j := by
  cases j with
  | arr elems =>
    have hall : ∀ d ∈ elems, diagnostic d = true := List.all_eq_true.mp h
    apply (mapM_isOk _ elems).trans
    rw [someArray, List.not_any_eq_all_not]
    rw [Bool.eq_iff_iff, List.all_eq_true, List.all_eq_true]
    exact forall₂_congr fun d hd => by rw [diagnostic_isOk (hall d hd)]
  | _ => cases h

theorem publishDiagnosticsParams_isOk {j : Json} (h : publishDiagnosticsParams j = true) :
    (fromJson j : Decode PublishDiagnosticsParams).isOk = !has j "diagnostics" (someArray hasStringCode) := by
  simp only [publishDiagnosticsParams, Bool.and_eq_true] at h
  obtain ⟨⟨huri, hversion⟩, hdiagnostics⟩ := h
  have huri : (fromMember j "uri" : Decode String).isOk = true :=
    fromMember_isOk_of_valid huri (fun v hv => isOk_of_isString hv)
  have hversion : (fromOptionalMember j "version" : Decode (Option Int)).isOk = true :=
    fromOptionalMember_isOk_of_valid hversion (fun v hv => (isOk_of_isIntegerIn hv).1)
  have hdiagnostics : (fromMember j "diagnostics" : Decode (List Diagnostic)).isOk = _ :=
    fromMember_isOk_of_has (someArray hasStringCode) hdiagnostics (fun v hv => diagnostics_isOk hv)
  refine (isOk_bind fun uri => isOk_bind fun version => isOk_bind (c := true) fun diagnostics => rfl).trans ?_
  rw [huri, hversion, hdiagnostics]
  simp

theorem jsonrpc_isOk {j : Json} (h : serverMessage j = true) : (fromJson j : Decode Message).isOk = true := by
  simp only [serverMessage, Bool.and_eq_true] at h
  have hjsonrpc : (fromMember j "jsonrpc" : Decode String).isOk = true := by
    apply fromMember_isOk_of_valid h.1
    intro v hv
    cases v with
    | str s => rfl
    | _ => cases hv
  exact (isOk_bind (c := true) fun jsonrpc => rfl).trans (by rw [hjsonrpc]; rfl)

/-- Reading the notification throws exactly when its parameters hold a string code. -/
theorem notification_isOk {j method : Json} (hj : serverMessage j = true) (hn : notification j = true)
    (hm : j.find? "method" = some method) (hp : publishDiagnostics method = true) :
    (fromJson j : Decode (NotificationMessage PublishDiagnosticsParams)).isOk = !publishesStringCode j := by
  simp only [notification, Bool.and_eq_true, Bool.or_eq_true, Bool.not_eq_true'] at hn
  obtain ⟨⟨⟨hmethod, hid⟩, -⟩, hparams⟩ := hn
  have hpublish : has j "method" publishDiagnostics = true := by rw [has, hm, Option.any_some, hp]
  replace hparams : has j "params" publishDiagnosticsParams = true := by simpa [hpublish] using hparams
  obtain ⟨params, hf, hvalid⟩ := has_iff.mp hparams
  have hbase := jsonrpc_isOk hj
  have hstring : (j.valueOr "method" "").isOk = true := by
    rw [has, hm, Option.any_some] at hmethod
    rw [Json.valueOr_of_find? _ hm]
    exact isOk_of_isString hmethod
  have hvalue : (j.valueOr "params" (none : Option PublishDiagnosticsParams)).isOk = !publishesStringCode j := by
    have hnull : params.isNull = false := by
      cases params with
      | null => cases hvalid
      | _ => rfl
    rw [Json.valueOr_of_find? _ hf, publishesStringCode, hpublish, hid, has, hf, Option.any_some,
      Bool.not_false, Bool.true_and, Bool.true_and, ← publishDiagnosticsParams_isOk hvalid]
    change (if params.isNull then .ok none else (fromJson params : Decode PublishDiagnosticsParams).map some).isOk = _
    rw [hnull]
    exact isOk_map _ _
  refine (isOk_bind fun base => isOk_bind fun method => isOk_bind (c := true) fun params => rfl).trans ?_
  rw [hbase, hstring, hvalue]
  simp

theorem handleMessage_notification (r : Rpc) {message : Json} {method : String}
    (hm : message.find? "method" = some (.str method)) (hi : message.find? "id" = none) :
    handleMessage r message = if method = "textDocument/publishDiagnostics" then
      (fromJson message : Decode (NotificationMessage PublishDiagnosticsParams)) >>= fun _ => pure r
      else pure r := by
  simp only [handleMessage, hm, hi]
  rfl

/-- The specification lemma of the pump on what a server may send. -/
theorem handleMessage_isOk (r : Rpc) {message : Json} (h : serverMessage message = true) :
    (handleMessage r message).isOk = !publishesStringCode message := by
  cases hm : message.find? "method" with
  | none =>
    have hnot : publishesStringCode message = false := by simp [publishesStringCode, has, hm]
    rw [hnot, handleMessage, hm]
    cases hi : message.find? "id" with
    | none => rfl
    | some idPos =>
      refine (isOk_bind (c := true) fun id => ?_).trans rfl
      cases r.pendingRequests.find? (fun entry => entry.id = id) <;> rfl
  | some messagePos =>
    have hvalid := h
    simp only [serverMessage, response, Json.contains, has, hm, Option.isSome_some, Bool.not_true,
      Bool.false_and, Bool.false_or, Bool.and_eq_true, Bool.or_eq_true] at hvalid
    obtain ⟨-, hvalid⟩ := hvalid
    have hstring : isString messagePos = true := by
      simp only [request, notification, has, hm, Option.any_some, Bool.and_eq_true] at hvalid
      tauto
    cases messagePos with
    | str method =>
      cases hi : message.find? "id" with
      | some idPos =>
        have hnot : publishesStringCode message = false := by
          simp [publishesStringCode, Json.contains, hi]
        rw [hnot, handleMessage, hm, hi]
        rfl
      | none =>
        rw [handleMessage_notification r hm hi]
        by_cases hmethod : method = "textDocument/publishDiagnostics"
        · have hn : notification message = true := by
            simpa [request, has, hi] using hvalid
          rw [if_pos hmethod, ← notification_isOk h hn hm (by simp [publishDiagnostics, hmethod])]
          exact (isOk_bind (c := true) fun _ => rfl).trans (Bool.and_true _)
        · have hnot : publishesStringCode message = false := by
            simp [publishesStringCode, has, hm, publishDiagnostics, hmethod]
          rw [if_neg hmethod, hnot]
          rfl
    | _ => cases hstring

/-- A message of a response reaches the first pending handler that waits for its id. -/
def Delivered (r r' : Rpc) (message : Json) : Prop :=
  ∀ idPos id entry, message.find? "method" = none → message.find? "id" = some idPos →
    (fromJson idPos : Decode ID) = .ok id → r.pendingRequests.find? (fun e => e.id = id) = some entry →
    r'.invoked = r.invoked ++ [(entry.handler, message)]

theorem delivered_step {r r' : Rpc} {message : Json} (h : rpc.step r (.message message) = some r') :
    Delivered r r' message := by
  intro idPos id entry hm hi hid he
  have hok : handleMessage r message = .ok { r with
      pendingRequests := r.pendingRequests.eraseP (fun e => e.id = id)
      invoked := r.invoked ++ [(entry.handler, message)] } := by
    simp only [handleMessage, hm, hi, hid, bind, Except.bind, he]
    rfl
  replace h : rpcStep r (.message message) = some r' := h
  simp only [rpcStep, hok] at h
  split at h
  · rw [← Option.some.inj h]
  · cases h

def RpcStep.fromServer : RpcStep → Bool
  | .getResponse _ _ => true
  | .message j => serverMessage j

def RpcStep.endsPump : RpcStep → Bool
  | .getResponse _ _ => false
  | .message j => publishesStringCode j

theorem pumping_step {r : Rpc} (hr : r.pumping = true) {a : RpcStep} (ha : a.fromServer = true) :
    ∃ r', rpc.step r a = some r' ∧ r'.pumping = !a.endsPump := by
  cases a with
  | getResponse method payload => exact ⟨_, rfl, hr⟩
  | message message =>
    have hok := handleMessage_isOk r ha
    change ∃ r', rpcStep r (.message message) = some r' ∧ r'.pumping = !publishesStringCode message
    rw [rpcStep, if_pos hr, ← hok]
    cases h : handleMessage r message with
    | error e => exact ⟨_, rfl, rfl⟩
    | ok r' =>
      refine ⟨r', rfl, ?_⟩
      obtain rfl | ⟨-, -, -, -, -, -, -, -, -, -, rfl⟩ := handleMessage_cases h <;> exact hr

/-- The run lemma: the pump is alive in every state exactly when no message ends it. -/
theorem pumping_states {r : Rpc} (hr : r.pumping = true) {schedule : List RpcStep}
    (hserver : ∀ a ∈ schedule, a.fromServer = true) :
    (∀ s ∈ rpc.states r schedule, s.pumping = true) ↔ ∀ a ∈ schedule, a.endsPump = false := by
  induction schedule generalizing r with
  | nil => simp [hr]
  | cons a schedule ih =>
    rw [List.forall_mem_cons] at hserver
    obtain ⟨r', hs, hr'⟩ := pumping_step hr hserver.1
    rw [rpc.states_cons hs, List.forall_mem_cons, List.forall_mem_cons]
    cases ha : a.endsPump with
    | false => simp [hr, ih (by rw [hr', ha, Bool.not_false]) hserver.2]
    | true =>
      have hdead : r'.pumping = false := by rw [hr', ha, Bool.not_true]
      have hmem := rpc.mem_states_self r' schedule
      constructor
      · intro h
        simpa [hdead] using h.2 r' hmem
      · intro h
        simp at h

/-- On any sequence of messages a conforming server may send, among any calls, the pump processes
every one and delivers every answer exactly when no diagnostic has a string for its code. -/
theorem pump_survives_iff (r : Rpc) (hr : r.pumping = true) (schedule : List RpcStep)
    (hserver : ∀ a ∈ schedule, a.fromServer = true) :
    ((∀ s ∈ rpc.states r schedule, s.pumping = true) ∧
      ∀ s message s', (s, .message message) ∈ rpc.steps r schedule →
        rpc.step s (.message message) = some s' → Delivered s s' message) ↔
    ∀ a ∈ schedule, a.endsPump = false := by
  rw [← pumping_states hr hserver]
  exact ⟨fun h => h.1, fun h => ⟨h, fun s message s' _ hs => delivered_step hs⟩⟩

def zeroRange : Json :=
  let position := Json.obj [("character", .int 0), ("line", .int 0)]
  .obj [("end", position), ("start", position)]

/-- What clangd publishes for a variable that is not used. -/
def unusedVariable : Json := .obj [("jsonrpc", .str "2.0"), ("method", .str "textDocument/publishDiagnostics"),
  ("params", .obj [("diagnostics", .arr [.obj [("code", .str "-Wunused-variable"), ("message", .str "Unused variable 'x'"),
    ("range", zeroRange), ("severity", .int 2), ("source", .str "clang")]]), ("uri", .str "file:///a.cpp")])]

def answerZero : Json := .obj [("id", .int 0), ("jsonrpc", .str "2.0"), ("result", .obj [("capabilities", .obj [])])]

def diagnosticBeforeAnswer : List RpcStep :=
  [.getResponse "initialize" .null, .message unusedVariable, .message answerZero]

theorem pump_survives_iff_diagnosticBeforeAnswer :
    ((∀ s ∈ rpc.states {} diagnosticBeforeAnswer, s.pumping = true) ∧
      ∀ s message s', (s, .message message) ∈ rpc.steps {} diagnosticBeforeAnswer →
        rpc.step s (.message message) = some s' → Delivered s s' message) ↔
    ∀ a ∈ diagnosticBeforeAnswer, a.endsPump = false :=
  pump_survives_iff {} rfl diagnosticBeforeAnswer (by decide)

/-- That diagnostic ends the pump, and the call that waits for the next message waits forever. -/
theorem string_code_ends_pump : (∀ a ∈ diagnosticBeforeAnswer, a.fromServer = true) ∧
    ∃ r, rpc.run {} (diagnosticBeforeAnswer.take 2) = some r ∧ r.pumping = false ∧
      r.pendingRequests.map PendingRequest.handler = [0] ∧ r.invoked = [] ∧
      rpc.step r (.message answerZero) = none :=
  ⟨by decide, _, rfl, rfl, rfl, rfl, rfl⟩

end Ycmd.Clangd
