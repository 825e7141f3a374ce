import Ycmd.Lib.Machine
import Ycmd.Lsp.Types
import Mathlib.Data.List.Nodup

/-! The two coroutines around `pending_requests`: `get_response`, which appends an entry and sends
the request, and `message_pump`, which completes entries. -/
namespace Ycmd.Clangd
open Lib Lsp

/-- The handler is named by the number of the call it resumes. -/
structure PendingRequest where
  id : ID
  handler : Nat

/-- `pumping` until an exception leaves the pump's loop. `requests` are the messages that the calls
have sent, and `invoked` the handlers called with what each was called with. -/
structure Rpc where
  nextId : Nat := 0
  pendingRequests : List PendingRequest := []
  pumping : Bool := true
  requests : List Json := []
  invoked : List (Nat × Json) := []

def newEntry (r : Rpc) : PendingRequest := { id := .inr r.nextId, handler := r.requests.length }

/-- What `lsp::send_request` sends for the new entry. -/
def requestFor (r : Rpc) (method : String) (payload : Json) : Json :=
  let request : RequestMessage Json := { id := (newEntry r).id, method, params := some payload }
  toJson request

/-- `get_response` up to its suspension. The request is formatted before the call returns: the
spawned coroutine runs inline until it awaits the write. -/
def getResponse (r : Rpc) (method : String) (payload : Json) : Rpc :=
  { r with
    nextId := Double.succ r.nextId
    pendingRequests := r.pendingRequests ++ [newEntry r]
    requests := r.requests ++ [requestFor r method payload] }

/-- The body of the pump's loop. -/
def handleMessage (r : Rpc) (message : Json) : Decode Rpc :=
  match message.find? "method" with
  | some messagePos => do
    let method : String ← fromJson messagePos
    match message.find? "id" with
    | some idPos => do
      let _id : ID ← fromJson idPos
      pure r
    | none =>
      if method = "textDocument/publishDiagnostics" then do
        let _msg : NotificationMessage PublishDiagnosticsParams ← fromJson message
        pure r
      else pure r
  | none => match message.find? "id" with
    | some idPos => do
      let id : ID ← fromJson idPos
      match r.pendingRequests.find? (fun entry => entry.id = id) with
      | none => pure r
      | some entry => pure { r with
          pendingRequests := r.pendingRequests.eraseP (fun entry => entry.id = id)
          invoked := r.invoked ++ [(entry.handler, message)] }
    | none => pure r

inductive RpcStep where
  | getResponse (method : String) (payload : Json)
  | message (message : Json)

/-- The pump is detached: an exception ends it and nothing restarts it. -/
def rpcStep (r : Rpc) : RpcStep → Option Rpc
  | .getResponse method payload => some (getResponse r method payload)
  | .message message =>
    if r.pumping then
      match handleMessage r message with
      | .ok r' => some r'
      | .error _ => some { r with pumping := false }
    else none

def rpc : Machine Rpc RpcStep := ⟨rpcStep⟩

def RpcStep.calls : RpcStep → Nat
  | .getResponse _ _ => 1
  | .message _ => 0

/-- The message completes one entry, which leaves the queue to the others. -/
def Completes (r r' : Rpc) (message : Json) : Prop :=
  ∃ before entry after, r.pendingRequests = before ++ entry :: after ∧
    r'.pendingRequests = before ++ after ∧ r'.invoked = r.invoked ++ [(entry.handler, message)]

/-- The message answers the request that the call with this handler sent. -/
def Answers (r : Rpc) (handler : Nat) (message : Json) : Prop :=
  message.find? "method" = none ∧
  ∃ request sent received id, r.requests[handler]? = some request ∧
    request.find? "id" = some sent ∧ message.find? "id" = some received ∧
    sent.number? = some id ∧ received.number? = some id

theorem getId (j : Json) : ∃ id, (fromJson j : Decode ID) = .ok id := ⟨_, rfl⟩

/-- Only a number decodes to a numeric id, and below 2^53 only the number itself does. -/
theorem number_of_id {j : Json} {k : Nat} (hk : k < 2^53) (h : (fromJson j : Decode ID) = .ok (.inr (k : Double))) :
    j.number? = some (k : Double) := by
  have h := Except.ok.inj h
  cases j with
  | int n =>
    have h : Double.ofInt n = k := Sum.inr.inj h
    have := Double.ofInt_eq_natCast hk h
    simp [Json.number?, this]
  | float x => exact congrArg some (Sum.inr.inj h)
  | _ => cases h

/-- What handling a message can do to the queue. -/
theorem handleMessage_cases {r r' : Rpc} {message : Json} (h : handleMessage r message = .ok r') :
    r' = r ∨ message.find? "method" = none ∧
      ∃ idPos id before entry after, message.find? "id" = some idPos ∧ (fromJson idPos : Decode ID) = .ok id ∧
        entry.id = id ∧ r.pendingRequests = before ++ entry :: after ∧
        r' = { r with
          pendingRequests := before ++ after
          invoked := r.invoked ++ [(entry.handler, message)] } := by
  unfold handleMessage at h
  cases hm : message.find? "method" with
  | some messagePos =>
    left
    simp only [hm] at h
    cases hmethod : (fromJson messagePos : Decode String) with
    | error e => simp [hmethod, bind, Except.bind] at h
    | ok method =>
      simp only [hmethod, bind, Except.bind] at h
      split at h
      · split at h
        · cases h
        · exact (Except.ok.inj h).symm
      · split at h
        · split at h
          · cases h
          · exact (Except.ok.inj h).symm
        · exact (Except.ok.inj h).symm
  | none =>
    simp only [hm] at h
    cases hi : message.find? "id" with
    | none => left; simpa [hi, pure, Except.pure] using h.symm
    | some idPos =>
      obtain ⟨id, hid⟩ := getId idPos
      simp only [hi, hid, bind, Except.bind] at h
      split at h
      · exact .inl (Except.ok.inj h).symm
      · next entry he =>
        obtain ⟨hp, before, after, hl, hb⟩ := List.find?_eq_some_iff_append.mp he
        refine .inr ⟨rfl, idPos, id, before, entry, after, rfl, hid, by simpa using hp, hl, ?_⟩
        rw [← Except.ok.inj h, hl, List.eraseP_append_right _ (by simpa using hb)]
        simp only [List.eraseP_cons, hp, cond_true]

/-- What each step is and what it leaves behind. -/
theorem rpcStep_cases {r r' : Rpc} {a : RpcStep} (h : rpcStep r a = some r') :
    (∃ method payload, a = .getResponse method payload ∧ r' = getResponse r method payload) ∨
    (∃ message, a = .message message ∧ r.pumping = true ∧
      ((handleMessage r message = .ok r') ∨
        (∃ e, handleMessage r message = .error e) ∧ r' = { r with pumping := false })) := by
  cases a with
  | getResponse method payload => exact .inl ⟨method, payload, rfl, by simpa [rpcStep] using h.symm⟩
  | message message =>
    simp only [rpcStep] at h
    split at h
    · next hp =>
      refine .inr ⟨message, rfl, hp, ?_⟩
      split at h
      · next r'' hr => exact .inl (Option.some.inj h ▸ hr)
      · next e he => exact .inr ⟨⟨e, he⟩, (Option.some.inj h).symm⟩
    · cases h

/-- The entries and the handlers called stand for the calls made, each for one of them, and the
id of a call is its number. -/
structure Matched (r : Rpc) : Prop where
  nextId : r.nextId = r.requests.length
  pending : ∀ entry ∈ r.pendingRequests, entry.id = .inr (entry.handler : Double) ∧ entry.handler < r.requests.length
  once : (r.pendingRequests.map PendingRequest.handler ++ r.invoked.map Prod.fst).Nodup
  invoked : ∀ p ∈ r.invoked, Answers r p.1 p.2
  requests : ∀ (k : Nat) (request : Json), r.requests[k]? = some request → request.find? "id" = some (.float k)

theorem requestFor_id (r : Rpc) (method : String) (payload : Json) :
    (requestFor r method payload).find? "id" = some (.float r.nextId) := by
  rfl

theorem requestFor_method (r : Rpc) (method : String) (payload : Json) :
    (requestFor r method payload).find? "method" = some (.str method) := by
  rfl

theorem Answers.handler_lt {r : Rpc} {handler : Nat} {message : Json} (h : Answers r handler message) :
    handler < r.requests.length := by
  obtain ⟨-, request, -, -, -, h, -⟩ := h
  exact (List.getElem?_eq_some_iff.mp h).1

theorem Answers.getResponse {r : Rpc} {handler : Nat} {message : Json} (h : Answers r handler message)
    (method : String) (payload : Json) : Answers (getResponse r method payload) handler message := by
  have hlt := h.handler_lt
  obtain ⟨hm, request, sent, received, id, hr, h⟩ := h
  refine ⟨hm, request, sent, received, id, ?_, h⟩
  rw [← hr]
  exact List.getElem?_append_left hlt

theorem Matched.getResponse {r : Rpc} (hm : Matched r) (hlt : r.requests.length + 1 < 2^53)
    (method : String) (payload : Json) : Matched (getResponse r method payload) where
  nextId := by
    simp [Clangd.getResponse, hm.nextId, Double.succ_of_lt hlt]
  pending := by
    intro entry he
    simp only [Clangd.getResponse, List.mem_append, List.mem_singleton, List.length_append,
      List.length_singleton] at he ⊢
    rcases he with he | rfl
    · have := hm.pending entry he
      exact ⟨this.1, by omega⟩
    · exact ⟨by rw [newEntry, hm.nextId], Nat.lt_succ_self _⟩
  once := by
    -- the new handler is the number of the call, above every handler so far
    have hfresh : r.requests.length ∉ r.pendingRequests.map PendingRequest.handler ++ r.invoked.map Prod.fst := by
      simp only [List.mem_append, List.mem_map, not_or, not_exists, not_and]
      refine ⟨fun entry he hh => ?_, fun p hp hh => ?_⟩
      · have := (hm.pending entry he).2
        omega
      · have := (hm.invoked p hp).handler_lt
        omega
    simp only [Clangd.getResponse, List.map_append, List.map_cons, List.map_nil, List.append_assoc]
    exact List.nodup_middle.mpr (List.nodup_cons.mpr ⟨hfresh, hm.once⟩)
  invoked := fun p hp => (hm.invoked p hp).getResponse method payload
  requests := by
    intro k request hk
    simp only [Clangd.getResponse] at hk
    rcases Nat.lt_or_ge k r.requests.length with hlt | hge
    · rw [List.getElem?_append_left hlt] at hk
      exact hm.requests k request hk
    · rw [List.getElem?_append_right hge, List.getElem?_singleton] at hk
      split at hk
      · next h0 =>
        obtain rfl : k = r.requests.length := by omega
        rw [← Option.some.inj hk, requestFor_id, hm.nextId]
      · cases hk

theorem Matched.handleMessage {r r' : Rpc} {message : Json} (hm : Matched r) (hlt : r.requests.length < 2^53)
    (h : handleMessage r message = .ok r') : Matched r' := by
  obtain rfl | ⟨hmethod, idPos, id, before, entry, after, hi, hid, he, hl, rfl⟩ := handleMessage_cases h
  · exact hm
  obtain ⟨hentry, hhandler⟩ := hm.pending entry (by simp [hl])
  exact {
    nextId := hm.nextId
    pending := fun e hmem => hm.pending e (by
      rw [hl]
      simp only [List.mem_append, List.mem_cons] at hmem ⊢
      tauto)
    once := by
      refine (List.Perm.nodup_iff ?_).mp hm.once
      simp only [hl, List.map_append, List.map_cons, List.map_nil, List.append_assoc, List.cons_append]
      apply List.Perm.append_left _
      rw [← List.append_assoc]
      exact (@List.perm_append_comm _ [entry.handler] _).trans (by simp)
    invoked := by
      intro p hp
      simp only [List.mem_append, List.mem_singleton] at hp
      rcases hp with hp | rfl
      · exact hm.invoked p hp
      · obtain ⟨request, hr⟩ : ∃ request, r.requests[entry.handler]? = some request :=
          ⟨_, List.getElem?_eq_getElem hhandler⟩
        exact ⟨hmethod, request, _, idPos, _, hr, hm.requests _ _ hr, hi, rfl,
          number_of_id (by omega) (by rw [hid, ← he, hentry])⟩
    requests := hm.requests }

/-- The step lemma: a call needs an id that a double still tells apart. -/
theorem matched_step (r : Rpc) (a : RpcStep) (r' : Rpc) (hm : Matched r) (hb : r.requests.length + a.calls < 2^53)
    (h : rpc.step r a = some r') : Matched r' := by
  obtain ⟨method, payload, rfl, rfl⟩ | ⟨message, rfl, -, h | ⟨-, rfl⟩⟩ := rpcStep_cases h
  · exact hm.getResponse hb method payload
  · exact hm.handleMessage hb h
  · exact ⟨hm.nextId, hm.pending, hm.once, hm.invoked, hm.requests⟩

theorem requests_step (r : Rpc) (a : RpcStep) (r' : Rpc) (h : rpc.step r a = some r') :
    r'.requests.length ≤ r.requests.length + a.calls := by
  obtain ⟨method, payload, rfl, rfl⟩ | ⟨message, rfl, -, h | ⟨-, rfl⟩⟩ := rpcStep_cases h
  · simp [getResponse, RpcStep.calls]
  · obtain rfl | ⟨-, -, -, -, -, -, -, -, -, -, rfl⟩ := handleMessage_cases h <;> simp
  · simp

section Runs
variable {schedule : List RpcStep} (hcalls : (schedule.map RpcStep.calls).sum < 2^53)
include hcalls

theorem few_requests : ∀ p ∈ rpc.steps {} schedule, p.1.requests.length + p.2.calls < 2^53 := by
  intro p hp
  have := rpc.steps_budget (fun r => r.requests.length) RpcStep.calls requests_step p hp
  simp only [List.length_nil] at this
  omega

theorem matched_states : ∀ r ∈ rpc.states {} schedule, Matched r :=
  rpc.states_of_guarded Matched (fun r a => r.requests.length + a.calls < 2^53) matched_step
    ⟨rfl, by simp, by simp, by simp, by simp⟩ (few_requests hcalls)

theorem matched_of_mem_steps {r : Rpc} {a : RpcStep} (h : (r, a) ∈ rpc.steps {} schedule) : Matched r := by
  obtain ⟨before, after, rfl, hrun, -⟩ := rpc.mem_steps_iff.mp h
  rw [List.map_append, List.sum_append] at hcalls
  exact matched_states (Nat.lt_of_le_of_lt (Nat.le_add_right _ _) hcalls) r (rpc.mem_states_of_run hrun)

end Runs

theorem Matched.ids_nodup {r : Rpc} (hm : Matched r) : (r.pendingRequests.map PendingRequest.id).Nodup := by
  have h : r.pendingRequests.map PendingRequest.id =
      (r.pendingRequests.map PendingRequest.handler).map (fun (k : Nat) => (.inr (k : Double) : ID)) := by
    rw [List.map_map]
    exact List.map_congr_left (fun entry he => (hm.pending entry he).1)
  rw [h]
  refine List.Nodup.map ?_ (List.nodup_append.mp hm.once).1
  exact fun a b hab => Nat.cast_injective (Sum.inr.inj hab)

/-- The message is a response with the id that this call has sent. -/
def respondsTo (handler : Nat) (message : Json) : Bool :=
  message.find? "method" = none ∧ (message.find? "id").bind Json.number? = some (handler : Double)

section Responses
variable {r r' : Rpc} {handler : Nat} {message : Json}

theorem respondsTo_iff : respondsTo handler message = true ↔
    message.find? "method" = none ∧ ∃ idPos, message.find? "id" = some idPos ∧ idPos.number? = some (handler : Double) := by
  simp [respondsTo, Option.bind_eq_some_iff]

/-- Below 2^53 an id decodes to the number it is. -/
theorem id_of_number {j : Json} {k : Nat} (hk : k < 2^53) (h : j.number? = some (k : Double)) :
    (fromJson j : Decode ID) = .ok (.inr (k : Double)) := by
  cases j with
  | int n =>
    have hn : n = (k : Int) := by exact_mod_cast Option.some.inj h
    have hround : Double.ofInt n = (k : Double) := by
      rw [hn, Double.ofInt, if_neg (by omega), Int.natAbs_natCast, Double.roundNat_of_lt hk]
    exact congrArg (Except.ok ∘ Sum.inr) hround
  | float x => exact congrArg (Except.ok ∘ Sum.inr) (Option.some.inj h)
  | _ => cases h

theorem respondsTo_unique {handler' : Nat} (h : respondsTo handler message = true)
    (h' : respondsTo handler' message = true) : handler = handler' := by
  obtain ⟨-, idPos, hid, hnumber⟩ := respondsTo_iff.mp h
  obtain ⟨-, idPos', hid', hnumber'⟩ := respondsTo_iff.mp h'
  obtain rfl := Option.some.inj (hid.symm.trans hid')
  exact Nat.cast_injective (Option.some.inj (hnumber.symm.trans hnumber'))

/-- A response to a call is handled: it completes the call's entry, if that is still in the queue. -/
theorem handleMessage_responds (hm : Matched r) (hlt : handler < 2^53) (h : respondsTo handler message = true) :
    (handler ∉ r.pendingRequests.map PendingRequest.handler ∧ handleMessage r message = .ok r) ∨
    ∃ r', handleMessage r message = .ok r' ∧ r'.invoked = r.invoked ++ [(handler, message)] := by
  obtain ⟨hmethod, idPos, hid, hnumber⟩ := respondsTo_iff.mp h
  have hdecoded := id_of_number hlt hnumber
  simp only [handleMessage, hmethod, hid, hdecoded, bind, Except.bind]
  cases hfind : r.pendingRequests.find? (fun entry => entry.id = .inr (handler : Double)) with
  | none =>
    refine .inl ⟨?_, rfl⟩
    intro hmem
    obtain ⟨entry, hentry, rfl⟩ := List.mem_map.mp hmem
    simpa [(hm.pending entry hentry).1] using List.find?_eq_none.mp hfind entry hentry
  | some entry =>
    have hentry : entry.id = .inr (handler : Double) := by simpa using List.find?_some hfind
    have heq : entry.handler = handler :=
      Nat.cast_injective (Sum.inr.inj ((hm.pending entry (List.mem_of_find?_eq_some hfind)).1.symm.trans hentry))
    exact .inr ⟨_, rfl, by rw [heq]⟩

/-- A message the loop does not survive is no response to any call. -/
theorem respondsTo_of_error {e : JsonError} (hm : Matched r) (hlt : handler < 2^53)
    (h : handleMessage r message = .error e) : respondsTo handler message = false := by
  refine Bool.eq_false_iff.mpr (fun hresponds => ?_)
  obtain ⟨-, hok⟩ | ⟨r', hok, -⟩ := handleMessage_responds hm hlt hresponds <;> simp [h] at hok

/-- The step lemma for messages: what leaves the queue are the calls responded to. -/
theorem handleMessage_effect (hm : Matched r) (hlt : r.requests.length < 2^53)
    (h : handleMessage r message = .ok r') :
    (∀ handler, handler ∈ r'.pendingRequests.map PendingRequest.handler ↔
      handler ∈ r.pendingRequests.map PendingRequest.handler ∧ respondsTo handler message = false) ∧
    ∀ handler message', (handler, message') ∈ r'.invoked ↔ (handler, message') ∈ r.invoked ∨
      handler ∈ r.pendingRequests.map PendingRequest.handler ∧ respondsTo handler message = true ∧
        message' = message := by
  have hbound : ∀ handler ∈ r.pendingRequests.map PendingRequest.handler, handler < 2^53 := by
    intro handler hmem
    obtain ⟨entry, hentry, rfl⟩ := List.mem_map.mp hmem
    exact (hm.pending entry hentry).2.trans hlt
  obtain rfl | ⟨hmethod, idPos, id, before, entry, after, hi, hid, he, hl, rfl⟩ := handleMessage_cases h
  · have hother : ∀ handler ∈ r'.pendingRequests.map PendingRequest.handler, respondsTo handler message = false := by
      intro handler hmem
      refine Bool.eq_false_iff.mpr (fun hresponds => ?_)
      obtain ⟨hnot, -⟩ | ⟨r'', h'', hinvoked⟩ := handleMessage_responds hm (hbound handler hmem) hresponds
      · exact hnot hmem
      · obtain rfl := Except.ok.inj (h.symm.trans h'')
        simp at hinvoked
    grind
  · obtain ⟨hentry, hhandler⟩ := hm.pending entry (by simp [hl])
    have hresponds : respondsTo entry.handler message = true :=
      respondsTo_iff.mpr ⟨hmethod, idPos, hi, number_of_id (by omega) (by rw [hid, ← he, hentry])⟩
    have honly : ∀ handler, respondsTo handler message = true ↔ handler = entry.handler :=
      fun handler => ⟨fun h => respondsTo_unique h hresponds, fun h => h ▸ hresponds⟩
    have hnodup := (List.nodup_append.mp hm.once).1
    rw [hl, List.map_append, List.map_cons, List.nodup_middle, List.nodup_cons] at hnodup
    constructor
    · intro handler
      rw [Bool.eq_false_iff, ne_eq, honly, hl]
      simp only [List.map_append, List.map_cons, List.mem_append, List.mem_cons]
      rw [List.mem_append] at hnodup
      grind
    · intro handler message'
      rw [honly, hl]
      simp only [List.mem_append, Prod.mk.injEq, List.map_append, List.map_cons, List.mem_cons]
      grind

end Responses

/-- The pending ids are distinct, a handler is invoked at most once and with the answer to its own
request, and a message takes out of the queue the one entry it completes or, if it responds to none there, nothing. -/
def ResponsesMatch (schedule : List RpcStep) : Prop :=
  (∀ r ∈ rpc.states {} schedule, (r.pendingRequests.map PendingRequest.id).Nodup ∧
    (r.invoked.map Prod.fst).Nodup ∧ ∀ p ∈ r.invoked, Answers r p.1 p.2) ∧
  ∀ r message r', (r, .message message) ∈ rpc.steps {} schedule → rpc.step r (.message message) = some r' →
    Completes r r' message ∨ r'.pendingRequests = r.pendingRequests ∧ r'.invoked = r.invoked ∧
      ∀ entry ∈ r.pendingRequests, respondsTo entry.handler message = false

/-- Over every interleaving of fewer than 2^53 calls with messages of any shape and order. -/
theorem responses_match_requests (schedule : List RpcStep) (hcalls : (schedule.map RpcStep.calls).sum < 2^53) :
    ResponsesMatch schedule := by
  refine ⟨fun r hr => ?_, fun r message r' hmem h => ?_⟩
  · have hm := matched_states hcalls r hr
    exact ⟨hm.ids_nodup, (List.nodup_append.mp hm.once).2.1, hm.invoked⟩
  · have hm := matched_of_mem_steps hcalls hmem
    have hlt : r.requests.length < 2^53 := few_requests hcalls _ hmem
    replace h : rpcStep r (.message message) = some r' := h
    obtain ⟨_, _, h0, -⟩ | ⟨_, h0, -, h | ⟨⟨e, herror⟩, rfl⟩⟩ := rpcStep_cases h
    · cases h0
    · obtain rfl := RpcStep.message.inj h0
      have hpending := (handleMessage_effect hm hlt h).1
      obtain rfl | ⟨-, -, -, before, entry, after, -, -, -, hl, rfl⟩ := handleMessage_cases h
      · exact .inr ⟨rfl, rfl, fun entry hentry => ((hpending entry.handler).mp (List.mem_map_of_mem hentry)).2⟩
      · exact .inl ⟨before, entry, after, hl, rfl, rfl⟩
    · obtain rfl := RpcStep.message.inj h0
      exact .inr ⟨rfl, rfl, fun entry hentry =>
        respondsTo_of_error hm ((hm.pending entry hentry).2.trans hlt) herror⟩

/-- Two calls answered in the other order, the first answer twice, with a request of the same id between. -/
def outOfOrder : List RpcStep :=
  [.getResponse "initialize" .null, .getResponse "textDocument/completion" .null,
    .message (.obj [("id", .int 1), ("result", .null)]),
    .message (.obj [("id", .int 0), ("method", .str "window/workDoneProgress/create")]),
    .message (.obj [("id", .int 1), ("result", .null)]), .message (.obj [("id", .float 0), ("result", .null)])]

theorem responses_match_requests_outOfOrder : ResponsesMatch outOfOrder :=
  responses_match_requests outOfOrder (by decide)

end Ycmd.Clangd
