import Ycmd.Clangd.Wire

/-! Which calls of `get_response` return, and with what: the first response with their id that comes after
them. -/
namespace Ycmd.Clangd
open Lib Lsp

/-- The messages that come after this call. -/
def messagesAfter : List RpcStep → Nat → List Json
  | [], _ => []
  | .getResponse _ _ :: schedule, 0 => schedule.filterMap RpcStep.message?
  | .getResponse _ _ :: schedule, handler + 1 => messagesAfter schedule handler
  | .message _ :: schedule, handler => messagesAfter schedule handler

def callsOf (schedule : List RpcStep) : Nat := (schedule.map RpcStep.calls).sum

/-- What the call returns with, if it does. -/
def returnOf (schedule : List RpcStep) (handler : Nat) : Option Json :=
  (messagesAfter schedule handler).find? (respondsTo handler)

/-- The queue has the calls that nothing has answered, and the others were called back with what they return. -/
structure Returned (schedule : List RpcStep) (r : Rpc) : Prop where
  calls : r.requests.length = callsOf schedule
  pending : ∀ handler < callsOf schedule,
    handler ∈ r.pendingRequests.map PendingRequest.handler ↔ returnOf schedule handler = none
  invoked : ∀ handler message, (handler, message) ∈ r.invoked ↔
    handler < callsOf schedule ∧ returnOf schedule handler = some message

variable {schedule : List RpcStep} {r r' : Rpc} {handler : Nat} {message : Json}

@[simp] theorem callsOf_call (method : String) (payload : Json) :
    callsOf (schedule ++ [.getResponse method payload]) = callsOf schedule + 1 := by
  simp [callsOf, RpcStep.calls]

@[simp] theorem callsOf_message : callsOf (schedule ++ [.message message]) = callsOf schedule := by
  simp [callsOf, RpcStep.calls]

theorem callsOf_cons (a : RpcStep) : callsOf (a :: schedule) = a.calls + callsOf schedule := by
  simp [callsOf]

theorem messagesAfter_call (method : String) (payload : Json) :
    messagesAfter (schedule ++ [.getResponse method payload]) handler = messagesAfter schedule handler := by
  induction schedule generalizing handler with
  | nil => cases handler <;> rfl
  | cons a schedule ih =>
    cases a with
    | message message => exact ih
    | getResponse method' payload' =>
      cases handler with
      | zero => simp [messagesAfter, RpcStep.message?]
      | succ handler => exact ih

theorem messagesAfter_of_le (h : callsOf schedule ≤ handler) : messagesAfter schedule handler = [] := by
  induction schedule generalizing handler with
  | nil => rfl
  | cons a schedule ih =>
    rw [callsOf_cons] at h
    cases a with
    | message message => exact ih (by simpa [RpcStep.calls] using h)
    | getResponse method payload =>
      cases handler with
      | zero => simp [RpcStep.calls] at h
      | succ handler => exact ih (by simp only [RpcStep.calls] at h; omega)

theorem messagesAfter_message (h : handler < callsOf schedule) :
    messagesAfter (schedule ++ [.message message]) handler = messagesAfter schedule handler ++ [message] := by
  induction schedule generalizing handler with
  | nil => simp [callsOf] at h
  | cons a schedule ih =>
    rw [callsOf_cons] at h
    cases a with
    | message message' => exact ih (by simpa [RpcStep.calls] using h)
    | getResponse method payload =>
      cases handler with
      | zero => simp [messagesAfter, RpcStep.message?]
      | succ handler => exact ih (by simp only [RpcStep.calls] at h; omega)

/-- A message returns the calls that nothing has answered and that it responds to. -/
theorem returnOf_message (h : handler < callsOf schedule) :
    returnOf (schedule ++ [.message message]) handler =
      (returnOf schedule handler).or (if respondsTo handler message then some message else none) := by
  rw [returnOf, messagesAfter_message h, List.find?_append, List.find?_singleton]
  rfl

theorem Returned.call (h : Returned schedule r) (method : String) (payload : Json) :
    Returned (schedule ++ [.getResponse method payload]) (getResponse r method payload) where
  calls := by simp [getResponse, h.calls]
  pending := by
    intro handler hlt
    simp only [returnOf, messagesAfter_call, getResponse, List.map_append, List.mem_append, List.map_cons, List.map_nil,
      List.mem_singleton, newEntry, h.calls]
    rw [callsOf_call] at hlt
    rcases Nat.lt_succ_iff_lt_or_eq.mp hlt with hlt | rfl
    · rw [h.pending handler hlt]
      simp [returnOf, Nat.ne_of_lt hlt]
    · simp [messagesAfter_of_le (Nat.le_refl _)]
  invoked := by
    intro handler message
    simp only [returnOf, messagesAfter_call, getResponse, h.invoked, callsOf_call]
    constructor
    · rintro ⟨hlt, hreturn⟩
      exact ⟨Nat.lt_succ_of_lt hlt, hreturn⟩
    · rintro ⟨hlt, hreturn⟩
      rcases Nat.lt_succ_iff_lt_or_eq.mp hlt with hlt | rfl
      · exact ⟨hlt, hreturn⟩
      · simp [messagesAfter_of_le (Nat.le_refl _)] at hreturn

theorem Returned.handle (h : Returned schedule r) (hm : Matched r) (hlt : r.requests.length < 2^53)
    (hmessage : handleMessage r message = .ok r') : Returned (schedule ++ [.message message]) r' := by
  obtain ⟨hpending, hinvoked⟩ := handleMessage_effect hm hlt hmessage
  have hrequests : r'.requests = r.requests := by
    obtain rfl | ⟨-, -, -, -, -, -, -, -, -, -, rfl⟩ := handleMessage_cases hmessage <;> rfl
  refine ⟨by rw [hrequests, h.calls, callsOf_message], ?_, ?_⟩
  · intro handler hk
    rw [callsOf_message] at hk
    rw [hpending, h.pending handler hk, returnOf_message hk]
    cases returnOf schedule handler <;> cases respondsTo handler message <;> simp
  · intro handler message'
    rw [hinvoked, h.invoked, callsOf_message]
    by_cases hk : handler < callsOf schedule
    · rw [h.pending handler hk, returnOf_message hk]
      cases returnOf schedule handler <;> cases respondsTo handler message <;> simp [hk, eq_comm]
    · have hnot : handler ∉ r.pendingRequests.map PendingRequest.handler := by
        intro hmem
        obtain ⟨entry, hentry, rfl⟩ := List.mem_map.mp hmem
        exact hk (h.calls ▸ (hm.pending entry hentry).2)
      simp [hk, hnot]

/-- A message the loop does not survive returns no call. -/
theorem Returned.fail {e : JsonError} (h : Returned schedule r) (hm : Matched r) (hlt : r.requests.length < 2^53)
    (hmessage : handleMessage r message = .error e) :
    Returned (schedule ++ [.message message]) { r with pumping := false } := by
  have hother : ∀ handler < callsOf schedule, respondsTo handler message = false :=
    fun handler hk => respondsTo_of_error hm (Nat.lt_trans (h.calls.symm ▸ hk) hlt) hmessage
  refine ⟨by rw [callsOf_message]; exact h.calls, ?_, ?_⟩
  · intro handler hk
    rw [callsOf_message] at hk
    rw [returnOf_message hk, hother handler hk, h.pending handler hk]
    simp
  · intro handler message'
    rw [h.invoked, callsOf_message]
    constructor
    · rintro ⟨hk, hreturn⟩
      exact ⟨hk, by simpa [returnOf_message hk, hother handler hk] using hreturn⟩
    · rintro ⟨hk, hreturn⟩
      exact ⟨hk, by simpa [returnOf_message hk, hother handler hk] using hreturn⟩

theorem callsOf_le (a : RpcStep) : callsOf schedule ≤ callsOf (schedule ++ [a]) := by
  simp [callsOf]

/-- Nothing restarts a pump that has ended, and no call is called back without it. -/
theorem ended_step (r₁ : Rpc) (a : RpcStep) (r₂ : Rpc) (h : r₁.pumping = false ∧ r₁.invoked = r.invoked)
    (hstep : rpc.step r₁ a = some r₂) : r₂.pumping = false ∧ r₂.invoked = r.invoked := by
  obtain ⟨method, payload, rfl, rfl⟩ | ⟨message, rfl, hpumping, -⟩ := rpcStep_cases hstep
  · exact h
  · rw [h.1] at hpumping
    cases hpumping

theorem ended_states (h : r.pumping = false) (later : List RpcStep) :
    ∀ r' ∈ rpc.states r later, r'.pumping = false ∧ r'.invoked = r.invoked :=
  rpc.states_of_invariant ended_step ⟨h, rfl⟩

/-- In every run of fewer than 2^53 calls and messages of any shape and order, each call is called back with
the first response that carries its id and comes after it, and waits in the queue as long as there is none. After
an exception has ended the pump no call is. -/
theorem calls_return_first_response (schedule : List RpcStep) (hcalls : callsOf schedule < 2^53) {r : Rpc}
    (h : rpc.run {} schedule = some r) :
    Returned schedule r ∧
      (r.pumping = false → ∀ later, ∀ r' ∈ rpc.states r later, r'.pumping = false ∧ r'.invoked = r.invoked) := by
  refine ⟨?_, ended_states⟩
  revert hcalls
  refine rpc.run_history (P := fun schedule r => callsOf schedule < 2^53 → Returned schedule r) ?_ ?_ h
  · exact fun _ => ⟨rfl, by simp [callsOf], by simp [callsOf]⟩
  · intro schedule r a r' hrun ih hstep hcalls
    have hlt := Nat.lt_of_le_of_lt (callsOf_le a) hcalls
    have hm := matched_states hlt r (rpc.mem_states_of_run hrun)
    have hreturned := ih hlt
    replace hstep : rpcStep r a = some r' := hstep
    obtain ⟨method, payload, rfl, rfl⟩ | ⟨message, rfl, -, hok | ⟨⟨e, herror⟩, rfl⟩⟩ := rpcStep_cases hstep
    · exact hreturned.call method payload
    · exact hreturned.handle hm (hreturned.calls ▸ hlt) hok
    · exact hreturned.fail hm (hreturned.calls ▸ hlt) herror

/-- Both calls have returned, the second one with the first of its two answers, when a message whose method is
no string ends the pump. -/
theorem calls_return_first_response_outOfOrder :
    ∃ r, rpc.run {} (outOfOrder ++ [.message (.obj [("method", .null)])]) = some r ∧
      Returned (outOfOrder ++ [.message (.obj [("method", .null)])]) r ∧ r.pumping = false ∧
      ∀ later, ∀ r' ∈ rpc.states r later, r'.pumping = false ∧ r'.invoked = r.invoked := by
  obtain ⟨hreturned, hended⟩ :=
    calls_return_first_response (outOfOrder ++ [.message (.obj [("method", .null)])]) (by decide) rfl
  exact ⟨_, rfl, hreturned, rfl, hended rfl⟩

end Ycmd.Clangd
