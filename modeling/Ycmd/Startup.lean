import Ycmd.Handlers

/-! What the server may send to clangd, and when, over any interleaving of its requests. -/
namespace Ycmd
open Lib Lsp Clangd

variable {layout : Layout} {XXH64 : String → UInt64} {text : LineText} {traffic : List Traffic}

def Traffic.sent : Traffic → Bool
  | .request _ => true
  | .notification _ => true
  | .answer _ _ => false

def Traffic.initializes : Traffic → Bool
  | .request message => match message.find? "method" with
    | some (.str method) => method == "initialize"
    | _ => false
  | _ => false

/-- The message has a result, and no error. -/
def Succeeded (message : Json) : Prop :=
  (∃ result, message.find? "result" = some result ∧ result.isNull = false) ∧
    ∀ error, message.find? "error" = some error → error.isNull = true

/-- The first call was an `initialize`, and has been answered with success. -/
def Initialised (traffic : List Traffic) : Prop :=
  ∃ before message after, traffic = before ++ .answer 0 message :: after ∧
    (∃ t ∈ before, t.initializes = true) ∧ Succeeded message

/-- Whatever else is sent, is sent after that. -/
def WaitsForInit (traffic : List Traffic) : Prop :=
  ∀ pre t post, traffic = pre ++ t :: post → t.sent = true → t.initializes = false → Initialised pre

/-- At most one `initialize` is sent, before anything else, and nothing else before it has succeeded. -/
structure StartsUp (traffic : List Traffic) : Prop where
  once : (traffic.filter Traffic.initializes).length ≤ 1
  first : ∀ t, (traffic.filter Traffic.sent).head? = some t → t.initializes = true
  waits : WaitsForInit traffic

theorem Initialised.append (h : Initialised traffic) (ts : List Traffic) : Initialised (traffic ++ ts) := by
  obtain ⟨before, message, after, rfl, hb, hm⟩ := h
  exact ⟨before, message, after ++ ts, by simp, hb, hm⟩

theorem Traffic.sent_of_initializes {t : Traffic} (h : t.initializes = true) : t.sent = true := by
  cases t with
  | request message => rfl
  | _ => cases h

theorem Initialised.exists_sent (h : Initialised traffic) : ∃ t, (traffic.filter Traffic.sent).head? = some t := by
  obtain ⟨before, message, after, rfl, ⟨t, ht, hi⟩, -⟩ := h
  have hmem : t ∈ (before ++ .answer 0 message :: after).filter Traffic.sent :=
    List.mem_filter.mpr ⟨List.mem_append.mpr (.inl ht), t.sent_of_initializes hi⟩
  cases hl : (before ++ .answer 0 message :: after).filter Traffic.sent with
  | nil => simp [hl] at hmem
  | cons u us => exact ⟨u, rfl⟩

theorem WaitsForInit.append (h : WaitsForInit traffic) {ts : List Traffic}
    (hts : ∀ t ∈ ts, t.sent = true → Initialised traffic) : WaitsForInit (traffic ++ ts) := by
  intro pre t post heq hsent hnot
  rcases List.append_eq_append_iff.mp heq with ⟨rest, rfl, hrest⟩ | ⟨rest, rfl, hrest⟩
  · exact (hts t (by simp [hrest]) hsent).append rest
  · cases rest with
    | nil =>
      rw [List.nil_append] at hrest
      simpa using hts t (by simp [← hrest]) hsent
    | cons u us =>
      obtain ⟨rfl, -⟩ := List.cons.inj hrest
      exact h pre t us rfl hsent hnot

/-- Once initialised, anything but another `initialize` may be sent. -/
theorem StartsUp.append (h : StartsUp traffic) (hi : Initialised traffic) {ts : List Traffic}
    (hts : ∀ t ∈ ts, t.initializes = false) : StartsUp (traffic ++ ts) where
  once := by
    have hnone : ts.filter Traffic.initializes = [] := by simpa using hts
    rw [List.filter_append, hnone, List.append_nil]
    exact h.once
  first := by
    intro t ht
    obtain ⟨u, hu⟩ := hi.exists_sent
    rw [List.filter_append, List.head?_append, hu, Option.some_or] at ht
    exact h.first t (hu.trans ht)
  waits := h.waits.append fun _ _ _ => hi

theorem StartsUp.append_answer (h : StartsUp traffic) (handler : Nat) (message : Json) :
    StartsUp (traffic ++ [.answer handler message]) where
  once := by
    rw [List.filter_append]
    change (_ ++ []).length ≤ 1
    rw [List.append_nil]
    exact h.once
  first := by
    rw [List.filter_append]
    change ∀ t, (_ ++ []).head? = some t → _
    rw [List.append_nil]
    exact h.first
  waits := h.waits.append fun t ht hsent => by
    rw [List.mem_singleton.mp ht] at hsent
    cases hsent

theorem startsUp_nil : StartsUp [] := ⟨by simp, by simp, by simp [WaitsForInit]⟩

theorem startsUp_initialize {t : Traffic} (h : t.initializes = true) : StartsUp [t] where
  once := List.length_filter_le _ _
  first := by
    intro u hu
    rw [List.filter_cons_of_pos (t.sent_of_initializes h)] at hu
    rwa [← Option.some.inj hu]
  waits := by
    intro pre u post heq hsent hnot
    have hmem : u ∈ [t] := by rw [heq]; simp
    rw [List.mem_singleton.mp hmem, h] at hnot
    cases hnot

/-- What the completer's state says about the traffic so far. -/
structure Begun (traffic : List Traffic) (c : ClangdCompleter) : Prop where
  calls : c.awaiting.length = c.rpc.requests.length
  pending : ∀ entry ∈ c.rpc.pendingRequests, entry.handler < c.awaiting.length
  quiet : c.awaiting = [] → traffic = []
  begun : c.awaiting ≠ [] → ∃ t ∈ traffic, t.initializes = true
  init : ∀ (k : Nat) (req : EventNotification), c.awaiting[k]? = some (.init req) → k = 0
  ready : c.initialised = true → Initialised traffic
  runs : c.initialised = false → c.syncs.runs = []

/-- The invariant of the server. -/
structure Starting (s : Server) : Prop where
  startsUp : StartsUp s.traffic
  silent : s.clangdCompleter = none → s.traffic = []
  completer : ∀ c, s.clangdCompleter = some c → Begun s.traffic c

theorem starting_of_completer {s : Server} {c : ClangdCompleter} (h : StartsUp s.traffic)
    (hs : s.clangdCompleter = some c) (hc : Begun s.traffic c) : Starting s where
  startsUp := h
  silent := by simp [hs]
  completer := by
    intro c' hc'
    obtain rfl := Option.some.inj (hs.symm.trans hc')
    exact hc

/-- What only changes the completer's runs, once it is initialised. -/
theorem starting_withSyncs {s : Server} {c : ClangdCompleter} (h : StartsUp s.traffic) (hc : Begun s.traffic c)
    (hi : c.initialised = true) (syncs : Syncs) : Starting (withSyncs s c syncs) := by
  have hready := hc.ready hi
  refine starting_of_completer (h.append hready ?_) rfl ?_
  · intro t ht
    obtain ⟨a, -, rfl⟩ := List.mem_map.mp ht
    rfl
  · refine ⟨hc.calls, hc.pending, fun hn => ?_, fun hne => ?_, hc.init, fun _ => hready.append _, fun hnot => ?_⟩
    · have hempty := hc.quiet hn
      obtain ⟨before, message, after, heq, -⟩ := hready
      simp [hempty] at heq
    · obtain ⟨t, ht, hinit⟩ := hc.begun hne
      exact ⟨t, List.mem_append.mpr (.inl ht), hinit⟩
    · rw [hi] at hnot
      cases hnot

theorem starting_startSync {s s' : Server} {c : ClangdCompleter} (h : StartsUp s.traffic) (hc : Begun s.traffic c)
    (hi : c.initialised = true) {fileData : FileDataMap} {after : Option SimpleRequest}
    (hs : startSync layout XXH64 s c fileData after = some s') : Starting s' := by
  obtain ⟨syncs, -, rfl⟩ := Option.map_eq_some_iff.mp hs
  exact starting_withSyncs (c := { c with after := c.after ++ [after] }) h
    ⟨hc.calls, hc.pending, hc.quiet, hc.begun, hc.init, hc.ready, hc.runs⟩ hi syncs

theorem starting_handleFileEvent {s s' : Server} {c : ClangdCompleter} (h : StartsUp s.traffic)
    (hc : Begun s.traffic c) {req : EventNotification} (hs : handleFileEvent layout XXH64 s c req = some s') :
    Starting s' := by
  have hset : Starting { s with clangdCompleter := some c } := starting_of_completer h rfl hc
  unfold handleFileEvent at hs
  split at hs
  · split at hs
    · next hi => exact starting_startSync h hc hi hs
    · exact Option.some.inj hs ▸ hset
  · exact Option.some.inj hs ▸ hset

theorem requestFor_initializes (r : Rpc) (method : String) (payload : Json) :
    (Traffic.request (requestFor r method payload)).initializes = (method == "initialize") := by
  simp only [Traffic.initializes, requestFor_method]

/-- A call other than `initialize`, from an initialised completer. -/
theorem starting_call {s : Server} {c : ClangdCompleter} (h : StartsUp s.traffic) (hc : Begun s.traffic c)
    (hi : Initialised s.traffic) {method : String} (hm : method ≠ "initialize") (payload : Json) :
    Starting (call s c method payload .computeCandidates) := by
  refine starting_of_completer (h.append hi ?_) rfl ?_
  · intro t ht
    rw [List.mem_singleton.mp ht, requestFor_initializes]
    simpa using hm
  · refine ⟨by simp [getResponse, hc.calls], fun entry he => ?_, by simp, fun _ => ?_, fun k req hk => ?_,
      fun _ => hi.append _, hc.runs⟩
    · simp only [getResponse, List.mem_append, List.mem_singleton] at he
      rw [List.length_append, List.length_singleton]
      rcases he with he | rfl
      · exact Nat.lt_succ_of_lt (hc.pending entry he)
      · rw [newEntry, hc.calls]
        exact Nat.lt_succ_self _
    · obtain ⟨before, message, after, heq, ⟨t, ht, hinit⟩, -⟩ := hi
      exact ⟨t, List.mem_append.mpr (.inl (by rw [heq]; simp [ht])), hinit⟩
    · rcases Nat.lt_or_ge k c.awaiting.length with hlt | hge
      · rw [List.getElem?_append_left hlt] at hk
        exact hc.init k req hk
      · rw [List.getElem?_append_right hge, List.getElem?_singleton] at hk
        split at hk
        · cases hk
        · cases hk

/-- The first call of a completer just made. -/
theorem starting_initialize {s : Server} (hs : s.traffic = []) (payload : Json) (req : EventNotification) :
    Starting (call s { rpc := { pumping := true } } "initialize" payload (.init req)) := by
  have hinit : ∀ r, (Traffic.request (requestFor r "initialize" payload)).initializes = true :=
    fun r => (requestFor_initializes r "initialize" payload).trans rfl
  refine starting_of_completer ?_ rfl ?_
  · simp only [call, hs, List.nil_append]
    exact startsUp_initialize (hinit _)
  · have hsent : ∃ t ∈ s.traffic ++ [.request (requestFor { pumping := true } "initialize" payload)],
        t.initializes = true :=
      ⟨_, List.mem_append.mpr (.inr List.mem_cons_self), hinit _⟩
    refine ⟨rfl, fun entry he => ?_, fun hn => (by cases hn), fun _ => hsent, fun k req' hk => ?_,
      fun hi => (by cases hi), fun _ => rfl⟩
    · have : entry = newEntry { pumping := true } := by simpa [getResponse] using he
      rw [this]
      exact Nat.zero_lt_one
    · have hlt := (List.getElem?_eq_some_iff.mp hk).1
      simp at hlt
      exact hlt

theorem starting_handleEventNotification {s s' : Server} (h : Starting s) {req : EventNotification}
    {env : Environment} (hs : handleEventNotification layout XXH64 s req env = some s') : Starting s' := by
  have hfresh (hnone : s.clangdCompleter = none) : Begun s.traffic {} :=
    ⟨rfl, by simp, fun _ => h.silent hnone, by simp, by simp, by simp, fun _ => rfl⟩
  unfold handleEventNotification at hs
  split at hs
  · exact Option.some.inj hs ▸ h
  · exact Option.some.inj hs ▸ ⟨h.startsUp, h.silent, h.completer⟩
  · split at hs
    · next c hc => exact starting_handleFileEvent h.startsUp (h.completer c hc) hs
    · next hnone =>
      have hset : Starting { s with clangdCompleter := some {} } :=
        starting_of_completer h.startsUp rfl (hfresh hnone)
      split at hs
      · unfold init at hs
        split at hs
        · exact Option.some.inj hs ▸ hset
        · split at hs
          · exact starting_handleFileEvent h.startsUp (hfresh hnone) hs
          · split at hs
            · exact Option.some.inj hs ▸ starting_initialize (h.silent hnone) _ req
            · exact Option.some.inj hs ▸ hset
      · exact Option.some.inj hs ▸ h
  · exact Option.some.inj hs ▸ h

theorem valueOr_none_cases {α : Type} [FromJson α] {j : Json} {key : String} {r : Option α}
    (h : j.valueOr key none = .ok r) :
    (r = none ∧ ∀ v, j.find? key = some v → v.isNull = true) ∨
      r.isSome = true ∧ ∃ v, j.find? key = some v ∧ v.isNull = false := by
  cases hf : j.find? key with
  | none =>
    cases j with
    | obj members =>
      rw [Json.valueOr_of_absent _ hf] at h
      exact .inl ⟨(Except.ok.inj h).symm, by simp⟩
    | _ => cases h
  | some v =>
    rw [Json.valueOr_of_find? _ hf] at h
    replace h : (if v.isNull then .ok none else (fromJson v : Decode α).map some) = .ok r := h
    cases hv : v.isNull with
    | true =>
      rw [hv] at h
      exact .inl ⟨(Except.ok.inj h).symm, fun v' hv' => Option.some.inj hv' ▸ hv⟩
    | false =>
      rw [hv] at h
      cases hd : (fromJson v : Decode α) with
      | error e => simp [hd, Except.map] at h
      | ok a =>
        rw [hd] at h
        exact .inr ⟨Except.ok.inj h ▸ rfl, v, rfl, hv⟩

/-- A response read with a result and no error is one. -/
theorem succeeded_of_fromJson {α : Type} [FromJson α] {message : Json} {response : ResponseMessage α}
    (h : (fromJson message : Decode (ResponseMessage α)) = .ok response) (herror : response.error.isSome = false)
    (hresult : response.result.isNone = false) : Succeeded message := by
  obtain ⟨base, -, h⟩ := bind_ok h
  obtain ⟨id, -, h⟩ := bind_ok h
  obtain ⟨result, hr, h⟩ := bind_ok h
  obtain ⟨error, he, h⟩ := bind_ok h
  obtain rfl := Except.ok.inj h
  constructor
  · rcases valueOr_none_cases hr with ⟨rfl, -⟩ | ⟨-, hv⟩
    · cases hresult
    · exact hv
  · rcases valueOr_none_cases he with ⟨-, hv⟩ | ⟨hs, -⟩
    · exact hv
    · rw [hs] at herror
      cases herror

theorem starting_resumeInit {s s' : Server} {c : ClangdCompleter} {message : Json} (h : StartsUp s.traffic)
    (hc : Begun s.traffic c) (ha : Succeeded message → Initialised s.traffic) {req : EventNotification}
    (hs : resumeInit layout XXH64 s c req message = some s') : Starting s' := by
  unfold resumeInit at hs
  split at hs
  · exact Option.some.inj hs ▸ starting_of_completer h rfl hc
  · next response hresponse =>
    split at hs
    · exact starting_handleFileEvent h hc hs
    · next herror =>
      split at hs
      · exact starting_handleFileEvent h hc hs
      · next hresult =>
        have hready := ha (succeeded_of_fromJson hresponse (by simpa using herror) (Bool.eq_false_iff.mpr hresult))
        have hc' : Begun s.traffic { c with initialised := true } :=
          ⟨hc.calls, hc.pending, hc.quiet, hc.begun, hc.init, fun _ => hready, fun hnot => nomatch hnot⟩
        exact starting_handleFileEvent h hc' hs

theorem starting_handleServerMessage {s s' : Server} {c : ClangdCompleter} {message : Json}
    (h : StartsUp s.traffic) (hc : Begun s.traffic c)
    (hs : handleServerMessage layout XXH64 s c message = some s') : Starting s' := by
  obtain ⟨rpc, hstep, hs⟩ := Option.bind_eq_some_iff.mp hs
  obtain ⟨_, _, h0, -⟩ | ⟨_, h0, -, hok | ⟨-, rfl⟩⟩ := rpcStep_cases hstep
  · cases h0
  · obtain rfl := RpcStep.message.inj h0
    obtain rfl | ⟨-, idPos, id, before, entry, after, -, -, -, hl, rfl⟩ := handleMessage_cases hok
    · simp only [List.drop_length] at hs
      exact Option.some.inj hs ▸ starting_of_completer h rfl hc
    · -- a handler is called: its entry leaves the queue, and its answer joins the traffic
      simp only [List.drop_left] at hs
      have hhandler := hc.pending entry (by simp [hl])
      have hne : c.awaiting ≠ [] := by
        intro hnil
        simp [hnil] at hhandler
      have hc' : Begun (s.traffic ++ [.answer entry.handler message]) { c with rpc := { c.rpc with
          pendingRequests := before ++ after
          invoked := c.rpc.invoked ++ [(entry.handler, message)] } } := by
        refine ⟨hc.calls, fun e he => hc.pending e ?_, fun hnil => absurd hnil hne, fun _ => ?_, hc.init,
          fun hi => (hc.ready hi).append _, hc.runs⟩
        · rw [hl]
          simp only [List.mem_append, List.mem_cons] at he ⊢
          tauto
        · obtain ⟨t, ht, hinit⟩ := hc.begun hne
          exact ⟨t, List.mem_append.mpr (.inl ht), hinit⟩
      have hstarts := h.append_answer entry.handler message
      split at hs
      · next req hreq =>
        refine starting_resumeInit hstarts hc' (fun hsucceeded => ?_) hs
        have hzero := hc.init _ _ hreq
        exact ⟨s.traffic, message, [], by rw [hzero], hc.begun hne, hsucceeded⟩
      · exact Option.some.inj hs ▸ starting_of_completer hstarts rfl hc'
  · simp only [List.drop_length] at hs
    exact Option.some.inj hs ▸ starting_of_completer h rfl
      ⟨hc.calls, hc.pending, hc.quiet, hc.begun, hc.init, hc.ready, hc.runs⟩

/-- Only a completer that is initialised has runs to go on with. -/
theorem initialised_of_run {c : ClangdCompleter} (hc : Begun traffic c) {i : Nat} {run : Run}
    (hr : c.syncs.runs[i]? = some run) : c.initialised = true := by
  cases hi : c.initialised with
  | true => rfl
  | false => simp [hc.runs hi] at hr

theorem starting_iterateSync {s s' : Server} {c : ClangdCompleter} (h : StartsUp s.traffic) (hc : Begun s.traffic c)
    (hs : iterateSync layout XXH64 text s c = some s') : Starting s' := by
  obtain ⟨syncs, hstep, hs⟩ := Option.map_eq_some_iff.mp hs
  obtain ⟨-, ⟨_, h0, -⟩ | ⟨_, _, h0, -⟩ | ⟨i, run, -, -, hr, -⟩⟩ := syncStep_cases hstep
  · cases h0
  · cases h0
  have hi := initialised_of_run hc hr
  have hw := starting_withSyncs h hc hi syncs
  simp only at hs
  split at hs
  · have hc' : Begun (withSyncs s c syncs).traffic { c with syncs } := hw.completer _ rfl
    exact hs ▸ starting_call hw.startsUp hc' (hc'.ready hi) (by decide) _
  · exact hs ▸ hw

theorem starting_handleCompletions {s s' : Server} (h : Starting s) {req : CompletionRequest}
    (hs : handleCompletions layout XXH64 text s req = some s') : Starting s' := by
  unfold handleCompletions at hs
  split at hs
  · exact Option.some.inj hs ▸ h
  · exact Option.some.inj hs ▸ ⟨h.startsUp, h.silent, h.completer⟩
  · next userOptions _ =>
    have h' : Starting { s with userOptions } := ⟨h.startsUp, h.silent, h.completer⟩
    simp only at hs
    split at hs
    · exact Option.some.inj hs ▸ h'
    · exact Option.some.inj hs ▸ ⟨h.startsUp, h.silent, h.completer⟩
    · split at hs
      · exact Option.some.inj hs ▸ ⟨h.startsUp, h.silent, h.completer⟩
      · next c hc =>
        split at hs
        · exact Option.some.inj hs ▸ h'
        · next hi => exact starting_startSync h'.startsUp (h'.completer c hc) (by simpa using hi) hs
    · exact Option.some.inj hs ▸ h'

/-- What each step is. -/
theorem serverStep_cases {s s' : Server} {a : ServerStep} (h : serverStep layout XXH64 text s a = some s') :
    s.undefined = false ∧ s.emptyAccess = false ∧
    ((∃ userOptions, a = .initializeOptions userOptions ∧ s' = { s with userOptions }) ∨
      (∃ req env, a = .eventNotification req env ∧ handleEventNotification layout XXH64 s req env = some s') ∨
      (∃ req, a = .completions req ∧ handleCompletions layout XXH64 text s req = some s') ∨
      (∃ message c, a = .message message ∧ s.clangdCompleter = some c ∧
        handleServerMessage layout XXH64 s c message = some s') ∨
      (∃ i c syncs, a = .resume i ∧ s.clangdCompleter = some c ∧
        syncStep layout XXH64 c.syncs (.resume i) = some syncs ∧ s' = withSyncs s c syncs) ∨
      (∃ c, a = .iterate ∧ s.clangdCompleter = some c ∧ iterateSync layout XXH64 text s c = some s')) := by
  unfold serverStep at h
  split at h
  · cases h
  · next hstop =>
    simp only [Bool.or_eq_true, not_or, Bool.not_eq_true] at hstop
    refine ⟨hstop.1, hstop.2, ?_⟩
    split at h
    · next userOptions _ => exact .inl ⟨userOptions, rfl, (Option.some.inj h).symm⟩
    · next req env _ => exact .inr (.inl ⟨req, env, rfl, h⟩)
    · next req _ => exact .inr (.inr (.inl ⟨req, rfl, h⟩))
    · next message _ =>
      obtain ⟨c, hc, h⟩ := Option.bind_eq_some_iff.mp h
      exact .inr (.inr (.inr (.inl ⟨message, c, rfl, hc, h⟩)))
    · next i _ =>
      obtain ⟨c, hc, h⟩ := Option.bind_eq_some_iff.mp h
      obtain ⟨syncs, hsyncs, rfl⟩ := Option.map_eq_some_iff.mp h
      exact .inr (.inr (.inr (.inr (.inl ⟨i, c, syncs, rfl, hc, hsyncs, rfl⟩))))
    · obtain ⟨c, hc, h⟩ := Option.bind_eq_some_iff.mp h
      exact .inr (.inr (.inr (.inr (.inr ⟨c, rfl, hc, h⟩))))
    · cases h

/-- The step lemma. -/
theorem starting_step (s : Server) (a : ServerStep) (s' : Server) (h : Starting s)
    (hs : (server layout XXH64 text).step s a = some s') : Starting s' := by
  obtain ⟨-, -, ⟨userOptions, -, rfl⟩ | ⟨req, env, -, hs⟩ | ⟨req, -, hs⟩ | ⟨message, c, -, hc, hs⟩ |
    ⟨i, c, syncs, -, hc, hsyncs, rfl⟩ | ⟨c, -, hc, hs⟩⟩ := serverStep_cases hs
  · exact ⟨h.startsUp, h.silent, h.completer⟩
  · exact starting_handleEventNotification h hs
  · exact starting_handleCompletions h hs
  · exact starting_handleServerMessage h.startsUp (h.completer c hc) hs
  · obtain ⟨-, ⟨_, h0, -⟩ | ⟨j, run, -, -, hr, -⟩ | ⟨_, _, h0, -⟩⟩ := syncStep_cases hsyncs
    · cases h0
    · exact starting_withSyncs h.startsUp (h.completer c hc) (initialised_of_run (h.completer c hc) hr) syncs
    · cases h0
  · exact starting_iterateSync h.startsUp (h.completer c hc) hs

/-- Over any interleaving of event notifications and completions with clangd's messages. -/
theorem initialize_sent_first (layout : Layout) (XXH64 : String → UInt64) (text : LineText)
    (schedule : List ServerStep) :
    ∀ s ∈ (server layout XXH64 text).states {} schedule, StartsUp s.traffic ∧
      (¬ Initialised s.traffic → ∀ t ∈ s.traffic, t.sent = true → t.initializes = true) := by
  intro s hs
  have hinit : Starting {} := ⟨startsUp_nil, fun _ => rfl, by simp⟩
  have h := ((server layout XXH64 text).states_of_invariant starting_step hinit s hs).startsUp
  refine ⟨h, fun hnot t ht hsent => ?_⟩
  by_contra hinitializes
  obtain ⟨pre, post, heq⟩ := List.append_of_mem ht
  have := h.waits pre t post heq hsent (by simpa using hinitializes)
  exact hnot (heq ▸ this.append (t :: post))

/-- A server whose requests have no query. -/
def noText : LineText := ⟨fun _ => some 0, fun _ => 1⟩

/-- A file is ready before clangd has answered, and is opened once it has. -/
def fileReadyEarly : List ServerStep := [
  .eventNotification
    { lineNum := 1, columnNum := 1, filepath := "/a.cpp", fileData := oneFile "int x;", eventName := .fileReadyToParse }
    { pipes := true, searchPath := "/usr/bin/clangd", launched := true, pid := 1 },
  .message (.obj [("id", .int 0), ("jsonrpc", .str "2.0"), ("result", .obj [("capabilities", .obj [])])]),
  .iterate]

theorem initialize_sent_first_fileReadyEarly :
    ∃ s, (server atFront sampleHash noText).run {} fileReadyEarly = some s ∧
      s.traffic.map Traffic.sent = [true, false, true] ∧ StartsUp s.traffic := by
  refine ⟨_, rfl, rfl, (initialize_sent_first atFront sampleHash noText fileReadyEarly _ ?_).1⟩
  exact (server atFront sampleHash noText).mem_states_of_run rfl

end Ycmd
