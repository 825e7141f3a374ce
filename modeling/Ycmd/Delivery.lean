import Ycmd.SentCompletions
import Ycmd.Lsp.Notifications
import Ycmd.Lsp.Stream

/-! What the server sends, written to clangd's pipe and read back from it. -/
namespace Ycmd
open Lib Lsp Clangd Relation

variable {layout : Layout} {XXH64 : String → UInt64} {text : LineText} {traffic : List Traffic}

/-- What `lsp::send_message` is given for it. -/
def Traffic.message? : Traffic → Option Json
  | .request message => some message
  | .notification n => some n.message
  | .answer _ _ => none

/-- The documents of a server that has read these messages, if each notification in them was legal. -/
def documentsRead (messages : List Json) : Option Store :=
  Store.empty.replay (messages.filterMap Notification.ofMessage)

/-- Every request has an id, by which it is told from a notification. -/
def Identified (traffic : List Traffic) : Prop :=
  ∀ message, .request message ∈ traffic → message.contains "id" = true

theorem Identified.append (h : Identified traffic) {ts : List Traffic} (hts : Identified ts) :
    Identified (traffic ++ ts) := by
  intro message hmem
  rcases List.mem_append.mp hmem with hmem | hmem
  · exact h message hmem
  · exact hts message hmem

theorem requestFor_contains_id (r : Rpc) (method : String) (payload : Json) :
    (requestFor r method payload).contains "id" = true := rfl

theorem identified_call {s : Server} (h : Identified s.traffic) (c : ClangdCompleter) (method : String)
    (payload : Json) (k : Continuation) : Identified (call s c method payload k).traffic := by
  apply h.append
  intro message hmem
  obtain rfl := Traffic.request.inj (List.mem_singleton.mp hmem)
  exact requestFor_contains_id c.rpc method payload

theorem identified_withSyncs {s : Server} (h : Identified s.traffic) (c : ClangdCompleter) (syncs : Syncs) :
    Identified (withSyncs s c syncs).traffic := by
  apply h.append
  intro message hmem
  obtain ⟨a, -, heq⟩ := List.mem_map.mp hmem
  cases heq

theorem identified_handleFileEvent {s s' : Server} (h : Identified s.traffic) {c : ClangdCompleter}
    {req : EventNotification} (hs : handleFileEvent layout XXH64 s c req = some s') : Identified s'.traffic := by
  unfold handleFileEvent at hs
  split at hs
  · split at hs
    · obtain ⟨syncs, -, rfl⟩ := Option.map_eq_some_iff.mp hs
      exact identified_withSyncs h _ syncs
    · exact Option.some.inj hs ▸ h
  · exact Option.some.inj hs ▸ h

theorem identified_handleEventNotification {s s' : Server} (h : Identified s.traffic) {req : EventNotification}
    {env : Environment} (hs : handleEventNotification layout XXH64 s req env = some s') : Identified s'.traffic := by
  unfold handleEventNotification at hs
  split at hs
  · exact Option.some.inj hs ▸ h
  · exact Option.some.inj hs ▸ h
  · split at hs
    · exact identified_handleFileEvent h hs
    · split at hs
      · unfold init at hs
        split at hs
        · exact Option.some.inj hs ▸ h
        · split at hs
          · exact identified_handleFileEvent h hs
          · split at hs
            · exact Option.some.inj hs ▸ identified_call h _ _ _ _
            · exact Option.some.inj hs ▸ h
      · exact Option.some.inj hs ▸ h
  · exact Option.some.inj hs ▸ h

theorem identified_handleCompletions {s s' : Server} (h : Identified s.traffic) {req : CompletionRequest}
    (hs : handleCompletions layout XXH64 text s req = some s') : Identified s'.traffic := by
  unfold handleCompletions at hs
  split at hs
  · exact Option.some.inj hs ▸ h
  · exact Option.some.inj hs ▸ h
  · simp only at hs
    split at hs
    · exact Option.some.inj hs ▸ h
    · exact Option.some.inj hs ▸ h
    · split at hs
      · exact Option.some.inj hs ▸ h
      · split at hs
        · exact Option.some.inj hs ▸ h
        · obtain ⟨syncs, -, rfl⟩ := Option.map_eq_some_iff.mp hs
          exact identified_withSyncs (s := { s with userOptions := _ }) h _ syncs
    · exact Option.some.inj hs ▸ h

theorem identified_resumeInit {s s' : Server} (h : Identified s.traffic) {c : ClangdCompleter}
    {req : EventNotification} {message : Json} (hs : resumeInit layout XXH64 s c req message = some s') :
    Identified s'.traffic := by
  unfold resumeInit at hs
  split at hs
  · exact Option.some.inj hs ▸ h
  · split at hs
    · exact identified_handleFileEvent h hs
    · split at hs <;> exact identified_handleFileEvent h hs

theorem identified_handleServerMessage {s s' : Server} (h : Identified s.traffic) {c : ClangdCompleter}
    {message : Json} (hs : handleServerMessage layout XXH64 s c message = some s') : Identified s'.traffic := by
  obtain ⟨rpc, -, hs⟩ := Option.bind_eq_some_iff.mp hs
  simp only at hs
  split at hs
  · exact Option.some.inj hs ▸ h
  · have hanswer : ∀ handler message, Identified (s.traffic ++ [.answer handler message]) :=
      fun _ _ => h.append (fun _ hmem => nomatch List.mem_singleton.mp hmem)
    split at hs
    · exact identified_resumeInit (hanswer _ _) hs
    · exact Option.some.inj hs ▸ hanswer _ _

theorem identified_iterateSync {s s' : Server} (h : Identified s.traffic) {c : ClangdCompleter}
    (hs : iterateSync layout XXH64 text s c = some s') : Identified s'.traffic := by
  obtain ⟨syncs, -, hs⟩ := Option.map_eq_some_iff.mp hs
  simp only at hs
  have hsent := identified_withSyncs h c syncs
  split at hs
  · exact hs ▸ identified_call hsent _ _ _ _
  · exact hs ▸ hsent

/-- The step lemma. -/
theorem identified_step (s : Server) (a : ServerStep) (s' : Server) (h : Identified s.traffic)
    (hs : (server layout XXH64 text).step s a = some s') : Identified s'.traffic := by
  obtain ⟨-, -, ⟨userOptions, -, rfl⟩ | ⟨req, env, -, hs⟩ | ⟨req, -, hs⟩ | ⟨message, c, -, -, hs⟩ |
    ⟨i, c, syncs, -, -, -, rfl⟩ | ⟨c, -, -, hs⟩⟩ := serverStep_cases hs
  · exact h
  · exact identified_handleEventNotification h hs
  · exact identified_handleCompletions h hs
  · exact identified_handleServerMessage h hs
  · exact identified_withSyncs h c syncs
  · exact identified_iterateSync h hs

/-- The notifications are read back, and nothing else is read as one. -/
theorem documentsRead_traffic (h : Identified traffic) :
    documentsRead (traffic.filterMap Traffic.message?) = documentsAfter traffic := by
  rw [documentsRead, documentsAfter, List.filterMap_filterMap]
  congr 1
  apply List.filterMap_congr
  intro t ht
  cases t with
  | request message => exact Notification.ofMessage_of_contains (h message ht)
  | notification n => exact Notification.ofMessage_message n
  | answer handler message => rfl

/-- The documents clangd has when it reads a request for completions, and the request that is for. -/
def ReadOnText (text : LineText) (schedule : List ServerStep) (before : List Json) (message : Json) : Prop :=
  message.find? "method" = some (.str "textDocument/completion") →
    ∃ req, .completions req ∈ schedule ∧
      message.find? "params" = some (completionParams text req.toSimpleRequest) ∧
      ∃ st, documentsRead before = some st ∧ ∀ uri, (st uri).map Document.text = editorText req.fileData.files uri

theorem message_ne_completion (n : Notification) :
    n.message.find? "method" ≠ some (.str "textDocument/completion") := by
  have hmethod : ∃ method, n.message.find? "method" = some (.str method) ∧ method ≠ "textDocument/completion" := by
    cases n with
    | didOpen uri languageId version text => exact ⟨"textDocument/didOpen", rfl, by decide⟩
    | didChange uri version text => exact ⟨"textDocument/didChange", rfl, by decide⟩
    | didClose uri => exact ⟨"textDocument/didClose", rfl, by decide⟩
  obtain ⟨method, hfind, hne⟩ := hmethod
  rw [hfind]
  intro heq
  exact hne (Json.str.inj (Option.some.inj heq))

/-- What holds of the traffic as it is sent holds of its messages as they are read. -/
theorem readOnText_of_completesOnText {schedule : List ServerStep} (hid : Identified traffic)
    (h : CompletesOnText text schedule traffic) {before after : List Json} {message : Json}
    (heq : traffic.filterMap Traffic.message? = before ++ message :: after) :
    ReadOnText text schedule before message := by
  intro hmethod
  obtain ⟨sent, rest, rfl, rfl, hrest⟩ := List.filterMap_eq_append_iff.mp heq
  obtain ⟨skipped, t, later, rfl, hskipped, ht, -⟩ := List.filterMap_eq_cons_iff.mp hrest
  have hbefore : sent.filterMap Traffic.message? = (sent ++ skipped).filterMap Traffic.message? := by
    have hnone : skipped.filterMap Traffic.message? = [] := List.filterMap_eq_nil_iff.mpr hskipped
    rw [List.filterMap_append, hnone, List.append_nil]
  have hasks : AsksOnText text schedule (sent ++ skipped) t := h _ t later (by rw [List.append_assoc])
  cases t with
  | request message' =>
    obtain rfl := Option.some.inj ht
    obtain ⟨req, hreq, hparams, st, hst, htext⟩ := hasks _ rfl hmethod
    refine ⟨req, hreq, hparams, st, ?_, htext⟩
    rw [hbefore, documentsRead_traffic, hst]
    intro message hmem
    refine hid message ?_
    rw [← List.append_assoc]
    exact List.mem_append_left _ hmem
  | notification n =>
    obtain rfl := Option.some.inj ht
    exact absurd hmethod (message_ne_completion n)
  | answer handler message' => cases ht

/-- When neither the runs of `sync_files` nor the writes to the pipe overlap, then however the bytes written so far
are cut into chunks, clangd reads what was sent in its order, and when it reads a request for completions the
documents it has read of are the files of the request they are for. -/
theorem completions_read_on_text (layout : Layout) (XXH64 : String → UInt64) (text : LineText)
    (schedule : List ServerStep) (parse : Bytes → Decode Json) (dump : Json → Bytes)
    (hhash : ∀ filename, Set.InjOn XXH64 (contentsOf (schedule.filterMap ServerStep.fileData?) filename))
    (hserial : ∀ s ∈ (server layout XXH64 text).states {} schedule, s.Serial)
    {s : Server} (hs : s ∈ (server layout XXH64 text).states {} schedule)
    (hdump : ∀ j ∈ s.traffic.filterMap Traffic.message?,
      parse (dump j) = .ok j ∧ dump j ≠ [] ∧ (dump j).length < 2^64)
    {sends : List SendStep} {o : Out} (hrun : sender.run {} sends = some o)
    (halone : ∀ p ∈ sender.steps {} sends, Alone p.1 p.2)
    (hmessages : o.messages = (s.traffic.filterMap Traffic.message?).map dump)
    {chunks : List Bytes} (hchunks : chunks.flatten <+: o.stream) :
    (readMessage parse chunks).yielded <+: s.traffic.filterMap Traffic.message? ∧
      ∀ before message after, (readMessage parse chunks).yielded = before ++ message :: after →
        ReadOnText text schedule before message := by
  have hread : (readMessage parse chunks).yielded <+: s.traffic.filterMap Traffic.message? :=
    yielded_of_sent hrun halone hmessages hdump hchunks
  refine ⟨hread, fun before message after heq => ?_⟩
  have hid : Identified s.traffic :=
    (server layout XXH64 text).states_of_invariant identified_step (by simp [Identified]) s hs
  obtain ⟨rest, hrest⟩ := hread
  rw [heq, List.append_assoc] at hrest
  exact readOnText_of_completesOnText hid (relays_states hhash hserial s hs).completes hrest.symm

def editedMessages : List Json :=
  ((server atFront sampleHash noText).run {} editThenComplete).elim [] (fun s => s.traffic.filterMap Traffic.message?)

/-- `dump` on the messages of that run. -/
def dumpEdited (j : Json) : Bytes :=
  match j.find? "method" with
  | some (.str "initialize") =>
    ascii "\x7b\"id\":0.0,\"jsonrpc\":\"2.0\"," ++ ascii "\"method\":\"initialize\"," ++ ascii "\"params\":\x7b" ++
      ascii "\"capabilities\":\x7b" ++ ascii "\"textDocument\":\x7b\"completion\":\x7b" ++
      ascii "\"snippetSupport\":false\x7d\x7d," ++ ascii "\"workspace\":\x7b" ++ ascii "\"applyEdit\":false\x7d\x7d," ++
      ascii "\"initializationOptions\":null," ++ ascii "\"processId\":1,\"rootUri\":\"/foo\"," ++
      ascii "\"workspaceFolders\":null\x7d\x7d"
  | some (.str "textDocument/didOpen") =>
    ascii "\x7b\"jsonrpc\":\"2.0\"," ++ ascii "\"method\":\"textDocument/didOpen\"," ++
      ascii "\"params\":\x7b\"textDocument\":\x7b" ++ ascii "\"languageId\":\"cpp\"," ++ ascii "\"text\":\"int x;\"," ++
      ascii "\"uri\":\"file:///a.cpp\"," ++ ascii "\"version\":1\x7d\x7d\x7d"
  | some (.str "textDocument/didChange") =>
    ascii "\x7b\"jsonrpc\":\"2.0\"," ++ ascii "\"method\":\"textDocument/didChange\"," ++
      ascii "\"params\":\x7b\"contentChanges\":[\x7b" ++ ascii "\"text\":\"int y;\"\x7d]," ++
      ascii "\"textDocument\":\x7b" ++ ascii "\"uri\":\"file:///a.cpp\"," ++ ascii "\"version\":2\x7d\x7d\x7d"
  | some (.str "textDocument/completion") =>
    ascii "\x7b\"id\":1.0,\"jsonrpc\":\"2.0\"," ++ ascii "\"method\":\"textDocument/completion\"," ++
      ascii "\"params\":\x7b\"position\":\x7b" ++ ascii "\"character\":0,\"line\":0\x7d," ++
      ascii "\"textDocument\":\x7b" ++ ascii "\"uri\":\"file:///a.cpp\"\x7d\x7d\x7d"
  | _ => []

def parseEdited (text : Bytes) : Decode Json :=
  match editedMessages.find? (fun j => dumpEdited j = text) with
  | some j => .ok j
  | none => .error ⟨.parseError, 101, ""⟩

theorem parseEdited_dump {j : Json} (hj : j ∈ editedMessages) : parseEdited (dumpEdited j) = .ok j := by
  have hnodup : (editedMessages.map dumpEdited).Nodup := by decide +kernel
  have hfound : (editedMessages.find? (fun i => dumpEdited i = dumpEdited j)).isSome = true :=
    List.find?_isSome.mpr ⟨j, hj, by simp⟩
  obtain ⟨i, hi⟩ := Option.isSome_iff_exists.mp hfound
  have heq : i = j :=
    List.inj_on_of_nodup_map hnodup (List.mem_of_find?_eq_some hi) hj (by simpa using List.find?_some hi)
  rw [parseEdited, hi, heq]

instance (o : Out) (a : SendStep) : Decidable (Alone o a) :=
  match a with
  | .sendMessage _ => inferInstanceAs (Decidable (o.writes = []))
  | .transfer _ _ => .isTrue trivial
  | .complete _ => .isTrue trivial

def editedSends : List SendStep :=
  (editedMessages.map dumpEdited).flatMap
    (fun data => [.sendMessage data, .transfer 0 (frame data).length, .complete 0])

theorem completions_read_on_text_edited :
    ∃ s o, (server atFront sampleHash noText).run {} editThenComplete = some s ∧
      sender.run {} editedSends = some o ∧ (readMessage parseEdited [o.stream]).yielded.length = 4 ∧
      ∀ before message after, (readMessage parseEdited [o.stream]).yielded = before ++ message :: after →
        ReadOnText noText editThenComplete before message := by
  have hsends : (sender.run {} editedSends).map
        (fun o => (o.messages, (readMessage parseEdited [o.stream]).yielded.length)) =
          some (editedMessages.map dumpEdited, 4) ∧
      (∀ p ∈ sender.steps {} editedSends, Alone p.1 p.2) ∧
      ∀ data ∈ editedMessages.map dumpEdited, data ≠ [] ∧ data.length < 2^64 := by decide +kernel
  obtain ⟨hread, halone, hsizes⟩ := hsends
  obtain ⟨o, hrun, ho⟩ := Option.map_eq_some_iff.mp hread
  obtain ⟨hmessages, hlength⟩ := Prod.mk.inj ho
  have hdump : ∀ j ∈ editedMessages,
      parseEdited (dumpEdited j) = .ok j ∧ dumpEdited j ≠ [] ∧ (dumpEdited j).length < 2^64 :=
    fun j hj => ⟨parseEdited_dump hj, hsizes _ (List.mem_map_of_mem hj)⟩
  exact ⟨_, o, rfl, hrun, hlength, (completions_read_on_text atFront sampleHash noText editThenComplete parseEdited
    dumpEdited injOn_edited (by decide +kernel) ((server atFront sampleHash noText).mem_states_of_run rfl) hdump hrun
    halone hmessages (by simp)).2⟩

end Ycmd
