import Ycmd.Clangd.SyncSerial
import Ycmd.Access
import Ycmd.Startup

/-! The documents clangd holds at the moment the server asks it for completions. -/
namespace Ycmd
open Lib Lsp Clangd

variable {layout : Layout} {XXH64 : String → UInt64} {text : LineText} {contents : String → Set String}
  {schedule : List ServerStep} {traffic : List Traffic}

def Traffic.notification? : Traffic → Option Notification
  | .notification n => some n
  | _ => none

/-- The documents after this traffic, if each notification in it was legal. -/
def documentsAfter (traffic : List Traffic) : Option Store :=
  Store.empty.replay (traffic.filterMap Traffic.notification?)

def ServerStep.fileData? : ServerStep → Option FileDataMap
  | .eventNotification req _ => some req.fileData
  | .completions req => some req.fileData
  | _ => none

/-- A completion sent after this traffic is that of a request, for the documents it came with. -/
def AsksOnText (text : LineText) (schedule : List ServerStep) (before : List Traffic) (t : Traffic) : Prop :=
  ∀ message, t = .request message → message.find? "method" = some (.str "textDocument/completion") →
    ∃ req, .completions req ∈ schedule ∧
      message.find? "params" = some (completionParams text req.toSimpleRequest) ∧
      ∃ st, documentsAfter before = some st ∧ ∀ uri, (st uri).map Document.text = editorText req.fileData.files uri

def CompletesOnText (text : LineText) (schedule : List ServerStep) (traffic : List Traffic) : Prop :=
  ∀ before t after, traffic = before ++ t :: after → AsksOnText text schedule before t

/-- The runs of `sync_files` come one after another. -/
def Server.Serial (s : Server) : Prop := ∀ c ∈ s.clangdCompleter, Clangd.Serial c.syncs

instance (s : Server) : Decidable s.Serial := inferInstanceAs (Decidable (∀ c ∈ s.clangdCompleter, Clangd.Serial c.syncs))

theorem CompletesOnText.append (h : CompletesOnText text schedule traffic) {ts : List Traffic}
    (hts : ∀ before t after, ts = before ++ t :: after → AsksOnText text schedule (traffic ++ before) t) :
    CompletesOnText text schedule (traffic ++ ts) := by
  intro before t after heq
  rcases List.append_eq_append_iff.mp heq with ⟨rest, rfl, hrest⟩ | ⟨rest, rfl, hrest⟩
  · exact hts rest t after hrest
  · cases rest with
    | nil =>
      have := hts [] t after hrest.symm
      rwa [List.append_nil, List.append_nil] at this
    | cons u rest =>
      obtain ⟨rfl, -⟩ := List.cons.inj hrest
      exact h before t rest rfl

theorem CompletesOnText.append_one (h : CompletesOnText text schedule traffic) {t : Traffic}
    (ht : AsksOnText text schedule traffic t) : CompletesOnText text schedule (traffic ++ [t]) := by
  apply h.append
  intro before u after heq
  rcases List.singleton_eq_append_iff.mp heq with ⟨rfl, hu⟩ | ⟨-, hu⟩
  · obtain ⟨rfl, -⟩ := List.cons.inj hu
    rwa [List.append_nil]
  · cases hu

theorem filterMap_notification (sent : List Announcement) :
    (sent.map (fun a => Traffic.notification a.notification)).filterMap Traffic.notification? =
      sent.map Announcement.notification := by
  rw [List.filterMap_map]
  exact congrFun List.filterMap_eq_map sent

/-- What the completer's state says about the traffic so far. -/
structure Relaying (layout : Layout) (XXH64 : String → UInt64) (contents : String → Set String)
    (schedule : List ServerStep) (traffic : List Traffic) (c : ClangdCompleter) : Prop where
  settling : Settling layout XXH64 contents c.syncs
  notified : traffic.filterMap Traffic.notification? = c.syncs.sync.notifications
  length_after : c.after.length = c.syncs.runs.length
  asked : ∀ (i : Nat) (req : SimpleRequest), c.after[i]? = some (some req) →
    (∃ completion, .completions completion ∈ schedule ∧ completion.toSimpleRequest = req) ∧
      (c.syncs.runs.map Run.fileData)[i]? = some req.fileData
  waiting : ∀ (k : Nat) (req : EventNotification), c.awaiting[k]? = some (.init req) →
    ∀ f ∈ req.fileData.files, f.2.contents ∈ contents f.1

/-- The invariant of the server. -/
structure Relays (layout : Layout) (XXH64 : String → UInt64) (text : LineText) (contents : String → Set String)
    (schedule : List ServerStep) (s : Server) : Prop where
  completes : CompletesOnText text schedule s.traffic
  silent : s.clangdCompleter = none → s.traffic.filterMap Traffic.notification? = []
  completer : ∀ c, s.clangdCompleter = some c → Relaying layout XXH64 contents schedule s.traffic c

theorem relays_of_completer {s : Server} {c : ClangdCompleter} (h : CompletesOnText text schedule s.traffic)
    (hs : s.clangdCompleter = some c) (hc : Relaying layout XXH64 contents schedule s.traffic c) :
    Relays layout XXH64 text contents schedule s where
  completes := h
  silent := by simp [hs]
  completer := by
    intro c' hc'
    obtain rfl := Option.some.inj (hs.symm.trans hc')
    exact hc

theorem relaying_fresh (h : traffic.filterMap Traffic.notification? = []) :
    Relaying layout XXH64 contents schedule traffic {} :=
  ⟨settling_empty, h, rfl, by simp, by simp⟩

/-- A step of the runs, which adds what it sends to the traffic. -/
theorem relays_withSyncs {s : Server} {c : ClangdCompleter} (h : CompletesOnText text schedule s.traffic)
    (hc : Relaying layout XXH64 contents schedule s.traffic c)
    (hhash : ∀ name, Set.InjOn XXH64 (contents name)) (hserial : Clangd.Serial c.syncs)
    {a : SyncStep} {syncs : Syncs} (hstep : syncStep layout XXH64 c.syncs a = some syncs)
    (htext : ∀ fileData, a = .start fileData → ∀ f ∈ fileData.files, f.2.contents ∈ contents f.1)
    {after : List (Option SimpleRequest)} (hlength : after.length = syncs.runs.length)
    (hasked : ∀ (i : Nat) (req : SimpleRequest), after[i]? = some (some req) →
      (∃ completion, .completions completion ∈ schedule ∧ completion.toSimpleRequest = req) ∧
        (syncs.runs.map Run.fileData)[i]? = some req.fileData)
    (hserial' : (withSyncs s { c with after } syncs).Serial) :
    Relays layout XXH64 text contents schedule (withSyncs s { c with after } syncs) := by
  obtain ⟨sent, hsent⟩ := sent_prefix_step hstep
  have hnew : syncs.sync.sent.drop c.syncs.sync.sent.length = sent := by rw [← hsent, List.drop_left]
  have htraffic : (withSyncs s { c with after } syncs).traffic =
      s.traffic ++ sent.map (fun a => Traffic.notification a.notification) := by
    rw [withSyncs, hnew]
  refine relays_of_completer ?_ rfl ?_
  · rw [htraffic]
    apply h.append
    intro before t rest heq message hmessage
    have ht : t ∈ sent.map (fun a => Traffic.notification a.notification) := by rw [heq]; simp
    obtain ⟨announcement, -, hannouncement⟩ := List.mem_map.mp ht
    cases hannouncement.trans hmessage
  · refine ⟨settling_step hc.settling hhash htext hserial (hserial' _ rfl) hstep, ?_, hlength, hasked, hc.waiting⟩
    rw [htraffic, List.filterMap_append, hc.notified, filterMap_notification, Sync.notifications, Sync.notifications,
      ← List.map_append, hsent]

theorem relays_startSync {s s' : Server} {c : ClangdCompleter} (h : CompletesOnText text schedule s.traffic)
    (hc : Relaying layout XXH64 contents schedule s.traffic c)
    (hhash : ∀ name, Set.InjOn XXH64 (contents name)) (hserial : Clangd.Serial c.syncs)
    {fileData : FileDataMap} (htext : ∀ f ∈ fileData.files, f.2.contents ∈ contents f.1)
    {after : Option SimpleRequest}
    (hafter : ∀ req, after = some req → req.fileData = fileData ∧
      ∃ completion, .completions completion ∈ schedule ∧ completion.toSimpleRequest = req)
    (hs : startSync layout XXH64 s c fileData after = some s') (hserial' : s'.Serial) :
    Relays layout XXH64 text contents schedule s' := by
  obtain ⟨syncs, hstep, rfl⟩ := Option.map_eq_some_iff.mp hs
  have hruns : syncs.runs.map Run.fileData = c.syncs.runs.map Run.fileData ++ [fileData] := fileData_step hstep
  have hlength : (c.syncs.runs.map Run.fileData).length = c.after.length := by
    rw [List.length_map, hc.length_after]
  refine relays_withSyncs h hc hhash hserial hstep ?_ ?_ ?_ hserial'
  · rintro _ ⟨⟩
    exact htext
  · rw [← List.length_map (f := Run.fileData), hruns, List.length_append, List.length_append, hlength]
    rfl
  · intro i req hi
    rw [hruns]
    rcases Nat.lt_or_ge i c.after.length with hlt | hge
    · rw [List.getElem?_append_left hlt] at hi
      rw [List.getElem?_append_left (hlength ▸ hlt)]
      exact hc.asked i req hi
    · rw [List.getElem?_append_right hge, List.getElem?_singleton] at hi
      split at hi
      · next hzero =>
        obtain ⟨hfiles, hcompletion⟩ := hafter req (Option.some.inj hi)
        refine ⟨hcompletion, ?_⟩
        rw [List.getElem?_append_right (hlength ▸ hge), hlength, hzero, hfiles]
        rfl
      · cases hi

theorem relays_handleFileEvent {s s' : Server} {c : ClangdCompleter} (h : CompletesOnText text schedule s.traffic)
    (hc : Relaying layout XXH64 contents schedule s.traffic c)
    (hhash : ∀ name, Set.InjOn XXH64 (contents name)) (hserial : Clangd.Serial c.syncs)
    {req : EventNotification} (htext : ∀ f ∈ req.fileData.files, f.2.contents ∈ contents f.1)
    (hs : handleFileEvent layout XXH64 s c req = some s') (hserial' : s'.Serial) :
    Relays layout XXH64 text contents schedule s' := by
  have hset : Relays layout XXH64 text contents schedule { s with clangdCompleter := some c } :=
    relays_of_completer h rfl hc
  unfold handleFileEvent at hs
  split at hs
  · split at hs
    · exact relays_startSync h hc hhash hserial htext (by simp) hs hserial'
    · exact Option.some.inj hs ▸ hset
  · exact Option.some.inj hs ▸ hset

theorem relaying_call {c : ClangdCompleter} (hc : Relaying layout XXH64 contents schedule traffic c) {message : Json}
    {rpc : Rpc} {k : Continuation}
    (hk : ∀ req, k = .init req → ∀ f ∈ req.fileData.files, f.2.contents ∈ contents f.1) :
    Relaying layout XXH64 contents schedule (traffic ++ [.request message])
      { c with rpc, awaiting := c.awaiting ++ [k] } where
  settling := hc.settling
  notified := by
    rw [List.filterMap_append, hc.notified]
    exact List.append_nil _
  length_after := hc.length_after
  asked := hc.asked
  waiting := by
    intro i req hi
    rcases Nat.lt_or_ge i c.awaiting.length with hlt | hge
    · rw [List.getElem?_append_left hlt] at hi
      exact hc.waiting i req hi
    · rw [List.getElem?_append_right hge, List.getElem?_singleton] at hi
      split at hi
      · exact hk req (Option.some.inj hi)
      · cases hi

/-- A call that is not a completion. -/
theorem relays_call {s : Server} {c : ClangdCompleter} (h : CompletesOnText text schedule s.traffic)
    (hc : Relaying layout XXH64 contents schedule s.traffic c) {method : String} {payload : Json} {k : Continuation}
    (hk : ∀ req, k = .init req → ∀ f ∈ req.fileData.files, f.2.contents ∈ contents f.1)
    (hasks : AsksOnText text schedule s.traffic (.request (requestFor c.rpc method payload))) :
    Relays layout XXH64 text contents schedule (call s c method payload k) :=
  relays_of_completer (h.append_one hasks) rfl (relaying_call hc hk)

theorem asksOnText_other {r : Rpc} {method : String} (hmethod : method ≠ "textDocument/completion") (payload : Json) :
    AsksOnText text schedule traffic (.request (requestFor r method payload)) := by
  rintro message ⟨⟩ h
  rw [requestFor_method] at h
  exact absurd (Json.str.inj (Option.some.inj h)) hmethod

theorem relays_handleEventNotification {s s' : Server} (h : Relays layout XXH64 text contents schedule s)
    (hhash : ∀ name, Set.InjOn XXH64 (contents name)) (hserial : s.Serial) {req : EventNotification}
    {env : Environment} (htext : ∀ f ∈ req.fileData.files, f.2.contents ∈ contents f.1)
    (hs : handleEventNotification layout XXH64 s req env = some s') (hserial' : s'.Serial) :
    Relays layout XXH64 text contents schedule s' := by
  unfold handleEventNotification at hs
  split at hs
  · exact Option.some.inj hs ▸ h
  · exact Option.some.inj hs ▸ ⟨h.completes, h.silent, h.completer⟩
  · split at hs
    · next c hc => exact relays_handleFileEvent h.completes (h.completer c hc) hhash (hserial c hc) htext hs hserial'
    · next hnone =>
      have hfresh : Relaying layout XXH64 contents schedule s.traffic {} := relaying_fresh (h.silent hnone)
      have hset : Relays layout XXH64 text contents schedule { s with clangdCompleter := some {} } :=
        relays_of_completer h.completes rfl hfresh
      split at hs
      · unfold init at hs
        split at hs
        · exact Option.some.inj hs ▸ hset
        · split at hs
          · exact relays_handleFileEvent h.completes hfresh hhash (by decide) htext hs hserial'
          · split at hs
            · refine Option.some.inj hs ▸ relays_call h.completes
                (c := { rpc := { pumping := true } }) ⟨hfresh.settling, hfresh.notified, rfl, by simp, by simp⟩ ?_
                (asksOnText_other (by decide) _)
              rintro _ ⟨⟩
              exact htext
            · exact Option.some.inj hs ▸ hset
      · exact Option.some.inj hs ▸ h
  · exact Option.some.inj hs ▸ h

theorem relays_resumeInit {s s' : Server} {c : ClangdCompleter} {message : Json}
    (h : CompletesOnText text schedule s.traffic) (hc : Relaying layout XXH64 contents schedule s.traffic c)
    (hhash : ∀ name, Set.InjOn XXH64 (contents name)) (hserial : Clangd.Serial c.syncs)
    {req : EventNotification} (htext : ∀ f ∈ req.fileData.files, f.2.contents ∈ contents f.1)
    (hs : resumeInit layout XXH64 s c req message = some s') (hserial' : s'.Serial) :
    Relays layout XXH64 text contents schedule s' := by
  unfold resumeInit at hs
  split at hs
  · exact Option.some.inj hs ▸ relays_of_completer h rfl hc
  · split at hs
    · exact relays_handleFileEvent h hc hhash hserial htext hs hserial'
    · split at hs
      · exact relays_handleFileEvent h hc hhash hserial htext hs hserial'
      · have hc' : Relaying layout XXH64 contents schedule s.traffic { c with initialised := true } :=
          ⟨hc.settling, hc.notified, hc.length_after, hc.asked, hc.waiting⟩
        exact relays_handleFileEvent h hc' hhash hserial htext hs hserial'

theorem relays_handleServerMessage {s s' : Server} {c : ClangdCompleter} {message : Json}
    (h : CompletesOnText text schedule s.traffic) (hc : Relaying layout XXH64 contents schedule s.traffic c)
    (hhash : ∀ name, Set.InjOn XXH64 (contents name)) (hserial : Clangd.Serial c.syncs)
    (hs : handleServerMessage layout XXH64 s c message = some s') (hserial' : s'.Serial) :
    Relays layout XXH64 text contents schedule s' := by
  obtain ⟨rpc, -, hs⟩ := Option.bind_eq_some_iff.mp hs
  have hrpc : Relaying layout XXH64 contents schedule s.traffic { c with rpc } :=
    ⟨hc.settling, hc.notified, hc.length_after, hc.asked, hc.waiting⟩
  simp only at hs
  split at hs
  · exact Option.some.inj hs ▸ relays_of_completer h rfl hrpc
  · next handler answer _ _ =>
    have hcompletes : CompletesOnText text schedule (s.traffic ++ [.answer handler answer]) :=
      h.append_one (fun _ hrequest => by cases hrequest)
    have hanswered : Relaying layout XXH64 contents schedule (s.traffic ++ [.answer handler answer]) { c with rpc } := by
      refine ⟨hc.settling, ?_, hc.length_after, hc.asked, hc.waiting⟩
      rw [List.filterMap_append, hc.notified]
      exact List.append_nil _
    split at hs
    · next req hreq =>
      exact relays_resumeInit (s := { s with traffic := s.traffic ++ [.answer handler answer] }) hcompletes hanswered
        hhash hserial (hc.waiting handler req hreq) hs hserial'
    · exact Option.some.inj hs ▸ relays_of_completer hcompletes rfl hanswered

/-- A run of `sync_files` ends with clangd's documents those of its request. -/
theorem settled_of_done {s s' : Syncs} {i : Nat} (hs : Settling layout XXH64 contents s') (hserial : Clangd.Serial s)
    (hactive : s.active = some i) (hstep : syncStep layout XXH64 s .iterate = some s') {run : Run}
    (hr : s'.runs[i]? = some run) (hdone : run.pc = .done) :
    ∃ st, Settled XXH64 contents ⟨s'.sync, run.fileData.files⟩ st := by
  obtain ⟨-, ⟨_, h0, -⟩ | ⟨_, _, h0, -⟩ | ⟨j, before, -, hj, hbefore, h⟩⟩ := syncStep_cases hstep
  · cases h0
  · cases h0
  obtain rfl := Option.some.inj (hactive.symm.trans hj)
  have hpc : before.pc ≠ .done := by
    intro hdone
    simp [iterateRun, hdone] at h
  obtain ⟨runs, hruns, rfl⟩ := hserial.eq_last hbefore hpc
  have hlength : s'.runs.length = runs.length + 1 := by
    have := congrArg List.length (fileData_step hstep)
    rw [List.length_map, List.length_append, List.length_map, hruns, List.length_append] at this
    exact this
  rcases List.eq_nil_or_concat s'.runs with hnil | ⟨runs', run', hconcat⟩
  · simp [hnil] at hlength
  · rw [List.concat_eq_append] at hconcat
    have heq : runs'.length = runs.length := by simpa [hconcat] using hlength
    rw [hconcat, ← heq, List.getElem?_concat_length] at hr
    obtain rfl := Option.some.inj hr
    have hphase := hs.last runs' run' hconcat
    rwa [RunPhase, hdone] at hphase

theorem relays_iterateSync {s s' : Server} {c : ClangdCompleter} (h : CompletesOnText text schedule s.traffic)
    (hc : Relaying layout XXH64 contents schedule s.traffic c)
    (hhash : ∀ name, Set.InjOn XXH64 (contents name)) (hserial : Clangd.Serial c.syncs)
    (hs : iterateSync layout XXH64 text s c = some s') (hserial' : s'.Serial) :
    Relays layout XXH64 text contents schedule s' := by
  obtain ⟨syncs, hstep, hs⟩ := Option.map_eq_some_iff.mp hs
  have hfileData : syncs.runs.map Run.fileData = c.syncs.runs.map Run.fileData := by
    rw [fileData_step hstep]
    exact List.append_nil _
  have hwithSyncs (hw : (withSyncs s c syncs).Serial) :
      Relays layout XXH64 text contents schedule (withSyncs s c syncs) := by
    refine relays_withSyncs h hc hhash hserial hstep (fun _ h0 => by cases h0) ?_ ?_ hw
    · rw [hc.length_after, ← List.length_map (f := Run.fileData), ← hfileData, List.length_map]
    · rw [hfileData]
      exact hc.asked
  simp only at hs
  split at hs
  · next req heq =>
    have hw : Relays layout XXH64 text contents schedule (withSyncs s c syncs) := by
      apply hwithSyncs
      rintro _ ⟨⟩
      rw [← hs] at hserial'
      have hcalled := hserial' _ rfl
      exact hcalled
    have hc' := hw.completer _ rfl
    obtain ⟨i, hactive, heq⟩ := Option.bind_eq_some_iff.mp heq
    obtain ⟨run, hr, heq⟩ := Option.bind_eq_some_iff.mp heq
    split at heq
    · next hdone =>
      refine hs ▸ relays_call hw.completes hc' (by simp) ?_
      rintro message ⟨⟩ -
      obtain ⟨⟨completion, hcompletion, rfl⟩, hrun⟩ := hc'.asked i req heq
      rw [List.getElem?_map, hr, Option.map_some] at hrun
      obtain ⟨st, hst⟩ := settled_of_done hc'.settling hserial hactive hstep hr hdone
      obtain ⟨-, st', hreplay, htext⟩ := hst.faithful
      refine ⟨completion, hcompletion, rfl, st', ?_, ?_⟩
      · rw [documentsAfter, hc'.notified]
        exact hreplay
      · rw [← Option.some.inj hrun]
        exact htext
    · cases heq
  · exact hs ▸ hwithSyncs (hs ▸ hserial')

theorem relays_handleCompletions {s s' : Server} (h : Relays layout XXH64 text contents schedule s)
    (hhash : ∀ name, Set.InjOn XXH64 (contents name)) (hserial : s.Serial) {req : CompletionRequest}
    (hreq : .completions req ∈ schedule) (htext : ∀ f ∈ req.fileData.files, f.2.contents ∈ contents f.1)
    (hs : handleCompletions layout XXH64 text s req = some s') (hserial' : s'.Serial) :
    Relays layout XXH64 text contents schedule s' := by
  unfold handleCompletions at hs
  split at hs
  · exact Option.some.inj hs ▸ h
  · exact Option.some.inj hs ▸ ⟨h.completes, h.silent, h.completer⟩
  · next userOptions _ =>
    simp only at hs
    split at hs
    · exact Option.some.inj hs ▸ ⟨h.completes, h.silent, h.completer⟩
    · exact Option.some.inj hs ▸ ⟨h.completes, h.silent, h.completer⟩
    · split at hs
      · exact Option.some.inj hs ▸ ⟨h.completes, h.silent, h.completer⟩
      · next c hc =>
        split at hs
        · exact Option.some.inj hs ▸ ⟨h.completes, h.silent, h.completer⟩
        · refine relays_startSync (s := { s with userOptions }) h.completes (h.completer c hc) hhash (hserial c hc) htext
            ?_ hs hserial'
          rintro _ ⟨⟩
          exact ⟨rfl, req, hreq, rfl⟩
    · exact Option.some.inj hs ▸ ⟨h.completes, h.silent, h.completer⟩

/-- The step lemma. -/
theorem relays_step {s s' : Server} {a : ServerStep} (ha : a ∈ schedule)
    (htext : ∀ fileData, a.fileData? = some fileData → ∀ f ∈ fileData.files, f.2.contents ∈ contents f.1)
    (hhash : ∀ name, Set.InjOn XXH64 (contents name)) (hserial : s.Serial) (hserial' : s'.Serial)
    (h : Relays layout XXH64 text contents schedule s) (hs : (server layout XXH64 text).step s a = some s') :
    Relays layout XXH64 text contents schedule s' := by
  obtain ⟨-, -, ⟨userOptions, -, rfl⟩ | ⟨req, env, rfl, hs'⟩ | ⟨req, rfl, hs'⟩ | ⟨message, c, -, hc, hs'⟩ |
    ⟨i, c, syncs, -, hc, hstep, rfl⟩ | ⟨c, -, hc, hs'⟩⟩ := serverStep_cases hs
  · exact ⟨h.completes, h.silent, h.completer⟩
  · exact relays_handleEventNotification h hhash hserial (htext _ rfl) hs' hserial'
  · exact relays_handleCompletions h hhash hserial ha (htext _ rfl) hs' hserial'
  · exact relays_handleServerMessage h.completes (h.completer c hc) hhash (hserial c hc) hs' hserial'
  · have hfileData : syncs.runs.map Run.fileData = c.syncs.runs.map Run.fileData := by
      rw [fileData_step hstep]
      exact List.append_nil _
    refine relays_withSyncs h.completes (h.completer c hc) hhash (hserial c hc) hstep (fun _ h0 => by cases h0) ?_ ?_
      hserial'
    · rw [(h.completer c hc).length_after, ← List.length_map (f := Run.fileData), ← hfileData, List.length_map]
    · rw [hfileData]
      exact (h.completer c hc).asked
  · exact relays_iterateSync h.completes (h.completer c hc) hhash (hserial c hc) hs' hserial'

/-- The run lemma. -/
theorem relays_states (hhash : ∀ filename, Set.InjOn XXH64 (contentsOf (schedule.filterMap ServerStep.fileData?) filename))
    (hserial : ∀ s ∈ (server layout XXH64 text).states {} schedule, s.Serial) :
    ∀ s ∈ (server layout XXH64 text).states {} schedule,
      Relays layout XXH64 text (contentsOf (schedule.filterMap ServerStep.fileData?)) schedule s := by
  have hempty : Relays layout XXH64 text (contentsOf (schedule.filterMap ServerStep.fileData?)) schedule {} :=
    ⟨by simp [CompletesOnText], fun _ => rfl, by simp⟩
  have hstep : ∀ s a s', a ∈ schedule → s.Serial → s'.Serial →
      Relays layout XXH64 text (contentsOf (schedule.filterMap ServerStep.fileData?)) schedule s →
      (server layout XXH64 text).step s a = some s' →
      Relays layout XXH64 text (contentsOf (schedule.filterMap ServerStep.fileData?)) schedule s' := by
    intro s a s' ha hs hs' h hstep
    refine relays_step ha (fun fileData hfileData f hf => ?_) hhash hs hs' h hstep
    exact ⟨fileData, List.mem_filterMap.mpr ⟨a, ha, hfileData⟩, f, hf, rfl, rfl⟩
  exact (server layout XXH64 text).states_of_restricted _ _ hstep hempty (fun _ ha => ha) hserial

/-- When the runs of `sync_files` come one after another, clangd is asked for completions only while
the documents it holds are the files of the request it is asked for. -/
theorem completions_sent_on_text (layout : Layout) (XXH64 : String → UInt64) (text : LineText)
    (schedule : List ServerStep)
    (hhash : ∀ filename, Set.InjOn XXH64 (contentsOf (schedule.filterMap ServerStep.fileData?) filename))
    (hserial : ∀ s ∈ (server layout XXH64 text).states {} schedule, s.Serial) :
    ∀ s ∈ (server layout XXH64 text).states {} schedule, CompletesOnText text schedule s.traffic :=
  fun s hs => (relays_states hhash hserial s hs).completes

/-- A file is opened, edited, and completed in. -/
def editThenComplete : List ServerStep := fileReadyEarly ++ [.resume 0, .iterate, .iterate, .iterate,
  .completions (completionAt (oneFile "int y;")), .iterate, .resume 1, .iterate, .iterate, .iterate]

theorem injOn_sampleHash {texts : Set String} (h : ∀ text ∈ texts, text = "int x;" ∨ text = "int y;") :
    Set.InjOn sampleHash texts := by
  intro a ha b hb hab
  rcases h a ha with rfl | rfl <;> rcases h b hb with rfl | rfl
  · rfl
  · exact absurd hab (by decide)
  · exact absurd hab (by decide)
  · rfl

theorem injOn_edited (filename : String) :
    Set.InjOn sampleHash (contentsOf (editThenComplete.filterMap ServerStep.fileData?) filename) := by
  apply injOn_sampleHash
  rintro text ⟨fileData, hmem, f, hf, -, rfl⟩
  rcases List.mem_pair.mp hmem with rfl | rfl
  · exact .inl (by rw [List.mem_singleton.mp hf])
  · exact .inr (by rw [List.mem_singleton.mp hf])

theorem completions_sent_on_text_edited :
    ∃ s, (server atFront sampleHash noText).run {} editThenComplete = some s ∧
      s.traffic.map Traffic.sent = [true, false, true, true, true] ∧
      CompletesOnText noText editThenComplete s.traffic :=
  ⟨_, rfl, rfl, completions_sent_on_text atFront sampleHash noText editThenComplete injOn_edited (by decide +kernel) _
    ((server atFront sampleHash noText).mem_states_of_run rfl)⟩

end Ycmd
