import Ycmd.Startup

/-! Whether any handler uses the completer before there is one. -/
namespace Ycmd
open Lib Lsp Clangd

variable {layout : Layout} {XXH64 : String → UInt64} {text : LineText}

def routesToClangd (req : SimpleRequest) : Bool :=
  match completerForRequest req with
  | .ok .clangd => true
  | _ => false

theorem routesToClangd_iff {req : SimpleRequest} :
    routesToClangd req = true ↔ completerForRequest req = .ok .clangd := by
  unfold routesToClangd
  split
  · next h => simp [h]
  · next h => simpa using h

/-- The completion request gets past its query check and is one for clangd. -/
def asksClangd (text : LineText) (userOptions : Json) (req : CompletionRequest) : Bool :=
  match queryGate text userOptions req with
  | .ok (passed, _) => passed && routesToClangd req.toSimpleRequest
  | .error _ => false

/-- An event notification for a file of clangd's, by which the completer is there. -/
def ServerStep.makesCompleter : ServerStep → Bool
  | .eventNotification req env => routesToClangd req.toSimpleRequest && env.pipes
  | _ => false

/-- What a handler that has the completer leaves. -/
def Keeps (s s' : Server) : Prop := s'.emptyAccess = s.emptyAccess ∧ s'.clangdCompleter.isSome = true

theorem keeps_handleFileEvent {s s' : Server} {c : ClangdCompleter} {req : EventNotification}
    (hs : handleFileEvent layout XXH64 s c req = some s') : Keeps s s' := by
  unfold handleFileEvent at hs
  split at hs
  · split at hs
    · obtain ⟨syncs, -, rfl⟩ := Option.map_eq_some_iff.mp hs
      exact ⟨rfl, rfl⟩
    · exact Option.some.inj hs ▸ ⟨rfl, rfl⟩
  · exact Option.some.inj hs ▸ ⟨rfl, rfl⟩

theorem keeps_init {s s' : Server} {c : ClangdCompleter} {req : EventNotification} {env : Environment}
    (hs : init layout XXH64 s c req env = some s') : Keeps s s' := by
  unfold init at hs
  split at hs
  · exact Option.some.inj hs ▸ ⟨rfl, rfl⟩
  · split at hs
    · exact keeps_handleFileEvent hs
    · split at hs <;> exact Option.some.inj hs ▸ ⟨rfl, rfl⟩

theorem keeps_resumeInit {s s' : Server} {c : ClangdCompleter} {req : EventNotification} {message : Json}
    (hs : resumeInit layout XXH64 s c req message = some s') : Keeps s s' := by
  unfold resumeInit at hs
  split at hs
  · exact Option.some.inj hs ▸ ⟨rfl, rfl⟩
  · split at hs
    · exact keeps_handleFileEvent hs
    · split at hs <;> exact keeps_handleFileEvent hs

theorem keeps_handleServerMessage {s s' : Server} {c : ClangdCompleter} {message : Json}
    (hs : handleServerMessage layout XXH64 s c message = some s') : Keeps s s' := by
  obtain ⟨rpc, -, hs⟩ := Option.bind_eq_some_iff.mp hs
  simp only at hs
  split at hs
  · exact Option.some.inj hs ▸ ⟨rfl, rfl⟩
  · split at hs
    · obtain ⟨haccess, hsome⟩ := keeps_resumeInit hs
      exact ⟨haccess, hsome⟩
    · exact Option.some.inj hs ▸ ⟨rfl, rfl⟩

theorem keeps_iterateSync {s s' : Server} {c : ClangdCompleter}
    (hs : iterateSync layout XXH64 text s c = some s') : Keeps s s' := by
  obtain ⟨syncs, -, hs⟩ := Option.map_eq_some_iff.mp hs
  simp only at hs
  split at hs <;> exact hs ▸ ⟨rfl, rfl⟩

theorem handleEventNotification_completer {s s' : Server} {req : EventNotification} {env : Environment}
    (hs : handleEventNotification layout XXH64 s req env = some s') :
    s'.emptyAccess = s.emptyAccess ∧ (s'.clangdCompleter.isSome = true ↔ s.clangdCompleter.isSome = true ∨
      (ServerStep.eventNotification req env).makesCompleter = true) := by
  simp only [ServerStep.makesCompleter, Bool.and_eq_true, routesToClangd_iff]
  unfold handleEventNotification at hs
  split at hs
  · next hk => exact Option.some.inj hs ▸ ⟨rfl, by simp [hk]⟩
  · next hk => exact Option.some.inj hs ▸ ⟨rfl, by simp [hk]⟩
  · next hk =>
    split at hs
    · next c hc =>
      obtain ⟨haccess, hsome⟩ := keeps_handleFileEvent hs
      exact ⟨haccess, by simp [hsome, hc]⟩
    · next hc =>
      split at hs
      · next hpipes =>
        obtain ⟨haccess, hsome⟩ := keeps_init hs
        exact ⟨haccess, by simp [hsome, hk, hpipes]⟩
      · next hpipes => exact Option.some.inj hs ▸ ⟨rfl, by simp [hc, hpipes]⟩
  · next kind hnot hk =>
    have hne : kind ≠ .clangd := fun h => hnot h
    exact Option.some.inj hs ▸ ⟨rfl, by simp [hk, hne]⟩

theorem handleCompletions_completer {s s' : Server} {req : CompletionRequest}
    (hs : handleCompletions layout XXH64 text s req = some s') (hnow : s.emptyAccess = false) :
    (s'.emptyAccess = true ↔ asksClangd text s.userOptions req = true ∧ s.clangdCompleter = none) ∧
      s'.clangdCompleter.isSome = s.clangdCompleter.isSome := by
  unfold handleCompletions at hs
  unfold asksClangd
  split at hs
  · next hg => exact Option.some.inj hs ▸ ⟨by simp [hg, hnow], rfl⟩
  · next hg => exact Option.some.inj hs ▸ ⟨by simp [hg, hnow], rfl⟩
  · next hg =>
    simp only [hg, Bool.true_and, routesToClangd_iff]
    simp only at hs
    split at hs
    · next hk => exact Option.some.inj hs ▸ ⟨by simp [hk, hnow], rfl⟩
    · next hk => exact Option.some.inj hs ▸ ⟨by simp [hk, hnow], rfl⟩
    · next hk =>
      split at hs
      · next hc => exact Option.some.inj hs ▸ ⟨by simp [hk, hc], rfl⟩
      · next c hc =>
        split at hs
        · exact Option.some.inj hs ▸ ⟨by simp [hc, hnow], rfl⟩
        · obtain ⟨syncs, -, rfl⟩ := Option.map_eq_some_iff.mp hs
          exact ⟨by simp [withSyncs, hc, hnow], by simp [withSyncs, hc]⟩
    · next kind hnot hk =>
      have hne : kind ≠ .clangd := fun h => hnot h
      exact Option.some.inj hs ▸ ⟨by simp [hk, hne, hnow], rfl⟩

/-- Only a completion request can access an empty optional. -/
theorem emptyAccess_step {s s' : Server} {a : ServerStep} (h : serverStep layout XXH64 text s a = some s') :
    s'.emptyAccess = true ↔
      ∃ req, a = .completions req ∧ asksClangd text s.userOptions req = true ∧ s.clangdCompleter = none := by
  obtain ⟨-, hnow, ⟨userOptions, rfl, rfl⟩ | ⟨req, env, rfl, hs⟩ | ⟨req, rfl, hs⟩ | ⟨message, c, rfl, hc, hs⟩ |
    ⟨i, c, syncs, rfl, hc, -, rfl⟩ | ⟨c, rfl, hc, hs⟩⟩ := serverStep_cases h
  · simp [hnow]
  · simp [(handleEventNotification_completer hs).1, hnow]
  · simp [(handleCompletions_completer hs hnow).1]
  · simp [(keeps_handleServerMessage hs).1, hnow]
  · simp [withSyncs, hnow]
  · simp [(keeps_iterateSync hs).1, hnow]

/-- The completer is there after a step when it was before, or the step has made it. -/
theorem hasCompleter_step {s s' : Server} {a : ServerStep} (h : serverStep layout XXH64 text s a = some s') :
    s'.clangdCompleter.isSome = true ↔ s.clangdCompleter.isSome = true ∨ a.makesCompleter = true := by
  obtain ⟨-, hnow, ⟨userOptions, rfl, rfl⟩ | ⟨req, env, rfl, hs⟩ | ⟨req, rfl, hs⟩ | ⟨message, c, rfl, hc, hs⟩ |
    ⟨i, c, syncs, rfl, hc, -, rfl⟩ | ⟨c, rfl, hc, hs⟩⟩ := serverStep_cases h
  · simp [ServerStep.makesCompleter]
  · exact (handleEventNotification_completer hs).2
  · simp [(handleCompletions_completer hs hnow).2, ServerStep.makesCompleter]
  · simp [(keeps_handleServerMessage hs).2, hc]
  · simp [withSyncs, hc]
  · simp [(keeps_iterateSync hs).2, hc]

/-- After a run, it is there when one of the requests handled has made it. -/
theorem hasCompleter_run {s t : Server} {schedule : List ServerStep}
    (h : (server layout XXH64 text).run s schedule = some t) :
    t.clangdCompleter.isSome = true ↔
      s.clangdCompleter.isSome = true ∨ ∃ a ∈ schedule, a.makesCompleter = true := by
  induction schedule generalizing s with
  | nil =>
    obtain rfl : s = t := by simpa using h
    simp
  | cons a schedule ih =>
    cases hs : (server layout XXH64 text).step s a with
    | none => simp [Machine.run, hs] at h
    | some s' =>
      rw [(server layout XXH64 text).run_cons hs] at h
      rw [ih h, hasCompleter_step hs, or_assoc]
      simp only [List.exists_mem_cons_iff]

/-- A completion request that asks clangd finds the completer. -/
def FindsCompleter (text : LineText) (s : Server) (a : ServerStep) : Prop :=
  ∀ req, a = .completions req → asksClangd text s.userOptions req = true → s.clangdCompleter.isSome = true

theorem emptyAccess_states (layout : Layout) (XXH64 : String → UInt64) (text : LineText)
    (schedule : List ServerStep) :
    (∀ s ∈ (server layout XXH64 text).states {} schedule, s.emptyAccess = false) ↔
      ∀ p ∈ (server layout XXH64 text).steps {} schedule, FindsCompleter text p.1 p.2 := by
  refine (server layout XXH64 text).states_iff_guarded (fun s => s.emptyAccess = false) (fun _ => True)
    (fun s h => h) ?_ ?_ rfl (fun _ _ => trivial)
  · intro s a s' _ _ hok hs
    cases haccess : s'.emptyAccess with
    | false => rfl
    | true =>
      obtain ⟨req, ha, hasks, hnone⟩ := (emptyAccess_step hs).mp haccess
      have := hok req ha hasks
      simp [hnone] at this
  · intro s a s' _ _ hok hs haccess
    apply hok
    intro req ha hasks
    cases hc : s.clangdCompleter with
    | some c => rfl
    | none =>
      have := (emptyAccess_step hs).mpr ⟨req, ha, hasks, hc⟩
      simp [haccess] at this

/-- No handler accesses the completer before it is there exactly when each completion request that
asks clangd is handled after an event notification that has made it. -/
theorem empty_access_iff (layout : Layout) (XXH64 : String → UInt64) (text : LineText)
    (schedule : List ServerStep) :
    (∀ s ∈ (server layout XXH64 text).states {} schedule, s.emptyAccess = false) ↔
      ∀ pre req post s, schedule = pre ++ .completions req :: post →
        (server layout XXH64 text).run {} pre = some s →
        ((server layout XXH64 text).step s (.completions req)).isSome = true →
        asksClangd text s.userOptions req = true → ∃ a ∈ pre, a.makesCompleter = true := by
  rw [emptyAccess_states]
  constructor
  · intro h pre req post s heq hrun hstep hasks
    have hmem := (server layout XXH64 text).mem_steps_iff.mpr ⟨pre, post, heq, hrun, hstep⟩
    have hsome := h _ hmem req rfl hasks
    exact ((hasCompleter_run hrun).mp hsome).resolve_left (by simp)
  · rintro h ⟨s, a⟩ hmem req rfl hasks
    obtain ⟨pre, post, heq, hrun, hstep⟩ := (server layout XXH64 text).mem_steps_iff.mp hmem
    exact (hasCompleter_run hrun).mpr (.inr (h pre req post s heq hrun hstep hasks))

def completionAt (fileData : FileDataMap) : CompletionRequest :=
  { lineNum := 1, columnNum := 1, filepath := "/a.cpp", fileData, forceSemantic := none }

/-- The first request to a server just started: nothing has made the completer, and no option bars it. -/
theorem first_completion_accesses_empty : ∃ s,
    (server atFront sampleHash noText).run {} [.completions (completionAt (oneFile "int x;"))] = some s ∧
      s.emptyAccess = true :=
  ⟨_, rfl, rfl⟩

end Ycmd
