import Ycmd.Access

/-! The user options over whole runs: a completion request reads one of them with the `operator[]`
that makes what is missing, so the server's options are not always those it was given. -/
namespace Ycmd
open Lib Lsp Clangd

variable {layout : Layout} {XXH64 : String → UInt64} {text : LineText} {given options : Json}

def minimumKey : String := "min_num_of_chars_for_completion"

/-- The options after a run: those of its last `initialize`. -/
def lastOptions (userOptions : Json) (schedule : List ServerStep) : Json :=
  schedule.foldl (fun userOptions a => match a with
    | .initializeOptions userOptions' => userOptions'
    | _ => userOptions) userOptions

/-- The options as given, but that the minimum may have been made for want of one. -/
def Filled (given options : Json) : Prop :=
  options = given ∨ given.find? minimumKey = none ∧ given.index minimumKey = .ok (.null, options)

/-- What `operator[]` does to the object, and that doing it again does nothing. -/
theorem index_cases {j j' v : Json} {key : String} (h : j.index key = .ok (v, j')) :
    j'.index key = .ok (v, j') ∧ (j' = j ∨ j.find? key = none ∧ v = .null ∧ j' = j.set key .null) := by
  cases j with
  | null =>
    obtain ⟨rfl, rfl⟩ := Prod.mk.inj (Except.ok.inj h)
    refine ⟨?_, .inr ⟨rfl, rfl, rfl⟩⟩
    simp [Json.index, Json.set]
  | obj members =>
    cases hmember : members.lookup key with
    | some w =>
      simp only [Json.index, hmember] at h
      obtain ⟨rfl, rfl⟩ := Prod.mk.inj (Except.ok.inj h)
      refine ⟨?_, .inl rfl⟩
      simp [Json.index, hmember]
    | none =>
      simp only [Json.index, hmember] at h
      obtain ⟨rfl, rfl⟩ := Prod.mk.inj (Except.ok.inj h)
      refine ⟨?_, .inr ⟨hmember, rfl, rfl⟩⟩
      simp [Json.index, Json.set, Json.lookup_insertMember]
  | _ => cases h

theorem Filled.refl (given : Json) : Filled given given := .inl rfl

theorem Filled.index (h : Filled given options) {v options' : Json} (hi : options.index minimumKey = .ok (v, options')) :
    Filled given options' := by
  rcases h with rfl | ⟨hnone, hmade⟩
  · obtain ⟨-, rfl | ⟨hnone, rfl, -⟩⟩ := index_cases hi
    · exact .inl rfl
    · exact .inr ⟨hnone, hi⟩
  · obtain ⟨hagain, -⟩ := index_cases hmade
    obtain ⟨-, rfl⟩ := Prod.mk.inj (Except.ok.inj (hagain.symm.trans hi))
    exact .inr ⟨hnone, hmade⟩

/-- What can be read of options made so is what can be read of those given, and one null. -/
theorem Filled.find? (h : Filled given options) (key : String) :
    options.find? key = given.find? key ∨
      key = minimumKey ∧ given.find? key = none ∧ options.find? key = some .null := by
  rcases h with rfl | ⟨hnone, hmade⟩
  · exact .inl rfl
  · obtain ⟨-, rfl | ⟨-, -, rfl⟩⟩ := index_cases hmade
    · exact .inl rfl
    · rw [Json.find?_set]
      by_cases hkey : key = minimumKey
      · rw [if_pos hkey]
        exact .inr ⟨hkey, hkey ▸ hnone, rfl⟩
      · rw [if_neg hkey]
        exact .inl rfl

theorem Filled.clangdPath (h : Filled given options) (env : Environment) :
    clangdPath options env = clangdPath given env := by
  rcases h.find? "clangd_binary_path" with heq | ⟨hkey, -, -⟩
  · rw [Ycmd.clangdPath, Ycmd.clangdPath, heq]
  · exact absurd hkey (by decide)

/-- The minimum that a request finds was missing bars it as little as the missing one. -/
theorem Filled.shortQuery (h : Filled given options) (req : CompletionRequest) :
    (queryGate.shortQuery text options req).map Prod.fst = (queryGate.shortQuery text given req).map Prod.fst := by
  rcases h with rfl | ⟨-, hmade⟩
  · rfl
  · have hagain : options.index "min_num_of_chars_for_completion" = .ok (.null, options) := (index_cases hmade).1
    have hmade : given.index "min_num_of_chars_for_completion" = .ok (.null, options) := hmade
    rw [queryGate.shortQuery, queryGate.shortQuery, hagain, hmade]

theorem Filled.queryGate (h : Filled given options) (req : CompletionRequest) :
    (queryGate text options req).map Prod.fst = (queryGate text given req).map Prod.fst := by
  unfold Ycmd.queryGate
  split
  · exact h.shortQuery req
  · split
    · rfl
    · rfl
    · exact h.shortQuery req

/-- A request leaves the options as they were, or with the minimum made. -/
theorem Filled.of_queryGate (h : Filled given options) {req : CompletionRequest} {past : Bool} {options' : Json}
    (hgate : Ycmd.queryGate text options req = .ok (past, options')) : Filled given options' := by
  have hshort (hshort : queryGate.shortQuery text options req = .ok (past, options')) : Filled given options' := by
    unfold queryGate.shortQuery at hshort
    split at hshort
    · next hindex =>
      obtain ⟨-, rfl⟩ := Prod.mk.inj (Except.ok.inj hshort)
      exact h.index hindex
    · cases hshort
  unfold Ycmd.queryGate at hgate
  split at hgate
  · exact hshort hgate
  · split at hgate
    · cases hgate
    · obtain ⟨-, rfl⟩ := Prod.mk.inj (Except.ok.inj hgate)
      exact h
    · exact hshort hgate

section Frame
variable {s s' : Server} {c : ClangdCompleter}

theorem userOptions_startSync {fileData : FileDataMap} {after : Option SimpleRequest}
    (h : startSync layout XXH64 s c fileData after = some s') : s'.userOptions = s.userOptions := by
  obtain ⟨syncs, -, rfl⟩ := Option.map_eq_some_iff.mp h
  rfl

theorem userOptions_handleFileEvent {req : EventNotification} (h : handleFileEvent layout XXH64 s c req = some s') :
    s'.userOptions = s.userOptions := by
  unfold handleFileEvent at h
  split at h
  · split at h
    · exact userOptions_startSync h
    · exact Option.some.inj h ▸ rfl
  · exact Option.some.inj h ▸ rfl

theorem userOptions_handleEventNotification {req : EventNotification} {env : Environment}
    (h : handleEventNotification layout XXH64 s req env = some s') : s'.userOptions = s.userOptions := by
  unfold handleEventNotification at h
  split at h
  · exact Option.some.inj h ▸ rfl
  · exact Option.some.inj h ▸ rfl
  · split at h
    · exact userOptions_handleFileEvent h
    · split at h
      · unfold init at h
        split at h
        · exact Option.some.inj h ▸ rfl
        · split at h
          · exact userOptions_handleFileEvent h
          · split at h
            · exact Option.some.inj h ▸ rfl
            · exact Option.some.inj h ▸ rfl
      · exact Option.some.inj h ▸ rfl
  · exact Option.some.inj h ▸ rfl

theorem userOptions_resumeInit {req : EventNotification} {message : Json}
    (h : resumeInit layout XXH64 s c req message = some s') : s'.userOptions = s.userOptions := by
  unfold resumeInit at h
  split at h
  · exact Option.some.inj h ▸ rfl
  · split at h
    · exact userOptions_handleFileEvent h
    · split at h
      · exact userOptions_handleFileEvent h
      · exact userOptions_handleFileEvent h

theorem userOptions_handleServerMessage {message : Json} (h : handleServerMessage layout XXH64 s c message = some s') :
    s'.userOptions = s.userOptions := by
  obtain ⟨rpc, -, h⟩ := Option.bind_eq_some_iff.mp h
  simp only at h
  split at h
  · exact Option.some.inj h ▸ rfl
  · split at h
    · exact (userOptions_resumeInit h).trans rfl
    · exact Option.some.inj h ▸ rfl

theorem userOptions_iterateSync (h : iterateSync layout XXH64 text s c = some s') :
    s'.userOptions = s.userOptions := by
  obtain ⟨syncs, -, h⟩ := Option.map_eq_some_iff.mp h
  simp only at h
  split at h
  · exact h ▸ rfl
  · exact h ▸ rfl

theorem filled_handleCompletions {req : CompletionRequest} (hs : Filled given s.userOptions)
    (h : handleCompletions layout XXH64 text s req = some s') : Filled given s'.userOptions := by
  unfold handleCompletions at h
  split at h
  · exact Option.some.inj h ▸ hs
  · next hgate => exact Option.some.inj h ▸ hs.of_queryGate hgate
  · next userOptions hgate =>
    have hfilled := hs.of_queryGate hgate
    simp only at h
    split at h
    · exact Option.some.inj h ▸ hfilled
    · exact Option.some.inj h ▸ hfilled
    · split at h
      · exact Option.some.inj h ▸ hfilled
      · split at h
        · exact Option.some.inj h ▸ hfilled
        · have hkept := userOptions_startSync h
          rw [hkept]
          exact hfilled
    · exact Option.some.inj h ▸ hfilled

end Frame

/-- The step lemma. -/
theorem filled_step {s s' : Server} {a : ServerStep} (hs : Filled given s.userOptions)
    (h : (server layout XXH64 text).step s a = some s') : Filled (lastOptions given [a]) s'.userOptions := by
  obtain ⟨-, -, ⟨userOptions, rfl, rfl⟩ | ⟨req, env, rfl, h'⟩ | ⟨req, rfl, h'⟩ | ⟨message, c, rfl, -, h'⟩ |
    ⟨i, c, syncs, rfl, -, -, rfl⟩ | ⟨c, rfl, -, h'⟩⟩ := serverStep_cases h
  · exact .refl userOptions
  · rw [userOptions_handleEventNotification h']
    exact hs
  · exact filled_handleCompletions hs h'
  · rw [userOptions_handleServerMessage h']
    exact hs
  · exact hs
  · rw [userOptions_iterateSync h']
    exact hs

/-- The run lemma. -/
theorem filled_run {s t : Server} {schedule : List ServerStep} (hs : Filled given s.userOptions)
    (h : (server layout XXH64 text).run s schedule = some t) : Filled (lastOptions given schedule) t.userOptions := by
  induction schedule generalizing s given with
  | nil =>
    obtain rfl := Option.some.inj h
    exact hs
  | cons a schedule ih =>
    obtain ⟨s', hstep, hrun⟩ := Option.bind_eq_some_iff.mp h
    exact ih (filled_step hs hstep) hrun

/-- After any run the options are read as those of the last `initialize`: each has the value given,
but for a null where the minimum was missing, and that null lets the same completions pass. -/
theorem options_read_as_given (layout : Layout) (XXH64 : String → UInt64) (text : LineText)
    {schedule : List ServerStep} {s t : Server} (h : (server layout XXH64 text).run s schedule = some t) :
    (∀ req, (queryGate text t.userOptions req).map Prod.fst =
        (queryGate text (lastOptions s.userOptions schedule) req).map Prod.fst) ∧
      (∀ env, clangdPath t.userOptions env = clangdPath (lastOptions s.userOptions schedule) env) ∧
      ∀ key, t.userOptions.find? key = (lastOptions s.userOptions schedule).find? key ∨
        key = minimumKey ∧ (lastOptions s.userOptions schedule).find? key = none ∧
          t.userOptions.find? key = some .null := by
  have hfilled := filled_run (.refl s.userOptions) h
  exact ⟨hfilled.queryGate, hfilled.clangdPath, hfilled.find?⟩

/-- Options without a minimum, which a completion makes. -/
def minimumMade : List ServerStep := [.initializeOptions (.obj [("clangd_binary_path", .str "clangd")]),
  .completions { completionAt noFiles with forceSemantic := some (.bool false) }, .completions (completionAt noFiles)]

theorem options_read_as_given_made :
    ∃ t, (server atFront sampleHash noText).run {} minimumMade = some t ∧
      t.userOptions.find? minimumKey = some .null ∧
      ∀ env, clangdPath t.userOptions env = clangdPath (.obj [("clangd_binary_path", .str "clangd")]) env := by
  have hrun : ∃ t, (server atFront sampleHash noText).run {} minimumMade = some t ∧
      t.userOptions.find? minimumKey = some .null := ⟨_, rfl, rfl⟩
  obtain ⟨t, hrun, hmade⟩ := hrun
  exact ⟨t, hrun, hmade, (options_read_as_given atFront sampleHash noText hrun).2.1⟩

end Ycmd
