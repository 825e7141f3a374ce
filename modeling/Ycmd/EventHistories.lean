import Ycmd.Core.Narrowing
import Ycmd.IdentifierCompleter

/-! Which of the events that the completer of identifiers has been told its answers depend on. -/
namespace Ycmd.General.IdentifierCompleter
open Lib Clangd Ycmd.Core IdentifierDatabase

section Completions
variable {env : Core.Environment} {classes : CharacterClasses} {text : TextLibrary} {userOptions : Json}
  {requestWrap : SimpleRequest} {db db' : IdentifierDatabase}

/-- What the option leaves of the identifiers. Where it is not there nothing is left to be returned. -/
def longEnough (userOptions : Json) (t : Bytes) : Bool :=
  match option userOptions "min_num_identifier_candidate_chars" with
  | .ok minimum => minimum.ltNat t.length
  | .error _ => false

theorem candidatesFrom_filter {completions : List Bytes} {candidates : List Completion}
    (h : candidatesFrom userOptions completions = .ok candidates) :
    candidates = (completions.filter (longEnough userOptions)).map (fun t => ⟨t, "[ID]"⟩) := by
  induction completions generalizing candidates with
  | nil => exact (Except.ok.inj h).symm
  | cons t completions ih =>
    obtain ⟨minimum, hoption, h⟩ := bind_ok h
    obtain ⟨rest, hrest, h⟩ := bind_ok h
    have hlong : longEnough userOptions t = minimum.ltNat t.length := by simp only [longEnough, hoption]
    rw [List.filter_cons, hlong]
    split at h
    · rename_i hlt
      rw [if_pos hlt, List.map_cons, ← ih hrest]
      exact (Except.ok.inj h).symm
    · rename_i hlt
      rw [if_neg hlt, ← ih hrest]
      exact (Except.ok.inj h).symm

/-- What is returned is made of the answers of the database, those that are long enough. -/
theorem computeCandidates_ok {candidates : List Completion}
    (h : computeCandidates env classes text userOptions requestWrap db = .ok candidates db') {query : View UInt8}
    (hquery : RequestWrapper.queryBytes text classes requestWrap = .ok query) {filetype : String}
    (hfiletype : firstFiletype requestWrap = .ok filetype) :
    ∃ answers, Core.IdentifierCompleter.candidatesForQueryAndType env query.elems (utf8 filetype.toList) 0 db =
        .ok answers db' ∧
      candidates = (answers.filter (longEnough userOptions)).map (fun t => ⟨t, "[ID]"⟩) := by
  cases hanswers : Core.IdentifierCompleter.candidatesForQueryAndType env query.elems (utf8 filetype.toList) 0 db with
  | error failure db₂ =>
    simp only [computeCandidates, hquery, hfiletype, bind, EStateM.bind, interrupting, inDatabase, hanswers] at h
    cases h
  | ok answers db₂ =>
    simp only [computeCandidates, hquery, hfiletype, bind, EStateM.bind, interrupting, inDatabase, hanswers] at h
    cases hfrom : candidatesFrom userOptions answers with
    | error interrupt =>
      rw [hfrom] at h
      cases h
    | ok from' =>
      rw [hfrom] at h
      cases h
      exact ⟨answers, rfl, candidatesFrom_filter hfrom⟩

end Completions

/-- The filetype and the path that an event is about. -/
def subject (requestData : EventNotification) : Option (Bytes × Bytes) :=
  match requestData.file with
  | .ok file => match frontFiletype file with
    | .ok name => some (utf8 name.toList, utf8 requestData.filepath.toList)
    | .error _ => none
  | .error _ => none

/-- The events about a file in a filetype, from the last one on that has its buffer parsed. -/
def recent (filetype filepath : Bytes) (events : List EventNotification) : List EventNotification :=
  events.foldl (fun kept requestData =>
    if subject requestData = some (filetype, filepath) then
      if requestData.eventName = .fileReadyToParse then [requestData] else kept ++ [requestData]
    else kept) []

variable {env : Core.Environment} {classes : CharacterClasses} {events events' : List EventNotification}
  {requestData : EventNotification} {filetype filepath t : Bytes}

theorem subject_iff : subject requestData = some (filetype, filepath) ↔ Concerns requestData filetype filepath := by
  unfold subject Concerns
  cases requestData.file with
  | error interrupt => simp
  | ok file =>
    cases hname : frontFiletype file with
    | error interrupt => simp [hname]
    | ok name => simp [hname, eq_comm]

theorem recent_concat : recent filetype filepath (events ++ [requestData]) =
    if subject requestData = some (filetype, filepath) then
      if requestData.eventName = .fileReadyToParse then [requestData]
      else recent filetype filepath events ++ [requestData]
    else recent filetype filepath events := by
  rw [recent, List.foldl_concat]
  rfl

/-- What is recorded of a file is what its recent events tell of. -/
theorem recorded_iff_recent : Recorded classes events filetype filepath t ↔
    ∃ requestData ∈ recent filetype filepath events, Extracts classes requestData t := by
  induction events using List.reverseRecOn with
  | nil => simp [Recorded, recent]
  | append_singleton events requestData ih =>
    rw [recorded_concat, recent_concat, Replaces, ← subject_iff, ih]
    by_cases hsubject : subject requestData = some (filetype, filepath)
    · rw [if_pos hsubject]
      by_cases hparsed : requestData.eventName = .fileReadyToParse
      · simp [hsubject, hparsed]
      · simp only [hsubject, hparsed, true_and, and_true, not_false_eq_true, if_false, List.mem_append,
          List.mem_singleton, or_and_right, exists_or, exists_eq_left]
        exact or_comm
    · simp [hsubject]

/-- What is stored under a filetype after some events. -/
theorem stored_run (hinside : ∀ requestData ∈ events, Inside requestData) (filetype : Bytes) :
    stored (run env classes events .empty) filetype = {t | ∃ filepath, ∃ requestData ∈ recent filetype filepath events,
      ∃ identifier, Extracts classes requestData identifier ∧ shorten identifier = t} := by
  ext t
  simp only [stored, Set.mem_ofPred_eq, (run_refines env hinside).texts, recordedSets, recorded_iff_recent]
  grind

theorem built_run (hinside : ∀ requestData ∈ events, Inside requestData) :
    Built env (run env classes events .empty) := by
  have hrefines : Refines env (recordedSets classes events) (run env classes events .empty) := run_refines env hinside
  refine ⟨fun filetype filepath candidate hcandidate => ⟨hrefines.built _ _ _ hcandidate, ?_⟩, hrefines.sound⟩
  obtain ⟨identifier, -, hshorten⟩ := (hrefines.texts filetype filepath candidate.text).mp ⟨candidate, hcandidate, rfl⟩
  rw [← hshorten]
  exact length_shorten identifier

/-- What is offered in a filetype depends on the recent events about its files only: not on those of other
filetypes, on those a file has been parsed after, or on how the events about different files follow each other. -/
theorem completions_of_recent_events (env : Core.Environment) (classes : CharacterClasses) (text : TextLibrary)
    (hinside : ∀ requestData ∈ events, Inside requestData) (hinside' : ∀ requestData ∈ events', Inside requestData)
    {userOptions : Json} {requestWrap : SimpleRequest} {query : View UInt8}
    (hquery : RequestWrapper.queryBytes text classes requestWrap = .ok query) {filetype : String}
    (hfiletype : firstFiletype requestWrap = .ok filetype)
    (hrecent : ∀ filepath requestData, requestData ∈ recent (utf8 filetype.toList) filepath events ↔
      requestData ∈ recent (utf8 filetype.toList) filepath events')
    {candidates candidates' : List Completion} {db db' : IdentifierDatabase}
    (hrun : computeCandidates env classes text userOptions requestWrap (run env classes events .empty) =
      .ok candidates db)
    (hrun' : computeCandidates env classes text userOptions requestWrap (run env classes events' .empty) =
      .ok candidates' db') :
    candidates.Perm candidates' ∧ List.Forall₂ (fun candidate candidate' =>
      Tied env query.elems candidate.insertionText candidate'.insertionText) candidates candidates' := by
  obtain ⟨answers, hanswers, rfl⟩ := computeCandidates_ok hrun hquery hfiletype
  obtain ⟨answers', hanswers', rfl⟩ := computeCandidates_ok hrun' hquery hfiletype
  have hstored : stored (run env classes events' .empty) (utf8 filetype.toList) =
      stored (run env classes events .empty) (utf8 filetype.toList) := by
    rw [stored_run hinside, stored_run hinside']
    simp only [hrecent]
  have hanswered := (answered_of_ok (built_run hinside) hanswers).filter (longEnough userOptions)
  have hanswered' := (answered_of_ok (built_run hinside') hanswers').filter (longEnough userOptions)
  rw [hstored] at hanswered'
  obtain ⟨hperm, htied⟩ := hanswered.tied hanswered'
  refine ⟨hperm.map _, ?_⟩
  rw [List.forall₂_map_left_iff, List.forall₂_map_right_iff]
  exact htied

/-- The file has been parsed before, when it held another identifier. -/
def reparsedEvents : List EventNotification :=
  [{ RequestWrapper.requestIn "A" 1 with eventName := .fileReadyToParse },
    { RequestWrapper.requestIn "Ab" 1 with eventName := .fileReadyToParse }]

theorem completions_of_recent_events_letters :
    ∃ candidates candidates' db db',
      computeCandidates letterEnvironment asciiClasses .leading (minimumChars 1) (RequestWrapper.requestIn "A" 2)
        (run letterEnvironment asciiClasses letterEvents .empty) = .ok candidates db ∧
      computeCandidates letterEnvironment asciiClasses .leading (minimumChars 1) (RequestWrapper.requestIn "A" 2)
        (run letterEnvironment asciiClasses reparsedEvents .empty) = .ok candidates' db' ∧
      candidates.Perm candidates' := by
  obtain ⟨query, hquery, helems⟩ := queryBytes_letter
  have hfiletype : firstFiletype (RequestWrapper.requestIn "A" 2) = .ok "cpp" := by
    simp [firstFiletype, RequestWrapper.requestIn, oneFile]
  have hoption : option (minimumChars 1) "min_num_identifier_candidate_chars" = .ok (.int (1 : Nat)) := rfl
  have hdec : Decodable query.elems := by rw [helems]; decide +kernel
  have hinside : ∀ requestData ∈ reparsedEvents, Inside requestData := by
    simp [reparsedEvents, Inside, SimpleRequest.file, RequestWrapper.requestIn, oneFile]
  obtain ⟨candidates, db, hrun⟩ : ∃ candidates db, computeCandidates letterEnvironment asciiClasses .leading
      (minimumChars 1) (RequestWrapper.requestIn "A" 2) (run letterEnvironment asciiClasses letterEvents .empty) =
        .ok candidates db :=
    computeCandidates_returns letterEvents_inside hoption hquery hfiletype hdec
  obtain ⟨candidates', db', hrun'⟩ : ∃ candidates db, computeCandidates letterEnvironment asciiClasses .leading
      (minimumChars 1) (RequestWrapper.requestIn "A" 2) (run letterEnvironment asciiClasses reparsedEvents .empty) =
        .ok candidates db :=
    computeCandidates_returns hinside hoption hquery hfiletype hdec
  have hrecent : ∀ filepath requestData, requestData ∈ recent (utf8 "cpp".toList) filepath letterEvents ↔
      requestData ∈ recent (utf8 "cpp".toList) filepath reparsedEvents := by
    intro filepath requestData
    have hsubject : subject { RequestWrapper.requestIn "A" 1 with eventName := .fileReadyToParse } =
        subject { RequestWrapper.requestIn "Ab" 1 with eventName := .fileReadyToParse } := by
      simp [subject, SimpleRequest.file, RequestWrapper.requestIn, oneFile, frontFiletype]
    simp only [recent, letterEvents, reparsedEvents, List.foldl_cons, List.foldl_nil, if_true, hsubject]
    split <;> rfl
  exact ⟨candidates, candidates', db, db', hrun, hrun', (completions_of_recent_events letterEnvironment asciiClasses
    .leading letterEvents_inside hinside hquery hfiletype hrecent hrun hrun').1⟩

end Ycmd.General.IdentifierCompleter
