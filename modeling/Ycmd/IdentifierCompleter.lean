import Ycmd.Core.IdentifierAnswers
import Ycmd.Core.IdentifierCompleter
import Ycmd.RequestWrap

/-! The general completer of identifiers: the identifiers that events tell it, and what it offers of them
for a query. -/
namespace Ycmd.General
open Lib Clangd Ycmd.Core IdentifierDatabase RequestWrapper

/-- A computation on the database that also reads requests. -/
abbrev CompleterM := EStateM (Interrupt ⊕ Failure) IdentifierDatabase

def interrupting {α : Type} (r : Except Interrupt α) : CompleterM α := fun db =>
  match r with
  | .ok a => .ok a db
  | .error interrupt => .error (.inl interrupt) db

def inDatabase {α : Type} (m : DatabaseM α) : CompleterM α := fun db =>
  match m db with
  | .ok a db => .ok a db
  | .error failure db => .error (.inr failure) db

/-- The members that are set of an `api::Candidate`, the text as its bytes. -/
structure Completion where
  insertionText : Bytes
  extraMenuInfo : String
  deriving DecidableEq, Repr

/-- `user_options[ key ]` on a constant object. -/
def option (userOptions : Json) (key : String) : Except Interrupt Json :=
  match userOptions with
  | .obj members => match members.lookup key with
    | some v => .ok v
    | none => .error .undefined
  | _ => .error .thrown

namespace IdentifierCompleter
variable (env : Core.Environment) (classes : CharacterClasses)

def handleEventNotification (requestData : EventNotification) : CompleterM Unit := do
  let file ← interrupting requestData.file
  match requestData.eventName with
  | .fileReadyToParse =>
    let identifiers ← interrupting (identifiersFromBuffer classes file)
    let filetype ← interrupting (frontFiletype file)
    inDatabase (Core.IdentifierCompleter.clearForFileAndAddIdentifiersToDatabase env identifiers
      (utf8 filetype.toList) (utf8 requestData.filepath.toList))
  | .fileSave => pure ()
  | .bufferVisit => pure ()
  | .bufferUnload => pure ()
  | .insertLeave =>
    let identifier ← interrupting (identifierUnderCursor classes requestData.toSimpleRequest)
    let filetype ← interrupting (frontFiletype file)
    inDatabase (Core.IdentifierCompleter.addSingleIdentifierToDatabase env identifier
      (utf8 filetype.toList) (utf8 requestData.filepath.toList))
  | .currentIdentifierFinished =>
    let identifier ← interrupting (identifierBeforeCursor classes requestData.toSimpleRequest)
    let filetype ← interrupting (frontFiletype file)
    inDatabase (Core.IdentifierCompleter.addSingleIdentifierToDatabase env identifier
      (utf8 filetype.toList) (utf8 requestData.filepath.toList))

/-- The loop over the completions. The lengths that are compared are in bytes. -/
def candidatesFrom (userOptions : Json) : List Bytes → Except Interrupt (List Completion)
  | [] => .ok []
  | completionString :: completions => do
    let minimum ← option userOptions "min_num_identifier_candidate_chars"
    let candidates ← candidatesFrom userOptions completions
    if minimum.ltNat completionString.length then return ⟨completionString, "[ID]"⟩ :: candidates
    else return candidates

def computeCandidates (text : TextLibrary) (userOptions : Json) (requestWrap : SimpleRequest) :
    CompleterM (List Completion) := do
  let query ← interrupting (RequestWrapper.queryBytes text classes requestWrap)
  let filetype ← interrupting (firstFiletype requestWrap)
  let completions ← inDatabase
    (Core.IdentifierCompleter.candidatesForQueryAndType env query.elems (utf8 filetype.toList) 0)
  interrupting (candidatesFrom userOptions completions)

/-- Events one after the other; one that throws leaves the database as it had come to be. -/
def run (events : List EventNotification) (db : IdentifierDatabase) : IdentifierDatabase :=
  events.foldl (fun db requestData => stateAfter (handleEventNotification env classes requestData) db) db

/-- An event tells of identifiers under a filetype and a path. -/
def Concerns (requestData : EventNotification) (filetype filepath : Bytes) : Prop :=
  ∃ file name, requestData.file = .ok file ∧ frontFiletype file = .ok name ∧
    filetype = utf8 name.toList ∧ filepath = utf8 requestData.filepath.toList

/-- The identifiers an event tells of: those of the buffer, or the one at or before the cursor. -/
def Extracts (requestData : EventNotification) (t : Bytes) : Prop :=
  match requestData.eventName with
  | .fileReadyToParse => ∃ file identifiers, requestData.file = .ok file ∧
      identifiersFromBuffer classes file = .ok identifiers ∧ t ∈ identifiers
  | .insertLeave => identifierUnderCursor classes requestData.toSimpleRequest = .ok t
  | .currentIdentifierFinished => identifierBeforeCursor classes requestData.toSimpleRequest = .ok t
  | .fileSave => False
  | .bufferVisit => False
  | .bufferUnload => False

/-- The buffer of a file is parsed anew. -/
def Replaces (requestData : EventNotification) (filetype filepath : Bytes) : Prop :=
  requestData.eventName = .fileReadyToParse ∧ Concerns requestData filetype filepath

/-- Some event tells of `t` for the file, and the file is not parsed anew after it. -/
def Recorded (events : List EventNotification) (filetype filepath t : Bytes) : Prop :=
  ∃ before requestData after, events = before ++ requestData :: after ∧ Concerns requestData filetype filepath ∧
    Extracts classes requestData t ∧ ∀ later ∈ after, ¬ Replaces later filetype filepath

/-- A file that is there is of some filetype, and has the line that the cursor is in. -/
def Inside (requestData : EventNotification) : Prop :=
  ∀ file, requestData.file = .ok file → match requestData.eventName with
    | .fileReadyToParse => file.filetypes ≠ []
    | .insertLeave | .currentIdentifierFinished => file.filetypes ≠ [] ∧ 1 ≤ requestData.lineNum ∧
        requestData.lineNum.toNat ≤ (splitLines (contentsOfFile file)).length
    | .fileSave | .bufferVisit | .bufferUnload => True

variable {classes}

theorem recorded_concat {events : List EventNotification} {requestData : EventNotification}
    {filetype filepath t : Bytes} :
    Recorded classes (events ++ [requestData]) filetype filepath t ↔
      Concerns requestData filetype filepath ∧ Extracts classes requestData t ∨
        Recorded classes events filetype filepath t ∧ ¬ Replaces requestData filetype filepath := by
  constructor
  · rintro ⟨before, first, after, heq, hconcerns, hextracts, hafter⟩
    rcases List.eq_nil_or_concat after with rfl | ⟨after, last, rfl⟩
    · obtain ⟨-, hfirst⟩ := List.append_inj' heq rfl
      cases hfirst
      exact .inl ⟨hconcerns, hextracts⟩
    · rw [List.concat_eq_append] at hafter heq
      rw [← List.cons_append, ← List.append_assoc] at heq
      obtain ⟨hevents, hlast⟩ := List.append_inj' heq rfl
      cases hlast
      exact .inr ⟨⟨before, first, after, hevents, hconcerns, hextracts,
        fun later hlater => hafter later (List.mem_append_left _ hlater)⟩, hafter _ (by simp)⟩
  · rintro (⟨hconcerns, hextracts⟩ | ⟨⟨before, first, after, rfl, hconcerns, hextracts, hafter⟩, hlast⟩)
    · exact ⟨events, requestData, [], rfl, hconcerns, hextracts, by simp⟩
    · refine ⟨before, first, after ++ [requestData], by simp, hconcerns, hextracts, ?_⟩
      intro later hlater
      rcases List.mem_append.mp hlater with hlater | hlater
      · exact hafter later hlater
      · rwa [List.mem_singleton.mp hlater]

/-- The sets of identifiers the events leave. -/
def recordedSets (classes : CharacterClasses) (events : List EventNotification) : IdentifierSets :=
  fun filetype filepath => {t | Recorded classes events filetype filepath t}

theorem recordedSets_concat_of_ignored {events : List EventNotification} {requestData : EventNotification}
    (hextracts : ∀ filetype filepath t, Concerns requestData filetype filepath → ¬ Extracts classes requestData t)
    (hreplaces : ∀ filetype filepath, ¬ Replaces requestData filetype filepath) :
    recordedSets classes (events ++ [requestData]) = recordedSets classes events := by
  funext filetype filepath
  ext t
  apply recorded_concat.trans
  rw [and_iff_left (hreplaces filetype filepath), or_iff_right (fun h => hextracts filetype filepath t h.1 h.2)]
  rfl

/-- An event that concerns one file changes what is recorded of it, and nothing else. -/
theorem recordedSets_concat {events : List EventNotification} {requestData : EventNotification}
    {filetype filepath : Bytes} {identifiers : Set Bytes}
    (hconcerns : ∀ ft path, Concerns requestData ft path ↔ ft = filetype ∧ path = filepath)
    (hmem : ∀ t, t ∈ identifiers ↔ Extracts classes requestData t ∨
      t ∈ recordedSets classes events filetype filepath ∧ requestData.eventName ≠ .fileReadyToParse) :
    recordedSets classes (events ++ [requestData]) =
      (recordedSets classes events).replace identifiers filetype filepath := by
  funext ft path
  ext t
  apply recorded_concat.trans
  unfold IdentifierSets.replace Replaces
  rw [hconcerns ft path]
  split
  · rename_i hkey
    rw [hmem, hkey.1, hkey.2]
    simp [recordedSets]
  · rename_i hkey
    simp [hkey, recordedSets]

theorem concerns_iff {requestData : EventNotification} {file : FileData} {name : String}
    (hfile : requestData.file = .ok file) (hname : frontFiletype file = .ok name) (filetype filepath : Bytes) :
    Concerns requestData filetype filepath ↔
      filetype = utf8 name.toList ∧ filepath = utf8 requestData.filepath.toList := by
  constructor
  · rintro ⟨file', name', hfile', hname', hkey⟩
    rw [hfile] at hfile'
    cases hfile'
    rw [hname] at hname'
    cases hname'
    exact hkey
  · intro hkey
    exact ⟨file, name, hfile, hname, hkey⟩

theorem not_concerns {requestData : EventNotification} {interrupt : Interrupt}
    (hfile : requestData.file = .error interrupt) (filetype filepath : Bytes) :
    ¬ Concerns requestData filetype filepath := by
  rintro ⟨file, name, hfile', -⟩
  rw [hfile] at hfile'
  cases hfile'

variable {env} {events : List EventNotification} {db : IdentifierDatabase} {requestData : EventNotification}

/-- The identifier at or before the cursor joins those recorded of the file. -/
theorem refines_of_added (h : Refines env (recordedSets classes events) db) {file : FileData} {name : String}
    (hfile : requestData.file = .ok file) (hname : frontFiletype file = .ok name)
    (text : List Char) (hevent : requestData.eventName ≠ .fileReadyToParse)
    (hextracts : ∀ t, Extracts classes requestData t ↔ t = utf8 text)
    (hhandle : handleEventNotification env classes requestData db =
      inDatabase (Core.IdentifierCompleter.addSingleIdentifierToDatabase env (utf8 text) (utf8 name.toList)
        (utf8 requestData.filepath.toList)) db) :
    Refines env (recordedSets classes (events ++ [requestData]))
      (stateAfter (handleEventNotification env classes requestData) db) := by
  obtain ⟨db', hrun, hrefines⟩ := addSingleIdentifier_refines h (utf8 name.toList)
    (utf8 requestData.filepath.toList) (decodable_utf8 text)
  have hdone : handleEventNotification env classes requestData db = .ok () db' := by
    simp only [hhandle, inDatabase, Core.IdentifierCompleter.addSingleIdentifierToDatabase, hrun]
  rw [stateAfter, hdone, recordedSets_concat (concerns_iff hfile hname)]
  · exact hrefines
  · intro t
    rw [hextracts, and_iff_left hevent]
    rfl

/-- The identifiers of the buffer take the place of those recorded of the file. -/
theorem refines_of_parsed (h : Refines env (recordedSets classes events) db) {file : FileData} {name : String}
    (hfile : requestData.file = .ok file) (hname : frontFiletype file = .ok name)
    (hevent : requestData.eventName = .fileReadyToParse) :
    Refines env (recordedSets classes (events ++ [requestData]))
      (stateAfter (handleEventNotification env classes requestData) db) := by
  obtain ⟨identifiers, hidentifiers, hutf8⟩ :
      ∃ identifiers, identifiersFromBuffer classes file = .ok identifiers ∧ ∀ t ∈ identifiers, ∃ text, t = utf8 text :=
    identifiersFromBuffer_of_filetype hname
  have hdec : ∀ t ∈ identifiers, Decodable t := by
    intro t ht
    obtain ⟨text, rfl⟩ := hutf8 t ht
    exact decodable_utf8 text
  obtain ⟨db', hrun, hrefines⟩ := recreateIdentifiersNoLock_refines h (utf8 name.toList)
    (utf8 requestData.filepath.toList) hdec
  have hdone : handleEventNotification env classes requestData db = .ok () db' := by
    simp only [handleEventNotification, hfile, hevent, hidentifiers, hname, bind, EStateM.bind, interrupting,
      inDatabase, Core.IdentifierCompleter.clearForFileAndAddIdentifiersToDatabase, recreateIdentifiers, hrun]
  rw [stateAfter, hdone, recordedSets_concat (concerns_iff hfile hname)]
  · exact hrefines
  · intro t
    simp [Extracts, hevent, hfile, hidentifiers]

theorem refines_of_ignored (h : Refines env (recordedSets classes events) db) {file : FileData}
    (hfile : requestData.file = .ok file) (hevent : requestData.eventName = .fileSave ∨
      requestData.eventName = .bufferVisit ∨ requestData.eventName = .bufferUnload) :
    Refines env (recordedSets classes (events ++ [requestData]))
      (stateAfter (handleEventNotification env classes requestData) db) := by
  have hdone : handleEventNotification env classes requestData db = .ok () db := by
    rcases hevent with hevent | hevent | hevent <;>
      simp only [handleEventNotification, hfile, hevent, bind, EStateM.bind, interrupting] <;> rfl
  rw [stateAfter, hdone, recordedSets_concat_of_ignored]
  · exact h
  · intro filetype filepath t _
    rcases hevent with hevent | hevent | hevent <;> simp [Extracts, hevent]
  · rintro filetype filepath ⟨hparsed, -⟩
    simp [hparsed] at hevent

/-- A file that is not in the request: the handler throws before it looks at the event. -/
theorem refines_of_absent (h : Refines env (recordedSets classes events) db) {interrupt : Interrupt}
    (hfile : requestData.file = .error interrupt) :
    Refines env (recordedSets classes (events ++ [requestData]))
      (stateAfter (handleEventNotification env classes requestData) db) := by
  have hthrown : handleEventNotification env classes requestData db = .error (.inl interrupt) db := by
    simp only [handleEventNotification, hfile, bind, EStateM.bind, interrupting]
  rw [stateAfter, hthrown, recordedSets_concat_of_ignored]
  · exact h
  · intro filetype filepath t hconcerns
    exact absurd hconcerns (not_concerns hfile filetype filepath)
  · rintro filetype filepath ⟨-, hconcerns⟩
    exact not_concerns hfile filetype filepath hconcerns

/-- One event keeps the database that of the identifiers recorded. -/
theorem handleEventNotification_refines (h : Refines env (recordedSets classes events) db)
    (hinside : Inside requestData) :
    Refines env (recordedSets classes (events ++ [requestData]))
      (stateAfter (handleEventNotification env classes requestData) db) := by
  cases hfile : requestData.file with
  | error interrupt => exact refines_of_absent h hfile
  | ok file =>
    have hin := hinside file hfile
    cases hevent : requestData.eventName with
    | fileReadyToParse =>
      rw [hevent] at hin
      obtain ⟨name, hname⟩ := frontFiletype_of_ne_nil hin
      exact refines_of_parsed h hfile hname hevent
    | insertLeave =>
      rw [hevent] at hin
      obtain ⟨hne, hpos, hle⟩ := hin
      obtain ⟨name, hname⟩ := frontFiletype_of_ne_nil hne
      obtain ⟨text, htext⟩ : ∃ text, identifierUnderCursor classes requestData.toSimpleRequest = .ok (utf8 text) :=
        exists_identifierUnderCursor hfile hname hpos hle
      apply refines_of_added h hfile hname text
      · simp [hevent]
      · intro t
        simp [Extracts, hevent, htext, eq_comm]
      · simp only [handleEventNotification, hfile, hevent, htext, hname, bind, EStateM.bind, interrupting]
    | currentIdentifierFinished =>
      rw [hevent] at hin
      obtain ⟨hne, hpos, hle⟩ := hin
      obtain ⟨name, hname⟩ := frontFiletype_of_ne_nil hne
      obtain ⟨text, htext⟩ : ∃ text, identifierBeforeCursor classes requestData.toSimpleRequest = .ok (utf8 text) :=
        exists_identifierBeforeCursor hfile hname hpos hle
      apply refines_of_added h hfile hname text
      · simp [hevent]
      · intro t
        simp [Extracts, hevent, htext, eq_comm]
      · simp only [handleEventNotification, hfile, hevent, htext, hname, bind, EStateM.bind, interrupting]
    | fileSave | bufferVisit | bufferUnload => exact refines_of_ignored h hfile (by simp [hevent])

theorem run_refines (env : Core.Environment) {events : List EventNotification}
    (hinside : ∀ requestData ∈ events, Inside requestData) :
    Refines env (recordedSets classes events) (run env classes events .empty) := by
  induction events using List.reverseRecOn with
  | nil =>
    have hnone : recordedSets classes [] = fun _ _ => ∅ := by
      funext filetype filepath
      ext t
      simp [recordedSets, Recorded]
    rw [hnone]
    exact refines_empty
  | append_singleton events requestData ih =>
    rw [run, List.foldl_concat]
    exact handleEventNotification_refines (ih (fun e he => hinside e (List.mem_append_left _ he)))
      (hinside requestData (by simp))

theorem candidatesFrom_eq {userOptions : Json} {n : Int}
    (h : option userOptions "min_num_identifier_candidate_chars" = .ok (.int n)) (completions : List Bytes) :
    candidatesFrom userOptions completions =
      .ok ((completions.filter (fun t => n < (t.length : Int))).map (fun t => ⟨t, "[ID]"⟩)) := by
  induction completions with
  | nil => rfl
  | cons t completions ih =>
    by_cases hlong : n < (t.length : Int) <;>
      simp [candidatesFrom, h, ih, bind, Except.bind, pure, Except.pure, Json.ltNat, hlong]

/-- An identifier of the filetype that the query matches, as far as identifiers are completed at all. -/
def Offered (env : Core.Environment) (classes : CharacterClasses) (events : List EventNotification)
    (query filetype t : Bytes) : Prop :=
  t ≠ [] ∧ t.length ≤ 80 ∧ (∃ filepath, Recorded classes events filetype filepath t) ∧
    ∃ candidate, Candidate.of env t = .ok candidate ∧ ∃ word, Word.of env query = .ok word ∧
      candidate.containsBytes word = true ∧ (candidate.queryMatchResult word).isSome = true

/-- The bytes that begin a code point. -/
def codePointCount (t : Bytes) : Nat := t.countP (fun b => b.IsUTF8FirstByte)

section Answers
variable {text : TextLibrary} {userOptions : Json} {requestWrap : SimpleRequest} {query : View UInt8}
  {filetype : String} {n : Nat}

/-- What is offered for a query after some events: the identifiers of more than `n` bytes. -/
theorem computeCandidates_texts (hinside : ∀ requestData ∈ events, Inside requestData)
    (hoption : option userOptions "min_num_identifier_candidate_chars" = .ok (.int n))
    (hquery : RequestWrapper.queryBytes text classes requestWrap = .ok query)
    (hfiletype : firstFiletype requestWrap = .ok filetype) {candidates : List Completion} {db' : IdentifierDatabase}
    (hrun : computeCandidates env classes text userOptions requestWrap (run env classes events .empty) =
      .ok candidates db') :
    (candidates.map Completion.insertionText).Nodup ∧ ∀ t, t ∈ candidates.map Completion.insertionText ↔
      Offered env classes events query.elems (utf8 filetype.toList) t ∧ n < t.length := by
  cases hanswers : Core.IdentifierCompleter.candidatesForQueryAndType env query.elems (utf8 filetype.toList) 0
      (run env classes events .empty) with
  | error failure db'' =>
    simp only [computeCandidates, hquery, hfiletype, bind, EStateM.bind, interrupting, inDatabase, hanswers] at hrun
    cases hrun
  | ok answers db'' =>
    simp only [computeCandidates, hquery, hfiletype, bind, EStateM.bind, interrupting, inDatabase, hanswers,
      candidatesFrom_eq hoption] at hrun
    cases hrun
    obtain ⟨results, hresults, rfl⟩ := (Core.IdentifierCompleter.candidatesForQueryAndType_ok env).mp hanswers
    obtain ⟨hnodup, htexts⟩ := (run_refines env hinside).answers hresults
    have hmap (texts : List Bytes) :
        (texts.map (fun t => Completion.mk t "[ID]")).map Completion.insertionText = texts := by
      rw [List.map_map]
      exact List.map_id _
    rw [hmap]
    refine ⟨hnodup.filter _, ?_⟩
    intro t
    rw [List.mem_filter, htexts, decide_eq_true_iff, Int.ofNat_lt]
    rfl

theorem computeCandidates_returns (hinside : ∀ requestData ∈ events, Inside requestData)
    (hoption : option userOptions "min_num_identifier_candidate_chars" = .ok (.int n))
    (hquery : RequestWrapper.queryBytes text classes requestWrap = .ok query)
    (hfiletype : firstFiletype requestWrap = .ok filetype) (hdec : Decodable query.elems) :
    ∃ candidates db', computeCandidates env classes text userOptions requestWrap (run env classes events .empty) =
      .ok candidates db' := by
  have hrefines : Refines env (recordedSets classes events) (run env classes events .empty) :=
    run_refines env hinside
  obtain ⟨results, db', hresults⟩ := hrefines.returns hdec (utf8 filetype.toList)
  have hanswers := (Core.IdentifierCompleter.candidatesForQueryAndType_ok env).mpr ⟨results, hresults, rfl⟩
  have hkept := candidatesFrom_eq hoption (results.map Result.text)
  refine ⟨((results.map Result.text).filter (fun t => (n : Int) < t.length)).map (⟨·, "[ID]"⟩), db', ?_⟩
  simp only [computeCandidates, hquery, hfiletype, bind, EStateM.bind, interrupting, inDatabase, hanswers, hkept]

end Answers

/-- For every run of events and every query what is offered is each of the identifiers recorded that the
query matches and that have at least `n` characters, exactly when none of these identifiers has `n`
characters of one byte each, or fewer than `n` characters in more than `n` bytes. -/
theorem completions_exact_iff (env : Core.Environment) (classes : CharacterClasses) (text : TextLibrary)
    (events : List EventNotification) (userOptions : Json) (n : Nat) (requestWrap : SimpleRequest)
    (query : View UInt8) (filetype : String) (hinside : ∀ requestData ∈ events, Inside requestData)
    (hoption : option userOptions "min_num_identifier_candidate_chars" = .ok (.int n))
    (hquery : RequestWrapper.queryBytes text classes requestWrap = .ok query)
    (hfiletype : firstFiletype requestWrap = .ok filetype) :
    (Decodable query.elems → ∃ candidates db',
      computeCandidates env classes text userOptions requestWrap (run env classes events .empty) =
        .ok candidates db') ∧
    ∀ candidates db',
      computeCandidates env classes text userOptions requestWrap (run env classes events .empty) =
        .ok candidates db' →
      (((candidates.map Completion.insertionText).Nodup ∧ ∀ t, t ∈ candidates.map Completion.insertionText ↔
          Offered env classes events query.elems (utf8 filetype.toList) t ∧ n ≤ codePointCount t) ↔
        ∀ t, Offered env classes events query.elems (utf8 filetype.toList) t →
          ¬ (codePointCount t = n ∧ t.length = n) ∧ ¬ (codePointCount t < n ∧ n < t.length)) := by
  refine ⟨computeCandidates_returns hinside hoption hquery hfiletype, ?_⟩
  intro candidates db' hrun
  obtain ⟨hnodup, htexts⟩ := computeCandidates_texts hinside hoption hquery hfiletype hrun
  simp only [hnodup, htexts, true_and, and_congr_right_iff]
  apply forall₂_congr
  intro t _
  have hle : codePointCount t ≤ t.length := List.countP_le_length
  omega

/-- A file that holds one identifier of two letters is parsed. -/
def letterEvents : List EventNotification := [{ requestIn "Ab" 1 with eventName := .fileReadyToParse }]

theorem letterEvents_inside : ∀ requestData ∈ letterEvents, Inside requestData := by
  simp [letterEvents, Inside, SimpleRequest.file, requestIn, oneFile]

/-- The option with a value. -/
def minimumChars (n : Nat) : Json := .obj [("min_num_identifier_candidate_chars", .int n)]

theorem queryBytes_letter :
    ∃ query, queryBytes .leading asciiClasses (requestIn "A" 2) = .ok query ∧ query.elems = ascii "A" := by
  have hcursor : CursorAt (requestIn "A" 2) ⟨["cpp"], "A"⟩ "A".toList [] :=
    cursorAt_requestIn "A" "A".toList [] (by decide) (by decide) (by decide)
  obtain ⟨c, rest, hcons, hstart⟩ := hcursor.startColumn_eq .leading asciiClasses (by decide)
  obtain ⟨rfl, -⟩ := List.cons.inj hcons
  exact hcursor.queryBytes_eq hstart

theorem completions_exact_iff_letter :
    ∃ query, queryBytes .leading asciiClasses (requestIn "A" 2) = .ok query ∧
    ∀ candidates db',
      computeCandidates letterEnvironment asciiClasses .leading (minimumChars 1) (requestIn "A" 2)
        (run letterEnvironment asciiClasses letterEvents .empty) = .ok candidates db' →
      (((candidates.map Completion.insertionText).Nodup ∧ ∀ t, t ∈ candidates.map Completion.insertionText ↔
          Offered letterEnvironment asciiClasses letterEvents query.elems (utf8 "cpp".toList) t ∧
            1 ≤ codePointCount t) ↔
        ∀ t, Offered letterEnvironment asciiClasses letterEvents query.elems (utf8 "cpp".toList) t →
          ¬ (codePointCount t = 1 ∧ t.length = 1) ∧ ¬ (codePointCount t < 1 ∧ 1 < t.length)) := by
  obtain ⟨query, hquery, -⟩ := queryBytes_letter
  exact ⟨query, hquery, (completions_exact_iff letterEnvironment asciiClasses .leading letterEvents (minimumChars 1) 1
    (requestIn "A" 2) query "cpp" letterEvents_inside rfl hquery (by simp [firstFiletype, requestIn, oneFile])).2⟩

theorem identifiersFromBuffer_letters : identifiersFromBuffer asciiClasses ⟨["cpp"], "Ab"⟩ = .ok [ascii "Ab"] := by
  have hrest : ['b'].dropWhile (defaultIdentifierRegex asciiClasses).rest = [] := by decide
  have hsearch : (defaultIdentifierRegex asciiClasses).search 0 ['A', 'b'] = [(0, ['A', 'b'])] := by
    rw [Pattern.search, if_pos (by decide), hrest, Pattern.search]
    decide
  change Except.ok (((defaultIdentifierRegex asciiClasses).search 0 ['A', 'b']).map (fun found => utf8 found.2)) = _
  rw [hsearch]
  rfl

theorem letters_offered :
    Offered letterEnvironment asciiClasses letterEvents (ascii "A") (utf8 "cpp".toList) (ascii "Ab") := by
  have hmatches : (do
      let candidate ← Candidate.of letterEnvironment (ascii "Ab")
      let word ← Word.of letterEnvironment (ascii "A")
      return candidate.containsBytes word && (candidate.queryMatchResult word).isSome) = Except.ok true := by
    decide +kernel
  obtain ⟨candidate, hcandidate, hmatches⟩ := bind_ok hmatches
  obtain ⟨word, hword, hmatches⟩ := bind_ok hmatches
  obtain ⟨hbytes, hsubsequence⟩ := (Bool.and_eq_true _ _).mp (Except.ok.inj hmatches)
  refine ⟨by decide, by decide, ⟨utf8 "/a.cpp".toList, ?_⟩, candidate, hcandidate, word, hword, hbytes, hsubsequence⟩
  refine ⟨[], _, [], rfl, ⟨⟨["cpp"], "Ab"⟩, "cpp", ?_, rfl, rfl, rfl⟩,
    ⟨⟨["cpp"], "Ab"⟩, [ascii "Ab"], ?_, ?_, ?_⟩, by simp⟩
  · simp [SimpleRequest.file, requestIn, oneFile]
  · simp [SimpleRequest.file, requestIn, oneFile]
  · exact identifiersFromBuffer_letters
  · simp

/-- An identifier of two letters is left out when two characters are asked for. -/
theorem letters_left_out :
    ∃ query candidates db', queryBytes .leading asciiClasses (requestIn "A" 2) = .ok query ∧
      computeCandidates letterEnvironment asciiClasses .leading (minimumChars 2) (requestIn "A" 2)
        (run letterEnvironment asciiClasses letterEvents .empty) = .ok candidates db' ∧
      ¬ ∀ t, t ∈ candidates.map Completion.insertionText ↔
        Offered letterEnvironment asciiClasses letterEvents query.elems (utf8 "cpp".toList) t ∧
          2 ≤ codePointCount t := by
  obtain ⟨query, hquery, helems⟩ := queryBytes_letter
  have hfiletype : firstFiletype (requestIn "A" 2) = .ok "cpp" := by simp [firstFiletype, requestIn, oneFile]
  have hoption : option (minimumChars 2) "min_num_identifier_candidate_chars" = .ok (.int (2 : Nat)) := rfl
  obtain ⟨candidates, db', hrun⟩ : ∃ candidates db',
      computeCandidates letterEnvironment asciiClasses .leading (minimumChars 2) (requestIn "A" 2)
        (run letterEnvironment asciiClasses letterEvents .empty) = .ok candidates db' :=
    computeCandidates_returns letterEvents_inside hoption hquery hfiletype (by rw [helems]; decide +kernel)
  refine ⟨query, candidates, db', hquery, hrun, ?_⟩
  intro hexact
  obtain ⟨-, htexts⟩ := computeCandidates_texts letterEvents_inside hoption hquery hfiletype hrun
  have hmem := (hexact (ascii "Ab")).mpr ⟨helems ▸ letters_offered, by decide⟩
  exact absurd ((htexts _).mp hmem).2 (by decide)

end IdentifierCompleter
end Ycmd.General
