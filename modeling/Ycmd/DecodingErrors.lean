import Ycmd.CompletionsAnswer
import Ycmd.Core.Decoding
import Ycmd.Core.FailedUpdates
import Ycmd.FilteredCandidates

/-! Where the core library throws: which of the requests that use it end with one of its exceptions, over runs of
them in any order. -/
namespace Ycmd
open Lib Clangd Ycmd.Core General Completions RequestWrapper

/-- The requests that the identifier database and its repositories serve. -/
inductive CoreRequest where
  | completions (userOptions laterOptions : Json) (req : CompletionRequest) (clangd : ClangdAnswer)
  | eventNotification (requestData : EventNotification)
  | filterAndSortCandidates (req : FilterAndSortCandidatesRequest)

section Requests
variable (env : Core.Environment) (classes : CharacterClasses) (text : TextLibrary)

/-- What a request does to the database, whatever it is answered with. -/
def CoreRequest.serve : CoreRequest → CompleterM Unit
  | .completions userOptions laterOptions req clangd => do
    let _ ← Completions.handleCompletions env classes text userOptions laterOptions req clangd
  | .eventNotification requestData => IdentifierCompleter.handleEventNotification env classes requestData
  | .filterAndSortCandidates req => do
    let handler ← interrupting (handleFilterAndSortCandidates env req)
    let _ ← inDatabase (below handler)

/-- Requests one after the other; one that throws leaves the database as it had come to be. -/
def served (requests : List CoreRequest) (db : IdentifierDatabase) : IdentifierDatabase :=
  requests.foldl (fun db request => stateAfter (request.serve env classes text) db) db

/-- A completion request gets to the general completer. -/
def AsksIdentifiers (userOptions : Json) (req : CompletionRequest) (clangd : ClangdAnswer) : Prop :=
  forceSemantic req = .ok false ∧
    (∃ options, queryGate (requestText text classes) userOptions req = .ok (true, options)) ∧
    computeCandidatesSemantic req.toSimpleRequest clangd = .ok []

/-- The query, or what is at the cursor when there is none, begins with a character of several bytes. -/
def LongFirst (before after : List Char) : Prop :=
  ∃ c ∈ (queryText classes before ++ after).head?, 0x80 ≤ c.toNat

/-- A request that asks for identifiers of the filetype from within a character. -/
def CoreRequest.AsksWithin (filetype : Bytes) : CoreRequest → Prop
  | .completions userOptions _ req clangd => AsksIdentifiers classes text userOptions req clangd ∧
      ∃ file before after name, CursorAt req.toSimpleRequest file before after ∧ file.filetypes.head? = some name ∧
        filetype = utf8 name.toList ∧ LongFirst classes before after
  | .eventNotification _ => False
  | .filterAndSortCandidates _ => False

end Requests

/-- An event that makes the database know the filetype, even when it tells of no identifier. -/
def CoreRequest.Enters (filetype : Bytes) : CoreRequest → Prop
  | .completions _ _ _ _ => False
  | .eventNotification requestData =>
    requestData.eventName ∈ [Event.fileReadyToParse, .insertLeave, .currentIdentifierFinished] ∧
      ∃ filepath, IdentifierCompleter.Concerns requestData filetype filepath
  | .filterAndSortCandidates _ => False

/-- The cursor of the request is in its file. -/
def CoreRequest.Inside : CoreRequest → Prop
  | .completions _ _ req _ => ∃ file before after, CursorAt req.toSimpleRequest file before after ∧ file.filetypes ≠ []
  | .eventNotification requestData => IdentifierCompleter.Inside requestData
  | .filterAndSortCandidates _ => True

variable {env : Core.Environment} {classes : CharacterClasses} {text : TextLibrary}
  {db db' : IdentifierDatabase} {failure : Failure}

section Computations
variable {α β : Type}

theorem interrupting_bind_failed {r : Except Interrupt α} {f : α → CompleterM β} :
    (interrupting r >>= f) db = .error (.inr failure) db' ↔ ∃ a, r = .ok a ∧ f a db = .error (.inr failure) db' := by
  cases r with
  | ok a => simp [bind, EStateM.bind, interrupting]
  | error interrupt => simp [bind, EStateM.bind, interrupting]

theorem bind_failed {m : CompleterM α} {f : α → CompleterM β}
    (hf : ∀ a db, f a db ≠ .error (.inr failure) db') :
    (m >>= f) db = .error (.inr failure) db' ↔ m db = .error (.inr failure) db' := by
  cases hm : m db with
  | ok a db₁ => simpa [bind, EStateM.bind, hm] using hf a db₁
  | error e db₁ => simp [bind, EStateM.bind, hm]

theorem interrupting_failed (r : Except Interrupt α) : interrupting r db ≠ .error (.inr failure) db' := by
  cases r <;> simp [interrupting]

theorem inDatabase_failed {m : DatabaseM α} :
    inDatabase m db = .error (.inr failure) db' ↔ m db = .error failure db' := by
  cases hm : m db <;> simp [inDatabase, hm]

theorem keeps_interrupting (I : IdentifierDatabase → Prop) (r : Except Interrupt α) :
    Keeps I (interrupting r) (fun _ => True) := by
  intro db hdb
  cases r with
  | ok a => exact ⟨hdb, trivial⟩
  | error interrupt => exact hdb

theorem keeps_inDatabase {I : IdentifierDatabase → Prop} {m : DatabaseM α} {Q : α → Prop} (h : Keeps I m Q) :
    Keeps I (inDatabase m) Q := by
  intro db hdb
  have := h db hdb
  cases hm : m db with
  | ok a db₁ => simpa [inDatabase, hm] using this
  | error e db₁ => simpa [inDatabase, hm] using this

end Computations

/-- A byte that is not the first of a code point is not taken for one. -/
theorem splitCodePoints_within {b : UInt8} {rest : Bytes} (hb : ¬ b.IsUTF8FirstByte) :
    splitCodePoints (b :: rest) = .error (.unicodeDecodeError "Invalid leading byte in code point.") := by
  simp only [UInt8.IsUTF8FirstByte, not_or] at hb
  obtain ⟨hone, htwo, hthree, hfour⟩ := hb
  have hlength : getCodePointLength b = .error (.unicodeDecodeError "Invalid leading byte in code point.") := by
    rw [getCodePointLength, if_neg hone, if_neg htwo, if_neg hthree, if_neg hfour]
  rw [splitCodePoints, hlength]
  rfl

namespace RequestWrapper
variable {req : SimpleRequest} {file : FileData} {before after : List Char}

/-- The length asked for is not zero; it wraps round where the start column is past the cursor. -/
theorem CursorAt.queryLength_pos (h : CursorAt req file before after) {c : Char} {tail : List Char}
    (hfirst : queryText classes before ++ after = c :: tail) (hlong : 0x80 ≤ c.toNat) :
    1 ≤ sizeSub (columnNum req)
      ((utf8 (prefixText classes before)).length + (String.utf8EncodeChar c).length) := by
  have hlen := length_utf8_prefixText_add classes before
  have htwo := two_le_length_utf8EncodeChar hlong
  have hfour : (String.utf8EncodeChar c).length ≤ 4 := by
    rw [String.length_utf8EncodeChar]
    exact c.utf8Size_le_four
  rw [h.columnNum_eq]
  cases hquery : queryText classes before with
  | nil =>
    rw [hquery, utf8_nil, List.length_nil, Nat.add_zero] at hlen
    unfold sizeSub
    split <;> omega
  | cons d query =>
    rw [hquery, List.cons_append] at hfirst
    obtain ⟨rfl, -⟩ := List.cons.inj hfirst
    rw [hquery, utf8_cons, List.length_append] at hlen
    rw [sizeSub_of_le (by omega)]
    omega

/-- The bytes of a query that begins with a long character, or is at one, begin with its last byte: the start
column counts all its bytes. -/
theorem CursorAt.queryBytes_within (text : TextLibrary) (classes : CharacterClasses)
    (h : CursorAt req file before after) (hfiletypes : file.filetypes ≠ []) (hlong : LongFirst classes before after) :
    ∃ part b rest, queryBytes text classes req = .ok part ∧ part.elems = b :: rest ∧ ¬ b.IsUTF8FirstByte := by
  obtain ⟨c, hhead, hlong⟩ := hlong
  obtain ⟨tail, hfirst⟩ := List.head?_eq_some_iff.mp (Option.mem_def.mp hhead)
  have hstart := h.startColumn_of_cons text hfiletypes hfirst
  obtain ⟨line, -, -, hline, helems, -, -⟩ := h.lineBytes_eq
  obtain ⟨b, hlast, hb⟩ := drop_utf8EncodeChar hlong
  obtain ⟨count, hcount⟩ := Nat.exists_eq_add_of_le' (h.queryLength_pos hfirst hlong)
  have hpos := length_utf8EncodeChar_pos c
  have hsplit : utf8 (before ++ after) =
      utf8 (prefixText classes before) ++ (String.utf8EncodeChar c ++ utf8 tail) := by
    rw [append_eq_prefixText classes, hfirst, utf8_append, utf8_cons]
  have hsize : line.size = (utf8 (prefixText classes before)).length +
      ((String.utf8EncodeChar c).length + (utf8 tail).length) := by
    rw [← View.length_elems, helems, hsplit, List.length_append, List.length_append]
  have hlastPosition : sizeSub ((utf8 (prefixText classes before)).length + (String.utf8EncodeChar c).length) 1 =
      (utf8 (prefixText classes before)).length + ((String.utf8EncodeChar c).length - 1) := by
    rw [sizeSub_of_le (by omega), Nat.add_sub_assoc hpos]
  obtain ⟨part, hpart, hpartElems⟩ := View.substr_of_le line
    ((utf8 (prefixText classes before)).length + ((String.utf8EncodeChar c).length - 1)) (count + 1) (by omega)
  refine ⟨part, b, (utf8 tail).take count, ?_, ?_, hb⟩
  · simp only [queryBytes, hline, hstart, bind, Except.bind, hlastPosition, hcount, hpart, Option.getDM, pure,
      Except.pure]
  · rw [hpartElems, helems, hsplit, List.drop_length_add_append, List.drop_append_of_le_length (Nat.sub_le _ _),
      hlast]
    rfl

/-- The bytes of every other query are those of its text. -/
theorem CursorAt.queryBytes_whole (text : TextLibrary) (classes : CharacterClasses)
    (h : CursorAt req file before after) (hfiletypes : file.filetypes ≠ []) (hlong : ¬ LongFirst classes before after) :
    ∃ part, queryBytes text classes req = .ok part ∧ part.elems = utf8 (queryText classes before) := by
  obtain ⟨c, rest, hcons, hstart⟩ := h.startColumn_eq text classes hfiletypes
  have hshort : ∀ a ∈ (queryText classes before ++ after).head?, a.toNat < 0x80 := by
    intro a ha
    by_contra hge
    exact hlong ⟨a, ha, Nat.le_of_not_lt hge⟩
  rw [forall_head_append hcons (by decide), ← length_utf8EncodeChar_eq_one] at hshort
  rw [hshort] at hstart
  exact h.queryBytes_eq hstart

end RequestWrapper

section Steps

/-- The query of the database throws only for a filetype it knows, and then changes nothing. -/
theorem candidatesForQueryAndType_failed (hs : CandidatesSound env db.2) {query filetype : Bytes} :
    Core.IdentifierCompleter.candidatesForQueryAndType env query filetype 0 db = .error failure db' ↔
      (db.1.lookup filetype).isSome = true ∧ splitCodePoints query = .error failure ∧ db' = db := by
  cases hlookup : db.1.lookup filetype with
  | none =>
    simp [Core.IdentifierCompleter.candidatesForQueryAndType, IdentifierDatabase.resultsForQueryAndType, hlookup,
      bind, EStateM.bind, pure, EStateM.pure]
  | some paths =>
    cases hsplit : splitCodePoints query with
    | error thrown =>
      simp [Core.IdentifierCompleter.candidatesForQueryAndType, IdentifierDatabase.resultsForQueryAndType, hlookup,
        bind, EStateM.bind, below, makeWord_error hsplit, eq_comm]
    | ok pieces =>
      obtain ⟨word, hword⟩ := Word.exists_of env (by rw [Decodable, hsplit]; rfl : Decodable query)
      obtain ⟨after, hrun, -⟩ := (IdentifierDatabase.computes_resultsForQueryAndType env db.1 query filetype 0).ok
        ⟨rfl, hs⟩ (by rw [hlookup]; simp only [hword]; rfl)
      simp [Core.IdentifierCompleter.candidatesForQueryAndType, bind, EStateM.bind, hrun, pure, EStateM.pure]

theorem identifierCandidates_failed {userOptions : Json} {requestWrap : SimpleRequest} :
    identifierCandidates env classes text userOptions requestWrap db = .error (.inr failure) db' ↔
      ∃ query, RequestWrapper.queryBytes text classes requestWrap = .ok query ∧
      ∃ filetype, firstFiletype requestWrap = .ok filetype ∧
        Core.IdentifierCompleter.candidatesForQueryAndType env query.elems (utf8 filetype.toList) 0 db =
          .error failure db' := by
  unfold identifierCandidates IdentifierCompleter.computeCandidates
  rw [bind_failed (fun completions db => interrupting_failed _), interrupting_bind_failed]
  apply exists_congr
  intro query
  apply and_congr_right'
  rw [interrupting_bind_failed]
  apply exists_congr
  intro filetype
  apply and_congr_right'
  rw [bind_failed (fun completions db => interrupting_failed _), inDatabase_failed]

/-- A completion request throws in the library only where it asks for identifiers. -/
theorem handleCompletions_failed {userOptions laterOptions : Json} {req : CompletionRequest} {clangd : ClangdAnswer} :
    Completions.handleCompletions env classes text userOptions laterOptions req clangd db = .error (.inr failure) db' ↔
      AsksIdentifiers classes text userOptions req clangd ∧
        identifierCandidates env classes text laterOptions req.toSimpleRequest db = .error (.inr failure) db' := by
  have hcolumn {candidates : List Api.Candidate} (db : IdentifierDatabase) :
      (do
        let startColumn ← interrupting (RequestWrapper.startColumn text classes req.toSimpleRequest)
        return toJson ({ completions := candidates, completionStartColumn := Int32.ofNat startColumn } :
          Api.CompletionsResponse) : CompleterM Json) db ≠ .error (.inr failure) db' := by
    rw [Ne, interrupting_bind_failed]
    rintro ⟨startColumn, -, h⟩
    cases h
  unfold Completions.handleCompletions
  constructor
  · intro h
    obtain ⟨force, hforce, h⟩ := interrupting_bind_failed.mp h
    obtain ⟨⟨passes, options⟩, hgate, h⟩ := interrupting_bind_failed.mp h
    cases passes with
    | false => cases h
    | true =>
      obtain ⟨semantic, hsemantic, hrest⟩ := interrupting_bind_failed.mp h
      have hcandidates := (bind_failed (fun candidates db => hcolumn db)).mp hrest
      by_cases hasks : (!force && semantic.isEmpty) = true
      · rw [if_pos hasks] at hcandidates
        rw [Bool.and_eq_true, Bool.not_eq_true', List.isEmpty_iff] at hasks
        obtain ⟨rfl, rfl⟩ := hasks
        exact ⟨⟨hforce, ⟨options, hgate⟩, hsemantic⟩, hcandidates⟩
      · rw [if_neg hasks] at hcandidates
        cases hcandidates
  · rintro ⟨⟨hforce, ⟨options, hgate⟩, hsemantic⟩, h⟩
    rw [interrupting_bind_failed]
    refine ⟨false, hforce, ?_⟩
    rw [interrupting_bind_failed]
    refine ⟨(true, options), hgate, ?_⟩
    refine interrupting_bind_failed.mpr ⟨[], hsemantic, ?_⟩
    exact (bind_failed (fun candidates db => hcolumn db)).mpr h

/-- What is left of a database: sound caches, and the filetypes it knew beside those entered. -/
structure Leaves (env : Core.Environment) (db : IdentifierDatabase) (entered : Bytes → Prop)
    (db' : IdentifierDatabase) : Prop where
  sound : CandidatesSound env db'.2
  known : ∀ filetype, (db'.1.lookup filetype).isSome = true ↔ entered filetype ∨ (db.1.lookup filetype).isSome = true

variable {entered : Bytes → Prop}

theorem Leaves.of_map (hs : CandidatesSound env db'.2) (hmap : db'.1 = db.1) (hnone : ∀ filetype, ¬ entered filetype) :
    Leaves env db entered db' where
  sound := hs
  known filetype := by rw [hmap, or_iff_right (hnone filetype)]

/-- The library does not throw, though the computation may stop short before it or after. -/
structure Harmless (env : Core.Environment) (entered : Bytes → Prop) (m : CompleterM Unit)
    (db : IdentifierDatabase) : Prop where
  returns : ∀ failure db', m db ≠ .error (.inr failure) db'
  leaves : Leaves env db entered (stateAfter m db)

theorem Harmless.of_ok {m : CompleterM Unit} (h : m db = .ok () db') (hleaves : Leaves env db entered db') :
    Harmless env entered m db where
  returns failure db' hfailed := by simp [h] at hfailed
  leaves := by rwa [stateAfter, h]

theorem Harmless.of_interrupt {m : CompleterM Unit} {interrupt : Interrupt} (h : m db = .error (.inl interrupt) db')
    (hleaves : Leaves env db entered db') : Harmless env entered m db where
  returns failure db' hfailed := by simp [h] at hfailed
  leaves := by rwa [stateAfter, h]

theorem addSingleIdentifier_leaves (hs : CandidatesSound env db.2) {newCandidate : Bytes}
    (hdec : Decodable newCandidate) (filetype filepath : Bytes) :
    ∃ db', IdentifierDatabase.addSingleIdentifier env newCandidate filetype filepath db = .ok () db' ∧
      Leaves env db (· = filetype) db' := by
  obtain ⟨map, caches⟩ := db
  obtain ⟨candidates, caches', hrun, hs', -, htexts⟩ :=
    IdentifierDatabase.getElements_decodable hs (List.forall_mem_singleton.mpr hdec)
  obtain ⟨candidate, rfl⟩ : ∃ candidate, candidates = [candidate] := by
    rw [← List.length_eq_one_iff]
    simpa using congrArg List.length htexts
  by_cases hnew : (IdentifierDatabase.candidateSet map filetype filepath).all (fun c => c.text != candidate.text) = true
  · refine ⟨(IdentifierDatabase.setCandidateSet (IdentifierDatabase.setCandidateSet map filetype filepath
      (IdentifierDatabase.candidateSet map filetype filepath)) filetype filepath
      (IdentifierDatabase.candidateSet map filetype filepath ++ [candidate]), caches'), ?_, hs', fun ft => ?_⟩
    · simp only [IdentifierDatabase.addSingleIdentifier, bind, EStateM.bind, below, hrun,
        IdentifierDatabase.getCandidateSet_eq, hnew, if_true]
      rfl
    · simp [IdentifierDatabase.isSome_lookup_setCandidateSet]
  · refine ⟨(IdentifierDatabase.setCandidateSet map filetype filepath
      (IdentifierDatabase.candidateSet map filetype filepath), caches'), ?_, hs', fun ft => ?_⟩
    · simp only [IdentifierDatabase.addSingleIdentifier, bind, EStateM.bind, below, hrun,
        IdentifierDatabase.getCandidateSet_eq, hnew]
      rfl
    · simp [IdentifierDatabase.isSome_lookup_setCandidateSet]

theorem recreateIdentifiers_leaves (hs : CandidatesSound env db.2) {newCandidates : List Bytes}
    (hdec : ∀ identifier ∈ newCandidates, Decodable identifier) (filetype filepath : Bytes) :
    ∃ db', IdentifierDatabase.recreateIdentifiers env newCandidates filetype filepath db = .ok () db' ∧
      Leaves env db (· = filetype) db' := by
  obtain ⟨map, caches⟩ := db
  obtain ⟨candidates, caches', hrun, hs', -, -⟩ := IdentifierDatabase.getElements_decodable hs hdec
  refine ⟨_, IdentifierDatabase.recreateIdentifiersNoLock_eq map hrun filetype filepath, hs', fun ft => ?_⟩
  simp [IdentifierDatabase.isSome_lookup_setCandidateSet]

section Events
variable {requestData : EventNotification}

theorem enters_iff {file : FileData} {name : String} (hfile : requestData.file = .ok file)
    (hname : frontFiletype file = .ok name)
    (hevent : requestData.eventName ∈ [Event.fileReadyToParse, .insertLeave, .currentIdentifierFinished])
    (filetype : Bytes) : (CoreRequest.eventNotification requestData).Enters filetype ↔ filetype = utf8 name.toList := by
  simp only [CoreRequest.Enters, hevent, true_and, IdentifierCompleter.concerns_iff hfile hname, exists_eq_right]

/-- An event that gets to the database with identifiers that can be decoded. -/
theorem event_harmless_of_entered {file : FileData} {name : String} (hfile : requestData.file = .ok file)
    (hname : frontFiletype file = .ok name)
    (hevent : requestData.eventName ∈ [Event.fileReadyToParse, .insertLeave, .currentIdentifierFinished])
    {m : DatabaseM Unit} (hm : ∃ db', m db = .ok () db' ∧ Leaves env db (· = utf8 name.toList) db')
    (hhandle : IdentifierCompleter.handleEventNotification env classes requestData db = inDatabase m db) :
    Harmless env (fun filetype => (CoreRequest.eventNotification requestData).Enters filetype)
      (IdentifierCompleter.handleEventNotification env classes requestData) db := by
  obtain ⟨db', hrun, hleaves⟩ := hm
  have hdone : IdentifierCompleter.handleEventNotification env classes requestData db = .ok () db' := by
    simp only [hhandle, inDatabase, hrun]
  refine .of_ok hdone ?_
  simp only [enters_iff hfile hname hevent]
  exact hleaves

/-- An event that changes nothing. -/
theorem event_harmless_of_unchanged (hs : CandidatesSound env db.2)
    (hdone : IdentifierCompleter.handleEventNotification env classes requestData db = .ok () db ∨
      ∃ interrupt,
        IdentifierCompleter.handleEventNotification env classes requestData db = .error (.inl interrupt) db)
    (hnone : ∀ filetype, ¬ (CoreRequest.eventNotification requestData).Enters filetype) :
    Harmless env (fun filetype => (CoreRequest.eventNotification requestData).Enters filetype)
      (IdentifierCompleter.handleEventNotification env classes requestData) db := by
  rcases hdone with hdone | ⟨interrupt, hdone⟩
  · exact .of_ok hdone (.of_map hs rfl hnone)
  · exact .of_interrupt hdone (.of_map hs rfl hnone)

/-- The identifier at or before the cursor is text. -/
theorem event_harmless_of_added (hs : CandidatesSound env db.2) {file : FileData} {name : String}
    (hfile : requestData.file = .ok file) (hname : frontFiletype file = .ok name)
    (hevent : requestData.eventName ∈ [Event.fileReadyToParse, .insertLeave, .currentIdentifierFinished])
    (identifier : List Char)
    (hhandle : IdentifierCompleter.handleEventNotification env classes requestData db =
      inDatabase (Core.IdentifierCompleter.addSingleIdentifierToDatabase env (utf8 identifier) (utf8 name.toList)
        (utf8 requestData.filepath.toList)) db) :
    Harmless env (fun filetype => (CoreRequest.eventNotification requestData).Enters filetype)
      (IdentifierCompleter.handleEventNotification env classes requestData) db :=
  event_harmless_of_entered hfile hname hevent
    (addSingleIdentifier_leaves hs (decodable_utf8 identifier) _ _) hhandle

/-- So are those of a buffer. -/
theorem event_harmless_of_parsed (hs : CandidatesSound env db.2) {file : FileData} {name : String}
    (hfile : requestData.file = .ok file) (hname : frontFiletype file = .ok name)
    (hevent : requestData.eventName = .fileReadyToParse) :
    Harmless env (fun filetype => (CoreRequest.eventNotification requestData).Enters filetype)
      (IdentifierCompleter.handleEventNotification env classes requestData) db := by
  obtain ⟨identifiers, hidentifiers, hutf8⟩ :
      ∃ identifiers, identifiersFromBuffer classes file = .ok identifiers ∧ ∀ t ∈ identifiers, ∃ text, t = utf8 text :=
    identifiersFromBuffer_of_filetype hname
  have hdec : ∀ t ∈ identifiers, Decodable t := by
    intro t ht
    obtain ⟨text, rfl⟩ := hutf8 t ht
    exact decodable_utf8 text
  refine event_harmless_of_entered hfile hname (by simp [hevent])
    (recreateIdentifiers_leaves hs hdec (utf8 name.toList) (utf8 requestData.filepath.toList)) ?_
  simp only [IdentifierCompleter.handleEventNotification, hfile, hevent, hidentifiers, hname, bind, EStateM.bind,
    interrupting, Core.IdentifierCompleter.clearForFileAndAddIdentifiersToDatabase]

/-- An event never makes the library throw. -/
theorem event_harmless (hs : CandidatesSound env db.2) (hinside : IdentifierCompleter.Inside requestData) :
    Harmless env (fun filetype => (CoreRequest.eventNotification requestData).Enters filetype)
      (IdentifierCompleter.handleEventNotification env classes requestData) db := by
  cases hfile : requestData.file with
  | error interrupt =>
    refine event_harmless_of_unchanged hs (.inr ⟨interrupt, ?_⟩) ?_
    · simp only [IdentifierCompleter.handleEventNotification, hfile, bind, EStateM.bind, interrupting]
    · rintro filetype ⟨-, filepath, hconcerns⟩
      exact IdentifierCompleter.not_concerns hfile filetype filepath hconcerns
  | ok file =>
    have hin := hinside file hfile
    cases hevent : requestData.eventName with
    | fileReadyToParse =>
      rw [hevent] at hin
      obtain ⟨name, hname⟩ := frontFiletype_of_ne_nil hin
      exact event_harmless_of_parsed hs hfile hname hevent
    | insertLeave =>
      rw [hevent] at hin
      obtain ⟨hne, hpos, hle⟩ := hin
      obtain ⟨name, hname⟩ := frontFiletype_of_ne_nil hne
      obtain ⟨identifier, hidentifier⟩ : ∃ identifier,
          identifierUnderCursor classes requestData.toSimpleRequest = .ok (utf8 identifier) :=
        exists_identifierUnderCursor hfile hname hpos hle
      refine event_harmless_of_added hs hfile hname (by simp [hevent]) identifier ?_
      simp only [IdentifierCompleter.handleEventNotification, hfile, hevent, hidentifier, hname, bind, EStateM.bind,
        interrupting]
    | currentIdentifierFinished =>
      rw [hevent] at hin
      obtain ⟨hne, hpos, hle⟩ := hin
      obtain ⟨name, hname⟩ := frontFiletype_of_ne_nil hne
      obtain ⟨identifier, hidentifier⟩ : ∃ identifier,
          identifierBeforeCursor classes requestData.toSimpleRequest = .ok (utf8 identifier) :=
        exists_identifierBeforeCursor hfile hname hpos hle
      refine event_harmless_of_added hs hfile hname (by simp [hevent]) identifier ?_
      simp only [IdentifierCompleter.handleEventNotification, hfile, hevent, hidentifier, hname, bind, EStateM.bind,
        interrupting]
    | fileSave | bufferVisit | bufferUnload =>
      refine event_harmless_of_unchanged hs (.inl ?_) (fun filetype h => by simp [CoreRequest.Enters, hevent] at h)
      simp only [IdentifierCompleter.handleEventNotification, hfile, hevent, bind, EStateM.bind, interrupting]
      rfl

end Events

section Queries

/-- The strings that are matched are text. -/
theorem decodable_of_sortString {sortProperty : Option String} {object : Json} {string : Bytes}
    (h : sortString sortProperty object = .ok string) : Decodable string := by
  unfold sortString at h
  repeat' split at h
  all_goals cases h
  exact decodable_utf8 _

theorem filterAndSort_harmless (hs : CandidatesSound env db.2) (req : FilterAndSortCandidatesRequest) :
    Harmless env (fun _ => False) ((CoreRequest.filterAndSortCandidates req).serve env classes text) db := by
  cases hstrings : req.candidates.mapM (sortString req.sortProperty) with
  | error interrupt =>
    have hthrown : (CoreRequest.filterAndSortCandidates req).serve env classes text db =
        .error (.inl interrupt) db := by
      simp only [CoreRequest.serve, handleFilterAndSortCandidates, hstrings, Except.map, bind, EStateM.bind,
        interrupting]
    exact .of_interrupt hthrown (.of_map hs rfl (fun _ => id))
  | ok strings =>
    have hdec : ∀ string ∈ strings, Decodable string := by
      intro string hmem
      obtain ⟨i, hi, rfl⟩ := List.getElem_of_mem hmem
      have hforall := mapM_ok_iff.mp hstrings
      exact decodable_of_sortString (hforall.get (hforall.length_eq ▸ hi) hi)
    obtain ⟨candidates, caches, helements, hs', -, -⟩ := IdentifierDatabase.getElements_decodable hs hdec
    obtain ⟨word, hword⟩ := Word.exists_of env (decodable_utf8 req.query.toList)
    obtain ⟨caches', hmake, hs''⟩ :=
      ((computes_makeWord (utf8 req.query.toList)).below (J := Memo.Sound (Candidate.of env))).ok hs' hword
    obtain ⟨filtered, hrun⟩ : ∃ filtered,
        filterAndSort env matchingObjects req strings db.2 = .ok filtered caches' := by
      simp only [filterAndSort, bind, EStateM.bind, helements, hmake]
      exact ⟨_, rfl⟩
    have hdone : (CoreRequest.filterAndSortCandidates req).serve env classes text db = .ok () (db.1, caches') := by
      simp only [CoreRequest.serve, handleFilterAndSortCandidates, hstrings, Except.map, bind, EStateM.bind,
        interrupting, inDatabase, below, hrun]
      rfl
    exact .of_ok hdone (.of_map hs'' rfl (fun _ => id))

/-- Asking for identifiers changes the repositories alone. -/
theorem keeps_identifierCandidates (map : FiletypeCandidateMap) (userOptions : Json) (requestWrap : SimpleRequest) :
    Keeps (fun db : IdentifierDatabase => db.1 = map ∧ CandidatesSound env db.2)
      (identifierCandidates env classes text userOptions requestWrap) (fun _ => True) := by
  refine Keeps.bind (Q := fun _ => True) ?_ (fun _ _ => keeps_interrupting _ _)
  apply (keeps_interrupting _ _).bind
  intro query _
  apply (keeps_interrupting _ _).bind
  intro filetype _
  refine (keeps_inDatabase ?_).bind (Q := fun _ => True) (fun _ _ => keeps_interrupting _ _)
  exact (IdentifierDatabase.computes_resultsForQueryAndType env map query.elems (utf8 filetype.toList) 0).keeps.bind
    (fun _ _ => Keeps.pure trivial)

theorem completions_leaves (hs : CandidatesSound env db.2) (userOptions laterOptions : Json) (req : CompletionRequest)
    (clangd : ClangdAnswer) :
    Leaves env db (fun _ => False)
      (stateAfter ((CoreRequest.completions userOptions laterOptions req clangd).serve env classes text) db) := by
  have hkeeps : Keeps (fun db' : IdentifierDatabase => db'.1 = db.1 ∧ CandidatesSound env db'.2)
      ((CoreRequest.completions userOptions laterOptions req clangd).serve env classes text) (fun _ => True) := by
    refine Keeps.bind (Q := fun _ => True) ?_ (fun _ _ => Keeps.pure trivial)
    apply (keeps_interrupting _ _).bind
    intro force _
    apply (keeps_interrupting _ _).bind
    intro gate _
    split
    · exact Keeps.pure trivial
    · apply (keeps_interrupting _ _).bind
      intro semantic _
      refine Keeps.bind (Q := fun _ => True) ?_
        (fun _ _ => (keeps_interrupting _ _).bind (fun _ _ => Keeps.pure trivial))
      split
      · exact keeps_identifierCandidates db.1 laterOptions req.toSimpleRequest
      · exact Keeps.pure trivial
  obtain ⟨hmap, hs'⟩ := hkeeps.stateAfter ⟨rfl, hs⟩
  exact .of_map hs' hmap (fun _ => id)

end Queries

theorem serve_leaves (classes : CharacterClasses) (text : TextLibrary) (hs : CandidatesSound env db.2)
    {request : CoreRequest} (hinside : request.Inside) :
    Leaves env db (fun filetype => request.Enters filetype) (stateAfter (request.serve env classes text) db) := by
  cases request with
  | completions userOptions laterOptions req clangd => exact completions_leaves hs userOptions laterOptions req clangd
  | eventNotification requestData => exact (event_harmless hs hinside).leaves
  | filterAndSortCandidates req => exact (filterAndSort_harmless hs req).leaves

/-- After a run the database knows the filetypes that its events have entered. -/
theorem served_leaves (env : Core.Environment) (classes : CharacterClasses) (text : TextLibrary)
    {requests : List CoreRequest} (hinside : ∀ request ∈ requests, request.Inside) :
    Leaves env .empty (fun filetype => ∃ request ∈ requests, request.Enters filetype)
      (served env classes text requests .empty) := by
  induction requests using List.reverseRecOn with
  | nil => exact .of_map candidatesSound_empty rfl (fun filetype h => by simp at h)
  | append_singleton requests request ih =>
    rw [List.forall_mem_append, List.forall_mem_singleton] at hinside
    have hbefore := ih hinside.1
    have hstep := serve_leaves classes text hbefore.sound hinside.2
    rw [served, List.foldl_concat]
    refine ⟨hstep.sound, fun filetype => (hstep.known filetype).trans ?_⟩
    rw [hbefore.known, ← or_assoc, or_comm (a := request.Enters filetype)]
    simp only [List.mem_append, List.mem_singleton, or_and_right, exists_or, exists_eq_left]

/-- Where the request's cursor is, its query either can be decoded or throws at its first byte. -/
theorem completions_failed_iff (hs : CandidatesSound env db.2) {userOptions laterOptions : Json}
    {req : CompletionRequest} {clangd : ClangdAnswer} {file : FileData} {before after : List Char} {name : String}
    (hcursor : CursorAt req.toSimpleRequest file before after) (hname : file.filetypes.head? = some name) :
    Completions.handleCompletions env classes text userOptions laterOptions req clangd db = .error (.inr failure) db' ↔
      failure = .unicodeDecodeError "Invalid leading byte in code point." ∧ db' = db ∧
      AsksIdentifiers classes text userOptions req clangd ∧ LongFirst classes before after ∧
      (db.1.lookup (utf8 name.toList)).isSome = true := by
  obtain ⟨rest, hcons⟩ := List.head?_eq_some_iff.mp hname
  have hfirst := hcursor.firstFiletype_eq hcons
  have hfiletypes : file.filetypes ≠ [] := by rw [hcons]; exact List.cons_ne_nil _ _
  rw [handleCompletions_failed, identifierCandidates_failed]
  constructor
  · rintro ⟨hasks, query, hquery, filetype, hfiletype, h⟩
    obtain rfl := Except.ok.inj (hfirst.symm.trans hfiletype)
    obtain ⟨hknown, hsplit, rfl⟩ := (candidatesForQueryAndType_failed hs).mp h
    by_cases hlong : LongFirst classes before after
    · obtain ⟨part, b, rest, hpart, helems, hb⟩ := hcursor.queryBytes_within text classes hfiletypes hlong
      obtain rfl := Except.ok.inj (hpart.symm.trans hquery)
      rw [helems, splitCodePoints_within hb] at hsplit
      exact ⟨(Except.error.inj hsplit).symm, rfl, hasks, hlong, hknown⟩
    · obtain ⟨part, hpart, helems⟩ := hcursor.queryBytes_whole text classes hfiletypes hlong
      obtain rfl := Except.ok.inj (hpart.symm.trans hquery)
      have hdec := decodable_utf8 (queryText classes before)
      rw [Decodable, ← helems, hsplit] at hdec
      cases hdec
  · rintro ⟨rfl, rfl, hasks, hlong, hknown⟩
    obtain ⟨part, b, rest, hpart, helems, hb⟩ := hcursor.queryBytes_within text classes hfiletypes hlong
    refine ⟨hasks, part, hpart, name, hfirst, (candidatesForQueryAndType_failed hs).mpr ⟨hknown, ?_, rfl⟩⟩
    rw [helems, splitCodePoints_within hb]

end Steps

/-- For every run of requests and every request after it: the library throws exactly when a completion request
comes to ask for identifiers where the query, or what is at the cursor, begins with a character of several bytes,
and an event of the run is about a file of its filetype. Nothing is changed then. -/
theorem core_throws_iff (env : Core.Environment) (classes : CharacterClasses) (text : TextLibrary)
    (requests : List CoreRequest) (request : CoreRequest) (failure : Failure) (db' : IdentifierDatabase)
    (hinside : ∀ r ∈ request :: requests, r.Inside) :
    request.serve env classes text (served env classes text requests .empty) = .error (.inr failure) db' ↔
      failure = .unicodeDecodeError "Invalid leading byte in code point." ∧
      db' = served env classes text requests .empty ∧
      ∃ filetype, request.AsksWithin classes text filetype ∧ ∃ r ∈ requests, r.Enters filetype := by
  rw [List.forall_mem_cons] at hinside
  have hserved := served_leaves env classes text hinside.2
  have hknown (filetype : Bytes) : ((served env classes text requests .empty).1.lookup filetype).isSome = true ↔
      ∃ r ∈ requests, r.Enters filetype := by
    rw [hserved.known, or_iff_left (by simp [IdentifierDatabase.empty])]
  cases request with
  | eventNotification requestData =>
    refine iff_of_false ((event_harmless hserved.sound hinside.1).returns failure db') ?_
    rintro ⟨-, -, filetype, hasks, -⟩
    exact hasks
  | filterAndSortCandidates req =>
    refine iff_of_false ((filterAndSort_harmless hserved.sound req).returns failure db') ?_
    rintro ⟨-, -, filetype, hasks, -⟩
    exact hasks
  | completions userOptions laterOptions req clangd =>
    have hserve (db : IdentifierDatabase) :
        (CoreRequest.completions userOptions laterOptions req clangd).serve env classes text db =
            .error (.inr failure) db' ↔
          Completions.handleCompletions env classes text userOptions laterOptions req clangd db =
            .error (.inr failure) db' := bind_failed (fun _ _ h => by cases h)
    rw [hserve]
    constructor
    · intro h
      obtain ⟨file, before, after, hcursor, hfiletypes⟩ := hinside.1
      obtain ⟨name, rest, hcons⟩ := List.exists_cons_of_ne_nil hfiletypes
      have hname : file.filetypes.head? = some name := List.head?_eq_some_iff.mpr ⟨rest, hcons⟩
      obtain ⟨hfailure, hdb, hasks, hlong, hentered⟩ := (completions_failed_iff hserved.sound hcursor hname).mp h
      exact ⟨hfailure, hdb, utf8 name.toList, ⟨hasks, file, before, after, name, hcursor, hname, rfl, hlong⟩,
        (hknown _).mp hentered⟩
    · rintro ⟨hfailure, hdb, filetype, ⟨hasks, file, before, after, name, hcursor, hname, rfl, hlong⟩, hentered⟩
      exact (completions_failed_iff hserved.sound hcursor hname).mpr
        ⟨hfailure, hdb, hasks, hlong, (hknown _).mpr hentered⟩

/-- A file with an accented letter is parsed, and completions are asked for at that letter. -/
theorem core_throws_iff_accented :
    (CoreRequest.completions (.obj [("min_num_of_chars_for_completion", .int 0)]) (.obj [])
        { requestIn "é" 1 with forceSemantic := none } .notInitialised).serve IdentifierDatabase.letterEnvironment
        asciiClasses .leading (served IdentifierDatabase.letterEnvironment asciiClasses .leading
          [.eventNotification { requestIn "é" 1 with eventName := .fileReadyToParse }] .empty) =
      .error (.inr (.unicodeDecodeError "Invalid leading byte in code point."))
        (served IdentifierDatabase.letterEnvironment asciiClasses .leading
          [.eventNotification { requestIn "é" 1 with eventName := .fileReadyToParse }] .empty) := by
  have hcursor : CursorAt (requestIn "é" 1) ⟨["cpp"], "é"⟩ [] "é".toList :=
    cursorAt_requestIn "é" [] "é".toList (by decide) (by decide) (by decide)
  have hinside : ∀ r ∈ [CoreRequest.completions (.obj [("min_num_of_chars_for_completion", .int 0)]) (.obj [])
      { requestIn "é" 1 with forceSemantic := none } .notInitialised,
      .eventNotification { requestIn "é" 1 with eventName := .fileReadyToParse }], r.Inside := by
    simp only [List.forall_mem_cons, List.not_mem_nil, false_implies, implies_true, and_true]
    refine ⟨⟨_, _, _, hcursor, by decide⟩, fun file hfile => ?_⟩
    obtain rfl := Except.ok.inj (hcursor.file_eq.symm.trans hfile)
    decide
  refine (core_throws_iff _ _ _ _ _ _ _ hinside).mpr ⟨rfl, rfl, utf8 "cpp".toList, ?_, ?_⟩
  · refine ⟨⟨rfl, ?_, ?_⟩, _, _, _, "cpp", hcursor, rfl, rfl, 'é', by decide, by decide⟩
    · obtain ⟨part, hpart, helems⟩ := hcursor.query_eq .leading asciiClasses (by decide)
      have hsize : part.size = 0 := by
        rw [← View.length_elems, helems]
        rfl
      have hlength : (requestText .leading asciiClasses).queryLength (requestIn "é" 1) = some 0 := by
        change (RequestWrapper.query .leading asciiClasses (requestIn "é" 1)).toOption.map View.size = some 0
        rw [hpart, ← hsize]
        rfl
      simp only [queryGate, queryGate.shortQuery, hlength]
      exact ⟨_, rfl⟩
    · have hkind : completerForRequest (requestIn "é" 1) = .ok .clangd := by
        simp only [completerForRequest, firstFiletype_of_file hcursor.file_eq]
        rfl
      simp only [computeCandidatesSemantic, hkind]
      rfl
  · exact ⟨_, List.mem_singleton_self _, by decide, _, ⟨["cpp"], "é"⟩, "cpp", hcursor.file_eq, rfl, rfl, rfl⟩

end Ycmd
