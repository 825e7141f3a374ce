import Ycmd.Clangd.Completions
import Ycmd.Clangd.Cursor
import Ycmd.Core.Narrowing
import Ycmd.IdentifierCompleter

/-! What `handle_completions` answers a request with: the body on each of its paths, and the completions that
are asked of it. -/
namespace Ycmd.Completions
open Lib Clangd Ycmd.Core General

/-- How far `ClangdCompleter::compute_candiatdes` gets. -/
inductive ClangdAnswer where
  | noCompleter
  | notInitialised
  | raises
  | answered (responseMessage : Json)

/-- `compute_candidates_semantic`. -/
def computeCandidatesSemantic (requestWrap : SimpleRequest) (clangd : ClangdAnswer) :
    Except Interrupt (List Api.Candidate) := do
  match ← completerForRequest requestWrap with
  | .clangd => match clangd with
    | .noCompleter => .error .undefined
    | .notInitialised => .ok []
    | .raises => .error .thrown
    | .answered responseMessage => (resumeComputeCandidates responseMessage).mapError (fun _ => .thrown)
  | .jedi => .ok []
  | .none => .ok []

/-- `force_semantic` of the raw request. -/
def forceSemantic (req : CompletionRequest) : Except Interrupt Bool :=
  match req.forceSemantic with
  | none => .ok false
  | some force => (fromJson force : Decode Bool).mapError (fun _ => .thrown)

/-- A candidate of the general completer; a text that is not UTF-8 cannot be dumped. -/
def identifierCandidate (completion : Completion) : Except Interrupt Api.Candidate :=
  match decodeUtf8 completion.insertionText with
  | some text => .ok { insertionText := String.ofList text, extraMenuInfo := some completion.extraMenuInfo }
  | none => .error .thrown

section Handler
variable (env : Core.Environment) (classes : CharacterClasses) (text : TextLibrary)

def identifierCandidates (userOptions : Json) (requestWrap : SimpleRequest) : CompleterM (List Api.Candidate) := do
  let completions ← IdentifierCompleter.computeCandidates env classes text userOptions requestWrap
  interrupting (completions.mapM identifierCandidate)

/-- The body of the answer. The options can be others when clangd has answered. -/
def handleCompletions (userOptions laterOptions : Json) (req : CompletionRequest) (clangd : ClangdAnswer) :
    CompleterM Json := do
  let force ← interrupting (forceSemantic req)
  let gate ← interrupting (queryGate (requestText text classes) userOptions req)
  if !gate.1 then return .arr []
  let semantic ← interrupting (computeCandidatesSemantic req.toSimpleRequest clangd)
  let candidates ← (if !force && semantic.isEmpty then
      identifierCandidates env classes text laterOptions req.toSimpleRequest
    else pure semantic)
  let startColumn ← interrupting (RequestWrapper.startColumn text classes req.toSimpleRequest)
  return toJson ({ completions := candidates, completionStartColumn := Int32.ofNat startColumn } : Api.CompletionsResponse)

end Handler

section Expected
variable (env : Core.Environment) (classes : CharacterClasses) (text : TextLibrary)
  (userOptions laterOptions : Json) (req : CompletionRequest) (clangd : ClangdAnswer) (db : IdentifierDatabase)

/-- The query is shorter than the option asks for, and the request does not force. -/
def ShortQuery : Prop :=
  forceSemantic req = .ok false ∧ ∃ query minimum options,
    RequestWrapper.query text classes req.toSimpleRequest = .ok query ∧
    userOptions.index "min_num_of_chars_for_completion" = .ok (minimum, options) ∧
    Json.natLt query.size minimum = true

/-- The completions a request is to be answered with. -/
inductive Expected : List Api.Candidate → Prop where
  | short : ShortQuery classes text userOptions req → Expected []
  | semantic {candidates : List Api.Candidate} : ¬ ShortQuery classes text userOptions req →
      computeCandidatesSemantic req.toSimpleRequest clangd = .ok candidates → candidates ≠ [] → Expected candidates
  | forced : forceSemantic req = .ok true → computeCandidatesSemantic req.toSimpleRequest clangd = .ok [] → Expected []
  | general {candidates : List Api.Candidate} {db' : IdentifierDatabase} :
      ¬ ShortQuery classes text userOptions req → forceSemantic req = .ok false →
      computeCandidatesSemantic req.toSimpleRequest clangd = .ok [] →
      identifierCandidates env classes text laterOptions req.toSimpleRequest db = .ok candidates db' →
      Expected candidates

/-- The body decodes, and says what is expected. -/
def Answers (body : Json) : Prop :=
  ∃ (response : Api.CompletionsResponse) (startColumn : Nat), fromJson body = .ok response ∧
    RequestWrapper.startColumn text classes req.toSimpleRequest = .ok startColumn ∧
    response.completionStartColumn.toInt = startColumn ∧
    Expected env classes text userOptions laterOptions req clangd db response.completions

/-- Clangd, if it is asked, answers with no item. -/
def NoItems : Prop :=
  completerForRequest req.toSimpleRequest = .ok .clangd → ∀ responseMessage, clangd = .answered responseMessage →
    resumeComputeCandidates responseMessage = .ok []

end Expected

variable {env : Core.Environment} {classes : CharacterClasses} {text : TextLibrary}
  {userOptions laterOptions : Json} {req : CompletionRequest} {clangd : ClangdAnswer} {db db' : IdentifierDatabase}
  {body : Json}

theorem interrupting_ok {α : Type} {r : Except Interrupt α} {a : α} {db db' : IdentifierDatabase}
    (h : interrupting r db = .ok a db') : r = .ok a ∧ db = db' := by
  cases r with
  | ok b =>
    obtain ⟨rfl, rfl⟩ := EStateM.Result.ok.inj h
    exact ⟨rfl, rfl⟩
  | error interrupt => cases h

/-- The comparison of the gate, when it comes to it. -/
theorem shortQuery_iff {gate : Bool × Json}
    (h : queryGate.shortQuery (requestText text classes) userOptions req = .ok gate) :
    gate.1 = false ↔ ∃ query minimum options,
      RequestWrapper.query text classes req.toSimpleRequest = .ok query ∧
      userOptions.index "min_num_of_chars_for_completion" = .ok (minimum, options) ∧
      Json.natLt query.size minimum = true := by
  have hlength : (requestText text classes).queryLength req.toSimpleRequest =
      (RequestWrapper.query text classes req.toSimpleRequest).toOption.map View.size := rfl
  rw [queryGate.shortQuery, hlength] at h
  cases hquery : RequestWrapper.query text classes req.toSimpleRequest with
  | error interrupt => simp [hquery, Except.toOption] at h
  | ok query =>
    cases hoption : userOptions.index "min_num_of_chars_for_completion" with
    | error e => simp [hquery, hoption, Except.toOption] at h
    | ok option =>
      obtain ⟨minimum, options⟩ := option
      rw [hquery, hoption] at h
      obtain rfl := Except.ok.inj h
      constructor
      · intro hshort
        exact ⟨query, minimum, options, rfl, rfl, by simpa using hshort⟩
      · rintro ⟨_, _, _, hquery', hoption', hshort⟩
        obtain rfl := Except.ok.inj hquery'
        obtain ⟨rfl, -⟩ := Prod.mk.inj (Except.ok.inj hoption')
        simpa using hshort

/-- The gate keeps out the requests with a short query. -/
theorem queryGate_short {gate : Bool × Json} (h : queryGate (requestText text classes) userOptions req = .ok gate) :
    gate.1 = false ↔ ShortQuery classes text userOptions req := by
  unfold ShortQuery forceSemantic
  unfold queryGate at h
  cases hforce : req.forceSemantic with
  | none =>
    simp only [hforce] at h ⊢
    rw [shortQuery_iff h, true_and]
  | some force =>
    cases hbool : (fromJson force : Decode Bool) with
    | error e => simp [hforce, hbool] at h
    | ok forced =>
      cases forced with
      | true =>
        simp only [hforce, hbool] at h
        obtain rfl := Except.ok.inj h
        simp [hbool, Except.mapError]
      | false =>
        simp only [hforce, hbool, Except.mapError] at h ⊢
        rw [shortQuery_iff h, true_and]

/-- What an answer is: the empty array for a short query, and else a response with what is expected. -/
theorem handleCompletions_cases
    (h : handleCompletions env classes text userOptions laterOptions req clangd db = .ok body db') :
    ShortQuery classes text userOptions req ∧ body = .arr [] ∨
    ¬ ShortQuery classes text userOptions req ∧ ∃ candidates startColumn semantic,
      Expected env classes text userOptions laterOptions req clangd db candidates ∧
      RequestWrapper.startColumn text classes req.toSimpleRequest = .ok startColumn ∧
      computeCandidatesSemantic req.toSimpleRequest clangd = .ok semantic ∧
      body = toJson ({ completions := candidates, completionStartColumn := Int32.ofNat startColumn } :
        Api.CompletionsResponse) := by
  obtain ⟨force, _, hrun, h⟩ := run_bind_ok h
  obtain ⟨hforce, rfl⟩ := interrupting_ok hrun
  obtain ⟨gate, _, hrun, h⟩ := run_bind_ok h
  obtain ⟨hgate, rfl⟩ := interrupting_ok hrun
  cases hpast : gate.1 with
  | false =>
    rw [hpast] at h
    exact .inl ⟨(queryGate_short hgate).mp hpast, (EStateM.Result.ok.inj h).1.symm⟩
  | true =>
    rw [hpast] at h
    have hlong : ¬ ShortQuery classes text userOptions req := by
      rw [← queryGate_short hgate, hpast]
      exact Bool.noConfusion
    obtain ⟨semantic, _, hrun, h⟩ := run_bind_ok h
    obtain ⟨hsemantic, rfl⟩ := interrupting_ok hrun
    obtain ⟨candidates, db₁, hcandidates, h⟩ := run_bind_ok h
    obtain ⟨startColumn, _, hrun, h⟩ := run_bind_ok h
    obtain ⟨hstart, rfl⟩ := interrupting_ok hrun
    refine .inr ⟨hlong, candidates, startColumn, semantic, ?_, hstart, hsemantic, (EStateM.Result.ok.inj h).1.symm⟩
    by_cases hne : semantic = []
    · subst hne
      cases force with
      | true =>
        obtain ⟨rfl, -⟩ := EStateM.Result.ok.inj hcandidates
        exact .forced hforce hsemantic
      | false => exact .general hlong hforce hsemantic hcandidates
    · rw [if_neg (by simp [hne])] at hcandidates
      obtain ⟨rfl, -⟩ := EStateM.Result.ok.inj hcandidates
      exact .semantic hlong hsemantic hne

/-- Every item of an answer is given a menu text. -/
theorem menuText_of_resumed {responseMessage : Json} {candidates : List Api.Candidate}
    (h : resumeComputeCandidates responseMessage = .ok candidates) : ∀ c ∈ candidates, c.menuText ≠ none := by
  obtain ⟨response, -, h⟩ := bind_ok h
  intro c hc
  cases herror : response.error with
  | some error =>
    simp only [herror] at h
    obtain rfl := Except.ok.inj h
    cases hc
  | none =>
    cases hresult : response.result with
    | none =>
      simp only [herror, hresult] at h
      obtain rfl := Except.ok.inj h
      cases hc
    | some result =>
      simp only [herror, hresult] at h
      obtain rfl := Except.ok.inj h
      obtain ⟨item, -, rfl⟩ := List.mem_map.mp hc
      exact Option.some_ne_none _

/-- Every semantic candidate has a menu text. -/
theorem menuText_of_semantic {candidates : List Api.Candidate}
    (h : computeCandidatesSemantic req.toSimpleRequest clangd = .ok candidates) :
    ∀ c ∈ candidates, c.menuText ≠ none := by
  obtain ⟨kind, -, h⟩ := bind_ok h
  cases kind with
  | jedi =>
    obtain rfl := Except.ok.inj h
    exact List.forall_mem_nil _
  | none =>
    obtain rfl := Except.ok.inj h
    exact List.forall_mem_nil _
  | clangd =>
    cases clangd with
    | noCompleter => cases h
    | raises => cases h
    | notInitialised =>
      obtain rfl := Except.ok.inj h
      exact List.forall_mem_nil _
    | answered responseMessage => exact menuText_of_resumed (mapError_ok.mp h)

theorem menuText_of_identifier {completion : Completion} {candidate : Api.Candidate}
    (h : identifierCandidate completion = .ok candidate) : candidate.menuText = none := by
  unfold identifierCandidate at h
  split at h
  · rw [← Except.ok.inj h]
  · cases h

theorem menuText_of_identifiers {requestWrap : SimpleRequest} {candidates : List Api.Candidate}
    (h : identifierCandidates env classes text userOptions requestWrap db = .ok candidates db') :
    ∀ c ∈ candidates, c.menuText = none := by
  obtain ⟨completions, _, -, h⟩ := run_bind_ok h
  have hmap := mapM_ok_iff.mp (interrupting_ok h).1
  intro c hc
  obtain ⟨i, hi, rfl⟩ := List.getElem_of_mem hc
  exact menuText_of_identifier (hmap.get (hmap.length_eq ▸ hi) hi)

theorem semantic_eq_nil_iff {semantic : List Api.Candidate}
    (h : computeCandidatesSemantic req.toSimpleRequest clangd = .ok semantic) : semantic = [] ↔ NoItems req clangd := by
  constructor
  · rintro rfl hkind responseMessage rfl
    simp only [computeCandidatesSemantic, hkind, bind, Except.bind] at h
    exact mapError_ok.mp h
  · intro hitems
    obtain ⟨kind, hkind, h⟩ := bind_ok h
    cases kind with
    | jedi => exact (Except.ok.inj h).symm
    | none => exact (Except.ok.inj h).symm
    | clangd =>
      cases clangd with
      | noCompleter => cases h
      | raises => cases h
      | notInitialised => exact (Except.ok.inj h).symm
      | answered responseMessage =>
        have hmessage := hitems hkind responseMessage rfl
        exact Except.ok.inj ((mapError_ok.mp h).symm.trans hmessage)

/-- Where there are semantic candidates, they are what is expected. -/
theorem Expected.eq_semantic {candidates semantic : List Api.Candidate}
    (h : Expected env classes text userOptions laterOptions req clangd db candidates)
    (hlong : ¬ ShortQuery classes text userOptions req)
    (hsemantic : computeCandidatesSemantic req.toSimpleRequest clangd = .ok semantic) (hne : semantic ≠ []) :
    candidates = semantic := by
  cases h with
  | short hshort => exact absurd hshort hlong
  | semantic _ hcandidates _ => exact Except.ok.inj (hcandidates.symm.trans hsemantic)
  | forced _ hnone => exact absurd (Except.ok.inj (hsemantic.symm.trans hnone)) hne
  | general _ _ hnone _ => exact absurd (Except.ok.inj (hsemantic.symm.trans hnone)) hne

theorem Expected.menuText {candidates : List Api.Candidate}
    (h : Expected env classes text userOptions laterOptions req clangd db candidates) (hitems : NoItems req clangd) :
    ∀ c ∈ candidates, c.menuText = none := by
  cases h with
  | short _ => exact List.forall_mem_nil _
  | semantic _ hsemantic hne => exact absurd ((semantic_eq_nil_iff hsemantic).mpr hitems) hne
  | forced _ _ => exact List.forall_mem_nil _
  | general _ _ _ hrun => exact menuText_of_identifiers hrun

/-- Where the menu texts that are not written are not missed, clangd has no item. -/
theorem Expected.noItems {candidates semantic : List Api.Candidate}
    (h : Expected env classes text userOptions laterOptions req clangd db
      (candidates.map Api.Candidate.withoutMenuText))
    (hlong : ¬ ShortQuery classes text userOptions req)
    (hsemantic : computeCandidatesSemantic req.toSimpleRequest clangd = .ok semantic) : NoItems req clangd := by
  rw [← semantic_eq_nil_iff hsemantic]
  by_contra hne
  obtain ⟨c, hc⟩ := List.exists_mem_of_ne_nil semantic hne
  have hc' := hc
  rw [← h.eq_semantic hlong hsemantic hne] at hc'
  obtain ⟨c', -, rfl⟩ := List.mem_map.mp hc'
  exact menuText_of_semantic hsemantic _ hc rfl

theorem toInt_ofNat_eq_iff (n : Nat) : (Int32.ofNat n).toInt = n ↔ n < 2^31 := by
  have hsize : (Int32.size : Int) = 4294967296 := rfl
  rw [Int32.toInt_ofNat', Int.bmod_def]
  simp only [hsize]
  split <;> omega

/-- The empty array is not a record. -/
theorem empty_array_not_decoded : ∃ e, (fromJson (.arr []) : Decode Api.CompletionsResponse) = .error e := ⟨_, rfl⟩

/-- For every request that is answered: the answer says what is expected exactly when the query is not short, the
start column fits in an `int`, and clangd has no item, whose menu text is not written. Past the check of the
query all but the menu texts comes back. -/
theorem completions_answered_iff (env : Core.Environment) (classes : CharacterClasses) (text : TextLibrary)
    (userOptions laterOptions : Json) (req : CompletionRequest) (clangd : ClangdAnswer) (db db' : IdentifierDatabase)
    (body : Json) (h : handleCompletions env classes text userOptions laterOptions req clangd db = .ok body db') :
    (Answers env classes text userOptions laterOptions req clangd db body ↔
      ¬ ShortQuery classes text userOptions req ∧
      (∀ startColumn, RequestWrapper.startColumn text classes req.toSimpleRequest = .ok startColumn →
        startColumn < 2^31) ∧
      NoItems req clangd) ∧
    (¬ ShortQuery classes text userOptions req → ∃ candidates startColumn,
      Expected env classes text userOptions laterOptions req clangd db candidates ∧
      RequestWrapper.startColumn text classes req.toSimpleRequest = .ok startColumn ∧
      fromJson body = .ok ({ completions := candidates.map Api.Candidate.withoutMenuText
                             completionStartColumn := Int32.ofNat startColumn } : Api.CompletionsResponse)) := by
  rcases handleCompletions_cases h with ⟨hshort, rfl⟩ | ⟨hlong, candidates, column, semantic, hexpected, hcolumn,
    hsemantic, rfl⟩
  · obtain ⟨e, he⟩ := empty_array_not_decoded
    refine ⟨iff_of_false ?_ (fun h => h.1 hshort), fun hlong => absurd hshort hlong⟩
    rintro ⟨response, column, hdecoded, -⟩
    rw [he] at hdecoded
    cases hdecoded
  · have hdecoded := Api.CompletionsResponse.fromJson_toJson
      { completions := candidates, completionStartColumn := Int32.ofNat column }
    refine ⟨?_, fun _ => ⟨candidates, column, hexpected, hcolumn, hdecoded⟩⟩
    constructor
    · rintro ⟨response, column', hresponse, hcolumn', hint, hexpected'⟩
      obtain rfl := Except.ok.inj (hcolumn.symm.trans hcolumn')
      obtain rfl := Except.ok.inj (hdecoded.symm.trans hresponse)
      refine ⟨hlong, ?_, hexpected'.noItems hlong hsemantic⟩
      intro column' hcolumn'
      obtain rfl := Except.ok.inj (hcolumn.symm.trans hcolumn')
      exact (toInt_ofNat_eq_iff column).mp hint
    · rintro ⟨-, hfits, hitems⟩
      refine ⟨_, column, hdecoded, hcolumn, (toInt_ofNat_eq_iff column).mpr (hfits column hcolumn), ?_⟩
      rw [Api.CompletionsResponse.withoutMenuTexts,
        Api.Candidate.map_withoutMenuText_eq_self (hexpected.menuText hitems)]
      exact hexpected

/-- A request at the end of a file with one letter. -/
def letterRequest (forceSemantic : Option Json) : CompletionRequest :=
  { RequestWrapper.requestIn "A" 2 with forceSemantic }

theorem cursorAt_letter : RequestWrapper.CursorAt (RequestWrapper.requestIn "A" 2) ⟨["cpp"], "A"⟩ "A".toList [] :=
  RequestWrapper.cursorAt_requestIn "A" "A".toList [] (by decide) (by decide) (by decide)

theorem startColumn_letter :
    RequestWrapper.startColumn .leading asciiClasses (RequestWrapper.requestIn "A" 2) = .ok 1 := by
  obtain ⟨c, rest, hcons, hstart⟩ := cursorAt_letter.startColumn_eq .leading asciiClasses (by decide)
  obtain ⟨rfl, -⟩ := List.cons.inj hcons
  exact hstart

/-- The query of the request is the letter. -/
theorem queryGate_letter (minimum : Int) :
    queryGate (requestText .leading asciiClasses) (.obj [("min_num_of_chars_for_completion", .int minimum)])
        (letterRequest none) =
      .ok (!Json.natLt 1 (.int minimum), .obj [("min_num_of_chars_for_completion", .int minimum)]) := by
  obtain ⟨query, hquery, helems⟩ := cursorAt_letter.query_eq .leading asciiClasses (by decide)
  have hsize : query.size = 1 := by
    rw [← View.length_elems, helems]
    decide
  have hlength : (requestText .leading asciiClasses).queryLength (letterRequest none).toSimpleRequest = some 1 := by
    change (RequestWrapper.query .leading asciiClasses (RequestWrapper.requestIn "A" 2)).toOption.map View.size = _
    rw [hquery, ← hsize]
    rfl
  change queryGate.shortQuery _ _ _ = _
  rw [queryGate.shortQuery, hlength]
  rfl

/-- The identifier of the database that the letter matches. -/
theorem identifierCandidates_letters :
    ∃ after, identifierCandidates IdentifierDatabase.letterEnvironment asciiClasses .leading
        (IdentifierCompleter.minimumChars 0) (RequestWrapper.requestIn "A" 2) IdentifierDatabase.lettersDatabase =
      .ok [{ insertionText := "Aa", extraMenuInfo := some "[ID]" }] after := by
  obtain ⟨query, hquery, helems⟩ := IdentifierCompleter.queryBytes_letter
  have hfiletype : firstFiletype (RequestWrapper.requestIn "A" 2) = .ok "cpp" :=
    firstFiletype_of_file cursorAt_letter.file_eq
  have hoption : General.option (IdentifierCompleter.minimumChars 0) "min_num_identifier_candidate_chars" =
    .ok (.int 0) := rfl
  obtain ⟨after, hanswers⟩ := exists_run_of_outcome (a := [ascii "Aa"])
    (m := Core.IdentifierCompleter.candidatesForQueryAndType IdentifierDatabase.letterEnvironment query.elems
      (utf8 "cpp".toList) 0) (s := IdentifierDatabase.lettersDatabase) (by rw [helems]; decide +kernel)
  refine ⟨after, ?_⟩
  simp only [identifierCandidates, IdentifierCompleter.computeCandidates, hquery, hfiletype, bind, EStateM.bind,
    interrupting, inDatabase, hanswers, IdentifierCompleter.candidatesFrom_eq hoption]
  rfl

/-- A request for the identifiers while clangd starts. -/
theorem completions_answered_letters :
    ∃ body db', handleCompletions IdentifierDatabase.letterEnvironment asciiClasses .leading
        (.obj [("min_num_of_chars_for_completion", .int 0)]) (IdentifierCompleter.minimumChars 0)
        (letterRequest none) .notInitialised IdentifierDatabase.lettersDatabase = .ok body db' ∧
      fromJson body = .ok ({ completions := [{ insertionText := "Aa", extraMenuInfo := some "[ID]" }]
                             completionStartColumn := 1 } : Api.CompletionsResponse) ∧
      Answers IdentifierDatabase.letterEnvironment asciiClasses .leading
        (.obj [("min_num_of_chars_for_completion", .int 0)]) (IdentifierCompleter.minimumChars 0)
        (letterRequest none) .notInitialised IdentifierDatabase.lettersDatabase body := by
  obtain ⟨after, hcandidates⟩ := identifierCandidates_letters
  have hstart : RequestWrapper.startColumn .leading asciiClasses (letterRequest none).toSimpleRequest = .ok 1 :=
    startColumn_letter
  have hsemantic : computeCandidatesSemantic (letterRequest none).toSimpleRequest .notInitialised = .ok [] := by
    have hkind : completerForRequest (letterRequest none).toSimpleRequest = .ok .clangd := by
      simp only [completerForRequest, firstFiletype_of_file cursorAt_letter.file_eq, letterRequest]
      rfl
    simp only [computeCandidatesSemantic, hkind]
    rfl
  have hrun : handleCompletions IdentifierDatabase.letterEnvironment asciiClasses .leading
      (.obj [("min_num_of_chars_for_completion", .int 0)]) (IdentifierCompleter.minimumChars 0)
      (letterRequest none) .notInitialised IdentifierDatabase.lettersDatabase =
        .ok (toJson ({ completions := [{ insertionText := "Aa", extraMenuInfo := some "[ID]" }]
                       completionStartColumn := 1 } : Api.CompletionsResponse)) after := by
    have hforce : forceSemantic (letterRequest none) = .ok false := rfl
    have hidentifiers : identifierCandidates IdentifierDatabase.letterEnvironment asciiClasses .leading
        (IdentifierCompleter.minimumChars 0) (letterRequest none).toSimpleRequest IdentifierDatabase.lettersDatabase =
        .ok [{ insertionText := "Aa", extraMenuInfo := some "[ID]" }] after := hcandidates
    have hlong : Json.natLt 1 (.int 0) = false := rfl
    simp only [handleCompletions, hforce, queryGate_letter, hlong, hsemantic, hstart, Bool.not_false, Bool.not_true,
      Bool.false_eq_true, if_false, List.isEmpty_nil, Bool.and_self, if_true, bind, EStateM.bind, interrupting,
      hidentifiers]
    rfl
  refine ⟨_, _, hrun, Api.CompletionsResponse.fromJson_toJson _,
    (completions_answered_iff _ _ _ _ _ _ _ _ _ _ hrun).1.mpr ⟨?_, ?_, ?_⟩⟩
  · rw [← queryGate_short (queryGate_letter 0)]
    decide
  · intro startColumn hstart'
    obtain rfl := Except.ok.inj (hstart.symm.trans hstart')
    decide
  · intro _ responseMessage hanswered
    cases hanswered

/-- A request whose query is too short is answered with an array, which is no response. -/
theorem short_query_not_decoded :
    handleCompletions IdentifierDatabase.letterEnvironment asciiClasses .leading
        (.obj [("min_num_of_chars_for_completion", .int 2)]) (.obj []) (letterRequest none) .notInitialised .empty =
      .ok (.arr []) .empty ∧
    ¬ Answers IdentifierDatabase.letterEnvironment asciiClasses .leading
        (.obj [("min_num_of_chars_for_completion", .int 2)]) (.obj []) (letterRequest none) .notInitialised .empty
        (.arr []) := by
  refine ⟨?_, ?_⟩
  · simp only [handleCompletions, queryGate_letter, bind, EStateM.bind]
    rfl
  · rintro ⟨response, column, hdecoded, -⟩
    obtain ⟨e, he⟩ := empty_array_not_decoded
    rw [he] at hdecoded
    cases hdecoded

end Ycmd.Completions
