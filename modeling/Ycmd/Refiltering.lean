import Ycmd.CompletionsAnswer
import Ycmd.Core.Narrowing
import Ycmd.EventHistories
import Ycmd.FilterComposition

/-! The candidates a client was given, filtered again for a narrower query, against those that it would be
given for that query. -/
namespace Ycmd
open Lib Ycmd.Core Ycmd.Core.IdentifierDatabase
open General.IdentifierCompleter (longEnough computeCandidates_ok)

variable {env : Core.Environment} {key : String}

/-- The text of an object under the key. -/
def HasText (key : String) (text : Bytes) (object : Json) : Prop :=
  ∃ s : String, object.find? key = some (.str s) ∧ utf8 s.toList = text

theorem HasText.functional {text text' : Bytes} {object : Json} (h : HasText key text object)
    (h' : HasText key text' object) : text = text' := by
  obtain ⟨s, hfind, rfl⟩ := h
  obtain ⟨s', hfind', rfl⟩ := h'
  obtain rfl : s = s' := by simpa [hfind] using hfind'
  rfl

/-- An object of a text that is not long passes when its text answers the query. -/
theorem HasText.passes_iff {text : Bytes} {object : Json} (h : HasText key text object) (hlength : text.length ≤ 80)
    {query : Bytes} {word : Word} (hword : Word.of env query = .ok word) :
    Passes env key word object ↔ Answers env query text := by
  rw [answers_iff hword]
  constructor
  · rintro ⟨s, hfind, hne, -, candidate, hof, hcontains, hsubsequence⟩
    obtain rfl := h.functional ⟨s, hfind, rfl⟩
    refine ⟨candidate, hof, ?_, hcontains, (Candidate.queryMatchResult_isSome candidate word).mpr hsubsequence⟩
    rw [Bool.eq_false_iff, Ne, (Candidate.of_ok hof).2, utf8_eq_nil, String.toList_eq_nil_iff]
    exact hne
  · rintro ⟨candidate, hof, hne, hcontains, hsome⟩
    obtain ⟨s, hfind, rfl⟩ := h
    refine ⟨s, hfind, ?_, hlength, candidate, hof, hcontains,
      (Candidate.queryMatchResult_isSome candidate word).mp hsome⟩
    rintro rfl
    rw [(Candidate.of_ok hof).2.mpr (utf8_eq_nil.mpr rfl)] at hne
    cases hne

/-- How an object of a text that is not long ranks, when it passes. -/
theorem HasText.gives {text : Bytes} {object : Json} (h : HasText key text object) {query : Word} {result : Core.Result}
    (hranks : RanksAs env key query object result) (hpasses : Passes env key query object) :
    Gives env query text result := by
  obtain ⟨s, hfind, candidate, hof, hmatch⟩ := hranks
  obtain ⟨s', hfind', hne, -, candidate', hof', hcontains, -⟩ := hpasses
  obtain rfl : s = s' := by simpa [hfind] using hfind'
  obtain rfl := Except.ok.inj (hof.symm.trans hof')
  obtain rfl := h.functional ⟨s, hfind, rfl⟩
  refine ⟨candidate, hof, ?_⟩
  have hnonempty : candidate.isEmpty = false := by
    rw [Bool.eq_false_iff, Ne, (Candidate.of_ok hof).2, utf8_eq_nil, String.toList_eq_nil_iff]
    exact hne
  rw [Candidate.matchFor, hnonempty, hcontains]
  exact hmatch

section Filtered
variable {objects filtered : List Json} {query : Bytes} {word : Word} {ranked : List (ResultAnd Nat)} {texts : List Bytes}

/-- What is ranked is the result of one of the texts. -/
theorem FilteredAndSorted.gives (h : FilteredAndSorted env objects key word ranked filtered)
    (htexts : List.Forall₂ (HasText key) texts objects) {r : ResultAnd Nat} (hr : r ∈ ranked) :
    ∃ object, objects[r.extraObject]? = some object ∧ texts[r.extraObject]? = some r.result.text ∧
      HasText key r.result.text object ∧ Gives env word r.result.text r.result := by
  obtain ⟨object, hobject⟩ : ∃ object, objects[r.extraObject]? = some object := by
    obtain ⟨i, hi, rfl⟩ := List.getElem_of_mem hr
    exact ⟨_, h.unchanged.get hi (h.unchanged.length_eq ▸ hi)⟩
  obtain ⟨hi, rfl⟩ := List.getElem?_eq_some_iff.mp hobject
  have hi' : r.extraObject < texts.length := htexts.length_eq ▸ hi
  have htext : HasText key texts[r.extraObject] objects[r.extraObject] := htexts.get hi' hi
  have hpasses := (h.passes _ _ hobject).mp (List.mem_map_of_mem hr)
  have hgives := htext.gives (h.ranks r hr _ hobject) hpasses
  rw [← hgives.text_eq] at htext
  refine ⟨_, hobject, ?_, htext, hgives.text_eq.symm ▸ hgives⟩
  rw [List.getElem?_eq_getElem hi', hgives.text_eq]

/-- The objects of some texts, filtered and sorted for a query, are those of the texts that answer it, in the
order of their ranks. -/
theorem FilteredAndSorted.answered (h : FilteredAndSorted env objects key word ranked filtered)
    (hword : Word.of env query = .ok word) (hnodup : texts.Nodup) (hlength : ∀ text ∈ texts, text.length ≤ 80)
    (htexts : List.Forall₂ (HasText key) texts objects) :
    ∃ again, List.Forall₂ (HasText key) again filtered ∧ Answered env query {text | text ∈ texts} again := by
  refine ⟨(ranked.map ResultAnd.result).map Core.Result.text, ?_, answered_of_sorted hword ?_ ?_ ?_⟩
  · rw [List.map_map, List.forall₂_map_left_iff, List.forall₂_iff_get]
    refine ⟨h.unchanged.length_eq, fun i hi hi' => ?_⟩
    obtain ⟨object, hobject, -, htext, -⟩ := h.gives htexts (List.get_mem ranked ⟨i, hi⟩)
    obtain rfl := Option.some.inj (hobject.symm.trans (h.unchanged.get hi hi'))
    exact htext
  · refine h.once.of_map.map_on ?_
    intro r hr r' hr' heq
    obtain ⟨-, -, hget, -⟩ := h.gives htexts hr
    obtain ⟨-, -, hget', -⟩ := h.gives htexts hr'
    rw [← heq, ← hget] at hget'
    have hi := (List.getElem?_eq_some_iff.mp hget).1
    have hposition := (List.getElem?_inj hi hnodup).mp hget'.symm
    calc r = ⟨r.extraObject, r.result⟩ := rfl
      _ = r' := by rw [hposition, heq]
  · exact List.pairwise_map.mpr h.sorted
  · intro result
    rw [List.mem_map]
    constructor
    · rintro ⟨r, hr, rfl⟩
      obtain ⟨-, -, hget, -, hgives⟩ := h.gives htexts hr
      exact ⟨_, List.mem_of_getElem? hget, hgives⟩
    · rintro ⟨text, htext, hgives⟩
      obtain ⟨i, hi, rfl⟩ := List.getElem_of_mem htext
      have hi' : i < objects.length := htexts.length_eq ▸ hi
      have hpasses : Passes env key word objects[i] :=
        ((htexts.get hi hi').passes_iff (hlength _ (List.getElem_mem hi)) hword).mpr ⟨word, hword, result, hgives⟩
      obtain ⟨r, hr, rfl⟩ := List.mem_map.mp ((h.passes i _ (List.getElem?_eq_getElem hi')).mpr hpasses)
      obtain ⟨-, -, hget, -, hgives'⟩ := h.gives htexts hr
      rw [List.getElem?_eq_getElem hi, Option.some.injEq] at hget
      rw [hget] at hgives
      exact ⟨r, hr, hgives'.functional hgives⟩

end Filtered

section Completer
variable {classes : CharacterClasses} {text : TextLibrary} {userOptions : Json} {requestWrap : SimpleRequest}
  {db db' : IdentifierDatabase}

/-- The candidate that is made of an identifier. -/
def candidateOf (t : Bytes) : Api.Candidate :=
  { insertionText := String.ofList ((decodeUtf8 t).getD []), extraMenuInfo := some "[ID]" }

theorem identifierCandidate_ok {t : Bytes} {candidate : Api.Candidate}
    (h : Completions.identifierCandidate ⟨t, "[ID]"⟩ = .ok candidate) :
    candidate = candidateOf t ∧ utf8 (candidateOf t).insertionText.toList = t := by
  unfold Completions.identifierCandidate at h
  split at h
  · rename_i decoded hdecoded
    have hdecoded : decodeUtf8 t = some decoded := hdecoded
    have htext : (candidateOf t).insertionText = String.ofList decoded := by
      simp only [candidateOf, hdecoded, Option.getD_some]
    refine ⟨?_, ?_⟩
    · rw [← Except.ok.inj h, ← htext]
      rfl
    · rw [htext, String.toList_ofList]
      exact utf8_of_decodeUtf8 hdecoded
  · cases h

theorem mapM_identifierCandidate_ok {texts : List Bytes} {candidates : List Api.Candidate}
    (h : (texts.map (fun t => (⟨t, "[ID]"⟩ : General.Completion))).mapM Completions.identifierCandidate =
      .ok candidates) :
    candidates = texts.map candidateOf ∧ ∀ t ∈ texts, utf8 (candidateOf t).insertionText.toList = t := by
  have hmap := mapM_ok_iff.mp h
  rw [List.forall₂_map_left_iff] at hmap
  induction hmap with
  | nil => exact ⟨rfl, List.forall_mem_nil _⟩
  | @cons t candidate texts candidates hcandidate hrest ih =>
    obtain ⟨rfl, htext⟩ := identifierCandidate_ok hcandidate
    obtain ⟨rfl, htexts⟩ := ih (mapM_ok_iff.mpr (List.forall₂_map_left_iff.mpr hrest))
    exact ⟨rfl, List.forall_mem_cons.mpr ⟨htext, htexts⟩⟩

/-- The candidates of the general completer are made of the answers of its database, those that are long
enough. -/
theorem identifierCandidates_ok {candidates : List Api.Candidate}
    (h : Completions.identifierCandidates env classes text userOptions requestWrap db = .ok candidates db')
    {query : View UInt8} (hquery : RequestWrapper.queryBytes text classes requestWrap = .ok query) {filetype : String}
    (hfiletype : firstFiletype requestWrap = .ok filetype) :
    ∃ answers, Core.IdentifierCompleter.candidatesForQueryAndType env query.elems (utf8 filetype.toList) 0 db =
        .ok answers db' ∧
      candidates = (answers.filter (longEnough userOptions)).map candidateOf ∧
      ∀ t ∈ answers.filter (longEnough userOptions), utf8 (candidateOf t).insertionText.toList = t := by
  obtain ⟨completions, db₁, hcompletions, h⟩ := run_bind_ok h
  obtain ⟨hmap, rfl⟩ := Completions.interrupting_ok h
  obtain ⟨answers, hanswers, rfl⟩ := computeCandidates_ok hcompletions hquery hfiletype
  obtain ⟨hcandidates, htexts⟩ := mapM_identifierCandidate_ok hmap
  exact ⟨answers, hanswers, hcandidates, htexts⟩

/-- Answers in UTF-8 are given as candidates. -/
theorem identifierCandidates_of_answers {query : View UInt8}
    (hquery : RequestWrapper.queryBytes text classes requestWrap = .ok query) {filetype : String}
    (hfiletype : firstFiletype requestWrap = .ok filetype) {n : Int}
    (hoption : General.option userOptions "min_num_identifier_candidate_chars" = .ok (.int n)) {answers : List Bytes}
    (hutf8 : ∀ t ∈ answers, ∃ decoded, t = utf8 decoded)
    (hanswers : Core.IdentifierCompleter.candidatesForQueryAndType env query.elems (utf8 filetype.toList) 0 db =
      .ok answers db') :
    ∃ candidates, Completions.identifierCandidates env classes text userOptions requestWrap db = .ok candidates db' := by
  have hmap : (((answers.filter (fun t => n < (t.length : Int))).map
      (fun t => (⟨t, "[ID]"⟩ : General.Completion))).mapM Completions.identifierCandidate).isOk = true := by
    rw [mapM_isOk, List.all_eq_true]
    intro completion hcompletion
    obtain ⟨t, ht, rfl⟩ := List.mem_map.mp hcompletion
    obtain ⟨decoded, rfl⟩ := hutf8 t (List.mem_of_mem_filter ht)
    simp only [Completions.identifierCandidate, decodeUtf8_utf8]
    rfl
  cases hcandidates : ((answers.filter (fun t => n < (t.length : Int))).map
      (fun t => (⟨t, "[ID]"⟩ : General.Completion))).mapM Completions.identifierCandidate with
  | error interrupt => simp [hcandidates] at hmap
  | ok candidates =>
    refine ⟨candidates, ?_⟩
    simp only [Completions.identifierCandidates, General.IdentifierCompleter.computeCandidates, hquery, hfiletype, bind,
      EStateM.bind, General.interrupting, General.inDatabase, hanswers,
      General.IdentifierCompleter.candidatesFrom_eq hoption, hcandidates]

end Completer

theorem find?_insertionText (candidate : Api.Candidate) :
    (toJson candidate).find? "insertion_text" = some (.str candidate.insertionText) := by
  have hholds := holds_writeFields (List.cons_ne_nil _ _) Api.Candidate.fields_nodup candidate
  exact hholds.find? _ (List.mem_map_of_mem (List.mem_cons_self (l := Api.Candidate.fields.tail)))

/-- The objects of candidates that are made of identifiers. -/
theorem hasText_candidateOf {t : Bytes} (h : utf8 (candidateOf t).insertionText.toList = t) :
    HasText "insertion_text" t (toJson (candidateOf t)) :=
  ⟨_, find?_insertionText (candidateOf t), h⟩

/-- Objects that are made of their texts are determined by them. -/
theorem eq_map_of_made {texts : List Bytes} {filtered : List Json}
    (htexts : List.Forall₂ (HasText "insertion_text") texts filtered)
    (hmade : ∀ object ∈ filtered, ∃ t, object = toJson (candidateOf t) ∧ HasText "insertion_text" t object) :
    filtered = texts.map (toJson ∘ candidateOf) := by
  induction htexts with
  | nil => rfl
  | cons htext _ ih =>
    rw [List.forall_mem_cons] at hmade
    obtain ⟨t, rfl, ht⟩ := hmade.1
    rw [List.map_cons, ← ih hmade.2, htext.functional ht]
    rfl

/-- What is stored is not long. -/
theorem length_of_stored {db : IdentifierDatabase} (h : Built env db) {filetype text : Bytes}
    (htext : text ∈ stored db filetype) : text.length ≤ 80 := by
  obtain ⟨filepath, candidate, hmem, rfl⟩ := htext
  exact (h.1 filetype filepath candidate hmem).2

/-- A client that filters the candidates of a query for a narrower one gets those it would get by asking again,
as long as the same identifiers are stored: each once and as it was, in an order that differs in ties only. -/
theorem refiltered_candidates_agree (env : Core.Environment) (classes : CharacterClasses) (text : TextLibrary)
    (userOptions : Json) {db db' db'' : IdentifierDatabase} (h : ProcessReachable env db)
    (h' : ProcessReachable env db') (h'' : ProcessReachable env db'') {requestWrap requestWrap' : SimpleRequest}
    {query query' : View UInt8} (hquery : RequestWrapper.queryBytes text classes requestWrap = .ok query)
    (hquery' : RequestWrapper.queryBytes text classes requestWrap' = .ok query') {filetype : String}
    (hfiletype : firstFiletype requestWrap = .ok filetype) (hfiletype' : firstFiletype requestWrap' = .ok filetype)
    (hstored : stored db' (utf8 filetype.toList) = stored db (utf8 filetype.toList))
    {narrower : String} (hnarrower : query'.elems = utf8 narrower.toList) {word word' : Word}
    (hword : Word.of env query.elems = .ok word) (hword' : Word.of env query'.elems = .ok word')
    (hnarrows : word.Narrows word') {candidates candidates' : List Api.Candidate} {after after' : IdentifierDatabase}
    (hrun : Completions.identifierCandidates env classes text userOptions requestWrap db = .ok candidates after)
    (hrun' : Completions.identifierCandidates env classes text userOptions requestWrap' db' =
      .ok candidates' after') :
    ∃ handler refiltered caches,
      handleFilterAndSortCandidates env ⟨candidates.map toJson, some "insertion_text", narrower⟩ = .ok handler ∧
      handler db''.2 = .ok (refiltered.map toJson) caches ∧ refiltered.Perm candidates' ∧
      List.Forall₂ (fun c c' => Tied env query'.elems (utf8 c.insertionText.toList) (utf8 c'.insertionText.toList))
        refiltered candidates' := by
  obtain ⟨answers, hanswers, rfl, htexts⟩ := identifierCandidates_ok hrun hquery hfiletype
  obtain ⟨answers', hanswers', rfl, htexts'⟩ := identifierCandidates_ok hrun' hquery' hfiletype'
  have hanswered := (answered_of_ok h.built hanswers).filter (longEnough userOptions)
  have hanswered' := (answered_of_ok h'.built hanswers').filter (longEnough userOptions)
  rw [hstored] at hanswered'
  -- every candidate has its identifier for a text
  have hobjects : List.Forall₂ (HasText "insertion_text") (answers.filter (longEnough userOptions))
      (((answers.filter (longEnough userOptions)).map candidateOf).map toJson) := by
    rw [List.map_map, List.forall₂_map_right_iff, List.forall₂_same]
    intro t ht
    exact hasText_candidateOf (htexts t ht)
  have hlength : ∀ t ∈ answers.filter (longEnough userOptions), t.length ≤ 80 := by
    intro t ht
    exact length_of_stored h.built ((hanswered.mem t).mp ht).1.1
  have hfind : ∀ object ∈ ((answers.filter (longEnough userOptions)).map candidateOf).map toJson,
      ∃ s, object.find? "insertion_text" = some (.str s) := by
    intro object hobject
    obtain ⟨candidate, -, rfl⟩ := List.mem_map.mp hobject
    exact ⟨_, find?_insertionText candidate⟩
  obtain ⟨handler, ranked, filtered, caches, hhandler, hfiltered, hsorted⟩ :=
    exists_filtered h''.built.2 hfind (hnarrower ▸ hword')
  obtain ⟨again, hagain, hansweredAgain⟩ := hsorted.answered hword' hanswered.nodup hlength hobjects
  obtain ⟨hperm, htied⟩ := (hanswered.of_narrower hword hword' hnarrows hansweredAgain).tied hanswered'
  refine ⟨handler, again.map candidateOf, caches, hhandler, ?_, hperm.map candidateOf, ?_⟩
  · have hmade : ∀ object ∈ filtered, ∃ t, object = toJson (candidateOf t) ∧ HasText "insertion_text" t object := by
      intro object hobject
      obtain ⟨candidate, hcandidate, rfl⟩ := List.mem_map.mp (hsorted.subset hobject)
      obtain ⟨t, ht, rfl⟩ := List.mem_map.mp hcandidate
      exact ⟨t, rfl, hasText_candidateOf (htexts t ht)⟩
    rw [hfiltered, List.map_map, ← eq_map_of_made hagain hmade]
  · have hself : ∀ t ∈ again, utf8 (candidateOf t).insertionText.toList = t :=
      fun t ht => htexts t ((hansweredAgain.mem t).mp ht).1
    have htexts'' : List.Forall₂ (Tied env query'.elems)
        (again.map (fun t => utf8 (candidateOf t).insertionText.toList))
        ((answers'.filter (longEnough userOptions)).map (fun t => utf8 (candidateOf t).insertionText.toList)) := by
      rw [List.map_congr_left hself, List.map_congr_left htexts', List.map_id', List.map_id']
      exact htied
    rw [List.forall₂_map_left_iff, List.forall₂_map_right_iff] at htexts'' ⊢
    exact htexts''

theorem lettersDatabase_processReachable : ProcessReachable letterEnvironment lettersDatabase := .perform .empty _

/-- The query is the whole of a file that holds one identifier. -/
theorem queryBytes_letters :
    ∃ query, RequestWrapper.queryBytes .leading asciiClasses (RequestWrapper.requestIn "Aa" 3) = .ok query ∧
      query.elems = ascii "Aa" := by
  have hcursor : RequestWrapper.CursorAt (RequestWrapper.requestIn "Aa" 3) ⟨["cpp"], "Aa"⟩ "Aa".toList [] :=
    RequestWrapper.cursorAt_requestIn "Aa" "Aa".toList [] (by decide) (by decide) (by decide)
  obtain ⟨c, rest, hcons, hstart⟩ := hcursor.startColumn_eq .leading asciiClasses (by decide)
  obtain ⟨rfl, -⟩ := List.cons.inj hcons
  exact hcursor.queryBytes_eq hstart

theorem refiltered_candidates_agree_letters :
    ∃ (candidates candidates' refiltered : List Api.Candidate) (after after' : _) (handler : _) (caches : _),
      Completions.identifierCandidates letterEnvironment asciiClasses .leading
        (General.IdentifierCompleter.minimumChars 0) (RequestWrapper.requestIn "A" 2) lettersDatabase =
          .ok candidates after ∧
      Completions.identifierCandidates letterEnvironment asciiClasses .leading
        (General.IdentifierCompleter.minimumChars 0) (RequestWrapper.requestIn "Aa" 3) lettersDatabase =
          .ok candidates' after' ∧
      handleFilterAndSortCandidates letterEnvironment ⟨candidates.map toJson, some "insertion_text", "Aa"⟩ =
        .ok handler ∧
      handler lettersDatabase.2 = .ok (refiltered.map toJson) caches ∧ refiltered.Perm candidates' := by
  obtain ⟨query, hquery, helems⟩ := General.IdentifierCompleter.queryBytes_letter
  obtain ⟨query', hquery', helems'⟩ := queryBytes_letters
  have hfiletype : firstFiletype (RequestWrapper.requestIn "A" 2) = .ok "cpp" := by
    simp [firstFiletype, RequestWrapper.requestIn, Clangd.oneFile]
  have hfiletype' : firstFiletype (RequestWrapper.requestIn "Aa" 3) = .ok "cpp" := by
    simp [firstFiletype, RequestWrapper.requestIn, Clangd.oneFile]
  have hutf8 : ∀ t ∈ [ascii "Aa"], ∃ decoded, t = utf8 decoded := by
    simp only [List.mem_singleton, forall_eq]
    exact ⟨"Aa".toList, by decide⟩
  obtain ⟨after, hanswers⟩ := exists_run_of_outcome (a := [ascii "Aa"])
    (m := Core.IdentifierCompleter.candidatesForQueryAndType letterEnvironment query.elems (ascii "cpp") 0)
    (s := lettersDatabase) (by rw [helems]; decide +kernel)
  obtain ⟨after', hanswers'⟩ := exists_run_of_outcome (a := [ascii "Aa"])
    (m := Core.IdentifierCompleter.candidatesForQueryAndType letterEnvironment query'.elems (ascii "cpp") 0)
    (s := lettersDatabase) (by rw [helems']; decide +kernel)
  have hoption : General.option (General.IdentifierCompleter.minimumChars 0) "min_num_identifier_candidate_chars" =
    .ok (.int (0 : Nat)) := rfl
  obtain ⟨candidates, hrun⟩ := identifierCandidates_of_answers hquery hfiletype hoption hutf8 hanswers
  obtain ⟨candidates', hrun'⟩ := identifierCandidates_of_answers hquery' hfiletype' hoption hutf8 hanswers'
  have hwords : (do
      let word ← Word.of letterEnvironment (ascii "A")
      let word' ← Word.of letterEnvironment (ascii "Aa")
      return word.characters.isSublist word'.characters) = Except.ok true := by
    decide +kernel
  obtain ⟨word, hword, hwords⟩ := bind_ok hwords
  obtain ⟨word', hword', hwords⟩ := bind_ok hwords
  have hnarrows : word.Narrows word' := List.isSublist_iff_sublist.mp (Except.ok.inj hwords)
  rw [← helems] at hword
  rw [← helems'] at hword'
  obtain ⟨handler, refiltered, caches, hhandler, hfiltered, hperm, -⟩ :=
    refiltered_candidates_agree letterEnvironment asciiClasses .leading (General.IdentifierCompleter.minimumChars 0)
      lettersDatabase_processReachable lettersDatabase_processReachable lettersDatabase_processReachable hquery hquery'
      hfiletype hfiletype' rfl (show query'.elems = utf8 "Aa".toList from helems') hword hword' hnarrows hrun hrun'
  exact ⟨candidates, candidates', refiltered, after, after', handler, caches, hrun, hrun', hhandler, hfiltered, hperm⟩

end Ycmd
