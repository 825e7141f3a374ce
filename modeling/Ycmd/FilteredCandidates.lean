import Ycmd.FilterAndSort

/-! What `handle_filter_and_sort_candidates` returns: which of the objects of a request, and in which order. -/
namespace Ycmd
open Lib Ycmd.Core
variable (env : Core.Environment)

/-- The database of a process and its repositories, which the handler goes through as well. -/
inductive ProcessReachable : IdentifierDatabase → Prop where
  | empty : ProcessReachable .empty
  | perform {db : IdentifierDatabase} (h : ProcessReachable db) (op : Operation) :
    ProcessReachable (stateAfter (op.perform env) db)
  | filterAndSort {db : IdentifierDatabase} (h : ProcessReachable db) (req : FilterAndSortCandidatesRequest)
    {handler : EStateM Failure CandidateCache (List Json)}
    (hhandler : handleFilterAndSortCandidates env req = .ok handler) :
    ProcessReachable (db.1, stateAfter handler db.2)

/-- The object has a text under the key, not an empty or a long one, that the query is found in. -/
def Passes (key : String) (query : Word) (object : Json) : Prop :=
  ∃ text : String, object.find? key = some (.str text) ∧ text ≠ "" ∧ (utf8 text.toList).length ≤ 80 ∧
    ∃ candidate, Candidate.of env (utf8 text.toList) = .ok candidate ∧ candidate.containsBytes query = true ∧
      candidate.HasSubsequence query

/-- How the object's text ranks. -/
def RanksAs (key : String) (query : Word) (object : Json) (result : Core.Result) : Prop :=
  ∃ text : String, object.find? key = some (.str text) ∧
    ∃ candidate, Candidate.of env (utf8 text.toList) = .ok candidate ∧ candidate.queryMatchResult query = some result

/-- Objects as they were received, from positions taken once each: those that pass, no better one after a
worse. -/
structure FilteredAndSorted (objects : List Json) (key : String) (query : Word) (ranked : List (ResultAnd Nat))
    (filtered : List Json) : Prop where
  unchanged : List.Forall₂ (fun r object => objects[r.extraObject]? = some object) ranked filtered
  once : (ranked.map ResultAnd.extraObject).Nodup
  passes : ∀ i object, objects[i]? = some object →
    (i ∈ ranked.map ResultAnd.extraObject ↔ Passes env key query object)
  ranks : ∀ r ∈ ranked, ∀ object, objects[r.extraObject]? = some object → RanksAs env key query object r.result
  sorted : ranked.Pairwise (fun r r' => r'.result.less r.result = false)

variable {env} {key : String} {query : Word}

theorem ProcessReachable.built {db : IdentifierDatabase} (h : ProcessReachable env db) :
    IdentifierDatabase.Built env db := by
  induction h with
  | empty => exact IdentifierDatabase.Reachable.empty.built
  | perform _ op ih => exact (IdentifierDatabase.keeps_perform op).stateAfter ih
  | @filterAndSort db _ req handler hhandler ih =>
    refine ⟨ih.1, ?_⟩
    obtain ⟨strings, rfl⟩ : ∃ strings, Ycmd.filterAndSort env matchingObjects req strings = handler := by
      unfold handleFilterAndSortCandidates at hhandler
      cases hstrings : req.candidates.mapM (sortString req.sortProperty) with
      | error interrupt => simp [hstrings, Except.map] at hhandler
      | ok strings => exact ⟨strings, by simpa [hstrings, Except.map] using hhandler⟩
    refine Keeps.stateAfter (Q := fun _ => True) ?_ ih.2
    apply (computes_getElements strings).keeps.bind
    intro candidates _
    apply ((computes_makeWord (utf8 req.query.toList)).below (J := Memo.Sound (Candidate.of env))).keeps.bind
    exact fun _ _ => Keeps.pure trivial

theorem matchingObjects_eq_matchFor (query : Word) (candidates : List Candidate) :
    matchingObjects query candidates = candidates.zipIdx.filterMap
      (fun c => (c.1.matchFor query).map (fun result => ⟨c.2, result⟩)) := by
  apply List.filterMap_congr
  intro c _
  unfold Candidate.matchFor
  cases c.1.isEmpty || !c.1.containsBytes query <;> rfl

theorem mem_matchingObjects_iff {candidates : List Candidate} {r : ResultAnd Nat} :
    r ∈ matchingObjects query candidates ↔
      ∃ candidate, candidates[r.extraObject]? = some candidate ∧ candidate.matchFor query = some r.result := by
  rw [matchingObjects_eq_matchFor, List.mem_filterMap]
  constructor
  · rintro ⟨⟨candidate, i⟩, hmem, hmatch⟩
    obtain ⟨result, hresult, rfl⟩ := Option.map_eq_some_iff.mp hmatch
    exact ⟨candidate, List.mem_zipIdx_iff_getElem?.mp hmem, hresult⟩
  · rintro ⟨candidate, hget, hmatch⟩
    exact ⟨(candidate, r.extraObject), List.mem_zipIdx_iff_getElem?.mpr hget, by rw [hmatch]; rfl⟩

/-- No position is matched twice. -/
theorem nodup_matchingObjects (query : Word) (candidates : List Candidate) :
    ((matchingObjects query candidates).map ResultAnd.extraObject).Nodup := by
  have hpositions : (candidates.zipIdx.map Prod.snd).Nodup := List.nodup_zipIdx_map_snd candidates
  rw [List.nodup_iff_pairwise_ne, List.pairwise_map] at hpositions ⊢
  rw [matchingObjects_eq_matchFor]
  apply hpositions.filterMap _
  intro c c' hne r hr r' hr'
  obtain ⟨result, -, rfl⟩ := Option.map_eq_some_iff.mp hr
  obtain ⟨result', -, rfl⟩ := Option.map_eq_some_iff.mp hr'
  exact hne

theorem Candidate.matchFor_isSome_iff (candidate : Candidate) (query : Word) :
    (candidate.matchFor query).isSome = true ↔
      candidate.isEmpty = false ∧ candidate.containsBytes query = true ∧ candidate.HasSubsequence query := by
  unfold Candidate.matchFor
  rw [← Candidate.queryMatchResult_isSome]
  cases candidate.isEmpty <;> cases candidate.containsBytes query <;> simp

/-- What the repository gives for an object: the candidate of its text, or the empty one for a long text. -/
def HasCandidate (env : Core.Environment) (key : String) (object : Json) (candidate : Candidate) : Prop :=
  ∃ text : String, object.find? key = some (.str text) ∧
    Candidate.of env (shorten (utf8 text.toList)) = .ok candidate

/-- A candidate that is not empty is that of a text which is neither empty nor long. -/
theorem HasCandidate.nonempty {object : Json} {candidate : Candidate} (h : HasCandidate env key object candidate)
    (hne : candidate.isEmpty = false) :
    ∃ text : String, object.find? key = some (.str text) ∧ text ≠ "" ∧ (utf8 text.toList).length ≤ 80 ∧
      Candidate.of env (utf8 text.toList) = .ok candidate := by
  obtain ⟨text, hfind, hof⟩ := h
  have hnil : shorten (utf8 text.toList) ≠ [] := fun hnil => by
    simp [(Candidate.of_ok hof).2.mpr hnil] at hne
  unfold shorten at hof hnil
  split at hnil
  · exact absurd rfl hnil
  · rename_i hle
    rw [if_neg hle] at hof
    refine ⟨text, hfind, ?_, by omega, hof⟩
    rintro rfl
    exact hnil rfl

theorem HasCandidate.passes_iff {object : Json} {candidate : Candidate} (h : HasCandidate env key object candidate)
    (query : Word) : (candidate.matchFor query).isSome = true ↔ Passes env key query object := by
  rw [Candidate.matchFor_isSome_iff]
  constructor
  · rintro ⟨hne, hcontains, hsubsequence⟩
    obtain ⟨text, hfind, htext, hlength, hof⟩ := h.nonempty hne
    exact ⟨text, hfind, htext, hlength, candidate, hof, hcontains, hsubsequence⟩
  · rintro ⟨text, hfind, htext, hlength, candidate', hof, hcontains, hsubsequence⟩
    obtain ⟨text', hfind', hof'⟩ := h
    obtain rfl : text = text' := by simpa [hfind] using hfind'
    rw [shorten, if_neg (by omega), hof] at hof'
    obtain rfl := Except.ok.inj hof'
    refine ⟨?_, hcontains, hsubsequence⟩
    rw [Bool.eq_false_iff, Ne, (Candidate.of_ok hof).2, utf8_eq_nil, String.toList_eq_nil_iff]
    exact htext

theorem HasCandidate.ranksAs {object : Json} {candidate : Candidate} (h : HasCandidate env key object candidate)
    {result : Core.Result} (hmatch : candidate.matchFor query = some result) : RanksAs env key query object result := by
  have hsome : (candidate.matchFor query).isSome = true := by rw [hmatch]; rfl
  obtain ⟨text, hfind, -, -, hof⟩ := h.nonempty ((Candidate.matchFor_isSome_iff candidate query).mp hsome).1
  exact ⟨text, hfind, candidate, hof, Candidate.queryMatchResult_of_matchFor hmatch⟩

theorem exists_strings {objects : List Json} (h : ∀ object ∈ objects, ∃ text, object.find? key = some (.str text)) :
    ∃ strings, objects.mapM (sortString (some key)) = .ok strings ∧
      List.Forall₂ (fun object s => ∃ text : String, object.find? key = some (.str text) ∧ s = utf8 text.toList)
        objects strings := by
  induction objects with
  | nil => exact ⟨[], rfl, .nil⟩
  | cons object objects ih =>
    rw [List.forall_mem_cons] at h
    obtain ⟨text, hfind⟩ := h.1
    obtain ⟨strings, hstrings, hforall⟩ := ih h.2
    refine ⟨utf8 text.toList :: strings, ?_, .cons ⟨text, hfind, rfl⟩ hforall⟩
    have hobject : sortString (some key) object = .ok (utf8 text.toList) := by
      cases object with
      | obj members =>
        rw [Json.find?_obj] at hfind
        simp only [sortString, Option.bind_some, hfind]
        rfl
      | _ => cases hfind
    rw [List.mapM_cons, hobject, hstrings]
    rfl

/-- Every text is decoded, so every object has a candidate. -/
theorem exists_candidates (env : Core.Environment) {objects : List Json} {strings : List Bytes}
    (h : List.Forall₂ (fun object s => ∃ text : String, object.find? key = some (.str text) ∧ s = utf8 text.toList)
      objects strings) :
    ∃ candidates, (strings.map shorten).mapM (Candidate.of env) = .ok candidates ∧
      List.Forall₂ (HasCandidate env key) objects candidates := by
  induction h with
  | nil => exact ⟨[], rfl, .nil⟩
  | @cons object s objects strings hobject _ ih =>
    obtain ⟨text, hfind, rfl⟩ := hobject
    obtain ⟨candidates, hcandidates, hforall⟩ := ih
    have hof : (Candidate.of env (shorten (utf8 text.toList))).isOk = true :=
      (Candidate.of_isOk env _).mpr (IdentifierDatabase.decodable_shorten (decodable_utf8 _))
    cases hcandidate : Candidate.of env (shorten (utf8 text.toList)) with
    | error failure => simp [hcandidate] at hof
    | ok candidate =>
      refine ⟨candidate :: candidates, ?_, .cons ⟨text, hfind, hcandidate⟩ hforall⟩
      rw [List.map_cons, List.mapM_cons, hcandidate, hcandidates]
      rfl

theorem sortable_matchingObjects (query : Word) (candidates : List Candidate) :
    Sortable ResultAnd.less (matchingObjects query candidates) := by
  refine ResultAnd.sortable (fun r hr => (?_ : r.result.RankedFor query))
  obtain ⟨candidate, -, hmatch⟩ := mem_matchingObjects_iff.mp hr
  exact Candidate.queryMatchResult_ranked (Candidate.queryMatchResult_of_matchFor hmatch)

/-- The matches are sorted with their positions, so each still has the object it was made from. -/
theorem filteredAndSorted_partialSort {objects : List Json} {candidates : List Candidate}
    (h : List.Forall₂ (HasCandidate env key) objects candidates) (query : Word) :
    FilteredAndSorted env objects key query (partialSort env.std ResultAnd.less (matchingObjects query candidates) 0)
      ((partialSort env.std ResultAnd.less (matchingObjects query candidates) 0).map
        (fun r => objects.getD r.extraObject .null)) := by
  have hperm := partialSort_zero_perm env.std (sortable_matchingObjects query candidates)
  have hget {i : Nat} {object : Json} (hobject : objects[i]? = some object) :
      ∃ candidate, candidates[i]? = some candidate ∧ HasCandidate env key object candidate := by
    obtain ⟨hi, rfl⟩ := List.getElem?_eq_some_iff.mp hobject
    have hi' : i < candidates.length := h.length_eq ▸ hi
    exact ⟨candidates[i], List.getElem?_eq_getElem hi', h.get hi hi'⟩
  constructor
  case unchanged =>
    rw [List.forall₂_map_right_iff, List.forall₂_same]
    intro r hr
    obtain ⟨candidate, hcandidate, -⟩ := mem_matchingObjects_iff.mp (hperm.mem_iff.mp hr)
    have hi : r.extraObject < objects.length := by
      rw [h.length_eq]
      exact (List.getElem?_eq_some_iff.mp hcandidate).1
    rw [List.getD_eq_getElem?_getD, List.getElem?_eq_getElem hi, Option.getD_some]
  case once => exact ((hperm.map _).nodup_iff).mpr (nodup_matchingObjects query candidates)
  case passes =>
    intro i object hobject
    obtain ⟨candidate, hcandidate, hhas⟩ := hget hobject
    rw [← hhas.passes_iff, (hperm.map _).mem_iff, List.mem_map]
    constructor
    · rintro ⟨r, hr, rfl⟩
      obtain ⟨candidate', hcandidate', hmatch⟩ := mem_matchingObjects_iff.mp hr
      obtain rfl := Option.some.inj (hcandidate.symm.trans hcandidate')
      rw [hmatch]
      rfl
    · intro hsome
      obtain ⟨result, hresult⟩ := Option.isSome_iff_exists.mp hsome
      exact ⟨⟨i, result⟩, mem_matchingObjects_iff.mpr ⟨candidate, hcandidate, hresult⟩, rfl⟩
  case ranks =>
    intro r hr object hobject
    obtain ⟨candidate, hcandidate, hhas⟩ := hget hobject
    obtain ⟨candidate', hcandidate', hmatch⟩ := mem_matchingObjects_iff.mp (hperm.mem_iff.mp hr)
    obtain rfl := Option.some.inj (hcandidate.symm.trans hcandidate')
    exact hhas.ranksAs hmatch
  case sorted => exact partialSort_zero_sorted env.std (sortable_matchingObjects query candidates)

/-- The handler returns exactly the objects that pass, each as it was and in the order of their ranks. -/
theorem handleFilterAndSortCandidates_exact {db : IdentifierDatabase} (h : ProcessReachable env db)
    {req : FilterAndSortCandidatesRequest} (hkey : req.sortProperty = some key)
    (htexts : ∀ object ∈ req.candidates, ∃ text, object.find? key = some (.str text)) :
    ∃ handler word ranked filtered caches, handleFilterAndSortCandidates env req = .ok handler ∧
      Word.of env (utf8 req.query.toList) = .ok word ∧ handler db.2 = .ok filtered caches ∧
      FilteredAndSorted env req.candidates key word ranked filtered := by
  obtain ⟨strings, hstrings, hforall⟩ := exists_strings htexts
  obtain ⟨candidates, hcandidates, hforall⟩ := exists_candidates env hforall
  obtain ⟨word, hword⟩ := Word.exists_of env (decodable_utf8 req.query.toList)
  obtain ⟨caches', helements, hs'⟩ := (computes_getElements strings).ok h.built.2 hcandidates
  obtain ⟨caches'', hmakeWord, -⟩ :=
    ((computes_makeWord (utf8 req.query.toList)).below (J := Memo.Sound (Candidate.of env))).ok hs' hword
  have hhandler : handleFilterAndSortCandidates env req = .ok (filterAndSort env matchingObjects req strings) := by
    rw [handleFilterAndSortCandidates, hkey, hstrings]
    rfl
  have hrun : filterAndSort env matchingObjects req strings db.2 =
      .ok ((partialSort env.std ResultAnd.less (matchingObjects word candidates) 0).map
        (fun r => req.candidates.getD r.extraObject .null)) caches'' := by
    simp only [filterAndSort, bind, EStateM.bind, helements, hmakeWord]
    rfl
  exact ⟨_, word, _, _, caches'', hhandler, hword, hrun, filteredAndSorted_partialSort hforall word⟩

/-- The same object twice, and one with an empty text. -/
theorem handleFilterAndSortCandidates_exact_twice :
    let foo := Json.obj [("text", .str "foo")]
    let empty := Json.obj [("text", .str "")]
    ∃ handler word ranked filtered caches,
      handleFilterAndSortCandidates IdentifierDatabase.letterEnvironment ⟨[foo, empty, foo], some "text", "f"⟩ =
        .ok handler ∧
      Word.of IdentifierDatabase.letterEnvironment (utf8 "f".toList) = .ok word ∧
      handler IdentifierDatabase.empty.2 = .ok filtered caches ∧
      FilteredAndSorted IdentifierDatabase.letterEnvironment [foo, empty, foo] "text" word ranked filtered := by
  intro foo empty
  have hempty : ProcessReachable IdentifierDatabase.letterEnvironment .empty := .empty
  apply handleFilterAndSortCandidates_exact hempty rfl
  simp only [List.forall_mem_cons]
  exact ⟨⟨_, rfl⟩, ⟨_, rfl⟩, ⟨_, rfl⟩, by simp⟩

end Ycmd
