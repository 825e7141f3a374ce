import Ycmd.Core.AnswerHistory
import Ycmd.Lib.Lockstep

/-! Updates that throw: whether anything that is done later can tell that they were made. -/
namespace Ycmd.Core
open Lib

/-- What the caller of an operation gets: the results of a query, and of anything else only whether it
throws. -/
def Operation.respond (env : Environment) : Operation → DatabaseM (List Result)
  | .resultsForQueryAndType query filetype maxResults =>
    IdentifierDatabase.resultsForQueryAndType env query filetype maxResults
  | op => (fun _ => []) <$> op.perform env

namespace IdentifierDatabase

/-- The responses that operations may get, one after the other. How a hash map is gone through is not
specified, so each operation may meet another order. -/
inductive Observed (env : Environment) :
    IdentifierDatabase → List Operation → List (Except Failure (List Result)) → Prop where
  | nil (db : IdentifierDatabase) : Observed env db [] []
  | cons {db : IdentifierDatabase} {op : Operation} {ops : List Operation} {std : StandardLibrary}
    {responses : List (Except Failure (List Result))} (hstd : env.std.SameAlgorithms std)
    (hrest : Observed env (outcome (op.respond ⟨env.table, std⟩ db)).2 ops responses) :
    Observed env db (op :: ops) ((outcome (op.respond ⟨env.table, std⟩ db)).1 :: responses)

/-- Whatever is done later gets the responses it could have got before. -/
def Indistinguishable (env : Environment) (db after : IdentifierDatabase) : Prop :=
  ∀ ops responses, Observed env after ops responses ↔ Observed env db ops responses

/-- The same filetypes and the same candidates for every file, in whatever order the maps have them and
whatever is cached. -/
structure Alike (env : Environment) (db db' : IdentifierDatabase) : Prop where
  built : Built env db
  built' : Built env db'
  filetypes : ∀ filetype, (db.1.lookup filetype).isSome = (db'.1.lookup filetype).isSome
  candidates : ∀ filetype filepath, candidateSet db.1 filetype filepath = candidateSet db'.1 filetype filepath

variable {env : Environment} {db db' : IdentifierDatabase}

theorem Alike.symm (h : Alike env db db') : Alike env db' db where
  built := h.built'
  built' := h.built
  filetypes filetype := (h.filetypes filetype).symm
  candidates filetype filepath := (h.candidates filetype filepath).symm

theorem sameCharacters {std : StandardLibrary} (h : env.std.SameAlgorithms std) : env.SameCharacters std :=
  h.sort codePointCompare

theorem candidatesSound_congr {std : StandardLibrary} (h : env.std.SameAlgorithms std) :
    CandidatesSound ⟨env.table, std⟩ = CandidatesSound env := by
  funext caches
  simp only [CandidatesSound, CharactersSound, CodePointsSound, Candidate.of_congr (sameCharacters h),
    Character.of_congr (sameCharacters h)]

/-- What is built does not depend on how maps are gone through. -/
theorem built_congr {std : StandardLibrary} (h : env.std.SameAlgorithms std) : Built ⟨env.table, std⟩ = Built env := by
  funext db
  simp only [Built, MapBuilt, Stocked, candidatesSound_congr h, Candidate.of_congr (sameCharacters h)]

theorem Alike.congr {std : StandardLibrary} (h : Alike env db db') (hstd : env.std.SameAlgorithms std) :
    Alike ⟨env.table, std⟩ db db' where
  built := (built_congr hstd).symm ▸ h.built
  built' := (built_congr hstd).symm ▸ h.built'
  filetypes := h.filetypes
  candidates := h.candidates

theorem Alike.of_congr {std : StandardLibrary} (hstd : env.std.SameAlgorithms std)
    (h : Alike ⟨env.table, std⟩ db db') : Alike env db db' where
  built := built_congr hstd ▸ h.built
  built' := built_congr hstd ▸ h.built'
  filetypes := h.filetypes
  candidates := h.candidates

theorem isSome_lookup_setCandidateSet (map : FiletypeCandidateMap) (filetype filepath ft : Bytes)
    (candidates : List Candidate) :
    ((setCandidateSet map filetype filepath candidates).lookup ft).isSome =
      (decide (ft = filetype) || (map.lookup ft).isSome) := by
  unfold setCandidateSet
  by_cases hft : ft = filetype
  · subst hft
    simp [AList.lookup_insert]
  · simp [AList.lookup_insert_ne hft, hft]

section Steps
variable (filetype filepath : Bytes)

theorem lockstep_assign {candidates : List Candidate} (h : ∀ candidate ∈ candidates, Stocked env candidate) :
    Lockstep (Alike env) (assign filetype filepath candidates) (assign filetype filepath candidates)
      (fun _ => True) := by
  rintro ⟨map, caches⟩ ⟨map', caches'⟩ halike
  refine ⟨rfl, ⟨?_, ?_, ?_, ?_⟩, fun _ _ => trivial⟩
  · exact (keeps_assign filetype filepath h (map, caches) halike.built).1
  · exact (keeps_assign filetype filepath h (map', caches') halike.built').1
  · intro ft
    change ((setCandidateSet map filetype filepath candidates).lookup ft).isSome =
      ((setCandidateSet map' filetype filepath candidates).lookup ft).isSome
    rw [isSome_lookup_setCandidateSet, isSome_lookup_setCandidateSet, halike.filetypes ft]
  · intro ft path
    change candidateSet (setCandidateSet map filetype filepath candidates) ft path =
      candidateSet (setCandidateSet map' filetype filepath candidates) ft path
    rw [candidateSet_setCandidateSet, candidateSet_setCandidateSet, halike.candidates ft path]

theorem lockstep_getCandidateSet :
    Lockstep (Alike env) (getCandidateSet filetype filepath) (getCandidateSet filetype filepath)
      (fun candidates => ∀ candidate ∈ candidates, Stocked env candidate) := by
  rintro ⟨map, caches⟩ ⟨map', caches'⟩ halike
  have hsame := halike.candidates filetype filepath
  have hstocked := halike.built.1 filetype filepath
  have hassign := (lockstep_assign filetype filepath hstocked _ _ halike).2.1
  refine ⟨congrArg Except.ok hsame, ?_, fun candidates heq => ?_⟩
  · change Alike env (setCandidateSet map filetype filepath (candidateSet map filetype filepath), caches)
      (setCandidateSet map' filetype filepath (candidateSet map' filetype filepath), caches')
    rw [← show candidateSet map filetype filepath = candidateSet map' filetype filepath from hsame]
    exact hassign
  · obtain rfl := Except.ok.inj heq
    exact hstocked

/-- Leaving the map as it is, whatever computes from the caches leaves databases alike. -/
theorem Alike.of_computes {α : Type} {m m' : DatabaseM α} {r r' : Except Failure α} (h : Alike env db db')
    (hm : Computes (fun s => s.1 = db.1 ∧ CandidatesSound env s.2) m r)
    (hm' : Computes (fun s => s.1 = db'.1 ∧ CandidatesSound env s.2) m' r') :
    (outcome (m db)).1 = r ∧ (outcome (m' db')).1 = r' ∧ Alike env (outcome (m db)).2 (outcome (m' db')).2 := by
  have hs := hm.stateAfter ⟨rfl, h.built.2⟩
  have hs' := hm'.stateAfter ⟨rfl, h.built'.2⟩
  rw [← outcome_snd] at hs hs'
  refine ⟨hm.outcome_fst ⟨rfl, h.built.2⟩, hm'.outcome_fst ⟨rfl, h.built'.2⟩, ?_, ?_, ?_, ?_⟩
  · exact ⟨hs.1 ▸ h.built.1, hs.2⟩
  · exact ⟨hs'.1 ▸ h.built'.1, hs'.2⟩
  · rw [hs.1, hs'.1]
    exact h.filetypes
  · rw [hs.1, hs'.1]
    exact h.candidates

theorem lockstep_getElements (elements : List Bytes) :
    Lockstep (Alike env) (below (getElements env elements)) (below (getElements env elements))
      (fun candidates => ∀ candidate ∈ candidates, Stocked env candidate) := by
  intro db db' halike
  have hcomputes : Computes (CandidatesSound env) (getElements env elements) _ := computes_getElements elements
  obtain ⟨heq, heq', hafter⟩ := halike.of_computes (hcomputes.below (J := fun map => map = db.1))
    (hcomputes.below (J := fun map => map = db'.1))
  exact ⟨heq.trans heq'.symm, hafter, fun candidates hok => stocked_of_mapM (heq.symm.trans hok)⟩

theorem lockstep_addSingleIdentifier (newCandidate : Bytes) :
    Lockstep (Alike env) (addSingleIdentifier env newCandidate filetype filepath)
      (addSingleIdentifier env newCandidate filetype filepath) (fun _ => True) := by
  apply (lockstep_getElements [newCandidate]).bind
  intro candidates hcandidates
  cases candidates with
  | nil => exact Lockstep.throw _
  | cons candidate candidates =>
    apply (lockstep_getCandidateSet filetype filepath).bind
    intro current hcurrent
    split
    · apply lockstep_assign filetype filepath
      intro c hc
      rcases List.mem_append.mp hc with hc | hc
      · exact hcurrent c hc
      · exact List.mem_singleton.mp hc ▸ hcandidates candidate List.mem_cons_self
    · exact Lockstep.pure trivial

theorem lockstep_recreateIdentifiersNoLock (newCandidates : List Bytes) :
    Lockstep (Alike env) (recreateIdentifiersNoLock env newCandidates filetype filepath)
      (recreateIdentifiersNoLock env newCandidates filetype filepath) (fun _ => True) :=
  (lockstep_getCandidateSet filetype filepath).bind (fun _ _ => (lockstep_getElements newCandidates).bind
    (fun _ hcandidates => lockstep_assign filetype filepath hcandidates))

end Steps

theorem flatMap_filter_nonempty (files : List (Sigma fun _ : Bytes => List Candidate)) :
    (files.filter (fun file => !file.2.isEmpty)).flatMap (fun file => file.2) = files.flatMap (fun file => file.2) := by
  induction files with
  | nil => rfl
  | cons file files ih =>
    obtain ⟨filepath, candidates⟩ := file
    cases candidates with
    | nil => simpa using ih
    | cons candidate candidates => simp [ih]

/-- Files with the same candidates can be gone through so that the same candidates are met in the same order. -/
theorem exists_order {paths paths' : FilepathToCandidates}
    (h : ∀ filepath, (paths.lookup filepath).getD [] = (paths'.lookup filepath).getD [])
    {files : List (Sigma fun _ : Bytes => List Candidate)} (hfiles : files.Perm paths.entries) :
    ∃ files' : List (Sigma fun _ : Bytes => List Candidate), files'.Perm paths'.entries ∧
      files'.flatMap (fun file => file.2) = files.flatMap (fun file => file.2) := by
  have hnonempty : (paths.entries.filter (fun file => !file.2.isEmpty)).Perm
      (paths'.entries.filter (fun file => !file.2.isEmpty)) := by
    apply (List.perm_ext_iff_of_nodup (paths.nodupKeys.nodup.filter _) (paths'.nodupKeys.nodup.filter _)).mpr
    rintro ⟨filepath, candidates⟩
    rw [List.mem_filter, List.mem_filter, ← AList.mem_lookup_iff, ← AList.mem_lookup_iff]
    apply and_congr_left
    intro hne
    have hfile := h filepath
    cases hlookup : paths.lookup filepath <;> cases hlookup' : paths'.lookup filepath <;>
      rw [hlookup, hlookup'] at hfile <;> simp_all
  refine ⟨files.filter (fun file => !file.2.isEmpty) ++ paths'.entries.filter (fun file => file.2.isEmpty), ?_, ?_⟩
  · have hsplit := List.filter_append_perm (fun file : Sigma fun _ : Bytes => List Candidate => !file.2.isEmpty)
      paths'.entries
    simp only [Bool.not_not] at hsplit
    exact (((hfiles.filter _).trans hnonempty).append_right _).trans hsplit
  · have hempty : (paths'.entries.filter (fun file => file.2.isEmpty)).flatMap (fun file => file.2) = [] := by
      rw [List.flatMap_eq_nil_iff]
      intro file hfile
      simpa using (List.mem_filter.mp hfile).2
    rw [List.flatMap_append, hempty, List.append_nil, flatMap_filter_nonempty]

theorem partialSort_congr {std std' : StandardLibrary} (h : std.SameAlgorithms std') {α : Type} (lt : α → α → Bool)
    (elements : List α) (numSortedElements : Nat) :
    partialSort std' lt elements numSortedElements = partialSort std lt elements numSortedElements := by
  simp only [partialSort, h.sort, h.partialSort, h.nthElement]

variable {std : StandardLibrary}

/-- Whatever results a query has in one order, it has in some order for files with the same candidates. -/
theorem exists_sameResults (hstd : env.std.SameAlgorithms std) {paths paths' : FilepathToCandidates}
    (h : ∀ filepath, (paths.lookup filepath).getD [] = (paths'.lookup filepath).getD []) :
    ∃ std', env.std.SameAlgorithms std' ∧ ∀ word maxResults,
      partialSort std' Result.less (matchingResults ⟨env.table, std'⟩ word paths') maxResults =
        partialSort std Result.less (matchingResults ⟨env.table, std⟩ word paths) maxResults := by
  obtain ⟨files', hfiles', hsame⟩ := exists_order h (std.iterate_perm paths.entries)
  obtain ⟨std', hstd', hiterate⟩ := env.std.exists_iterate hfiles'
  refine ⟨std', hstd', fun word maxResults => ?_⟩
  rw [partialSort_congr hstd', partialSort_congr hstd, matchingResults_eq, matchingResults_eq, hiterate, hsame]

/-- What a query computes over every order of the maps. -/
theorem computes_query (hstd : env.std.SameAlgorithms std) (map : FiletypeCandidateMap) (query filetype : Bytes)
    (maxResults : Nat) :
    Computes (fun db => db.1 = map ∧ CandidatesSound env db.2)
      (resultsForQueryAndType ⟨env.table, std⟩ query filetype maxResults)
      (match map.lookup filetype with
        | none => .ok []
        | some paths => (Word.of env query).map (fun word =>
            partialSort std Result.less (matchingResults ⟨env.table, std⟩ word paths) maxResults)) := by
  rw [← candidatesSound_congr hstd, ← Word.of_congr (sameCharacters hstd)]
  exact computes_resultsForQueryAndType ⟨env.table, std⟩ map query filetype maxResults

theorem Alike.query (h : Alike env db db') (hstd : env.std.SameAlgorithms std) (query filetype : Bytes)
    (maxResults : Nat) :
    ∃ std', env.std.SameAlgorithms std' ∧
      (outcome (resultsForQueryAndType ⟨env.table, std'⟩ query filetype maxResults db')).1 =
        (outcome (resultsForQueryAndType ⟨env.table, std⟩ query filetype maxResults db)).1 ∧
      Alike env (outcome (resultsForQueryAndType ⟨env.table, std⟩ query filetype maxResults db)).2
        (outcome (resultsForQueryAndType ⟨env.table, std'⟩ query filetype maxResults db')).2 := by
  have hfiletype := h.filetypes filetype
  cases hl : db.1.lookup filetype with
  | none =>
    have hl' : db'.1.lookup filetype = none := by simpa [hl] using hfiletype
    obtain ⟨heq, heq', hafter⟩ := h.of_computes (computes_query hstd db.1 query filetype maxResults)
      (computes_query hstd db'.1 query filetype maxResults)
    rw [hl] at heq
    rw [hl'] at heq'
    exact ⟨std, hstd, heq'.trans heq.symm, hafter⟩
  | some paths =>
    obtain ⟨paths', hl'⟩ : ∃ paths', db'.1.lookup filetype = some paths' :=
      Option.isSome_iff_exists.mp (hfiletype ▸ Option.isSome_of_eq_some hl)
    have hfiles (filepath : Bytes) : (paths.lookup filepath).getD [] = (paths'.lookup filepath).getD [] := by
      have := h.candidates filetype filepath
      rwa [candidateSet, candidateSet, hl, hl'] at this
    obtain ⟨std', hstd', hsame⟩ := exists_sameResults hstd hfiles
    obtain ⟨heq, heq', hafter⟩ := h.of_computes (computes_query hstd db.1 query filetype maxResults)
      (computes_query hstd' db'.1 query filetype maxResults)
    rw [hl] at heq
    rw [hl'] at heq'
    refine ⟨std', hstd', heq'.trans (Eq.trans ?_ heq.symm), hafter⟩
    simp only [hsame]

/-- An operation gets from a database alike what it may get, and leaves them alike. -/
theorem Alike.respond (h : Alike env db db') (hstd : env.std.SameAlgorithms std) (op : Operation) :
    ∃ std', env.std.SameAlgorithms std' ∧
      (outcome (op.respond ⟨env.table, std'⟩ db')).1 = (outcome (op.respond ⟨env.table, std⟩ db)).1 ∧
      Alike env (outcome (op.respond ⟨env.table, std⟩ db)).2 (outcome (op.respond ⟨env.table, std'⟩ db')).2 := by
  have hsame {m : DatabaseM (List Result)}
      (hm : Lockstep (Alike ⟨env.table, std⟩) m m (fun _ => True)) :
      (outcome (m db')).1 = (outcome (m db)).1 ∧ Alike env (outcome (m db)).2 (outcome (m db')).2 := by
    obtain ⟨heq, hafter, -⟩ := hm db db' (h.congr hstd)
    exact ⟨heq.symm, .of_congr hstd hafter⟩
  cases op with
  | addSingleIdentifier newCandidate filetype filepath =>
    exact ⟨std, hstd, hsame ((lockstep_addSingleIdentifier filetype filepath newCandidate).map _)⟩
  | recreateIdentifiers newCandidates filetype filepath =>
    exact ⟨std, hstd, hsame ((lockstep_recreateIdentifiersNoLock filetype filepath newCandidates).map _)⟩
  | recreateIdentifiersFromMap map =>
    refine ⟨std, hstd, hsame (Lockstep.map (Lockstep.forM fun entry _ => ?_) _)⟩
    exact Lockstep.forM fun file _ => lockstep_recreateIdentifiersNoLock entry.1 file.1 file.2
  | resultsForQueryAndType query filetype maxResults => exact h.query hstd query filetype maxResults
  | getElements elements =>
    refine ⟨std, hstd, rfl, .of_congr hstd ?_⟩
    have halike := h.congr hstd
    exact ⟨⟨halike.built.1, (computes_getElements elements).stateAfter halike.built.2⟩,
      ⟨halike.built'.1, (computes_getElements elements).stateAfter halike.built'.2⟩, h.filetypes, h.candidates⟩

/-- Databases alike are observed alike, by induction on what is done. -/
theorem Alike.observed (h : Alike env db db') {ops : List Operation} {responses : List (Except Failure (List Result))}
    (hobserved : Observed env db ops responses) : Observed env db' ops responses := by
  induction hobserved generalizing db' with
  | nil db => exact .nil db'
  | @cons db op ops std responses hstd hrest ih =>
    obtain ⟨std', hstd', heq, hafter⟩ := h.respond hstd op
    rw [← heq]
    exact .cons hstd' (ih hafter)

theorem Alike.indistinguishable (h : Alike env db db') : Indistinguishable env db db' :=
  fun _ _ => ⟨h.symm.observed, h.observed⟩

/-- The updates that are given the strings of one file. -/
inductive Update where
  | addSingleIdentifier (newCandidate filetype filepath : Bytes)
  | recreateIdentifiers (newCandidates : List Bytes) (filetype filepath : Bytes)

namespace Update

def operation : Update → Operation
  | addSingleIdentifier newCandidate filetype filepath => .addSingleIdentifier newCandidate filetype filepath
  | recreateIdentifiers newCandidates filetype filepath => .recreateIdentifiers newCandidates filetype filepath

/-- `AddSingleIdentifier` obtains its candidate first; `RecreateIdentifiers` first creates the entry of its
filetype, if there is none. -/
def leavesNoEntry (map : FiletypeCandidateMap) : Update → Bool
  | addSingleIdentifier _ _ _ => true
  | recreateIdentifiers _ filetype _ => (map.lookup filetype).isSome

end Update

variable {after : IdentifierDatabase} {failure : Failure}

theorem addSingleIdentifier_failed {newCandidate filetype filepath : Bytes}
    (h : addSingleIdentifier env newCandidate filetype filepath db = .error failure after) : after.1 = db.1 := by
  obtain ⟨map, caches⟩ := db
  cases hrun : getElements env [newCandidate] caches with
  | error failure' caches' =>
    simp only [addSingleIdentifier, bind, EStateM.bind, below, hrun] at h
    cases h
    rfl
  | ok candidates caches' =>
    cases candidates with
    | nil =>
      simp only [addSingleIdentifier, bind, EStateM.bind, below, hrun] at h
      cases h
      rfl
    | cons candidate candidates =>
      simp only [addSingleIdentifier, bind, EStateM.bind, below, hrun, getCandidateSet_eq] at h
      split at h <;> cases h

theorem recreateIdentifiersNoLock_failed {newCandidates : List Bytes} {filetype filepath : Bytes}
    (h : recreateIdentifiersNoLock env newCandidates filetype filepath db = .error failure after) :
    after.1 = setCandidateSet db.1 filetype filepath (candidateSet db.1 filetype filepath) := by
  obtain ⟨map, caches⟩ := db
  cases hrun : getElements env newCandidates caches with
  | error failure' caches' =>
    simp only [recreateIdentifiersNoLock, bind, EStateM.bind, getCandidateSet_eq, below, hrun] at h
    cases h
    rfl
  | ok candidates caches' =>
    rw [recreateIdentifiersNoLock_eq map hrun] at h
    cases h

/-- A failed call leaves a database alike, unless it has left an entry. -/
theorem alike_of_failed (hbuilt : Built env db) (update : Update)
    (hthrows : update.operation.perform env db = .error failure after)
    (hentry : update.leavesNoEntry db.1 = true) : Alike env after db := by
  have hafter : Built env after := by
    have := (keeps_perform update.operation).stateAfter hbuilt
    rwa [stateAfter, hthrows] at this
  cases update with
  | addSingleIdentifier newCandidate filetype filepath =>
    have hmap := addSingleIdentifier_failed hthrows
    exact ⟨hafter, hbuilt, fun _ => by rw [hmap], fun _ _ => by rw [hmap]⟩
  | recreateIdentifiers newCandidates filetype filepath =>
    have hmap := recreateIdentifiersNoLock_failed hthrows
    have hsome : (db.1.lookup filetype).isSome = true := hentry
    refine ⟨hafter, hbuilt, fun ft => ?_, fun ft path => ?_⟩
    · rw [hmap, isSome_lookup_setCandidateSet]
      by_cases hft : ft = filetype
      · subst hft
        simp [hsome]
      · simp [hft]
    · rw [hmap, candidateSet_setCandidateSet]
      split
      · rename_i hfile
        rw [hfile.1, hfile.2]
      · rfl

/-- A query that cannot be decoded is answered where its filetype has no entry, and throws where it has one. -/
theorem undecodable_query (hbuilt : Built env db) (hstd : env.std.SameAlgorithms std) {query : Bytes}
    (hquery : ¬ Decodable query) (filetype : Bytes) (maxResults : Nat) :
    (outcome ((Operation.resultsForQueryAndType query filetype maxResults).respond ⟨env.table, std⟩ db)).1 = .ok [] ↔
      db.1.lookup filetype = none := by
  have hanswer := (computes_query hstd db.1 query filetype maxResults).outcome_fst ⟨rfl, hbuilt.2⟩
  rw [Operation.respond, hanswer]
  cases db.1.lookup filetype with
  | none => exact iff_of_true rfl rfl
  | some paths =>
    cases hword : Word.of env query with
    | ok word => exact absurd ((Word.of_isOk env query).mp (by rw [hword]; rfl)) hquery
    | error failure => exact iff_of_false (by rintro ⟨⟩) (by rintro ⟨⟩)

theorem undecodable_octet : ¬ Decodable [0xff] := by decide +kernel

/-- An entry that was left is found by a query that cannot be decoded. -/
theorem recreateIdentifiersNoLock_observed (hbuilt : Built env db) {newCandidates : List Bytes}
    {filetype filepath : Bytes} (hnone : db.1.lookup filetype = none)
    (hthrows : recreateIdentifiersNoLock env newCandidates filetype filepath db = .error failure after) :
    Observed env db [.resultsForQueryAndType [0xff] filetype 0] [.ok []] ∧
      ¬ Observed env after [.resultsForQueryAndType [0xff] filetype 0] [.ok []] := by
  constructor
  · have hsame := StandardLibrary.SameAlgorithms.refl env.std
    have hbefore := (undecodable_query hbuilt hsame undecodable_octet filetype 0).mpr hnone
    exact hbefore ▸ .cons hsame (.nil _)
  · intro hobserved
    have hafter : Built env after := by
      have := (keeps_recreateIdentifiersNoLock newCandidates filetype filepath).stateAfter hbuilt
      rwa [stateAfter, hthrows] at this
    generalize hresponses : [Except.ok []] = responses at hobserved
    cases hobserved with
    | cons hstd hrest =>
      have hresponse := (List.cons.inj hresponses).1
      have hlookup := (undecodable_query hafter hstd undecodable_octet filetype 0).mp hresponse.symm
      have hsome := isSome_lookup_setCandidateSet db.1 filetype filepath filetype (candidateSet db.1 filetype filepath)
      rw [← recreateIdentifiersNoLock_failed hthrows, hlookup] at hsome
      simp at hsome

theorem leavesNoEntry_of_indistinguishable (hbuilt : Built env db) (update : Update)
    (hthrows : update.operation.perform env db = .error failure after) (h : Indistinguishable env db after) :
    update.leavesNoEntry db.1 = true := by
  cases update with
  | addSingleIdentifier newCandidate filetype filepath => rfl
  | recreateIdentifiers newCandidates filetype filepath =>
    by_contra hentry
    have hnone : db.1.lookup filetype = none := Option.not_isSome_iff_eq_none.mp hentry
    obtain ⟨hbefore, hnot⟩ := recreateIdentifiersNoLock_observed hbuilt hnone hthrows
    exact hnot ((h _ _).mpr hbefore)

/-- Whatever is done after an update that throws gets the responses it could have got without it exactly when
the update has left no entry. -/
theorem failed_update_indistinguishable_iff (env : Environment) (db : IdentifierDatabase) (h : Reachable env db)
    (update : Update) (failure : Failure) (after : IdentifierDatabase)
    (hthrows : update.operation.perform env db = .error failure after) :
    Indistinguishable env db after ↔ update.leavesNoEntry db.1 = true := by
  constructor
  · exact leavesNoEntry_of_indistinguishable h.built update hthrows
  · intro hentry
    exact (alike_of_failed h.built update hthrows hentry).symm.indistinguishable

/-- The database with one identifier for one file. -/
def oneIdentifier : IdentifierDatabase :=
  stateAfter (Operation.perform letterEnvironment (.addSingleIdentifier (ascii "A") (ascii "cpp") (ascii "f"))) .empty

/-- A list of which the second string cannot be decoded changes nothing for a filetype that is there. -/
theorem failed_update_indistinguishable_second :
    ∃ failure after, Operation.perform letterEnvironment
        (.recreateIdentifiers [ascii "Aa", [0xff]] (ascii "cpp") (ascii "g")) oneIdentifier = .error failure after ∧
      Indistinguishable letterEnvironment oneIdentifier after := by
  have hthrows : (outcome (Operation.perform letterEnvironment
      (.recreateIdentifiers [ascii "Aa", [0xff]] (ascii "cpp") (ascii "g")) oneIdentifier)).1.isOk = false := by
    decide +kernel
  cases hrun : Operation.perform letterEnvironment
      (.recreateIdentifiers [ascii "Aa", [0xff]] (ascii "cpp") (ascii "g")) oneIdentifier with
  | ok _ after => simp [hrun, outcome] at hthrows
  | error failure after =>
    exact ⟨failure, after, rfl, (failed_update_indistinguishable_iff letterEnvironment oneIdentifier
      (.perform .empty _) (.recreateIdentifiers [ascii "Aa", [0xff]] (ascii "cpp") (ascii "g")) failure after
      hrun).mpr (by decide +kernel)⟩

/-- The first list of a filetype throws, and so does a query that would have been answered. -/
theorem failed_recreate_observed :
    ∃ failure after, Operation.perform letterEnvironment
        (.recreateIdentifiers [[0xff]] (ascii "cpp") (ascii "f")) .empty = .error failure after ∧
      Observed letterEnvironment .empty [.resultsForQueryAndType [0xff] (ascii "cpp") 0] [.ok []] ∧
      ¬ Observed letterEnvironment after [.resultsForQueryAndType [0xff] (ascii "cpp") 0] [.ok []] ∧
      ¬ Indistinguishable letterEnvironment .empty after := by
  have hthrows : (outcome (Operation.perform letterEnvironment
      (.recreateIdentifiers [[0xff]] (ascii "cpp") (ascii "f")) .empty)).1.isOk = false := by
    decide +kernel
  cases hrun : Operation.perform letterEnvironment
      (.recreateIdentifiers [[0xff]] (ascii "cpp") (ascii "f")) .empty with
  | ok _ after => simp [hrun, outcome] at hthrows
  | error failure after =>
    obtain ⟨hbefore, hnot⟩ :=
      recreateIdentifiersNoLock_observed (@Reachable.empty letterEnvironment).built rfl hrun
    exact ⟨failure, after, rfl, hbefore, hnot, fun h => hnot ((h _ _).mpr hbefore)⟩

end IdentifierDatabase
end Ycmd.Core
