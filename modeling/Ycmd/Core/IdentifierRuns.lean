import Ycmd.Core.IdentifierAnswers

/-! Runs of the database's operations in which some throw: each leaves what it had reached. -/
namespace Ycmd.Core
open Lib
namespace IdentifierDatabase

/-- The databases that a process can come to. -/
inductive Reachable (env : Environment) : IdentifierDatabase → Prop where
  | empty : Reachable env .empty
  | perform {db : IdentifierDatabase} (h : Reachable env db) (op : Operation) :
    Reachable env (stateAfter (op.perform env) db)

/-- A candidate as the repository makes it: the one its text denotes, which is not long. -/
def Stocked (env : Environment) (candidate : Candidate) : Prop :=
  Candidate.of env candidate.text = .ok candidate ∧ candidate.text.length ≤ 80

def MapBuilt (env : Environment) (map : FiletypeCandidateMap) : Prop :=
  ∀ filetype filepath, ∀ candidate ∈ candidateSet map filetype filepath, Stocked env candidate

def Built (env : Environment) (db : IdentifierDatabase) : Prop := MapBuilt env db.1 ∧ CandidatesSound env db.2

variable {env : Environment}

theorem length_shorten (identifier : Bytes) : (shorten identifier).length ≤ 80 := by
  unfold shorten
  split
  · exact Nat.zero_le _
  · omega

theorem stocked_of_mapM {identifiers : List Bytes} {candidates : List Candidate}
    (h : (identifiers.map shorten).mapM (Candidate.of env) = .ok candidates) :
    ∀ candidate ∈ candidates, Stocked env candidate := by
  obtain ⟨hbuilt, htexts⟩ := candidates_built (mapM_ok_iff.mp h)
  intro candidate hmem
  have htext := List.mem_map_of_mem (f := fun candidate => candidate.text) hmem
  rw [htexts] at htext
  obtain ⟨identifier, -, heq⟩ := List.mem_map.mp htext
  exact ⟨hbuilt candidate hmem, heq ▸ length_shorten identifier⟩

theorem keeps_getElements (identifiers : List Bytes) :
    Keeps (Built env) (below (getElements env identifiers))
      (fun candidates => ∀ candidate ∈ candidates, Stocked env candidate) := by
  intro db hdb
  have := (computes_getElements identifiers).below (J := MapBuilt env) |>.keeps db hdb
  split at this
  · exact ⟨this.1, stocked_of_mapM this.2⟩
  · exact this

theorem keeps_assign (filetype filepath : Bytes) {candidates : List Candidate}
    (h : ∀ candidate ∈ candidates, Stocked env candidate) :
    Keeps (Built env) (assign filetype filepath candidates) (fun _ => True) := by
  rintro db ⟨hmap, hs⟩
  refine ⟨⟨fun ft path => ?_, hs⟩, trivial⟩
  rw [candidateSet_setCandidateSet]
  split
  · exact h
  · exact hmap ft path

theorem keeps_getCandidateSet (filetype filepath : Bytes) :
    Keeps (Built env) (getCandidateSet filetype filepath)
      (fun candidates => ∀ candidate ∈ candidates, Stocked env candidate) := by
  rintro db hdb
  have hset := hdb.1 filetype filepath
  exact ⟨(keeps_assign filetype filepath hset db hdb).1, hset⟩

theorem keeps_addSingleIdentifier (newCandidate filetype filepath : Bytes) :
    Keeps (Built env) (addSingleIdentifier env newCandidate filetype filepath) (fun _ => True) := by
  apply (keeps_getElements [newCandidate]).bind
  intro candidates hcandidates
  cases candidates with
  | nil => exact Keeps.throw _
  | cons candidate candidates =>
    apply (keeps_getCandidateSet filetype filepath).bind
    intro current hcurrent
    split
    · exact keeps_assign filetype filepath (fun c hc => (List.mem_append.mp hc).elim (hcurrent c)
        (fun hc => List.mem_singleton.mp hc ▸ hcandidates candidate List.mem_cons_self))
    · exact Keeps.pure trivial

theorem keeps_recreateIdentifiersNoLock (newCandidates : List Bytes) (filetype filepath : Bytes) :
    Keeps (Built env) (recreateIdentifiersNoLock env newCandidates filetype filepath) (fun _ => True) :=
  (keeps_getCandidateSet filetype filepath).bind (fun _ _ => (keeps_getElements newCandidates).bind
    (fun _ hcandidates => keeps_assign filetype filepath hcandidates))

theorem keeps_perform (op : Operation) : Keeps (Built env) (op.perform env) (fun _ => True) := by
  cases op with
  | addSingleIdentifier newCandidate filetype filepath => exact keeps_addSingleIdentifier _ _ _
  | recreateIdentifiers newCandidates filetype filepath => exact keeps_recreateIdentifiersNoLock _ _ _
  | recreateIdentifiersFromMap map =>
    exact Keeps.forM (fun entry _ => Keeps.forM (fun file _ => keeps_recreateIdentifiersNoLock _ _ _))
  | resultsForQueryAndType query filetype maxResults =>
    rintro db hdb
    obtain ⟨hmap, hs⟩ :=
      (computes_resultsForQueryAndType env db.1 query filetype maxResults).stateAfter ⟨rfl, hdb.2⟩
    exact ⟨⟨hmap ▸ hdb.1, hs⟩, trivial⟩
  | getElements elements =>
    rintro db hdb
    exact ⟨⟨hdb.1, (computes_getElements elements).stateAfter hdb.2⟩, trivial⟩

theorem Reachable.built {db : IdentifierDatabase} (h : Reachable env db) : Built env db := by
  induction h with
  | empty => exact ⟨by simp [MapBuilt, IdentifierDatabase.empty, candidateSet], candidatesSound_empty⟩
  | perform _ op ih => exact (keeps_perform op).stateAfter ih

/-- Candidates of one text are one candidate, so those a query's loop comes to are all that are stored. -/
theorem mem_firstByText_iff {map : FiletypeCandidateMap} (h : MapBuilt env map) {filetype : Bytes}
    {paths : FilepathToCandidates} (hl : map.lookup filetype = some paths) (candidate : Candidate) :
    candidate ∈ firstByText [] ((env.std.iterate paths.entries).flatMap (fun file => file.2)) ↔
      ∃ filepath, candidate ∈ candidateSet map filetype filepath := by
  have hstored := mem_flatMap_files env hl
  constructor
  · intro hmem
    exact (hstored candidate).mp (mem_of_mem_firstByText hmem)
  · rintro ⟨filepath, hcandidate⟩
    obtain hno | ⟨c, hc, htext⟩ := exists_mem_firstByText [] ((hstored candidate).mpr ⟨filepath, hcandidate⟩)
    · cases hno
    · obtain ⟨filepath', hc'⟩ := (hstored c).mp (mem_of_mem_firstByText hc)
      have hof := (h filetype filepath candidate hcandidate).1
      have hof' := (h filetype filepath' c hc').1
      rw [htext] at hof'
      obtain rfl : c = candidate := Except.ok.inj (hof'.symm.trans hof)
      exact hc

end IdentifierDatabase
end Ycmd.Core
