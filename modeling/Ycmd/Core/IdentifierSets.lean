import Ycmd.Core.IdentifierDatabase

/-! The identifier database refines a map from filetype and file path to sets of identifiers. -/
namespace Ycmd.Core
open Lib

/-- The identifiers of each file of each filetype. -/
abbrev IdentifierSets := Bytes → Bytes → Set Bytes

namespace IdentifierSets

def replace (sets : IdentifierSets) (identifiers : Set Bytes) (filetype filepath : Bytes) : IdentifierSets :=
  fun ft path => if ft = filetype ∧ path = filepath then identifiers else sets ft path

def replaceAll (sets : IdentifierSets) (map : FiletypeIdentifierMap) : IdentifierSets :=
  fun ft path => match (map.lookup ft).bind (fun paths => paths.lookup path) with
    | some identifiers => {t | t ∈ identifiers}
    | none => sets ft path

end IdentifierSets

/-- The mutators of a database, and what else changes the repositories it shares: queries, and
candidates obtained elsewhere in the process. -/
inductive Operation where
  | addSingleIdentifier (newCandidate filetype filepath : Bytes)
  | recreateIdentifiers (newCandidates : List Bytes) (filetype filepath : Bytes)
  | recreateIdentifiersFromMap (map : FiletypeIdentifierMap)
  | resultsForQueryAndType (query filetype : Bytes) (maxResults : Nat)
  | getElements (elements : List Bytes)

namespace Operation

/-- The identifiers an operation puts into the database. -/
def identifiers : Operation → List Bytes
  | addSingleIdentifier newCandidate _ _ => [newCandidate]
  | recreateIdentifiers newCandidates _ _ => newCandidates
  | recreateIdentifiersFromMap map =>
    map.entries.flatMap (fun entry => entry.2.entries.flatMap (fun file => file.2))
  | resultsForQueryAndType _ _ _ => []
  | getElements _ => []

/-- What an operation means for the sets. -/
def apply (sets : IdentifierSets) : Operation → IdentifierSets
  | addSingleIdentifier newCandidate filetype filepath =>
    sets.replace (insert newCandidate (sets filetype filepath)) filetype filepath
  | recreateIdentifiers newCandidates filetype filepath =>
    sets.replace {t | t ∈ newCandidates} filetype filepath
  | recreateIdentifiersFromMap map => sets.replaceAll map
  | resultsForQueryAndType _ _ _ => sets
  | getElements _ => sets

variable (env : Environment)

/-- The other users of the repositories catch what they throw. -/
def perform : Operation → DatabaseM Unit
  | addSingleIdentifier newCandidate filetype filepath =>
    IdentifierDatabase.addSingleIdentifier env newCandidate filetype filepath
  | recreateIdentifiers newCandidates filetype filepath =>
    IdentifierDatabase.recreateIdentifiers env newCandidates filetype filepath
  | recreateIdentifiersFromMap map => IdentifierDatabase.recreateIdentifiersFromMap env map
  | resultsForQueryAndType query filetype maxResults => fun db =>
    .ok () (stateAfter (IdentifierDatabase.resultsForQueryAndType env query filetype maxResults) db)
  | getElements elements => fun (map, caches) => .ok () (map, stateAfter (Core.getElements env elements) caches)

/-- A run of operations, which ends at the first that throws. -/
def run (ops : List Operation) : DatabaseM Unit := ops.forM (perform env)

end Operation

namespace IdentifierDatabase
variable {env : Environment}

/-- The sets a database stands for: every file holds the candidates of its identifiers, long
ones as the empty string, in whatever order and however often. -/
structure Refines (env : Environment) (sets : IdentifierSets) (db : IdentifierDatabase) : Prop where
  sound : CandidatesSound env db.2
  built : ∀ filetype filepath, ∀ candidate ∈ candidateSet db.1 filetype filepath,
    Candidate.of env candidate.text = .ok candidate
  texts : ∀ filetype filepath text,
    (∃ candidate ∈ candidateSet db.1 filetype filepath, candidate.text = text) ↔
      ∃ identifier ∈ sets filetype filepath, shorten identifier = text

theorem candidateSet_setCandidateSet (map : FiletypeCandidateMap) (filetype filepath ft path : Bytes)
    (candidates : List Candidate) :
    candidateSet (setCandidateSet map filetype filepath candidates) ft path =
      if ft = filetype ∧ path = filepath then candidates else candidateSet map ft path := by
  unfold candidateSet setCandidateSet
  by_cases hft : ft = filetype
  · subst hft
    by_cases hpath : path = filepath
    · subst hpath
      simp [AList.lookup_insert]
    · simp [AList.lookup_insert, AList.lookup_insert_ne hpath, hpath]
  · simp [AList.lookup_insert_ne hft, hft]

theorem decodable_shorten {identifier : Bytes} (h : Decodable identifier) : Decodable (shorten identifier) := by
  unfold shorten
  split
  · simp [Decodable, splitCodePoints_nil]
  · exact h

theorem candidates_built {texts : List Bytes} {candidates : List Candidate}
    (h : List.Forall₂ (fun text candidate => Candidate.of env text = .ok candidate) texts candidates) :
    (∀ candidate ∈ candidates, Candidate.of env candidate.text = .ok candidate) ∧
      candidates.map (fun candidate => candidate.text) = texts := by
  induction h with
  | nil => exact ⟨by simp, rfl⟩
  | cons hc _ ih =>
    have htext := (Candidate.of_ok hc).1
    rw [← htext] at hc
    exact ⟨List.forall_mem_cons.mpr ⟨hc, ih.1⟩, by rw [List.map_cons, htext, ih.2]⟩

/-- Obtaining the candidates of decodable identifiers does not throw. -/
theorem getElements_decodable {caches : CandidateCache} (hs : CandidatesSound env caches)
    {identifiers : List Bytes} (hdec : ∀ identifier ∈ identifiers, Decodable identifier) :
    ∃ candidates caches', getElements env identifiers caches = .ok candidates caches' ∧
      CandidatesSound env caches' ∧ (∀ candidate ∈ candidates, Candidate.of env candidate.text = .ok candidate) ∧
      candidates.map (fun candidate => candidate.text) = identifiers.map shorten := by
  have hok : ((identifiers.map shorten).mapM (Candidate.of env)).isOk = true := by
    rw [mapM_isOk, List.all_map, List.all_eq_true]
    exact fun identifier hi => (Candidate.of_isOk env _).mpr (decodable_shorten (hdec identifier hi))
  cases hm : (identifiers.map shorten).mapM (Candidate.of env) with
  | error failure => simp [hm] at hok
  | ok candidates =>
    obtain ⟨caches', hrun, hs'⟩ := (computes_getElements identifiers).ok hs hm
    obtain ⟨hbuilt, htexts⟩ := candidates_built (mapM_ok_iff.mp hm)
    exact ⟨candidates, caches', hrun, hs', hbuilt, htexts⟩

theorem getCandidateSet_eq (filetype filepath : Bytes) (map : FiletypeCandidateMap) (caches : CandidateCache) :
    getCandidateSet filetype filepath (map, caches) = .ok (candidateSet map filetype filepath)
      (setCandidateSet map filetype filepath (candidateSet map filetype filepath), caches) := rfl

/-- What a write through the reference does to the sets. -/
theorem Refines.assign {sets : IdentifierSets} {db : IdentifierDatabase} (h : Refines env sets db)
    (filetype filepath : Bytes) (candidates : List Candidate) {identifiers : Set Bytes} {caches : CandidateCache}
    (hs : CandidatesSound env caches)
    (hbuilt : ∀ candidate ∈ candidates, Candidate.of env candidate.text = .ok candidate)
    (htexts : ∀ text, (∃ candidate ∈ candidates, candidate.text = text) ↔
      ∃ identifier ∈ identifiers, shorten identifier = text) :
    Refines env (sets.replace identifiers filetype filepath)
      (setCandidateSet db.1 filetype filepath candidates, caches) where
  sound := hs
  built ft path := by
    rw [candidateSet_setCandidateSet]
    split
    · exact hbuilt
    · exact h.built ft path
  texts ft path text := by
    simp only [candidateSet_setCandidateSet, IdentifierSets.replace]
    split
    · exact htexts text
    · exact h.texts ft path text

theorem IdentifierSets.replace_self (sets : IdentifierSets) (filetype filepath : Bytes) :
    sets.replace (sets filetype filepath) filetype filepath = sets := by
  funext ft path
  unfold IdentifierSets.replace
  split
  · rename_i h
    rw [h.1, h.2]
  · rfl

/-- Creating the entries a lookup misses changes no set. -/
theorem Refines.getCandidateSet {sets : IdentifierSets} {db : IdentifierDatabase} (h : Refines env sets db)
    (filetype filepath : Bytes) {caches : CandidateCache} (hs : CandidatesSound env caches) :
    Refines env sets (setCandidateSet db.1 filetype filepath (candidateSet db.1 filetype filepath), caches) := by
  have := h.assign filetype filepath _ hs (h.built filetype filepath) (h.texts filetype filepath)
  rwa [IdentifierSets.replace_self] at this

theorem addSingleIdentifier_refines {sets : IdentifierSets} {db : IdentifierDatabase} (h : Refines env sets db)
    {newCandidate : Bytes} (filetype filepath : Bytes) (hdec : Decodable newCandidate) :
    ∃ db', addSingleIdentifier env newCandidate filetype filepath db = .ok () db' ∧
      Refines env (sets.replace (insert newCandidate (sets filetype filepath)) filetype filepath) db' := by
  obtain ⟨map, caches⟩ := db
  obtain ⟨candidates, caches', hrun, hs, hbuilt, htexts⟩ :=
    getElements_decodable h.sound (List.forall_mem_singleton.mpr hdec)
  obtain ⟨candidate, rfl⟩ : ∃ candidate, candidates = [candidate] := by
    rw [← List.length_eq_one_iff]
    simpa using congrArg List.length htexts
  have htext : candidate.text = shorten newCandidate := by simpa using htexts
  have hinsert : ∀ text, (∃ identifier ∈ insert newCandidate (sets filetype filepath), shorten identifier = text) ↔
      text = candidate.text ∨ ∃ c ∈ candidateSet map filetype filepath, c.text = text := by
    intro text
    rw [h.texts filetype filepath text, Set.exists_mem_insert, htext, eq_comm]
  have hreference := h.getCandidateSet filetype filepath hs
  by_cases hnew : (candidateSet map filetype filepath).all (fun c => c.text != candidate.text) = true
  · refine ⟨_, ?_, hreference.assign filetype filepath
      (candidateSet map filetype filepath ++ [candidate]) hs ?_ ?_⟩
    · simp only [addSingleIdentifier, bind, EStateM.bind, below, hrun, getCandidateSet_eq, hnew, if_true]
      rfl
    · intro c hc
      exact (List.mem_append.mp hc).elim (h.built filetype filepath c) (hbuilt c)
    · intro text
      rw [hinsert]
      simp only [List.mem_append, List.mem_singleton, or_and_right, exists_or, exists_eq_left]
      rw [or_comm, eq_comm]
  · refine ⟨_, ?_, h.assign filetype filepath _ hs (h.built filetype filepath) ?_⟩
    · simp only [addSingleIdentifier, bind, EStateM.bind, below, hrun, getCandidateSet_eq, hnew]
      rfl
    · intro text
      rw [hinsert]
      constructor
      · exact Or.inr
      · rintro (rfl | hc)
        · simpa using hnew
        · exact hc

theorem recreateIdentifiersNoLock_eq (map : FiletypeCandidateMap) {caches caches' : CandidateCache}
    {newCandidates : List Bytes} {candidates : List Candidate}
    (hrun : getElements env newCandidates caches = .ok candidates caches') (filetype filepath : Bytes) :
    recreateIdentifiersNoLock env newCandidates filetype filepath (map, caches) =
      .ok () (setCandidateSet (setCandidateSet map filetype filepath (candidateSet map filetype filepath))
        filetype filepath candidates, caches') := by
  simp only [recreateIdentifiersNoLock, bind, EStateM.bind, below, hrun, getCandidateSet_eq]
  rfl

theorem recreateIdentifiersNoLock_refines {sets : IdentifierSets} {db : IdentifierDatabase}
    (h : Refines env sets db) {newCandidates : List Bytes} (filetype filepath : Bytes)
    (hdec : ∀ identifier ∈ newCandidates, Decodable identifier) :
    ∃ db', recreateIdentifiersNoLock env newCandidates filetype filepath db = .ok () db' ∧
      Refines env (sets.replace {t | t ∈ newCandidates} filetype filepath) db' := by
  obtain ⟨map, caches⟩ := db
  obtain ⟨candidates, caches', hrun, hs, hbuilt, htexts⟩ := getElements_decodable h.sound hdec
  have hreference := h.getCandidateSet filetype filepath hs
  refine ⟨_, recreateIdentifiersNoLock_eq map hrun filetype filepath,
    hreference.assign filetype filepath candidates hs hbuilt (fun text => ?_)⟩
  rw [← List.mem_map, htexts, List.mem_map]
  rfl

/-- A loop refines the fold of what its rounds refine. -/
theorem forM_refines {β : Type} {l : List β} {body : β → DatabaseM Unit} {f : IdentifierSets → β → IdentifierSets}
    (hbody : ∀ b ∈ l, ∀ sets db, Refines env sets db → ∃ db', body b db = .ok () db' ∧ Refines env (f sets b) db')
    {sets : IdentifierSets} {db : IdentifierDatabase} (h : Refines env sets db) :
    ∃ db', l.forM body db = .ok () db' ∧ Refines env (l.foldl f sets) db' := by
  induction l generalizing sets db with
  | nil => exact ⟨db, rfl, h⟩
  | cons b l ih =>
    rw [List.forall_mem_cons] at hbody
    obtain ⟨db₁, hrun₁, h₁⟩ := hbody.1 sets db h
    obtain ⟨db₂, hrun₂, h₂⟩ := ih hbody.2 h₁
    refine ⟨db₂, ?_, h₂⟩
    change (body b >>= fun _ => l.forM body) db = _
    simp only [bind, EStateM.bind, hrun₁, hrun₂]

/-- A fold ends with what one of its steps establishes and the others keep. -/
private theorem foldl_of_mem {β σ : Type*} {f : σ → β → σ} {P : σ → Prop} {l : List β} {b : β} (hb : b ∈ l)
    (hset : ∀ s, P (f s b)) (hkeep : ∀ s, P s → ∀ b ∈ l, P (f s b)) (s : σ) : P (l.foldl f s) := by
  obtain ⟨pre, post, rfl⟩ := List.append_of_mem hb
  rw [List.foldl_append, List.foldl_cons]
  exact List.foldlRecOn post f (hset _) (fun s hs b hb => hkeep s hs b (by simp [hb]))

theorem mem_iterate_entries {α : Type} (map : AList (fun _ : Bytes => α)) (key : Bytes) (value : α) :
    ⟨key, value⟩ ∈ env.std.iterate map.entries ↔ map.lookup key = some value := by
  rw [(env.std.iterate_perm _).mem_iff, ← AList.mem_lookup_iff, Option.mem_def]

/-- Replacing the files of one filetype one by one, in any order, sets those it has. -/
theorem foldl_replace_files (sets : IdentifierSets) (filetype : Bytes) (paths : FilepathToIdentifiers) :
    (env.std.iterate paths.entries).foldl (fun sets file => sets.replace {t | t ∈ file.2} filetype file.1) sets =
      fun ft path => if ft = filetype then match paths.lookup path with
        | some identifiers => {t | t ∈ identifiers}
        | none => sets ft path
      else sets ft path := by
  funext ft path
  by_cases hft : ft = filetype
  · subst hft
    rw [if_pos rfl]
    cases hl : paths.lookup path with
    | some identifiers =>
      refine foldl_of_mem (P := fun sets => sets ft path = {t | t ∈ identifiers})
        ((mem_iterate_entries paths path identifiers).mpr hl) (fun sets => ?_) (fun sets hs file hfile => ?_) sets
      · simp [IdentifierSets.replace]
      · by_cases hpath : path = file.1
        · have := (mem_iterate_entries paths file.1 file.2).mp hfile
          rw [← hpath, hl] at this
          simp [IdentifierSets.replace, hpath, Option.some.inj this]
        · simpa [IdentifierSets.replace, hpath] using hs
    | none =>
      refine List.foldlRecOn (motive := fun s : IdentifierSets => s ft path = sets ft path) _ _ rfl
        (fun s hs file hfile => ?_)
      have := (mem_iterate_entries paths file.1 file.2).mp hfile
      have hpath : path ≠ file.1 := by
        rintro rfl
        simp [hl] at this
      simpa [IdentifierSets.replace, hpath] using hs
  · rw [if_neg hft]
    refine List.foldlRecOn (motive := fun s : IdentifierSets => s ft path = sets ft path) _ _ rfl
      (fun s hs file _ => ?_)
    simpa [IdentifierSets.replace, hft] using hs

theorem foldl_replaceAll (env : Environment) (sets : IdentifierSets) (map : FiletypeIdentifierMap) :
    (env.std.iterate map.entries).foldl (fun sets entry =>
      (env.std.iterate entry.2.entries).foldl
        (fun sets file => sets.replace {t | t ∈ file.2} entry.1 file.1) sets) sets = sets.replaceAll map := by
  simp only [foldl_replace_files]
  funext ft path
  unfold IdentifierSets.replaceAll
  cases hl : (map.lookup ft).bind (fun paths => paths.lookup path) with
  | some identifiers =>
    obtain ⟨paths, hpaths, hfile⟩ := Option.bind_eq_some_iff.mp hl
    refine foldl_of_mem (P := fun sets => sets ft path = {t | t ∈ identifiers})
      ((mem_iterate_entries map ft paths).mpr hpaths) (fun sets => ?_) (fun sets hs entry hentry => ?_) sets
    · simp only [if_true, hfile]
    · by_cases hft : ft = entry.1
      · have := (mem_iterate_entries map entry.1 entry.2).mp hentry
        rw [← hft, hpaths] at this
        simp only [hft, if_true, ← Option.some.inj this, hfile]
      · simpa only [hft, if_false] using hs
  | none =>
    refine List.foldlRecOn (motive := fun s : IdentifierSets => s ft path = sets ft path) _ _ rfl
      (fun s hs entry hentry => ?_)
    by_cases hft : ft = entry.1
    · have := (mem_iterate_entries map entry.1 entry.2).mp hentry
      rw [← hft] at this
      have hnone : entry.2.lookup path = none := by simpa [this] using hl
      simpa [← hft, hnone] using hs
    · simpa [hft] using hs

theorem recreateIdentifiersFromMap_refines {sets : IdentifierSets} {db : IdentifierDatabase}
    (h : Refines env sets db) {map : FiletypeIdentifierMap}
    (hdec : ∀ identifier ∈ (Operation.recreateIdentifiersFromMap map).identifiers, Decodable identifier) :
    ∃ db', recreateIdentifiersFromMap env map db = .ok () db' ∧ Refines env (sets.replaceAll map) db' := by
  rw [← foldl_replaceAll env]
  refine forM_refines (fun entry hentry sets db h => ?_) h
  refine forM_refines (fun file hfile sets db h => ?_) h
  refine recreateIdentifiersNoLock_refines h entry.1 file.1 (fun identifier hi => hdec identifier ?_)
  rw [(env.std.iterate_perm _).mem_iff] at hentry hfile
  exact List.mem_flatMap.mpr ⟨entry, hentry, List.mem_flatMap.mpr ⟨file, hfile, hi⟩⟩

theorem refines_empty : Refines env (fun _ _ => ∅) .empty where
  sound := candidatesSound_empty
  built := by simp [empty, candidateSet]
  texts := by simp [empty, candidateSet]

theorem perform_refines {sets : IdentifierSets} {db : IdentifierDatabase} (h : Refines env sets db)
    {op : Operation} (hdec : ∀ identifier ∈ op.identifiers, Decodable identifier) :
    ∃ db', op.perform env db = .ok () db' ∧ Refines env (op.apply sets) db' := by
  cases op with
  | addSingleIdentifier newCandidate filetype filepath =>
    exact addSingleIdentifier_refines h filetype filepath (hdec _ (List.mem_singleton_self _))
  | recreateIdentifiers newCandidates filetype filepath =>
    exact recreateIdentifiersNoLock_refines h filetype filepath hdec
  | recreateIdentifiersFromMap map => exact recreateIdentifiersFromMap_refines h hdec
  | resultsForQueryAndType query filetype maxResults =>
    obtain ⟨hmap, hs⟩ :=
      (computes_resultsForQueryAndType env db.1 query filetype maxResults).stateAfter ⟨rfl, h.sound⟩
    exact ⟨_, rfl, hs, hmap ▸ h.built, hmap ▸ h.texts⟩
  | getElements elements =>
    exact ⟨_, rfl, (computes_getElements elements).stateAfter h.sound, h.built, h.texts⟩

/-- No run of decodable identifiers throws, and every one ends in a database of its sets. -/
theorem run_refines (env : Environment) {ops : List Operation}
    (hdec : ∀ op ∈ ops, ∀ identifier ∈ op.identifiers, Decodable identifier) :
    ∃ db, Operation.run env ops .empty = .ok () db ∧
      Refines env (ops.foldl Operation.apply (fun _ _ => ∅)) db :=
  forM_refines (f := Operation.apply) (fun op hop _ _ h => perform_refines h (hdec op hop)) refines_empty

end IdentifierDatabase
end Ycmd.Core
