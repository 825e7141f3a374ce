import Ycmd.Core.Narrowing
import Ycmd.FilteredCandidates
import Mathlib.Data.List.Perm.Basic

/-! Objects that are filtered for a query and then for a narrower one, against those that are filtered for the
narrower one at once. -/
namespace Ycmd
open Lib Ycmd.Core

variable {env : Core.Environment} {key : String} {objects objects' filtered filtered' : List Json} {word word' : Word}
  {ranked ranked' : List (ResultAnd Nat)}

/-- Neither of two objects ranks before the other. -/
def RankTied (env : Core.Environment) (key : String) (query : Word) (object object' : Json) : Prop :=
  ∃ result result', RanksAs env key query object result ∧ RanksAs env key query object' result' ∧
    Equivalent Core.Result.less result result'

theorem RanksAs.functional {object : Json} {result result' : Core.Result} (h : RanksAs env key word object result)
    (h' : RanksAs env key word object result') : result = result' := by
  obtain ⟨s, hfind, candidate, hof, hmatch⟩ := h
  obtain ⟨s', hfind', candidate', hof', hmatch'⟩ := h'
  obtain rfl : s = s' := by simpa [hfind] using hfind'
  obtain rfl := Except.ok.inj (hof.symm.trans hof')
  exact Option.some.inj (hmatch.symm.trans hmatch')

/-- What passes for the narrower query passes. -/
theorem Passes.of_narrower {query narrower : Bytes} (hword : Word.of env query = .ok word)
    (hword' : Word.of env narrower = .ok word') (hnarrows : word.Narrows word') {object : Json}
    (h : Passes env key word' object) : Passes env key word object := by
  obtain ⟨s, hfind, hne, hlength, candidate, hof, hcontains, hsubsequence⟩ := h
  exact ⟨s, hfind, hne, hlength, candidate, hof, hnarrows.containsBytes hword hword' hcontains,
    hnarrows.hasSubsequence hsubsequence⟩

open Classical in
/-- The objects that are returned are those that pass, each as often as it was received. -/
theorem FilteredAndSorted.perm (h : FilteredAndSorted env objects key word ranked filtered) :
    filtered.Perm (objects.filter (fun object => Passes env key word object)) := by
  refine perm_filter_of_positions (List.forall₂_map_left_iff.mpr h.unchanged) h.once ?_
  intro i object hobject
  rw [h.passes i object hobject, decide_eq_true_iff]

/-- How the objects that are returned rank, in their order. -/
theorem FilteredAndSorted.results (h : FilteredAndSorted env objects key word ranked filtered) :
    List.Forall₂ (RanksAs env key word) filtered (ranked.map ResultAnd.result) := by
  rw [List.forall₂_map_right_iff, List.forall₂_iff_get]
  refine ⟨h.unchanged.length_eq.symm, fun i hi hi' => ?_⟩
  exact h.ranks _ (List.get_mem ranked ⟨i, hi'⟩) _ (h.unchanged.get hi' hi)

/-- The same objects, filtered and sorted for the same query, differ in the order of ties only. -/
theorem FilteredAndSorted.tied (h : FilteredAndSorted env objects key word ranked filtered)
    (h' : FilteredAndSorted env objects' key word ranked' filtered') (hperm : filtered.Perm filtered') :
    List.Forall₂ (RankTied env key word) filtered filtered' := by
  have hfunctional : Relator.RightUnique (RanksAs env key word) := fun _ _ _ hranks hranks' => hranks.functional hranks'
  have hresults : (ranked.map ResultAnd.result).Perm (ranked'.map ResultAnd.result) :=
    List.rel_perm_imp hfunctional h.results h'.results hperm
  have hsortable : Sortable Core.Result.less (ranked.map ResultAnd.result) := by
    refine @Result.sortable word _ (fun result hresult => ?_)
    obtain ⟨i, hi, rfl⟩ := List.getElem_of_mem hresult
    obtain ⟨-, -, candidate, -, hmatch⟩ := h.results.get (h.results.length_eq ▸ hi) hi
    exact Candidate.queryMatchResult_ranked hmatch
  have hequivalent : List.Forall₂ (Equivalent Core.Result.less) (ranked.map ResultAnd.result)
      (ranked'.map ResultAnd.result) :=
    SortedBy.equivalent (List.pairwise_map.mpr h.sorted) (List.pairwise_map.mpr h'.sorted) hresults.symm hsortable
  rw [List.forall₂_iff_get]
  refine ⟨hperm.length_eq, fun i hi hi' => ?_⟩
  have hi₁ := h.results.length_eq ▸ hi
  have hi₂ := h'.results.length_eq ▸ hi'
  exact ⟨_, _, h.results.get hi hi₁, h'.results.get hi' hi₂, hequivalent.get hi₁ hi₂⟩

theorem FilteredAndSorted.subset (h : FilteredAndSorted env objects key word ranked filtered) : filtered ⊆ objects := by
  intro object hobject
  obtain ⟨i, hi, rfl⟩ := List.getElem_of_mem hobject
  exact List.mem_of_getElem? (h.unchanged.get (h.unchanged.length_eq ▸ hi) hi)

/-- Where every object has a text the handler returns, whatever is cached. -/
theorem exists_filtered {caches : CandidateCache} (hs : CandidatesSound env caches)
    (htexts : ∀ object ∈ objects, ∃ s, object.find? key = some (.str s)) {query : String}
    (hword : Word.of env (utf8 query.toList) = .ok word) :
    ∃ handler ranked filtered after, handleFilterAndSortCandidates env ⟨objects, some key, query⟩ = .ok handler ∧
      handler caches = .ok filtered after ∧ FilteredAndSorted env objects key word ranked filtered := by
  obtain ⟨strings, hstrings, hforall⟩ := exists_strings htexts
  obtain ⟨candidates, hcandidates, hforall⟩ := exists_candidates env hforall
  obtain ⟨caches', helements, hs'⟩ := (computes_getElements strings).ok hs hcandidates
  obtain ⟨after, hmakeWord, -⟩ :=
    ((computes_makeWord (utf8 query.toList)).below (J := Memo.Sound (Candidate.of env))).ok hs' hword
  refine ⟨filterAndSort env matchingObjects ⟨objects, some key, query⟩ strings, _, _, after, ?_, ?_,
    filteredAndSorted_partialSort hforall word⟩
  · rw [handleFilterAndSortCandidates, hstrings]
    rfl
  · simp only [filterAndSort, bind, EStateM.bind, helements, hmakeWord]
    rfl

/-- Objects filtered for a query, and what is left for a narrower one, are the same objects in the same order of
ranks as when they are filtered for the narrower one at once, in whatever order they are sent. -/
theorem filters_compose (env : Core.Environment) {db db' db'' : IdentifierDatabase} (h : ProcessReachable env db)
    (h' : ProcessReachable env db') (h'' : ProcessReachable env db'') {objects objects' : List Json}
    (hobjects : objects.Perm objects') {key : String}
    (htexts : ∀ object ∈ objects, ∃ s, object.find? key = some (.str s)) {query narrower : String} {word word' : Word}
    (hword : Word.of env (utf8 query.toList) = .ok word) (hword' : Word.of env (utf8 narrower.toList) = .ok word')
    (hnarrows : word.Narrows word') :
    ∃ first second direct filtered twice once caches caches' caches'',
      handleFilterAndSortCandidates env ⟨objects, some key, query⟩ = .ok first ∧
      first db.2 = .ok filtered caches ∧
      handleFilterAndSortCandidates env ⟨filtered, some key, narrower⟩ = .ok second ∧
      second db'.2 = .ok twice caches' ∧
      handleFilterAndSortCandidates env ⟨objects', some key, narrower⟩ = .ok direct ∧
      direct db''.2 = .ok once caches'' ∧
      twice.Perm once ∧ List.Forall₂ (RankTied env key word') twice once := by
  obtain ⟨first, ranked, filtered, caches, hfirst, hfiltered, hsorted⟩ := exists_filtered h.built.2 htexts hword
  obtain ⟨second, ranked', twice, caches', hsecond, htwice, hsorted'⟩ :=
    exists_filtered h'.built.2 (fun object hobject => htexts object (hsorted.subset hobject)) hword'
  obtain ⟨direct, ranked'', once, caches'', hdirect, honce, hsorted''⟩ :=
    exists_filtered h''.built.2 (fun object hobject => htexts object (hobjects.symm.subset hobject)) hword'
  have hperm : twice.Perm once := by
    classical
    have hboth : (objects.filter (fun object => Passes env key word object)).filter
        (fun object => Passes env key word' object) = objects.filter (fun object => Passes env key word' object) := by
      rw [List.filter_filter]
      apply List.filter_congr
      intro object _
      rw [← Bool.decide_and, decide_eq_decide, and_iff_left_iff_imp]
      exact Passes.of_narrower hword hword' hnarrows
    apply hsorted'.perm.trans
    apply (hsorted.perm.filter _).trans
    rw [hboth]
    exact (hobjects.filter _).trans hsorted''.perm.symm
  exact ⟨first, second, direct, filtered, twice, once, caches, caches', caches'', hfirst, hfiltered, hsecond, htwice,
    hdirect, honce, hperm, hsorted'.tied hsorted'' hperm⟩

/-- One object has the texts of both queries in it, another that of the first one only; they are sent turned
round the second time. -/
theorem filters_compose_letters :
    let both := Json.obj [("text", .str "Aa")]
    let one := Json.obj [("text", .str "A")]
    ∃ first second direct filtered twice once caches caches' caches'',
      handleFilterAndSortCandidates IdentifierDatabase.letterEnvironment ⟨[both, one], some "text", "A"⟩ = .ok first ∧
      first IdentifierDatabase.empty.2 = .ok filtered caches ∧
      handleFilterAndSortCandidates IdentifierDatabase.letterEnvironment ⟨filtered, some "text", "Aa"⟩ = .ok second ∧
      second IdentifierDatabase.empty.2 = .ok twice caches' ∧
      handleFilterAndSortCandidates IdentifierDatabase.letterEnvironment ⟨[one, both], some "text", "Aa"⟩ = .ok direct ∧
      direct IdentifierDatabase.empty.2 = .ok once caches'' ∧ twice.Perm once := by
  intro both one
  have hempty : ProcessReachable IdentifierDatabase.letterEnvironment .empty := .empty
  have hwords : (do
      let word ← Word.of IdentifierDatabase.letterEnvironment (utf8 "A".toList)
      let word' ← Word.of IdentifierDatabase.letterEnvironment (utf8 "Aa".toList)
      return word.characters.isSublist word'.characters) = Except.ok true := by
    decide +kernel
  obtain ⟨word, hword, hwords⟩ := bind_ok hwords
  obtain ⟨word', hword', hwords⟩ := bind_ok hwords
  have htexts : ∀ object ∈ [both, one], ∃ s, object.find? "text" = some (.str s) := by
    simp only [List.forall_mem_cons]
    exact ⟨⟨_, rfl⟩, ⟨_, rfl⟩, by simp⟩
  obtain ⟨first, second, direct, filtered, twice, once, caches, caches', caches'', hfirst, hfiltered, hsecond, htwice,
      hdirect, honce, hperm, -⟩ :=
    filters_compose IdentifierDatabase.letterEnvironment hempty hempty hempty (List.Perm.swap one both []) htexts hword
      hword' (List.isSublist_iff_sublist.mp (Except.ok.inj hwords))
  exact ⟨first, second, direct, filtered, twice, once, caches, caches', caches'', hfirst, hfiltered, hsecond, htwice,
    hdirect, honce, hperm⟩

end Ycmd
