import Ycmd.Lib.StandardLibrary

/-! The smallest elements of a range in their order: what an algorithm that selects them returns, up to
the order of equivalent elements. -/
namespace Lib
variable {α : Type} {lt : α → α → Bool} {l kept kept' : List α} {k : Nat}

/-- Neither is less than the other. -/
def Equivalent (lt : α → α → Bool) (a b : α) : Prop := lt a b = false ∧ lt b a = false

/-- Of the elements of the range these are the smallest `k`, sorted; none of the others is less. -/
structure Smallest (lt : α → α → Bool) (l : List α) (k : Nat) (kept : List α) : Prop where
  length : kept.length = k
  sorted : SortedBy lt kept
  least : ∃ removed, (kept ++ removed).Perm l ∧ ∀ a ∈ kept, ∀ b ∈ removed, lt b a = false

/-- An algorithm that leaves such a prefix leaves the smallest elements in it. -/
theorem Smallest.of_take {result : List α} (hk : k ≤ l.length) (hperm : result.Perm l)
    (hsorted : SortedBy lt (result.take k)) (hleast : ∀ a ∈ result.take k, ∀ b ∈ result.drop k, lt b a = false) :
    Smallest lt l k (result.take k) where
  length := List.length_take_of_le (hperm.length_eq ▸ hk)
  sorted := hsorted
  least := ⟨result.drop k, by rwa [List.take_append_drop], hleast⟩

/-- The smallest of all elements are all of them. -/
theorem Smallest.perm (h : Smallest lt l l.length kept) : kept.Perm l := by
  obtain ⟨removed, hperm, -⟩ := h.least
  have hlength := hperm.length_eq
  rw [List.length_append, h.length, Nat.add_eq_left, List.length_eq_zero_iff] at hlength
  rwa [hlength, List.append_nil] at hperm

/-- Only the elements kept before it can be less than a kept one. -/
theorem Smallest.countP_lt_le (h : Smallest lt l k kept) (hsortable : Sortable lt l) {i : Nat} (hi : i < kept.length) :
    l.countP (fun x => lt x kept[i]) ≤ i := by
  obtain ⟨removed, hperm, hleast⟩ := h.least
  have hsplit : kept = kept.take i ++ kept[i] :: kept.drop (i+1) := by
    rw [← List.drop_eq_getElem_cons hi, List.take_append_drop]
  have hsorted := h.sorted
  rw [SortedBy, hsplit, List.pairwise_append, List.pairwise_cons] at hsorted
  have hmem : kept[i] ∈ l := hperm.subset (List.mem_append_left removed (List.getElem_mem hi))
  have hrest : (kept[i] :: kept.drop (i+1) ++ removed).countP (fun x => lt x kept[i]) = 0 := by
    rw [List.countP_eq_zero]
    intro x hx
    rw [Bool.not_eq_true]
    rcases List.mem_append.mp hx with hx | hx
    · rcases List.mem_cons.mp hx with rfl | hx
      · exact Bool.eq_false_iff.mpr (hsortable.irrefl ⟨kept[i], hmem⟩)
      · exact hsorted.2.1.1 x hx
    · exact hleast _ (List.getElem_mem hi) x hx
  calc l.countP (fun x => lt x kept[i])
      = (kept ++ removed).countP (fun x => lt x kept[i]) := (hperm.countP_eq _).symm
    _ = (kept.take i).countP (fun x => lt x kept[i]) +
          (kept[i] :: kept.drop (i+1) ++ removed).countP (fun x => lt x kept[i]) := by
        rw [← List.countP_append, ← List.append_assoc, ← hsplit]
    _ ≤ i := by
        rw [hrest, Nat.add_zero]
        exact List.countP_le_length.trans (List.length_take_le i kept)

/-- All elements kept up to one are less than what that one is less than. -/
theorem Smallest.lt_countP (h : Smallest lt l k kept) (hsortable : Sortable lt l) {i : Nat} (hi : i < kept.length)
    {b : α} (hb : b ∈ l) (hlt : lt kept[i] b = true) : i < l.countP (fun x => lt x b) := by
  obtain ⟨removed, hperm, -⟩ := h.least
  have hmem : ∀ {x}, x ∈ kept → x ∈ l := fun hx => hperm.subset (List.mem_append_left removed hx)
  have hall : ∀ x ∈ kept.take (i+1), lt x b = true := by
    intro x hx
    obtain ⟨j, hj, rfl⟩ := List.mem_take_iff_getElem.mp hx
    by_contra hnot
    have hle : lt kept[i] kept[j] = false := by
      rcases Nat.lt_or_eq_of_le (show j ≤ i by omega) with hji | rfl
      · exact List.pairwise_iff_getElem.mp h.sorted j i (by omega) hi hji
      · exact Bool.eq_false_iff.mpr (hsortable.irrefl ⟨kept[j], hmem (List.getElem_mem _)⟩)
    have := hsortable.not_lt_trans hb (hmem (List.getElem_mem (by omega : j < kept.length)))
      (hmem (List.getElem_mem hi)) (Bool.eq_false_iff.mpr hnot) hle
    rw [hlt] at this
    cases this
  calc i < (kept.take (i+1)).length := by rw [List.length_take]; omega
    _ = (kept.take (i+1)).countP (fun x => lt x b) := (List.countP_eq_length.mpr hall).symm
    _ ≤ (kept ++ removed).countP (fun x => lt x b) :=
        List.Sublist.countP_le ((List.take_sublist _ _).trans (List.sublist_append_left _ _))
    _ = l.countP (fun x => lt x b) := hperm.countP_eq _

theorem Smallest.not_lt (h : Smallest lt l k kept) (h' : Smallest lt l k kept') (hsortable : Sortable lt l) {i : Nat}
    (hi : i < kept.length) (hi' : i < kept'.length) : lt kept[i] kept'[i] = false := by
  by_contra hlt
  obtain ⟨removed, hperm, -⟩ := h'.least
  have hmem : kept'[i] ∈ l := hperm.subset (List.mem_append_left removed (List.getElem_mem hi'))
  have hlower := h.lt_countP hsortable hi hmem (Bool.not_eq_false _ ▸ hlt)
  have hupper := h'.countP_lt_le hsortable hi'
  omega

/-- The smallest elements in their order are determined up to equivalence. -/
theorem Smallest.equivalent (h : Smallest lt l k kept) (h' : Smallest lt l k kept') (hsortable : Sortable lt l) :
    List.Forall₂ (Equivalent lt) kept kept' := by
  rw [List.forall₂_iff_get]
  refine ⟨h.length.trans h'.length.symm, fun i hi hi' => ⟨?_, ?_⟩⟩
  · exact h.not_lt h' hsortable hi hi'
  · exact h'.not_lt h hsortable hi' hi

/-- Two sorted orders of the same elements agree position by position, up to equivalence. -/
theorem SortedBy.equivalent (h : SortedBy lt kept) (h' : SortedBy lt kept') (hperm : kept'.Perm kept)
    (hsortable : Sortable lt kept) : List.Forall₂ (Equivalent lt) kept kept' :=
  Smallest.equivalent (l := kept) ⟨rfl, h, [], by simp, by simp⟩
    ⟨hperm.length_eq, h', [], by simpa using hperm, by simp⟩ hsortable

/-- The elements at positions taken once each are those that pass, when these are the positions that pass. -/
theorem perm_filter_of_positions {p : α → Bool} {positions : List Nat}
    (h : List.Forall₂ (fun i a => l[i]? = some a) positions kept) (honce : positions.Nodup)
    (hpasses : ∀ i a, l[i]? = some a → (i ∈ positions ↔ p a = true)) : kept.Perm (l.filter p) := by
  have hpositions : (kept.zip positions).map Prod.snd = positions := List.map_snd_zip (Nat.le_of_eq h.length_eq)
  have hmem : ∀ c, c ∈ kept.zip positions ↔ c ∈ l.zipIdx.filter (fun c => p c.1) := by
    rintro ⟨a, i⟩
    rw [List.mem_filter, List.mem_zipIdx_iff_getElem?]
    constructor
    · intro hmem
      obtain ⟨j, hj, heq⟩ := List.getElem_of_mem hmem
      rw [List.length_zip] at hj
      rw [List.getElem_zip] at heq
      obtain ⟨rfl, rfl⟩ := Prod.mk.inj heq
      have hget := h.get (Nat.lt_of_lt_of_le hj (Nat.min_le_right _ _)) (Nat.lt_of_lt_of_le hj (Nat.min_le_left _ _))
      exact ⟨hget, (hpasses _ _ hget).mp (List.getElem_mem _)⟩
    · rintro ⟨hget, hpass⟩
      obtain ⟨j, hj, rfl⟩ := List.getElem_of_mem ((hpasses i a hget).mpr hpass)
      have hj' : j < kept.length := h.length_eq ▸ hj
      obtain rfl : kept[j] = a := Option.some.inj ((h.get hj hj').symm.trans hget)
      exact List.mem_iff_getElem.mpr ⟨j, by rw [List.length_zip]; omega, List.getElem_zip⟩
  have hzip : (kept.zip positions).Perm (l.zipIdx.filter (fun c => p c.1)) :=
    (List.perm_ext_iff_of_nodup (hpositions.symm ▸ honce).of_map
      ((List.nodup_zipIdx_map_snd l).of_map.filter _)).mpr hmem
  have hfst : (l.zipIdx.filter (fun c => p c.1)).map Prod.fst = l.filter p := by
    change (l.zipIdx.filter (p ∘ Prod.fst)).map Prod.fst = l.filter p
    rw [← List.filter_map, List.zipIdx_map_fst]
  rw [← hfst, ← List.map_fst_zip (Nat.le_of_eq h.length_eq.symm)]
  exact hzip.map Prod.fst

/-- With the other elements behind them, sorted too, all elements are sorted. -/
theorem Smallest.exists_sorted (h : Smallest lt l k kept) (hsortable : Sortable lt l) :
    ∃ rest, (kept ++ rest).Perm l ∧ SortedBy lt (kept ++ rest) := by
  obtain ⟨removed, hperm, hleast⟩ := h.least
  have hremoved : Sortable lt removed := hsortable.mono (fun a ha => hperm.subset (List.mem_append_right kept ha))
  have hsort := StandardLibrary.insertion.sort_perm hremoved
  refine ⟨StandardLibrary.insertion.sort lt removed, (hsort.append_left kept).trans hperm, ?_⟩
  refine List.pairwise_append.mpr ⟨h.sorted, StandardLibrary.insertion.sort_sorted hremoved, ?_⟩
  intro a ha b hb
  exact hleast a ha b (hsort.subset hb)

end Lib
