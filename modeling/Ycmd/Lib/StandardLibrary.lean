import Mathlib.Data.List.Sort
import Mathlib.Data.List.AList

/-! What the C++ standard promises of the sorting algorithms and of iterating a hash map,
and nothing an implementation is free to choose. -/
namespace Lib
variable {α : Type}

/-- The comparison is a strict weak order on the elements of the range. -/
def Sortable (lt : α → α → Bool) (l : List α) : Prop :=
  IsStrictWeakOrder {a // a ∈ l} (fun a b => lt a.1 b.1 = true)

/-- No element of the range is less than one before it. -/
def SortedBy (lt : α → α → Bool) (l : List α) : Prop := l.Pairwise (fun a b => lt b a = false)

/-- The algorithms of one implementation; their results are permutations of the range. -/
structure StandardLibrary where
  sort : {α : Type} → (α → α → Bool) → List α → List α
  partialSort : {α : Type} → (α → α → Bool) → Nat → List α → List α
  nthElement : {α : Type} → (α → α → Bool) → Nat → List α → List α
  /-- The order in which a hash map yields its entries. -/
  iterate : {α : Type} → List α → List α
  sort_perm : ∀ {α : Type} {lt : α → α → Bool} {l : List α}, Sortable lt l → (sort lt l).Perm l
  sort_sorted : ∀ {α : Type} {lt : α → α → Bool} {l : List α}, Sortable lt l → SortedBy lt (sort lt l)
  partialSort_perm : ∀ {α : Type} {lt : α → α → Bool} {n : Nat} {l : List α}, n ≤ l.length →
    Sortable lt l → (partialSort lt n l).Perm l
  partialSort_sorted : ∀ {α : Type} {lt : α → α → Bool} {n : Nat} {l : List α}, n ≤ l.length →
    Sortable lt l → SortedBy lt ((partialSort lt n l).take n)
  partialSort_least : ∀ {α : Type} {lt : α → α → Bool} {n : Nat} {l : List α}, n ≤ l.length →
    Sortable lt l → ∀ a ∈ (partialSort lt n l).take n, ∀ b ∈ (partialSort lt n l).drop n, lt b a = false
  nthElement_perm : ∀ {α : Type} {lt : α → α → Bool} {n : Nat} {l : List α}, n ≤ l.length →
    Sortable lt l → (nthElement lt n l).Perm l
  nthElement_least : ∀ {α : Type} {lt : α → α → Bool} {n : Nat} {l : List α}, n ≤ l.length →
    Sortable lt l → ∀ a ∈ (nthElement lt n l).take n, ∀ b ∈ (nthElement lt n l).drop n, lt b a = false
  iterate_perm : ∀ {α : Type} (l : List α), (iterate l).Perm l

/-- A comparison of keys in a linear order is a strict weak order. -/
theorem strictWeakOrder_of_key {α κ : Type*} [LinearOrder κ] {lt : α → α → Prop} (key : α → κ)
    (h : ∀ a b, lt a b ↔ key a < key b) : IsStrictWeakOrder α lt where
  irrefl a := by simp [h]
  trans a b c hab hbc := (h a c).mpr (((h a b).mp hab).trans ((h b c).mp hbc))
  incomp_trans a b c hab hbc := by
    simp only [h, not_lt] at hab hbc ⊢
    exact ⟨hbc.1.trans hab.1, hab.2.trans hbc.2⟩

theorem sortable_of_key {κ : Type} [LinearOrder κ] {lt : α → α → Bool} {l : List α} (key : α → κ)
    (h : ∀ a ∈ l, ∀ b ∈ l, lt a b = true ↔ key a < key b) : Sortable lt l :=
  strictWeakOrder_of_key (fun a => key a.1) (fun a b => h a.1 a.2 b.1 b.2)

theorem Sortable.mono {lt : α → α → Bool} {l l' : List α} (h : Sortable lt l) (hl : l' ⊆ l) :
    Sortable lt l' where
  irrefl a := h.irrefl ⟨a, hl a.2⟩
  trans a b c := h.trans ⟨a, hl a.2⟩ ⟨b, hl b.2⟩ ⟨c, hl c.2⟩
  incomp_trans a b c := h.incomp_trans ⟨a, hl a.2⟩ ⟨b, hl b.2⟩ ⟨c, hl c.2⟩

theorem Sortable.not_lt_trans {lt : α → α → Bool} {l : List α} (h : Sortable lt l) {a b c : α}
    (ha : a ∈ l) (hb : b ∈ l) (hc : c ∈ l) (hab : lt b a = false) (hbc : lt c b = false) :
    lt c a = false := by
  have trans := fun (x y z : {a // a ∈ l}) => h.trans x y z
  have incomp := h.incomp_trans ⟨a, ha⟩ ⟨b, hb⟩ ⟨c, hc⟩
  cases hca : lt c a with
  | false => rfl
  | true =>
    cases hab' : lt a b with
    | true => exact absurd (trans ⟨c, hc⟩ ⟨a, ha⟩ ⟨b, hb⟩ hca hab') (by simp [hbc])
    | false =>
      cases hbc' : lt b c with
      | true => exact absurd (trans ⟨b, hb⟩ ⟨c, hc⟩ ⟨a, ha⟩ hbc' hca) (by simp [hab])
      | false =>
        have := incomp (by simp [hab, hab']) (by simp [hbc, hbc'])
        simp [hca] at this

theorem Sortable.not_lt_total {lt : α → α → Bool} {l : List α} (h : Sortable lt l) {a b : α}
    (ha : a ∈ l) (hb : b ∈ l) : lt b a = false ∨ lt a b = false := by
  cases hba : lt b a with
  | false => exact .inl rfl
  | true =>
    cases hab : lt a b with
    | false => exact .inr rfl
    | true => exact absurd (h.trans ⟨a, ha⟩ ⟨b, hb⟩ ⟨a, ha⟩ hab hba) (h.irrefl ⟨a, ha⟩)

theorem SortedBy.take_drop {lt : α → α → Bool} {l : List α} (h : SortedBy lt l) (n : Nat) :
    SortedBy lt (l.take n) ∧ ∀ a ∈ l.take n, ∀ b ∈ l.drop n, lt b a = false := by
  rw [SortedBy, ← List.take_append_drop n l, List.pairwise_append] at h
  exact ⟨h.1, h.2.2⟩

namespace StandardLibrary

private def insertionSort (lt : α → α → Bool) (l : List α) : List α :=
  (l.attach.insertionSort (fun a b => lt b.1 a.1 = false)).map Subtype.val

private theorem insertionSort_perm (lt : α → α → Bool) (l : List α) : (insertionSort lt l).Perm l := by
  have := (List.perm_insertionSort (fun a b : {a // a ∈ l} => lt b.1 a.1 = false) l.attach).map Subtype.val
  rwa [List.attach_map_subtype_val] at this

private theorem insertionSort_sorted {lt : α → α → Bool} {l : List α} (h : Sortable lt l) :
    SortedBy lt (insertionSort lt l) := by
  let le := fun a b : {a // a ∈ l} => lt b.1 a.1 = false
  have : Std.Total le := ⟨fun a b => h.not_lt_total a.2 b.2⟩
  have : IsTrans _ le := ⟨fun a b c => h.not_lt_trans a.2 b.2 c.2⟩
  exact List.pairwise_map.mpr (List.pairwise_insertionSort le l.attach)

/-- An implementation that sorts whole ranges by insertion and iterates in the stored order. -/
def insertion : StandardLibrary where
  sort := insertionSort
  partialSort lt _ := insertionSort lt
  nthElement lt _ := insertionSort lt
  iterate l := l
  sort_perm _ := insertionSort_perm _ _
  sort_sorted := insertionSort_sorted
  partialSort_perm _ _ := insertionSort_perm _ _
  partialSort_sorted _ h := ((insertionSort_sorted h).take_drop _).1
  partialSort_least _ h := ((insertionSort_sorted h).take_drop _).2
  nthElement_perm _ _ := insertionSort_perm _ _
  nthElement_least _ h := ((insertionSort_sorted h).take_drop _).2
  iterate_perm l := .refl l

theorem insertion_sort_eq (lt : α → α → Bool) (l : List α) :
    insertion.sort lt l = l.insertionSort (fun a b => lt b a = false) := by
  change (l.attach.insertionSort _).map Subtype.val = _
  rw [List.map_insertionSort _ (fun a b => lt b a = false) Subtype.val l.attach (fun _ _ _ _ => Iff.rfl),
    List.attach_map_subtype_val]

/-- A library that sorts otherwise than by insertion whenever there is another way. -/
theorem exists_contrary : ∃ std : StandardLibrary, ∀ {α : Type} (lt : α → α → Bool) (l : List α),
    std.sort lt l = insertion.sort lt l →
      ∀ result : List α, result.Perm l → SortedBy lt result → result = insertion.sort lt l := by
  classical
  refine ⟨{ insertion with
    sort := fun lt l =>
      if h : ∃ result : List _, result.Perm l ∧ SortedBy lt result ∧ result ≠ insertion.sort lt l then h.choose
      else insertion.sort lt l
    sort_perm := ?_
    sort_sorted := ?_ }, ?_⟩
  · intro α lt l h
    split
    · rename_i hother
      exact hother.choose_spec.1
    · exact insertion.sort_perm h
  · intro α lt l h
    split
    · rename_i hother
      exact hother.choose_spec.2.1
    · exact insertion.sort_sorted h
  · intro α lt l heq result hperm hsorted
    by_contra hne
    have hother : ∃ result : List α, result.Perm l ∧ SortedBy lt result ∧ result ≠ insertion.sort lt l :=
      ⟨result, hperm, hsorted, hne⟩
    exact hother.choose_spec.2.2 ((dif_pos hother).symm.trans heq)

/-- Sorting by insertion keeps the order of elements that may stay where they are. -/
theorem insertion_stable {lt : α → α → Bool} {l : List α} {a b : α} (hab : lt b a = false)
    (h : List.Sublist [a, b] l) : List.Sublist [a, b] (insertion.sort lt l) := by
  have hattach : List.Sublist [a, b] (l.attach.map Subtype.val) := by rwa [List.attach_map_subtype_val]
  obtain ⟨pair, hpair, hmap⟩ := List.sublist_map_iff.mp hattach
  obtain ⟨a', rest, rfl, rfl, hrest⟩ := List.map_eq_cons_iff.mp hmap.symm
  obtain ⟨b', rest', rfl, rfl, hnil⟩ := List.map_eq_cons_iff.mp hrest
  obtain rfl := List.map_eq_nil_iff.mp hnil
  exact (List.pair_sublist_insertionSort (r := fun a b => lt b.1 a.1 = false) hab hpair).map Subtype.val

/-- Libraries that differ at most in the order in which they go through hash maps. -/
structure SameAlgorithms (std std' : StandardLibrary) : Prop where
  sort : ∀ {α : Type} (lt : α → α → Bool), std'.sort lt = std.sort lt
  partialSort : ∀ {α : Type} (lt : α → α → Bool), std'.partialSort lt = std.partialSort lt
  nthElement : ∀ {α : Type} (lt : α → α → Bool), std'.nthElement lt = std.nthElement lt

theorem SameAlgorithms.refl (std : StandardLibrary) : std.SameAlgorithms std :=
  ⟨fun _ => rfl, fun _ => rfl, fun _ => rfl⟩

/-- Any order is the order of some library. -/
theorem exists_iterate (std : StandardLibrary) {β : Type} {l l' : List β} (h : l'.Perm l) :
    ∃ std', std.SameAlgorithms std' ∧ std'.iterate l = l' := by
  classical
  refine ⟨{ std with
    iterate := fun {α} m =>
      if heq : (⟨α, m⟩ : Σ γ : Type, List γ) = ⟨β, l⟩ then cast (congrArg List (congrArg Sigma.fst heq).symm) l'
      else std.iterate m
    iterate_perm := ?_ }, ⟨fun _ => rfl, fun _ => rfl, fun _ => rfl⟩, ?_⟩
  · intro α m
    dsimp only
    split
    · rename_i heq
      cases heq
      exact h
    · exact std.iterate_perm m
  · exact dif_pos rfl

/-- An implementation that begins to sort at the end of the range. -/
def backwards : StandardLibrary where
  sort lt l := insertion.sort lt l.reverse
  partialSort := insertion.partialSort
  nthElement := insertion.nthElement
  iterate := insertion.iterate
  sort_perm h := (insertion.sort_perm (h.mono (List.reverse_perm _).subset)).trans (List.reverse_perm _)
  sort_sorted h := insertion.sort_sorted (h.mono (List.reverse_perm _).subset)
  partialSort_perm := insertion.partialSort_perm
  partialSort_sorted := insertion.partialSort_sorted
  partialSort_least := insertion.partialSort_least
  nthElement_perm := insertion.nthElement_perm
  nthElement_least := insertion.nthElement_least
  iterate_perm := insertion.iterate_perm

/-- A library that sorts by insertion what is not compared asymmetrically throughout its type, and
otherwise as a given library does. -/
theorem exists_insertion_beside (std : StandardLibrary) : ∃ beside : StandardLibrary,
    (∀ {α : Type} (lt : α → α → Bool), (∀ a b, lt a b = true → lt b a = false) → beside.sort lt = std.sort lt) ∧
    (∀ {α : Type} (lt : α → α → Bool), ¬ (∀ a b, lt a b = true → lt b a = false) →
      beside.sort lt = insertion.sort lt) ∧
    (∀ {α : Type} (lt : α → α → Bool) (n : Nat), beside.partialSort lt n = insertion.sort lt ∧
      beside.nthElement lt n = insertion.sort lt) ∧
    ∀ {α : Type} (l : List α), beside.iterate l = l := by
  classical
  refine ⟨{ insertion with
    sort := fun {α} lt l => if ∀ a b : α, lt a b = true → lt b a = false then std.sort lt l else insertion.sort lt l
    sort_perm := ?_
    sort_sorted := ?_ }, ?_, ?_, fun _ _ => ⟨rfl, rfl⟩, fun _ => rfl⟩
  · intro α lt l h
    split
    · exact std.sort_perm h
    · exact insertion.sort_perm h
  · intro α lt l h
    split
    · exact std.sort_sorted h
    · exact insertion.sort_sorted h
  · intro α lt h
    funext l
    exact if_pos h
  · intro α lt h
    funext l
    exact if_neg h

end StandardLibrary
end Lib
