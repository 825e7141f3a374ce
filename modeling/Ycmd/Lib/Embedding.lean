import Mathlib.Data.List.Forall2

/-! Embeddings of a list in another along a relation, and the one that takes every position as soon as it
can. -/
namespace Lib
variable {α β : Type} {related : α → β → Bool}

/-- Increasing positions of the second list at which the elements of the first, in order, are related to
its own. -/
structure Embedding (related : α → β → Bool) (l : List α) (m : List β) (positions : List Nat) : Prop where
  increasing : positions.Pairwise (· < ·)
  matching : List.Forall₂ (fun a i => ∃ b, m[i]? = some b ∧ related a b = true) l positions

/-- The same for the rest of a list, whose positions begin at `start`. -/
structure EmbeddingFrom (related : α → β → Bool) (start : Nat) (l : List α) (m : List β) (positions : List Nat) :
    Prop where
  increasing : positions.Pairwise (· < ·)
  start_le : ∀ i ∈ positions, start ≤ i
  matching : List.Forall₂ (fun a i => ∃ b, m[i - start]? = some b ∧ related a b = true) l positions

/-- Takes the first position it can for every element. -/
def firstPositions (related : α → β → Bool) (start : Nat) : List α → List β → Option (List Nat)
  | [], _ => some []
  | _ :: _, [] => none
  | a :: l, b :: m =>
    if related a b then (firstPositions related (start+1) l m).map (start :: ·)
    else firstPositions related (start+1) (a :: l) m

theorem embeddingFrom_zero {l : List α} {m : List β} {positions : List Nat} :
    EmbeddingFrom related 0 l m positions ↔ Embedding related l m positions :=
  ⟨fun h => ⟨h.increasing, h.matching⟩, fun h => ⟨h.increasing, fun _ _ => Nat.zero_le _, h.matching⟩⟩

namespace EmbeddingFrom
variable {start : Nat} {a : α} {b : β} {l : List α} {m : List β}
  {positions : List Nat}

theorem nil : EmbeddingFrom related start [] m [] := ⟨.nil, by simp, .nil⟩

/-- A position after the first is one of the rest. -/
private theorem getElem?_after {i : Nat} (h : start + 1 ≤ i) : (b :: m)[i - start]? = m[i - (start+1)]? := by
  rw [show i - start = (i - (start+1)) + 1 by omega, List.getElem?_cons_succ]

private theorem matching_after (h : ∀ i ∈ positions, start + 1 ≤ i) :
    List.Forall₂ (fun a i => ∃ b', (b :: m)[i - start]? = some b' ∧ related a b' = true) l positions ↔
      List.Forall₂ (fun a i => ∃ b', m[i - (start+1)]? = some b' ∧ related a b' = true) l positions := by
  induction l generalizing positions with
  | nil => simp
  | cons a l ih =>
    cases positions with
    | nil => simp
    | cons i positions =>
      rw [List.forall_mem_cons] at h
      rw [List.forall₂_cons, List.forall₂_cons, ih h.2, getElem?_after h.1]

theorem skip (h : EmbeddingFrom related (start+1) l m positions) :
    EmbeddingFrom related start l (b :: m) positions :=
  ⟨h.increasing, fun i hi => Nat.le_of_succ_le (h.start_le i hi), (matching_after h.start_le).mpr h.matching⟩

theorem cons (hab : related a b = true) (h : EmbeddingFrom related (start+1) l m positions) :
    EmbeddingFrom related start (a :: l) (b :: m) (start :: positions) where
  increasing := List.pairwise_cons.mpr ⟨h.start_le, h.increasing⟩
  start_le := List.forall_mem_cons.mpr ⟨Nat.le_refl start, (h.skip (b := b)).start_le⟩
  matching := .cons ⟨b, by simp, hab⟩ h.skip.matching

/-- Where the first element goes, and that the others go after it. -/
theorem cons_inv (h : EmbeddingFrom related start (a :: l) (b :: m) positions) :
    ∃ i rest, positions = i :: rest ∧ start ≤ i ∧ (i = start → related a b = true) ∧
      EmbeddingFrom related (start+1) l m rest ∧
      (start < i → EmbeddingFrom related (start+1) (a :: l) m positions) := by
  obtain ⟨hincreasing, hle, hmatching⟩ := h
  obtain ⟨i, rest, hi, hrest, rfl⟩ := List.forall₂_cons_left_iff.mp hmatching
  rw [List.pairwise_cons] at hincreasing
  rw [List.forall_mem_cons] at hle
  have hafter : ∀ j ∈ rest, start + 1 ≤ j := fun j hj =>
    Nat.lt_of_le_of_lt hle.1 (hincreasing.1 j hj)
  refine ⟨i, rest, rfl, hle.1, ?_, ⟨hincreasing.2, hafter, (matching_after hafter).mp hrest⟩, ?_⟩
  · rintro rfl
    obtain ⟨b', hb', hab'⟩ := hi
    rw [Nat.sub_self, List.getElem?_cons_zero] at hb'
    rwa [Option.some.inj hb']
  · intro hlt
    have hall : ∀ j ∈ i :: rest, start + 1 ≤ j := List.forall_mem_cons.mpr ⟨hlt, hafter⟩
    exact ⟨List.pairwise_cons.mpr hincreasing, hall, (matching_after hall).mp (.cons hi hrest)⟩

end EmbeddingFrom

theorem embeddingFrom_firstPositions {start : Nat} {l : List α} {m : List β} {positions : List Nat}
    (h : firstPositions related start l m = some positions) : EmbeddingFrom related start l m positions := by
  induction m generalizing start l positions with
  | nil =>
    cases l with
    | nil =>
      obtain rfl := Option.some.inj h
      exact .nil
    | cons a l => cases h
  | cons b m ih =>
    cases l with
    | nil =>
      obtain rfl := Option.some.inj h
      exact .nil
    | cons a l =>
      rw [firstPositions] at h
      split at h
      · obtain ⟨rest, hrest, rfl⟩ := Option.map_eq_some_iff.mp h
        exact (ih hrest).cons ‹_›
      · exact (ih h).skip

/-- Of all embeddings the one found is the least at every element. -/
theorem EmbeddingFrom.first_le {start : Nat} {l : List α} {m : List β} {positions : List Nat}
    (h : EmbeddingFrom related start l m positions) :
    ∃ first, firstPositions related start l m = some first ∧ List.Forall₂ (· ≤ ·) first positions := by
  induction m generalizing start l positions with
  | nil =>
    cases l with
    | nil =>
      rw [List.forall₂_nil_left_iff.mp h.matching]
      exact ⟨[], rfl, .nil⟩
    | cons a l =>
      obtain ⟨i, rest, ⟨b, hb, -⟩, -, -⟩ := List.forall₂_cons_left_iff.mp h.matching
      simp at hb
  | cons b m ih =>
    cases l with
    | nil =>
      rw [List.forall₂_nil_left_iff.mp h.matching]
      exact ⟨[], rfl, .nil⟩
    | cons a l =>
      obtain ⟨i, rest, rfl, hle, hrelated, hrest, hlater⟩ := h.cons_inv
      rw [firstPositions]
      split
      · obtain ⟨first, hfirst, hfirst_le⟩ := ih hrest
        exact ⟨start :: first, by rw [hfirst, Option.map_some], .cons hle hfirst_le⟩
      · rename_i hnot
        exact ih (hlater (Nat.lt_of_le_of_ne hle (fun heq => hnot (hrelated heq.symm))))

theorem forall₂_exists_left {γ : Type} {R : α → γ → Prop} {l : List α} {n : List γ} (h : List.Forall₂ R l n)
    {c : γ} (hc : c ∈ n) : ∃ a ∈ l, R a c := by
  induction h with
  | nil => cases hc
  | cons hac _ ih =>
    rcases List.mem_cons.mp hc with rfl | hc
    · exact ⟨_, List.mem_cons_self, hac⟩
    · obtain ⟨a, ha, hR⟩ := ih hc
      exact ⟨a, List.mem_cons_of_mem _ ha, hR⟩

/-- The last of increasing numbers is as small as it can be exactly when there are no gaps. -/
theorem getLast_increasing {l : List Nat} {start : Nat} (hne : l ≠ []) (h : l.Pairwise (· < ·))
    (hle : ∀ i ∈ l, start ≤ i) :
    start + l.length ≤ l.getLast hne + 1 ∧
      (start + l.length = l.getLast hne + 1 → l = List.range' start l.length) := by
  induction l generalizing start with
  | nil => exact absurd rfl hne
  | cons i l ih =>
    rw [List.forall_mem_cons] at hle
    rw [List.pairwise_cons] at h
    cases l with
    | nil =>
      have := hle.1
      simp only [List.length_singleton, List.getLast_singleton]
      refine ⟨by omega, fun heq => ?_⟩
      obtain rfl : start = i := by omega
      rfl
    | cons j l =>
      have hafter : ∀ k ∈ j :: l, start + 1 ≤ k := fun k hk =>
        Nat.lt_of_le_of_lt hle.1 (h.1 k hk)
      obtain ⟨hlast, hnone⟩ := ih (by simp) h.2 hafter
      rw [List.getLast_cons (by simp), List.length_cons]
      refine ⟨by omega, fun heq => ?_⟩
      have hrest := hnone (by omega)
      have hij := h.1 j List.mem_cons_self
      have hj : j = start + 1 := by
        rw [List.length_cons, List.range'_succ] at hrest
        exact (List.cons.inj hrest).1
      have := hle.1
      obtain rfl : i = start := by omega
      rw [List.range'_succ, ← hrest]

theorem Embedding.length_le {l : List α} {m : List β} {positions : List Nat}
    (h : Embedding related l m positions) : l.length ≤ m.length := by
  rw [h.matching.length_eq]
  by_cases hne : positions = []
  · rw [hne]
    exact Nat.zero_le _
  · obtain ⟨hlast, -⟩ := getLast_increasing hne h.increasing (fun _ _ => Nat.zero_le _)
    obtain ⟨a, -, b, hb, -⟩ := forall₂_exists_left h.matching (List.getLast_mem hne)
    have := (List.getElem?_eq_some_iff.mp hb).1
    omega

/-- The elements at the beginning of the second list are related to those of the first. -/
def RelatedPrefix (related : α → β → Bool) (l : List α) (m : List β) : Prop :=
  ∀ (i : Nat) (a : α), l[i]? = some a → ∃ b, m[i]? = some b ∧ related a b = true

theorem embedding_range_iff {l : List α} {m : List β} :
    Embedding related l m (List.range l.length) ↔ RelatedPrefix related l m := by
  constructor
  · rintro ⟨-, hmatching⟩ i a ha
    obtain ⟨hi, rfl⟩ := List.getElem?_eq_some_iff.mp ha
    have := hmatching.get hi (by simpa using hi)
    simpa using this
  · intro h
    refine ⟨List.pairwise_lt_range, List.forall₂_iff_get.mpr ⟨by simp, fun i hi hi' => ?_⟩⟩
    simpa using h i l[i] (List.getElem?_eq_getElem hi)

theorem firstPositions_isSome_iff {l : List α} {m : List β} :
    (firstPositions related 0 l m).isSome = true ↔ ∃ positions, Embedding related l m positions := by
  constructor
  · intro h
    obtain ⟨positions, hpositions⟩ := Option.isSome_iff_exists.mp h
    exact ⟨positions, embeddingFrom_zero.mp (embeddingFrom_firstPositions hpositions)⟩
  · rintro ⟨positions, h⟩
    obtain ⟨first, hfirst, -⟩ := (embeddingFrom_zero.mpr h).first_le
    rw [hfirst]
    rfl

/-- The last position alone tells whether the first list is a prefix. -/
theorem firstPositions_prefix {l : List α} {m : List β} {first : List Nat}
    (h : firstPositions related 0 l m = some first) (hne : first ≠ []) :
    first.getLastD 0 + 1 = l.length ↔ RelatedPrefix related l m := by
  rw [List.getLastD_eq_getLast?, List.getLast?_eq_some_getLast hne, Option.getD_some]
  have hembedding := embeddingFrom_firstPositions h
  have hlength := hembedding.matching.length_eq
  obtain ⟨hlast, hnone⟩ := getLast_increasing hne hembedding.increasing hembedding.start_le
  rw [Nat.zero_add, ← hlength] at hlast hnone
  rw [← embedding_range_iff]
  constructor
  · intro heq
    have := hnone heq.symm
    rw [← List.range_eq_range'] at this
    rw [← this]
    exact embeddingFrom_zero.mp hembedding
  · intro hrange
    obtain ⟨first', hfirst', hle⟩ := (embeddingFrom_zero.mpr hrange).first_le
    obtain rfl := Option.some.inj (h.symm.trans hfirst')
    have hlt : first.length - 1 < first.length := Nat.sub_lt (List.length_pos_iff.mpr hne) Nat.one_pos
    have := hle.get hlt (by rw [List.length_range, hlength]; exact hlt)
    simp only [List.get_eq_getElem, List.getElem_range] at this
    rw [List.getLast_eq_getElem] at hlast ⊢
    omega

end Lib
