import Mathlib.Data.List.Perm.Basic
import Mathlib.Data.Set.Basic

/-! Writers that take the place of one another at the keys they mention: what the last of them leaves, and what
is left in whichever order they come. -/
namespace Lib
variable {W K : Type} {mentions gives : W → K → Prop}

/-- The last of the writers that mention the key gives it. -/
def LastGives (mentions gives : W → K → Prop) (order : List W) (k : K) : Prop :=
  ∃ before w after, order = before ++ w :: after ∧ gives w k ∧ ∀ later ∈ after, ¬ mentions later k

theorem not_lastGives_nil (k : K) : ¬ LastGives mentions gives [] k := by
  rintro ⟨before, w, after, h, -⟩
  simp at h

/-- The first writer counts where none of the others mentions the key. -/
theorem lastGives_cons {w : W} {order : List W} {k : K} :
    LastGives mentions gives (w :: order) k ↔
      LastGives mentions gives order k ∨ gives w k ∧ ∀ later ∈ order, ¬ mentions later k := by
  constructor
  · rintro ⟨before, last, after, heq, hgives, hafter⟩
    cases before with
    | nil =>
      obtain ⟨rfl, rfl⟩ := List.cons.inj heq
      exact .inr ⟨hgives, hafter⟩
    | cons first before => exact .inl ⟨before, last, after, (List.cons.inj heq).2, hgives, hafter⟩
  · rintro (⟨before, last, after, rfl, hgives, hafter⟩ | ⟨hgives, hnone⟩)
    · exact ⟨w :: before, last, after, rfl, hgives, hafter⟩
    · exact ⟨[], w, order, rfl, hgives, hnone⟩

/-- Some of the writers, each of which gives a key that only they mention. -/
structure Kernel (mentions gives : W → K → Prop) (writers : List W) (kernel : Set W) : Prop where
  nonempty : ∃ w ∈ writers, w ∈ kernel
  gives : ∀ w ∈ writers, w ∈ kernel → ∃ k, gives w k ∧ ∀ w' ∈ writers, mentions w' k → w' ∈ kernel

/-- A list has a last element in a set that it meets. -/
theorem exists_last_mem {order : List W} {kernel : Set W} (h : ∃ w ∈ order, w ∈ kernel) :
    ∃ before w after, order = before ++ w :: after ∧ w ∈ kernel ∧ ∀ later ∈ after, later ∉ kernel := by
  induction order with
  | nil => simp at h
  | cons first order ih =>
    by_cases hrest : ∃ w ∈ order, w ∈ kernel
    · obtain ⟨before, w, after, rfl, hw, hafter⟩ := ih hrest
      exact ⟨first :: before, w, after, rfl, hw, hafter⟩
    · obtain ⟨w, hmem, hw⟩ := h
      rcases List.mem_cons.mp hmem with rfl | hmem
      · exact ⟨[], w, order, rfl, hw, fun later hlater hkernel => hrest ⟨later, hlater, hkernel⟩⟩
      · exact absurd ⟨w, hmem, hw⟩ hrest

/-- In every order the last writer of a kernel is not overwritten. -/
theorem Kernel.lastGives {writers order : List W} {kernel : Set W} (h : Kernel mentions gives writers kernel)
    (hperm : order.Perm writers) : ∃ k, LastGives mentions gives order k := by
  obtain ⟨w, hw, hkernel⟩ := h.nonempty
  obtain ⟨before, last, after, rfl, hlast, hafter⟩ := exists_last_mem ⟨w, hperm.mem_iff.mpr hw, hkernel⟩
  obtain ⟨k, hgives, honly⟩ := h.gives last (hperm.subset (by simp)) hlast
  refine ⟨k, before, last, after, rfl, hgives, ?_⟩
  intro later hlater hmentions
  exact hafter later hlater (honly later (hperm.subset (by simp [hlater])) hmentions)

/-- Without a kernel one more writer can be put before those that already leave nothing. -/
theorem exists_next {writers remaining order : List W} (hmentions : ∀ w k, gives w k → mentions w k)
    (hno : ∀ kernel, ¬ Kernel mentions gives writers kernel) (hperm : (remaining ++ order).Perm writers)
    (hnone : ∀ k, ¬ LastGives mentions gives order k) (hne : remaining ≠ []) :
    ∃ w before after, remaining = before ++ w :: after ∧ ∀ k, ¬ LastGives mentions gives (w :: order) k := by
  have hstep : ∃ w ∈ remaining, ∀ k, gives w k → ∃ w' ∈ order, mentions w' k := by
    by_cases hall : ∀ w ∈ remaining, w ∈ order
    · obtain ⟨w, hw⟩ := List.exists_mem_of_ne_nil _ hne
      exact ⟨w, hw, fun k hk => ⟨w, hall w hw, hmentions w k hk⟩⟩
    · simp only [not_forall] at hall
      obtain ⟨w, hw, hnew⟩ := hall
      by_contra hnot
      refine hno {w | w ∉ order} ⟨⟨w, hperm.subset (List.mem_append_left _ hw), hnew⟩, ?_⟩
      intro w' hw' hnew'
      have hremaining : w' ∈ remaining := (List.mem_append.mp (hperm.mem_iff.mpr hw')).resolve_right hnew'
      by_contra hgives
      refine hnot ⟨w', hremaining, ?_⟩
      intro k hk
      by_contra hlater
      refine hgives ⟨k, hk, ?_⟩
      intro other _ hother hin
      exact hlater ⟨other, hin, hother⟩
  obtain ⟨w, hw, hoverwritten⟩ := hstep
  obtain ⟨before, after, hsplit⟩ := List.append_of_mem hw
  refine ⟨w, before, after, hsplit, ?_⟩
  intro k hlast
  rcases lastGives_cons.mp hlast with hlast | ⟨hgives, hlater⟩
  · exact hnone k hlast
  · obtain ⟨w', hw', hmention⟩ := hoverwritten k hgives
    exact hlater w' hw' hmention

/-- Without a kernel the writers can be put in an order that leaves nothing. -/
theorem exists_order {writers : List W} (remaining order : List W) (hmentions : ∀ w k, gives w k → mentions w k)
    (hno : ∀ kernel, ¬ Kernel mentions gives writers kernel) (hperm : (remaining ++ order).Perm writers)
    (hnone : ∀ k, ¬ LastGives mentions gives order k) :
    ∃ order', order'.Perm writers ∧ ∀ k, ¬ LastGives mentions gives order' k := by
  induction hn : remaining.length generalizing remaining order with
  | zero =>
    rw [List.length_eq_zero_iff] at hn
    subst hn
    exact ⟨order, hperm, hnone⟩
  | succ n ih =>
    have hne : remaining ≠ [] := List.ne_nil_of_length_eq_add_one hn
    obtain ⟨w, before, after, rfl, hnext⟩ := exists_next hmentions hno hperm hnone hne
    refine ih (before ++ after) (w :: order) ?_ hnext ?_
    · refine List.Perm.trans ?_ hperm
      rw [List.append_assoc, List.append_assoc]
      exact List.Perm.append_left before List.perm_middle
    · simp only [List.length_append, List.length_cons] at hn ⊢
      omega

/-- Something is left in every order exactly when there is a kernel. -/
theorem lastGives_every_order_iff {writers : List W} (hmentions : ∀ w k, gives w k → mentions w k) :
    (∀ order, order.Perm writers → ∃ k, LastGives mentions gives order k) ↔
      ∃ kernel, Kernel mentions gives writers kernel := by
  constructor
  · intro h
    by_contra hno
    obtain ⟨order, hperm, hnone⟩ := exists_order writers [] hmentions (not_exists.mp hno)
      (by rw [List.append_nil]) not_lastGives_nil
    obtain ⟨k, hk⟩ := h order hperm
    exact hnone k hk
  · rintro ⟨kernel, hkernel⟩ order hperm
    exact hkernel.lastGives hperm

end Lib
