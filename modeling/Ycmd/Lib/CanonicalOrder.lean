import Mathlib.Data.List.Sort
import Mathlib.Logic.Relation

/-! Sequences some elements of which may be exchanged with their neighbours. Every element has a class:
those of class zero stay where they are, and the runs between them are ordered by class, those of one class
as they came. -/
namespace Lib
variable {α : Type}

/-- Sorted by a key, with the elements of each key as they came. -/
structure StableSorted (key : α → Nat) (l result : List α) : Prop where
  sorted : result.Pairwise (fun a b => key a ≤ key b)
  stable : ∀ k, result.filter (key · = k) = l.filter (key · = k)

/-- The elements of class zero stay where they are, and the runs between them are related. -/
inductive Runwise (cls : α → Nat) (related : List α → List α → Prop) : List α → List α → Prop where
  | last {run run' : List α} (hrun : ∀ a ∈ run, cls a ≠ 0) (h : related run run') :
    Runwise cls related run run'
  | starter {run run' : List α} {a : α} {l l' : List α} (hrun : ∀ a ∈ run, cls a ≠ 0) (h : related run run')
    (ha : cls a = 0) (rest : Runwise cls related l l') : Runwise cls related (run ++ a :: l) (run' ++ a :: l')

/-- One exchange of neighbours that are out of order. -/
inductive Exchange (cls : α → Nat) : List α → List α → Prop where
  | swap (before : List α) {a b : α} (after : List α) (hb : 0 < cls b) (hlt : cls b < cls a) :
    Exchange cls (before ++ a :: b :: after) (before ++ b :: a :: after)

/-- Sequences that exchanges, made or undone, turn into each other. -/
abbrev Exchangeable (cls : α → Nat) : List α → List α → Prop := Relation.EqvGen (Exchange cls)

/-- No run has two different elements of one class. -/
def NoTies (cls : α → Nat) (l : List α) : Prop :=
  ∀ run ∈ l.splitOnP (cls · == 0), ∀ a ∈ run, ∀ b ∈ run, cls a = cls b → a = b

/-- Inserts an element before the first that it may not be exchanged with. -/
def exchangeIn (cls : α → Nat) (a : α) : List α → List α
  | [] => [a]
  | b :: l => if 0 < cls b ∧ cls b < cls a then b :: exchangeIn cls a l else a :: b :: l

def canonicalOrder (cls : α → Nat) (l : List α) : List α := l.foldr (exchangeIn cls) []

variable {cls : α → Nat}

/-- A sequence is a run, or a run before an element of class zero and another sequence. -/
@[elab_as_elim]
theorem runs_induction {motive : List α → Prop} (last : ∀ run, (∀ a ∈ run, cls a ≠ 0) → motive run)
    (starter : ∀ run a l, (∀ a ∈ run, cls a ≠ 0) → cls a = 0 → motive l → motive (run ++ a :: l))
    (l : List α) : motive l := by
  suffices h : ∀ run, (∀ a ∈ run, cls a ≠ 0) → motive (run ++ l) from h [] (by simp)
  induction l with
  | nil =>
    intro run hrun
    rw [List.append_nil]
    exact last run hrun
  | cons a l ih =>
    intro run hrun
    by_cases ha : cls a = 0
    · exact starter run a l hrun ha (ih [] (by simp))
    · rw [← List.singleton_append, ← List.append_assoc]
      exact ih (run ++ [a]) (List.forall_mem_append.mpr ⟨hrun, by simpa using ha⟩)

section StableSorted
variable {key : α → Nat} {l result result' : List α}

theorem StableSorted.perm (h : StableSorted key l result) : result.Perm l := by
  classical
  rw [List.perm_iff_count]
  intro a
  have := congrArg (List.count a) (h.stable (key a))
  rwa [List.count_filter (by simp), List.count_filter (by simp)] at this

private theorem eq_of_sorted_of_filter (h : result.Pairwise (fun a b => key a ≤ key b))
    (h' : result'.Pairwise (fun a b => key a ≤ key b))
    (heq : ∀ k, result.filter (key · = k) = result'.filter (key · = k)) : result = result' := by
  have hsame (a : α) : a ∈ result ↔ a ∈ result' := by
    have := congrArg (a ∈ ·) (heq (key a))
    simpa using this
  induction result generalizing result' with
  | nil =>
    cases result' with
    | nil => rfl
    | cons b result' => simpa using (hsame b).mpr List.mem_cons_self
  | cons a result ih =>
    cases result' with
    | nil => simpa using (hsame a).mp List.mem_cons_self
    | cons b result' =>
      rw [List.pairwise_cons] at h h'
      have hle : key a ≤ key b := by
        rcases List.mem_cons.mp ((hsame b).mpr List.mem_cons_self) with rfl | hb
        · exact Nat.le_refl _
        · exact h.1 b hb
      have hge : key b ≤ key a := by
        rcases List.mem_cons.mp ((hsame a).mp List.mem_cons_self) with rfl | ha
        · exact Nat.le_refl _
        · exact h'.1 a ha
      have hkey : key b = key a := Nat.le_antisymm hge hle
      have hfirst := heq (key a)
      rw [List.filter_cons_of_pos (by simp), List.filter_cons_of_pos (by simpa using hkey)] at hfirst
      obtain rfl := (List.cons.inj hfirst).1
      have hrest (k : Nat) : result.filter (key · = k) = result'.filter (key · = k) := by
        have := heq k
        by_cases hk : key a = k
        · rw [List.filter_cons_of_pos (by simpa using hk), List.filter_cons_of_pos (by simpa using hk)] at this
          exact (List.cons.inj this).2
        · rwa [List.filter_cons_of_neg (by simpa using hk), List.filter_cons_of_neg (by simpa using hk)] at this
      rw [ih h.2 h'.2 hrest]
      intro c
      have := congrArg (c ∈ ·) (hrest (key c))
      simpa using this

theorem StableSorted.unique (h : StableSorted key l result) (h' : StableSorted key l result') : result = result' :=
  eq_of_sorted_of_filter h.sorted h'.sorted (fun k => (h.stable k).trans (h'.stable k).symm)

end StableSorted

section CanonicalOrder

theorem exchangeIn_of_starter {a : α} (ha : cls a = 0) (l : List α) : exchangeIn cls a l = a :: l := by
  cases l with
  | nil => rfl
  | cons b l => rw [exchangeIn, if_neg (by omega)]

theorem exchangeIn_append {a : α} {l : List α} {b : α} (hb : cls b = 0) (l' : List α) :
    exchangeIn cls a (l ++ b :: l') = exchangeIn cls a l ++ b :: l' := by
  induction l with
  | nil => exact if_neg (by omega)
  | cons c l ih =>
    rw [List.cons_append, exchangeIn, exchangeIn]
    split
    · rw [ih, List.cons_append]
    · rfl

/-- Runs are ordered each by itself. -/
theorem canonicalOrder_append {a : α} (ha : cls a = 0) (l l' : List α) :
    canonicalOrder cls (l ++ a :: l') = canonicalOrder cls l ++ a :: canonicalOrder cls l' := by
  induction l with
  | nil => exact exchangeIn_of_starter ha _
  | cons b l ih =>
    change exchangeIn cls b (canonicalOrder cls (l ++ a :: l')) = _
    rw [ih, exchangeIn_append ha]
    rfl

theorem mem_exchangeIn {a b : α} {l : List α} : b ∈ exchangeIn cls a l ↔ b = a ∨ b ∈ l := by
  induction l with
  | nil => simp [exchangeIn]
  | cons c l ih =>
    rw [exchangeIn]
    split
    · rw [List.mem_cons, ih, List.mem_cons, or_left_comm]
    · exact List.mem_cons

theorem mem_canonicalOrder {a : α} {l : List α} : a ∈ canonicalOrder cls l ↔ a ∈ l := by
  induction l with
  | nil => rfl
  | cons b l ih =>
    change a ∈ exchangeIn cls b (canonicalOrder cls l) ↔ _
    rw [mem_exchangeIn, ih, List.mem_cons]

private theorem filter_exchangeIn (k : Nat) (a : α) (l : List α) :
    (exchangeIn cls a l).filter (cls · = k) = (a :: l).filter (cls · = k) := by
  induction l with
  | nil => rfl
  | cons b l ih =>
    rw [exchangeIn]
    split
    · rename_i hlt
      by_cases hb : cls b = k
      · rw [List.filter_cons_of_pos (by simpa using hb), ih, List.filter_cons_of_neg (by simp; omega),
          List.filter_cons_of_neg (by simp; omega), List.filter_cons_of_pos (by simpa using hb)]
      · rw [List.filter_cons_of_neg (by simpa using hb), ih, List.filter_cons, List.filter_cons,
          List.filter_cons_of_neg (by simpa using hb)]
    · rfl

private theorem sorted_exchangeIn {a : α} {l : List α} (h : l.Pairwise (fun a b => cls a ≤ cls b))
    (hl : ∀ b ∈ l, cls b ≠ 0) : (exchangeIn cls a l).Pairwise (fun a b => cls a ≤ cls b) := by
  induction l with
  | nil => exact List.pairwise_singleton _ a
  | cons b l ih =>
    have hcons := List.pairwise_cons.mp h
    rw [List.forall_mem_cons] at hl
    rw [exchangeIn]
    split
    · rename_i hlt
      refine List.pairwise_cons.mpr ⟨fun c hc => ?_, ih hcons.2 hl.2⟩
      rcases mem_exchangeIn.mp hc with rfl | hc
      · exact Nat.le_of_lt hlt.2
      · exact hcons.1 c hc
    · rename_i hnot
      have hab : cls a ≤ cls b := by
        have := hl.1
        omega
      refine List.pairwise_cons.mpr ⟨fun c hc => ?_, h⟩
      rcases List.mem_cons.mp hc with rfl | hc
      · exact hab
      · exact Nat.le_trans hab (hcons.1 c hc)

/-- Without elements of class zero it is a stable sort. -/
theorem stableSorted_canonicalOrder {run : List α} (h : ∀ a ∈ run, cls a ≠ 0) :
    StableSorted cls run (canonicalOrder cls run) := by
  induction run with
  | nil => exact ⟨.nil, fun _ => rfl⟩
  | cons a run ih =>
    rw [List.forall_mem_cons] at h
    obtain ⟨hsorted, hstable⟩ := ih h.2
    refine ⟨sorted_exchangeIn hsorted (fun b hb => h.2 b (mem_canonicalOrder.mp hb)), fun k => ?_⟩
    change (exchangeIn cls a (canonicalOrder cls run)).filter _ = _
    rw [filter_exchangeIn, List.filter_cons, hstable, List.filter_cons]

theorem canonicalOrder_run {run : List α} (h : ∀ a ∈ run, cls a ≠ 0) :
    canonicalOrder cls run = run.insertionSort (fun a b => cls a ≤ cls b) := by
  have hinsert (a : α) (l : List α) (hl : ∀ b ∈ l, cls b ≠ 0) :
      exchangeIn cls a l = l.orderedInsert (fun a b => cls a ≤ cls b) a := by
    induction l with
    | nil => rfl
    | cons b l ih =>
      rw [List.forall_mem_cons] at hl
      rw [exchangeIn, List.orderedInsert_cons, ih hl.2]
      by_cases hle : cls a ≤ cls b
      · rw [if_pos hle, if_neg (by omega)]
      · rw [if_neg hle, if_pos ⟨Nat.pos_of_ne_zero hl.1, Nat.lt_of_not_le hle⟩]
  induction run with
  | nil => rfl
  | cons a run ih =>
    rw [List.forall_mem_cons] at h
    rw [List.insertionSort_cons, ← ih h.2]
    exact hinsert a _ (fun b hb => h.2 b (mem_canonicalOrder.mp hb))

/-- The runs are sorted stably in this order and in no other. -/
theorem runwise_stableSorted_iff {l l' : List α} :
    Runwise cls (StableSorted cls) l l' ↔ l' = canonicalOrder cls l := by
  constructor
  · intro h
    induction h with
    | last hrun h => exact h.unique (stableSorted_canonicalOrder hrun)
    | starter hrun h ha _ ih => rw [canonicalOrder_append ha, ← ih, h.unique (stableSorted_canonicalOrder hrun)]
  · rintro rfl
    induction l using @runs_induction _ cls with
    | last run hrun => exact .last hrun (stableSorted_canonicalOrder hrun)
    | starter run a l hrun ha ih =>
      rw [canonicalOrder_append ha]
      exact .starter hrun (stableSorted_canonicalOrder hrun) ha ih

end CanonicalOrder

section Exchangeable

private theorem exchangeIn_comm {a b : α} (hb : 0 < cls b) (hlt : cls b < cls a) (l : List α) :
    exchangeIn cls a (exchangeIn cls b l) = exchangeIn cls b (exchangeIn cls a l) := by
  induction l with
  | nil =>
    have hab : ¬ (0 < cls a ∧ cls a < cls b) := by omega
    simp only [exchangeIn, if_pos (And.intro hb hlt), if_neg hab]
  | cons c l ih =>
    by_cases hc : 0 < cls c ∧ cls c < cls b
    · have hca : 0 < cls c ∧ cls c < cls a := ⟨hc.1, Nat.lt_trans hc.2 hlt⟩
      simp only [exchangeIn, if_pos hc, if_pos hca, ih]
    · by_cases hca : 0 < cls c ∧ cls c < cls a
      · simp only [exchangeIn, if_neg hc, if_pos hca, if_pos (And.intro hb hlt)]
      · have hab : ¬ (0 < cls a ∧ cls a < cls b) := by omega
        simp only [exchangeIn, if_neg hc, if_neg hca, if_pos (And.intro hb hlt), if_neg hab]

theorem Exchange.canonicalOrder_eq {l l' : List α} (h : Exchange cls l l') :
    canonicalOrder cls l = canonicalOrder cls l' := by
  obtain ⟨before, after, hb, hlt⟩ := h
  induction before with
  | nil => exact exchangeIn_comm hb hlt _
  | cons c before ih => exact congrArg (exchangeIn cls c) ih

theorem Exchange.cons {l l' : List α} (a : α) (h : Exchange cls l l') : Exchange cls (a :: l) (a :: l') := by
  obtain ⟨before, after, hb, hlt⟩ := h
  exact .swap (a :: before) after hb hlt

theorem Exchangeable.cons {l l' : List α} (a : α) (h : Exchangeable cls l l') :
    Exchangeable cls (a :: l) (a :: l') := by
  induction h with
  | rel l l' h => exact .rel _ _ (h.cons a)
  | refl l => exact .refl _
  | symm l l' _ ih => exact .symm _ _ ih
  | trans l l' l'' _ _ ih ih' => exact .trans _ _ _ ih ih'

private theorem exchangeable_exchangeIn (a : α) (l : List α) : Exchangeable cls (a :: l) (exchangeIn cls a l) := by
  induction l with
  | nil => exact .refl _
  | cons b l ih =>
    rw [exchangeIn]
    split
    · rename_i hb
      exact .trans _ _ _ (.rel _ _ (.swap [] l hb.1 hb.2)) (ih.cons b)
    · exact .refl _

theorem exchangeable_canonicalOrder (l : List α) : Exchangeable cls l (canonicalOrder cls l) := by
  induction l with
  | nil => exact .refl _
  | cons a l ih => exact .trans _ _ _ (ih.cons a) (exchangeable_exchangeIn a _)

/-- Sequences can be exchanged for each other exactly when they are put in the same order. -/
theorem exchangeable_iff {l l' : List α} : Exchangeable cls l l' ↔ canonicalOrder cls l = canonicalOrder cls l' := by
  constructor
  · intro h
    induction h with
    | rel l l' h => exact h.canonicalOrder_eq
    | refl l => rfl
    | symm l l' _ ih => exact ih.symm
    | trans l l' l'' _ _ ih ih' => exact ih.trans ih'
  · intro h
    refine .trans _ _ _ (exchangeable_canonicalOrder l) ?_
    rw [h]
    exact .symm _ _ (exchangeable_canonicalOrder l')

end Exchangeable

namespace Runwise
variable {related related' : List α → List α → Prop} {l l' : List α}

theorem imp (himp : ∀ run run', (∀ a ∈ run, cls a ≠ 0) → related run run' → related' run run')
    (h : Runwise cls related l l') : Runwise cls related' l l' := by
  induction h with
  | last hrun h => exact .last hrun (himp _ _ hrun h)
  | starter hrun h ha _ ih => exact .starter hrun (himp _ _ hrun h) ha ih

theorem perm (h : Runwise cls List.Perm l l') : l.Perm l' := by
  induction h with
  | last _ h => exact h
  | starter _ h _ _ ih => exact h.append (ih.cons _)

/-- What has class zero keeps its position. -/
theorem getElem?_starter (h : Runwise cls List.Perm l l') {i : Nat} {a : α} (ha : cls a = 0) :
    l[i]? = some a ↔ l'[i]? = some a := by
  induction h generalizing i with
  | last hrun h =>
    have hnone : ∀ run : List α, (∀ b ∈ run, cls b ≠ 0) → run[i]? ≠ some a := by
      intro run hrun heq
      exact hrun a (List.mem_of_getElem? heq) ha
    exact iff_of_false (hnone _ hrun) (hnone _ (fun b hb => hrun b (h.mem_iff.mpr hb)))
  | @starter run run' b l l' hrun h hb _ ih =>
    have hlength := h.length_eq
    by_cases hi : i < run.length
    · rw [List.getElem?_append_left hi, List.getElem?_append_left (hlength ▸ hi)]
      refine iff_of_false (fun heq => ?_) (fun heq => ?_)
      · exact hrun a (List.mem_of_getElem? heq) ha
      · exact hrun a (h.mem_iff.mpr (List.mem_of_getElem? heq)) ha
    · rw [List.getElem?_append_right (by omega), List.getElem?_append_right (by omega), hlength]
      cases i - run'.length with
      | zero => rfl
      | succ i => exact ih

end Runwise

section NoTies
variable {key : α → Nat} {l result : List α}

/-- Without ties a sorted permutation keeps the order. -/
theorem stableSorted_of_perm (hties : ∀ a ∈ l, ∀ b ∈ l, key a = key b → a = b) (hperm : result.Perm l)
    (hsorted : result.Pairwise (fun a b => key a ≤ key b)) : StableSorted key l result := by
  refine ⟨hsorted, fun k => ?_⟩
  have hfilter := hperm.filter (key · = k)
  cases hl : l.filter (key · = k) with
  | nil =>
    rw [hl] at hfilter
    exact hfilter.eq_nil
  | cons a rest =>
    have hall : ∀ b ∈ l.filter (key · = k), b = a := by
      have hmem : a ∈ l.filter (key · = k) := by rw [hl]; exact List.mem_cons_self
      intro b hb
      rw [List.mem_filter, decide_eq_true_eq] at hb hmem
      exact hties b hb.1 a hmem.1 (hb.2.trans hmem.2.symm)
    rw [List.eq_replicate_of_mem hall, List.perm_replicate] at hfilter
    rw [hfilter, ← hl, List.eq_replicate_of_mem hall, List.length_replicate]

/-- If there is one way to sort a run, then it has no ties: its order tells any of them apart. -/
theorem ties_eq_of_unique {run : List α} (hrun : ∀ a ∈ run, cls a ≠ 0)
    (hunique : ∀ result : List α, result.Perm run → result.Pairwise (fun a b => cls a ≤ cls b) →
      result = canonicalOrder cls run) : ∀ a ∈ run, ∀ b ∈ run, cls a = cls b → a = b := by
  classical
  have hfirst : ∀ a ∈ run, ((canonicalOrder cls run).filter (cls · = cls a)).head? = some a := by
    intro a ha
    have hperm : (a :: run.erase a).Perm run := (List.perm_cons_erase ha).symm
    have hstable := stableSorted_canonicalOrder (fun b hb => hrun b (hperm.mem_iff.mp hb))
    rw [← hunique _ (hstable.perm.trans hperm) hstable.sorted, hstable.stable, List.filter_cons_of_pos (by simp),
      List.head?_cons]
  intro a ha b hb hcls
  have hb' := hfirst b hb
  rw [← hcls, hfirst a ha] at hb'
  exact Option.some.inj hb'

theorem noTies_run {run : List α} (hrun : ∀ a ∈ run, cls a ≠ 0) :
    NoTies cls run ↔ ∀ a ∈ run, ∀ b ∈ run, cls a = cls b → a = b := by
  rw [NoTies, List.splitOnP_eq_singleton (by simpa using hrun)]
  simp

theorem noTies_append {run : List α} {a : α} (ha : cls a = 0) (l : List α) :
    NoTies cls (run ++ a :: l) ↔ NoTies cls run ∧ NoTies cls l := by
  rw [NoTies, List.splitOnP_append_cons _ _ (by simpa using ha), List.forall_mem_append]
  rfl

theorem noTies_congr {l l' : List α} (h : Runwise cls List.Perm l l') : NoTies cls l ↔ NoTies cls l' := by
  have hruns : ∀ {run run' : List α}, (∀ a ∈ run, cls a ≠ 0) → run.Perm run' → (NoTies cls run ↔ NoTies cls run') := by
    intro run run' hrun hperm
    rw [noTies_run hrun, noTies_run (fun a ha => hrun a (hperm.mem_iff.mpr ha))]
    simp only [hperm.mem_iff]
  induction h with
  | last hrun h => exact hruns hrun h
  | starter hrun h ha _ ih =>
    rw [noTies_append ha, noTies_append ha]
    exact and_congr (hruns hrun h) ih

/-- Where there are no ties, any sorting of the runs puts them in the canonical order. -/
theorem Runwise.stableSorted {l' : List α}
    (h : Runwise cls (fun run run' => run'.Perm run ∧ run'.Pairwise (fun a b => cls a ≤ cls b)) l l')
    (hties : NoTies cls l) : Runwise cls (StableSorted cls) l l' := by
  induction h with
  | last hrun h => exact .last hrun (stableSorted_of_perm ((noTies_run hrun).mp hties) h.1 h.2)
  | starter hrun h ha _ ih =>
    obtain ⟨htie, hrest⟩ := (noTies_append ha _).mp hties
    exact .starter hrun (stableSorted_of_perm ((noTies_run hrun).mp htie) h.1 h.2) ha (ih hrest)

/-- Conversely, where the canonical order is reached, each of the runs has been put in it. -/
theorem Runwise.noTies {related : List α → List α → Prop} {l' : List α} (h : Runwise cls related l l')
    (hperm : ∀ run run', related run run' → run'.Perm run)
    (hties : ∀ run, (∀ a ∈ run, cls a ≠ 0) → related run (canonicalOrder cls run) → NoTies cls run)
    (heq : l' = canonicalOrder cls l) : NoTies cls l := by
  induction h with
  | last hrun h =>
    subst heq
    exact hties _ hrun h
  | @starter run run' a l l' hrun h ha _ ih =>
    rw [canonicalOrder_append ha] at heq
    have hlength : run'.length = (canonicalOrder cls run).length :=
      (hperm run run' h).length_eq.trans (stableSorted_canonicalOrder hrun).perm.length_eq.symm
    obtain ⟨rfl, hrest⟩ := List.append_inj heq hlength
    exact (noTies_append ha l).mpr ⟨hties run hrun h, ih (List.cons.inj hrest).2⟩

end NoTies
end Lib
