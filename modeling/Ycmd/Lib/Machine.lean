import Mathlib.Data.List.Basic
import Mathlib.Data.List.Induction
import Mathlib.Algebra.BigOperators.Group.List.Basic
import Mathlib.Algebra.GroupWithZero.Nat

/-! Deterministic labelled machines. All nondeterminism sits in the label: a schedule is a
list of labels, and a run stops at the first label that is not enabled. -/
namespace Lib

structure Machine (σ : Type*) (α : Type*) where
  step : σ → α → Option σ

namespace Machine
variable {σ α : Type*} (m : Machine σ α)

/-- Every state a schedule reaches, the first one included. -/
def states : σ → List α → List σ
  | s, [] => [s]
  | s, a :: as => s :: match m.step s a with
    | some s' => states s' as
    | none => []

/-- Every step a schedule takes, with the state it is taken in. -/
def steps : σ → List α → List (σ × α)
  | _, [] => []
  | s, a :: as => match m.step s a with
    | some s' => (s, a) :: steps s' as
    | none => []

/-- The state after a schedule all of whose labels are enabled. -/
def run : σ → List α → Option σ
  | s, [] => some s
  | s, a :: as => (m.step s a).bind (fun s' => run s' as)

@[simp] theorem states_nil (s : σ) : m.states s [] = [s] := rfl
@[simp] theorem steps_nil (s : σ) : m.steps s [] = [] := rfl
@[simp] theorem run_nil (s : σ) : m.run s [] = some s := rfl

theorem states_cons {s s' : σ} {a : α} (h : m.step s a = some s') (as : List α) :
    m.states s (a :: as) = s :: m.states s' as := by
  simp only [states, h]

theorem states_cons_none {s : σ} {a : α} (h : m.step s a = none) (as : List α) :
    m.states s (a :: as) = [s] := by
  simp only [states, h]

theorem steps_cons {s s' : σ} {a : α} (h : m.step s a = some s') (as : List α) :
    m.steps s (a :: as) = (s, a) :: m.steps s' as := by
  simp only [steps, h]

theorem steps_cons_none {s : σ} {a : α} (h : m.step s a = none) (as : List α) :
    m.steps s (a :: as) = [] := by
  simp only [steps, h]

theorem run_cons {s s' : σ} {a : α} (h : m.step s a = some s') (as : List α) :
    m.run s (a :: as) = m.run s' as := by
  simp only [run, h, Option.bind_some]

theorem run_append (s : σ) (as bs : List α) :
    m.run s (as ++ bs) = (m.run s as).bind (fun t => m.run t bs) := by
  induction as generalizing s with
  | nil => rfl
  | cons a as ih =>
    simp only [List.cons_append, run]
    cases m.step s a with
    | none => rfl
    | some s' => exact ih s'

theorem mem_states_self (s : σ) (as : List α) : s ∈ m.states s as := by
  cases as <;> simp [states]

theorem mem_states_of_run {s t : σ} {as : List α} (h : m.run s as = some t) :
    t ∈ m.states s as := by
  induction as generalizing s with
  | nil => simp_all
  | cons a as ih =>
    cases hs : m.step s a with
    | none => simp [run, hs] at h
    | some s' =>
      rw [m.run_cons hs] at h
      rw [m.states_cons hs]
      exact List.mem_cons_of_mem _ (ih h)

/-- The induction every safety proof goes through, with a guard on the steps taken. -/
theorem states_of_guarded (Inv : σ → Prop) (ok : σ → α → Prop)
    (hstep : ∀ s a s', Inv s → ok s a → m.step s a = some s' → Inv s')
    {s : σ} {as : List α} (h0 : Inv s) (hok : ∀ p ∈ m.steps s as, ok p.1 p.2) :
    ∀ t ∈ m.states s as, Inv t := by
  induction as generalizing s with
  | nil => simpa using h0
  | cons a as ih =>
    cases hs : m.step s a with
    | none => simpa [m.states_cons_none hs] using h0
    | some s' =>
      rw [m.steps_cons hs] at hok
      have hs' := hstep s a s' h0 (hok (s, a) (by simp)) hs
      have := ih hs' (fun p hp => hok p (List.mem_cons_of_mem _ hp))
      rw [m.states_cons hs]
      simpa [h0] using this

/-- An inductive invariant holds in every state reached. -/
theorem states_of_invariant {Inv : σ → Prop}
    (hstep : ∀ s a s', Inv s → m.step s a = some s' → Inv s')
    {s : σ} {as : List α} (h0 : Inv s) : ∀ t ∈ m.states s as, Inv t :=
  m.states_of_guarded Inv (fun _ _ => True) (fun s a s' h _ => hstep s a s' h) h0 (by simp)

/-- An invariant of the schedules whose every state is as restricted. -/
theorem states_of_restricted (Inv : σ → Prop) {Q : σ → Prop} (allowed : α → Prop)
    (hstep : ∀ s a s', allowed a → Q s → Q s' → Inv s → m.step s a = some s' → Inv s')
    {s : σ} {as : List α} (h0 : Inv s) (hall : ∀ a ∈ as, allowed a) (hQ : ∀ t ∈ m.states s as, Q t) :
    ∀ t ∈ m.states s as, Inv t := by
  induction as generalizing s with
  | nil => simpa using h0
  | cons a as ih =>
    rw [List.forall_mem_cons] at hall
    cases hs : m.step s a with
    | none => simpa [m.states_cons_none hs] using h0
    | some s' =>
      rw [m.states_cons hs, List.forall_mem_cons] at hQ
      rw [m.states_cons hs, List.forall_mem_cons]
      have h1 := hstep s a s' hall.1 hQ.1 (hQ.2 s' (m.mem_states_self s' as)) h0 hs
      exact ⟨h0, ih h1 hall.2 hQ.2⟩

/-- The induction for what holds of a run and the labels it has taken. -/
theorem run_history {P : List α → σ → Prop} {s t : σ} {as : List α} (h0 : P [] s)
    (hstep : ∀ as t a t', m.run s as = some t → P as t → m.step t a = some t' → P (as ++ [a]) t')
    (h : m.run s as = some t) : P as t := by
  induction as using List.reverseRecOn generalizing t with
  | nil => exact Option.some.inj h ▸ h0
  | append_singleton as a ih =>
    rw [m.run_append] at h
    obtain ⟨t', ht', h⟩ := Option.bind_eq_some_iff.mp h
    obtain ⟨t'', hstep', h⟩ := Option.bind_eq_some_iff.mp h
    obtain rfl := Option.some.inj h
    exact hstep as t' a t'' ht' (ih ht') hstep'

/-- When the first unguarded step already breaks the property, the guard is exact. -/
theorem states_iff_guarded (Inv : σ → Prop) {P : σ → Prop} (allowed : α → Prop) {ok : σ → α → Prop}
    (hinv : ∀ s, Inv s → P s)
    (hstep : ∀ s a s', allowed a → Inv s → ok s a → m.step s a = some s' → Inv s')
    (hbad : ∀ s a s', allowed a → Inv s → ¬ ok s a → m.step s a = some s' → ¬ P s')
    {s : σ} {as : List α} (h0 : Inv s) (hall : ∀ a ∈ as, allowed a) :
    (∀ t ∈ m.states s as, P t) ↔ ∀ p ∈ m.steps s as, ok p.1 p.2 := by
  induction as generalizing s with
  | nil => simpa using hinv s h0
  | cons a as ih =>
    rw [List.forall_mem_cons] at hall
    cases hs : m.step s a with
    | none => simpa [m.states_cons_none hs, m.steps_cons_none hs] using hinv s h0
    | some s' =>
      rw [m.states_cons hs, m.steps_cons hs, List.forall_mem_cons, List.forall_mem_cons]
      by_cases hok : ok s a
      · rw [ih (hstep s a s' hall.1 h0 hok hs) hall.2]
        simp only [hinv s h0, hok, true_and]
      · constructor
        · intro h
          exact absurd (h.2 s' (m.mem_states_self s' as)) (hbad s a s' hall.1 h0 hok hs)
        · intro h
          exact absurd h.1 hok

/-- Where each step decides the property, the guard decides it of the run. -/
theorem states_iff_steps {P : σ → Prop} {ok : σ → α → Prop}
    (hstep : ∀ s a s', P s → m.step s a = some s' → (P s' ↔ ok s a)) {s : σ} {as : List α} (h0 : P s) :
    (∀ t ∈ m.states s as, P t) ↔ ∀ p ∈ m.steps s as, ok p.1 p.2 :=
  m.states_iff_guarded P (fun _ => True) (fun _ h => h) (fun s a s' _ h hok hs => (hstep s a s' h hs).mpr hok)
    (fun s a s' _ h hok hs h' => hok ((hstep s a s' h hs).mp h')) h0 (fun _ _ => trivial)

/-- A step is taken after the labels before it. -/
theorem mem_steps_iff {s t : σ} {a : α} {as : List α} :
    (t, a) ∈ m.steps s as ↔
      ∃ pre post, as = pre ++ a :: post ∧ m.run s pre = some t ∧ (m.step t a).isSome = true := by
  induction as generalizing s with
  | nil => simp
  | cons b as ih =>
    cases hs : m.step s b with
    | none =>
      rw [m.steps_cons_none hs]
      constructor
      · simp
      · rintro ⟨pre, post, heq, hrun, hstep⟩
        cases pre with
        | nil =>
          obtain ⟨rfl, -⟩ := List.cons.inj heq
          obtain rfl : s = t := by simpa using hrun
          simp [hs] at hstep
        | cons c pre =>
          obtain ⟨rfl, -⟩ := List.cons.inj heq
          simp [run, hs] at hrun
    | some s' =>
      rw [m.steps_cons hs, List.mem_cons, ih]
      constructor
      · rintro (h | ⟨pre, post, rfl, hrun, hstep⟩)
        · obtain ⟨rfl, rfl⟩ := Prod.mk.inj h
          exact ⟨[], as, rfl, rfl, by simp [hs]⟩
        · exact ⟨b :: pre, post, rfl, (m.run_cons hs pre).trans hrun, hstep⟩
      · rintro ⟨pre, post, heq, hrun, hstep⟩
        cases pre with
        | nil =>
          obtain ⟨rfl, -⟩ := List.cons.inj heq
          obtain rfl : s = t := by simpa using hrun
          exact .inl rfl
        | cons c pre =>
          obtain ⟨rfl, rfl⟩ := List.cons.inj heq
          rw [m.run_cons hs] at hrun
          exact .inr ⟨pre, post, rfl, hrun, hstep⟩

/-- What the labels of a schedule cost bounds what any of its steps has to pay for. -/
theorem steps_budget (cost : σ → Nat) (price : α → Nat)
    (hstep : ∀ s a s', m.step s a = some s' → cost s' ≤ cost s + price a)
    {s : σ} {as : List α} :
    ∀ p ∈ m.steps s as, cost p.1 + price p.2 ≤ cost s + (as.map price).sum := by
  induction as generalizing s with
  | nil => simp
  | cons a as ih =>
    cases hs : m.step s a with
    | none => simp [m.steps_cons_none hs]
    | some s' =>
      intro p hp
      rw [m.steps_cons hs, List.mem_cons] at hp
      rw [List.map_cons, List.sum_cons]
      rcases hp with rfl | hp
      · simp only
        omega
      · have h1 := ih p hp
        have h2 := hstep s a s' hs
        omega

end Machine
end Lib
