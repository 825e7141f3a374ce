import Ycmd.Lib.Computation

/-! Two runs of computations that return and throw the same while their states stay related. -/
namespace Lib
variable {ε σ τ α β : Type}

/-- What a run returns or throws, and the state it leaves. -/
def outcome : EStateM.Result ε σ α → Except ε α × σ
  | .ok a s => (.ok a, s)
  | .error e s => (.error e, s)

theorem outcome_snd (m : EStateM ε σ α) (s : σ) : (outcome (m s)).2 = stateAfter m s := by
  unfold stateAfter
  cases m s <;> rfl

theorem exists_run_of_outcome {m : EStateM ε σ α} {s : σ} {a : α} (h : (outcome (m s)).1 = .ok a) :
    ∃ s', m s = .ok a s' := by
  cases hm : m s with
  | ok b s' =>
    rw [hm] at h
    exact ⟨s', by rw [Except.ok.inj h]⟩
  | error e s' =>
    rw [hm] at h
    cases h

theorem Computes.outcome_fst {I : σ → Prop} {m : EStateM ε σ α} {r : Except ε α} (h : Computes I m r) {s : σ}
    (hs : I s) : (outcome (m s)).1 = r := by
  have := h s hs
  cases hm : m s <;> rw [hm] at this <;> exact this.1.symm

/-- From related states both return or throw the same, and leave related states; what they return satisfies
`Q`. -/
def Lockstep (R : σ → τ → Prop) (m : EStateM ε σ α) (m' : EStateM ε τ α) (Q : α → Prop) : Prop :=
  ∀ s s', R s s' → (outcome (m s)).1 = (outcome (m' s')).1 ∧ R (outcome (m s)).2 (outcome (m' s')).2 ∧
    ∀ a, (outcome (m s)).1 = .ok a → Q a

namespace Lockstep
variable {R : σ → τ → Prop} {m : EStateM ε σ α} {m' : EStateM ε τ α} {Q : α → Prop} {Q' : β → Prop}

theorem pure {a : α} (h : Q a) : Lockstep R (pure a : EStateM ε σ α) (pure a) Q :=
  fun _ _ hstates => ⟨rfl, hstates, fun _ heq => Except.ok.inj heq ▸ h⟩

theorem throw (e : ε) : Lockstep R (throw e : EStateM ε σ α) (throw e) Q :=
  fun _ _ hstates => ⟨rfl, hstates, fun _ heq => by cases heq⟩

theorem bind {f : α → EStateM ε σ β} {f' : α → EStateM ε τ β} (hm : Lockstep R m m' Q)
    (hf : ∀ a, Q a → Lockstep R (f a) (f' a) Q') : Lockstep R (m >>= f) (m' >>= f') Q' := by
  intro s s' h
  obtain ⟨heq, hstates, hQ⟩ := hm s s' h
  change (outcome (EStateM.bind m f s)).1 = (outcome (EStateM.bind m' f' s')).1 ∧
    R (outcome (EStateM.bind m f s)).2 (outcome (EStateM.bind m' f' s')).2 ∧
      ∀ b, (outcome (EStateM.bind m f s)).1 = .ok b → Q' b
  unfold EStateM.bind
  cases hms : m s with
  | ok a t =>
    rw [hms] at heq hstates hQ
    cases hms' : m' s' with
    | ok a' t' =>
      rw [hms'] at heq hstates
      obtain rfl := Except.ok.inj heq
      exact hf a (hQ a rfl) t t' hstates
    | error e' t' =>
      rw [hms'] at heq
      cases heq
  | error e t =>
    rw [hms] at heq hstates
    cases hms' : m' s' with
    | ok a' t' =>
      rw [hms'] at heq
      cases heq
    | error e' t' =>
      rw [hms'] at heq hstates
      refine ⟨congrArg Except.error (Except.error.inj heq), hstates, ?_⟩
      rintro b ⟨⟩

theorem map (hm : Lockstep R m m' Q) (f : α → β) : Lockstep R (f <$> m) (f <$> m') (fun _ => True) := by
  rw [map_eq_pure_bind, map_eq_pure_bind]
  exact hm.bind (fun _ _ => pure trivial)

theorem forM {l : List β} {body : β → EStateM ε σ Unit} {body' : β → EStateM ε τ Unit}
    (h : ∀ b ∈ l, Lockstep R (body b) (body' b) (fun _ => True)) :
    Lockstep R (l.forM body) (l.forM body') (fun _ => True) := by
  induction l with
  | nil => exact pure trivial
  | cons b l ih =>
    rw [List.forall_mem_cons] at h
    exact h.1.bind (fun _ _ => ih h.2)

end Lockstep

end Lib
