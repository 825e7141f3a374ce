import Mathlib.Data.List.Forall2
import Mathlib.Order.Basic

/-! Computations that may throw, and those that keep the state they had reached when they do. A
computation over caches computes a result when no state of the caches changes that result. -/
namespace Lib
variable {ε σ τ α β : Type}

@[simp] theorem isOk_ok (a : α) : (Except.ok a : Except ε α).isOk = true := rfl
@[simp] theorem isOk_error (e : ε) : (Except.error e : Except ε α).isOk = false := rfl

/-- A decoder that ends in a total step succeeds when its first step does. -/
theorem isOk_bind {x : Except ε α} {f : α → Except ε β} {c : Bool}
    (h : ∀ a, (f a).isOk = c) : (x >>= f).isOk = (x.isOk && c) := by
  cases x with
  | error e => rfl
  | ok a => exact (h a).trans (Bool.true_and c).symm

theorem bind_ok {x : Except ε α} {f : α → Except ε β} {b : β} (h : x >>= f = .ok b) :
    ∃ a, x = .ok a ∧ f a = .ok b := by
  cases x with
  | error e => cases h
  | ok a => exact ⟨a, rfl, h⟩

theorem mapError_ok {ε ε' : Type} {f : ε → ε'} {x : Except ε α} {a : α} : x.mapError f = .ok a ↔ x = .ok a := by
  cases x <;> simp [Except.mapError]

/-- A computation that returns has returned at its first step. -/
theorem run_bind_ok {m : EStateM ε σ α} {f : α → EStateM ε σ β} {b : β} {s s'' : σ}
    (h : (m >>= f) s = .ok b s'') : ∃ a s', m s = .ok a s' ∧ f a s' = .ok b s'' := by
  cases hm : m s with
  | ok a s' => exact ⟨a, s', rfl, by simpa only [bind, EStateM.bind, hm] using h⟩
  | error e s' => simp [bind, EStateM.bind, hm] at h

theorem isOk_map (x : Except ε α) (f : α → β) : (x.map f).isOk = x.isOk := by
  cases x <;> rfl

/-- Decoding a list succeeds when every element decodes. -/
theorem mapM_isOk (f : α → Except ε β) (l : List α) :
    (l.mapM f).isOk = l.all (fun a => (f a).isOk) := by
  induction l with
  | nil => rfl
  | cons a l ih =>
    rw [List.mapM_cons, List.all_cons, isOk_bind (c := l.all (fun a => (f a).isOk))]
    intro b
    rw [isOk_bind (c := true) (fun _ => rfl), ih, Bool.and_true]

theorem mapM_ok_iff {f : α → Except ε β} {l : List α} {bs : List β} :
    l.mapM f = .ok bs ↔ List.Forall₂ (fun a b => f a = .ok b) l bs := by
  induction l generalizing bs with
  | nil =>
    rw [List.forall₂_nil_left_iff]
    exact ⟨fun h => (Except.ok.inj h).symm, fun h => by rw [h]; rfl⟩
  | cons a l ih =>
    rw [List.mapM_cons, List.forall₂_cons_left_iff]
    constructor
    · intro h
      obtain ⟨b, hb, h⟩ := bind_ok h
      obtain ⟨bs', hbs, h⟩ := bind_ok h
      exact ⟨b, bs', hb, ih.mp hbs, (Except.ok.inj h).symm⟩
    · rintro ⟨b, bs', hb, hbs, rfl⟩
      rw [hb, ih.mpr hbs]
      rfl

/-- From every state satisfying `I` the outcome is `r`, and `I` holds again afterwards. -/
def Computes (I : σ → Prop) (m : EStateM ε σ α) (r : Except ε α) : Prop :=
  ∀ s, I s → match m s with
    | .ok a s' => r = .ok a ∧ I s'
    | .error e s' => r = .error e ∧ I s'

/-- A computation on the second component of a pair. -/
def below (m : EStateM ε σ α) : EStateM ε (τ × σ) α := fun (t, s) =>
  match m s with
  | .ok a s' => .ok a (t, s')
  | .error e s' => .error e (t, s')

/-- The state a computation leaves, whether it returns or throws. -/
def stateAfter (m : EStateM ε σ α) (s : σ) : σ :=
  match m s with
  | .ok _ s' => s'
  | .error _ s' => s'

namespace Computes
variable {I : σ → Prop} {m : EStateM ε σ α} {r : Except ε α}

theorem ok (h : Computes I m r) {s : σ} (hs : I s) {a : α} (hr : r = .ok a) :
    ∃ s', m s = .ok a s' ∧ I s' := by
  have := h s hs
  cases hm : m s with
  | ok b s' =>
    rw [hm, hr] at this
    obtain rfl := Except.ok.inj this.1
    exact ⟨s', rfl, this.2⟩
  | error e s' => simp [hm, hr] at this

theorem stateAfter (h : Computes I m r) {s : σ} (hs : I s) : I (stateAfter m s) := by
  have := h s hs
  cases hm : m s with
  | ok a s' => simpa [Lib.stateAfter, hm] using (hm ▸ this).2
  | error e s' => simpa [Lib.stateAfter, hm] using (hm ▸ this).2

theorem pure (a : α) : Computes I (pure a : EStateM ε σ α) (.ok a) := fun _ hs => ⟨rfl, hs⟩

theorem throw (e : ε) : Computes I (throw e : EStateM ε σ α) (.error e) := fun _ hs => ⟨rfl, hs⟩

/-- A pure decision computes itself. -/
theorem ofExcept (r : Except ε α) : Computes I (ofExcept r : EStateM ε σ α) r := by
  cases r with
  | ok a => exact pure a
  | error e => exact throw e

theorem bind {f : α → EStateM ε σ β} {g : α → Except ε β} (hm : Computes I m r)
    (hf : ∀ a, r = .ok a → Computes I (f a) (g a)) : Computes I (m >>= f) (r >>= g) := by
  intro s hs
  have h := hm s hs
  cases hms : m s with
  | error e s' =>
    rw [hms] at h
    simpa [Bind.bind, EStateM.bind, Except.bind, hms, h.1] using h.2
  | ok a s' =>
    rw [hms] at h
    have := hf a h.1 s' h.2
    simpa [Bind.bind, EStateM.bind, Except.bind, hms, h.1] using this

theorem map (hm : Computes I m r) (f : α → β) : Computes I (f <$> m) (r.map f) := by
  have := hm.bind (g := fun a => .ok (f a)) (fun a _ => pure (f a))
  rw [bind_pure_comp] at this
  cases r <;> exact this

/-- What runs below keeps an invariant of the component above. -/
theorem below {J : τ → Prop} (hm : Computes I m r) :
    Computes (fun p : τ × σ => J p.1 ∧ I p.2) (below m) r := by
  rintro ⟨t, s⟩ ⟨ht, hs⟩
  have h := hm s hs
  cases hms : m s with
  | ok a s' =>
    rw [hms] at h
    simpa [Lib.below, hms, h.1] using And.intro ht h.2
  | error e s' =>
    rw [hms] at h
    simpa [Lib.below, hms, h.1] using And.intro ht h.2

end Computes

/-- An invariant holds again after the computation, also where it throws; what it returns satisfies `Q`. -/
def Keeps (I : σ → Prop) (m : EStateM ε σ α) (Q : α → Prop) : Prop :=
  ∀ s, I s → match m s with
    | .ok a s' => I s' ∧ Q a
    | .error _ s' => I s'

theorem Computes.keeps {I : σ → Prop} {m : EStateM ε σ α} {r : Except ε α} (h : Computes I m r) :
    Keeps I m (fun a => r = .ok a) := by
  intro s hs
  have := h s hs
  cases hms : m s with
  | ok a s' =>
    rw [hms] at this
    exact ⟨this.2, this.1⟩
  | error e s' =>
    rw [hms] at this
    exact this.2

namespace Keeps
variable {I : σ → Prop} {m : EStateM ε σ α} {Q : α → Prop}

theorem stateAfter (h : Keeps I m Q) {s : σ} (hs : I s) : I (stateAfter m s) := by
  have := h s hs
  cases hms : m s with
  | ok a s' =>
    rw [hms] at this
    simpa only [Lib.stateAfter, hms] using this.1
  | error e s' =>
    rw [hms] at this
    simpa only [Lib.stateAfter, hms] using this

theorem pure {a : α} (h : Q a) : Keeps I (pure a : EStateM ε σ α) Q := fun _ hs => ⟨hs, h⟩

theorem throw (e : ε) : Keeps I (throw e : EStateM ε σ α) Q := fun _ hs => hs

theorem bind {f : α → EStateM ε σ β} {R : β → Prop} (hm : Keeps I m Q) (hf : ∀ a, Q a → Keeps I (f a) R) :
    Keeps I (m >>= f) R := by
  intro s hs
  have h := hm s hs
  cases hms : m s with
  | error e s' =>
    rw [hms] at h
    simpa only [Bind.bind, EStateM.bind, hms] using h
  | ok a s' =>
    rw [hms] at h
    have := hf a h.2 s' h.1
    simpa only [Bind.bind, EStateM.bind, hms] using this

theorem forM {l : List β} {body : β → EStateM ε σ Unit} (h : ∀ b ∈ l, Keeps I (body b) (fun _ => True)) :
    Keeps I (l.forM body) (fun _ => True) := by
  induction l with
  | nil => exact pure trivial
  | cons b l ih =>
    rw [List.forall_mem_cons] at h
    exact h.1.bind (fun _ _ => ih h.2)

/-- What runs below keeps an invariant of the component above. -/
theorem below {J : τ → Prop} (hm : Keeps I m Q) : Keeps (fun p : τ × σ => J p.1 ∧ I p.2) (below m) Q := by
  rintro ⟨t, s⟩ ⟨ht, hs⟩
  have h := hm s hs
  cases hms : m s with
  | ok a s' =>
    rw [hms] at h
    simpa [Lib.below, hms] using And.intro (And.intro ht h.1) h.2
  | error e s' =>
    rw [hms] at h
    simpa [Lib.below, hms] using And.intro ht h

end Keeps

/-- The state a computation leaves is never below the one it found, also where it throws. -/
def Advances [Preorder σ] (m : EStateM ε σ α) : Prop := ∀ s, s ≤ stateAfter m s

namespace Advances
variable [Preorder σ] [Preorder τ] {m : EStateM ε σ α}

theorem pure (a : α) : Advances (pure a : EStateM ε σ α) := fun s => le_refl s

theorem throw (e : ε) : Advances (throw e : EStateM ε σ α) := fun s => le_refl s

theorem ofExcept (r : Except ε α) : Advances (ofExcept r : EStateM ε σ α) := by
  cases r with
  | ok a => exact pure a
  | error e => exact throw e

theorem bind {f : α → EStateM ε σ β} (hm : Advances m) (hf : ∀ a, Advances (f a)) : Advances (m >>= f) := by
  intro s
  have h := hm s
  cases hms : m s with
  | error e s' =>
    rw [stateAfter, hms] at h
    simpa only [stateAfter, Bind.bind, EStateM.bind, hms] using h
  | ok a s' =>
    rw [stateAfter, hms] at h
    simpa only [stateAfter, Bind.bind, EStateM.bind, hms] using h.trans (hf a s')

theorem map (hm : Advances m) (f : α → β) : Advances (f <$> m) := by
  rw [← bind_pure_comp]
  exact hm.bind (fun a => pure (f a))

theorem below (hm : Advances m) : Advances (below m : EStateM ε (τ × σ) α) := by
  rintro ⟨t, s⟩
  have h := hm s
  cases hms : m s with
  | error e s' =>
    rw [stateAfter, hms] at h
    simpa only [stateAfter, Lib.below, hms] using Prod.mk_le_mk.mpr ⟨le_refl t, h⟩
  | ok a s' =>
    rw [stateAfter, hms] at h
    simpa only [stateAfter, Lib.below, hms] using Prod.mk_le_mk.mpr ⟨le_refl t, h⟩

end Advances

/-- Where a computation returns, its result and the state it leaves satisfy `Q`. -/
def Returns (m : EStateM ε σ α) (Q : α → σ → Prop) : Prop := ∀ s a s', m s = .ok a s' → Q a s'

theorem Returns.below {m : EStateM ε σ α} {Q : α → σ → Prop} (hm : Returns m Q) :
    Returns (below m : EStateM ε (τ × σ) α) (fun a p => Q a p.2) := by
  rintro ⟨t, s⟩ a ⟨t', s'⟩ h
  cases hms : m s with
  | error e s'' => simp [Lib.below, hms] at h
  | ok b s'' =>
    simp only [Lib.below, hms, EStateM.Result.ok.injEq, Prod.mk.injEq] at h
    obtain ⟨rfl, -, rfl⟩ := h
    exact hm s b s'' hms

end Lib
