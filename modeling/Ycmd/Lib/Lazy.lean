import Ycmd.Lib.Computation

/-! Values that are computed when they are first asked for, and kept in cells of a state. What computes one may
ask for others. -/
namespace Lib
variable {ε σ α : Type}

/-- A cell of a state, empty until a value is put in it. -/
structure Cell (σ α : Type) where
  get : σ → Option α
  put : α → σ → σ
  get_put : ∀ a s, get (put a s) = some a

namespace Cell
variable (cell : Cell σ α) (build : EStateM ε σ α)

/-- The value in the cell; an empty cell is given one first, unless building it throws. -/
def force : EStateM ε σ α := fun s =>
  match cell.get s with
  | some a => .ok a s
  | none => match build s with
    | .ok a s' => .ok a (cell.put a s')
    | .error e s' => .error e s'

variable {cell build}

theorem force_of_get {s : σ} {a : α} (h : cell.get s = some a) : cell.force build s = .ok a s := by
  simp only [force, h]

/-- Where a value is returned it has been left in the cell. -/
theorem returns_force : Returns (cell.force build) (fun a s => cell.get s = some a) := by
  intro s a s' h
  unfold force at h
  split at h
  · rename_i b hget
    obtain ⟨rfl, rfl⟩ := EStateM.Result.ok.inj h
    exact hget
  · split at h
    · obtain ⟨rfl, rfl⟩ := EStateM.Result.ok.inj h
      exact cell.get_put _ _
    · cases h

/-- A cell that holds nothing but the value it is built with computes that value. -/
theorem computes_force {I : σ → Prop} {Q : α → σ → Prop} {r : Except ε α} (hbuild : Computes I build r)
    (hreturns : Returns build Q) (hget : ∀ s a, I s → cell.get s = some a → r = .ok a)
    (hput : ∀ s a, I s → Q a s → r = .ok a → I (cell.put a s)) : Computes I (cell.force build) r := by
  intro s hs
  unfold force
  cases hcell : cell.get s with
  | some a => exact ⟨hget s a hs hcell, hs⟩
  | none =>
    have h := hbuild s hs
    cases hrun : build s with
    | ok a s' =>
      rw [hrun] at h
      exact ⟨h.1, hput s' a h.2 (hreturns s a s' hrun) h.1⟩
    | error e s' =>
      rw [hrun] at h
      exact h

theorem advances_force [Preorder σ] (hbuild : Advances build) (hput : ∀ s a, s ≤ cell.put a s) :
    Advances (cell.force build) := by
  intro s
  have h := hbuild s
  unfold stateAfter force
  unfold stateAfter at h
  cases cell.get s with
  | some a => exact le_refl s
  | none =>
    cases hrun : build s with
    | ok a s' =>
      rw [hrun] at h
      exact h.trans (hput s' a)
    | error e s' =>
      rw [hrun] at h
      exact h

end Cell

/-- What holds once a computation has returned holds still after others that only advance. -/
theorem Returns.bind_of_advances {β : Type} [Preorder σ] {m : EStateM ε σ α} {f : α → EStateM ε σ β} {P : σ → Prop}
    (hm : Returns m (fun _ s => P s)) (hmono : ∀ s s', s ≤ s' → P s → P s') (hf : ∀ a, Advances (f a)) :
    Returns (m >>= f) (fun _ s => P s) := by
  intro s b s'' h
  obtain ⟨a, s', hrun, h⟩ := run_bind_ok h
  have hle := hf a s'
  rw [stateAfter, h] at hle
  exact hmono s' s'' hle (hm s a s' hrun)

end Lib
