import Mathlib.Algebra.Group.Nat.Defs
import Mathlib.Data.List.Basic

/-! Views into memory. A view knows its elements and how far on its memory can be read. -/
namespace Lib
variable {α : Type}

/-- The difference of two `size_t`s. -/
def sizeSub (a b : Nat) : Nat := if b ≤ a then a - b else 2^64 - (b - a)

/-- An `int` as a `size_t`. -/
def toSize (n : Int) : Nat := if 0 ≤ n then n.toNat else 2^64 - n.natAbs

@[simp] theorem toSize_natCast (n : Nat) : toSize n = n := by simp [toSize]

theorem sizeSub_of_le {a b : Nat} (h : b ≤ a) : sizeSub a b = a - b := if_pos h

/-- `std::basic_string_view`: `memory` is what can be read from `data()` on. -/
structure View (α : Type) where
  memory : List α
  size : Nat
  bound : size ≤ memory.length
  deriving DecidableEq, Repr

namespace View

def elems (view : View α) : List α := view.memory.take view.size

/-- The whole of a string, which is followed by a terminator. -/
def ofString (text : List α) (terminator : α) : View α where
  memory := text ++ [terminator]
  size := text.length
  bound := by simp

/-- `{ view.data() + pos, n }`, wherever it reaches; `none` when that is past what can be read. -/
def fromData (view : View α) (pos n : Nat) : Option (View α) :=
  if h : pos + n ≤ view.memory.length then
    some { memory := view.memory.drop pos, size := n, bound := by rw [List.length_drop]; omega }
  else none

/-- `view.substr( pos, n )`: no longer than the view; `none` when it throws. -/
def substr (view : View α) (pos n : Nat) : Option (View α) :=
  if h : pos ≤ view.size then
    some {
      memory := view.memory.drop pos
      size := min n (view.size - pos)
      bound := by have := view.bound; rw [List.length_drop]; omega }
  else none

@[simp] theorem length_elems (view : View α) : view.elems.length = view.size := by
  rw [elems, List.length_take, Nat.min_eq_left view.bound]

@[simp] theorem elems_ofString (text : List α) (terminator : α) : (ofString text terminator).elems = text := by
  simp [elems, ofString]

@[simp] theorem memory_ofString (text : List α) (terminator : α) :
    (ofString text terminator).memory = text ++ [terminator] := rfl

@[simp] theorem size_ofString (text : List α) (terminator : α) :
    (ofString text terminator).size = text.length := rfl

theorem fromData_of_le (view : View α) (pos n : Nat) (h : pos + n ≤ view.memory.length) :
    ∃ part, view.fromData pos n = some part ∧ part.elems = (view.memory.drop pos).take n :=
  ⟨_, dif_pos h, rfl⟩

theorem substr_of_le (view : View α) (pos n : Nat) (h : pos ≤ view.size) :
    ∃ part, view.substr pos n = some part ∧ part.elems = (view.elems.drop pos).take n := by
  refine ⟨_, dif_pos h, ?_⟩
  simp only [elems, List.drop_take, List.take_take]

/-- A part of a view reads the same memory. -/
theorem memory_suffix_of_substr {view part : View α} {pos n : Nat} (h : view.substr pos n = some part) :
    part.memory <:+ view.memory := by
  unfold substr at h
  split at h
  · obtain rfl := Option.some.inj h
    exact List.drop_suffix pos view.memory
  · cases h

end View
end Lib
