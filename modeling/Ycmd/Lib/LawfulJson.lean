import Ycmd.Lib.Json

/-! Types whose values are read back from JSON as they were written. -/
namespace Lib

/-- `Valid` holds of the values the modelled type has. -/
class LawfulJson (α : Type) [ToJson α] [FromJson α] where
  Valid : α → Prop
  fromJson_toJson : ∀ {a : α}, Valid a → fromJson (toJson a) = .ok a

/-- Types all of whose values are valid. -/
class AlwaysValid (α : Type) [ToJson α] [FromJson α] [LawfulJson α] : Prop where
  valid : ∀ a : α, LawfulJson.Valid a

/-- Types of which nothing is written as null. -/
class NeverNull (α : Type) [ToJson α] : Prop where
  isNull_toJson : ∀ a : α, (toJson a).isNull = false

/-- `β` is not read from what an `α` is written as. -/
class Rejects (α β : Type) [ToJson α] [FromJson β] : Prop where
  fromJson_toJson : ∀ a : α, ∃ e, (fromJson (toJson a) : Decode β) = .error e

/-- `json::object_t`. -/
structure Object where
  members : List (String × Json) := []

instance : ToJson Object := ⟨fun o => .obj o.members⟩

instance : FromJson Object where
  fromJson
    | .obj members => .ok ⟨members⟩
    | j => .error (j.typeMustBe "object")

namespace LawfulJson

instance : LawfulJson Json where
  Valid _ := True
  fromJson_toJson _ := rfl

instance : LawfulJson String where
  Valid _ := True
  fromJson_toJson _ := rfl

instance : LawfulJson Bool where
  Valid _ := True
  fromJson_toJson _ := rfl

instance : LawfulJson Double where
  Valid _ := True
  fromJson_toJson _ := rfl

instance : LawfulJson Object where
  Valid _ := True
  fromJson_toJson _ := rfl

instance : LawfulJson Int32 where
  Valid _ := True
  fromJson_toJson {n} _ := congrArg Except.ok (Int32.ofInt_toInt n)

instance : LawfulJson Int where
  Valid n := -2^63 ≤ n ∧ n < 2^63
  fromJson_toJson {n} hn := by
    refine congrArg Except.ok (Int.bmod_eq_of_le ?_ ?_) <;> omega

instance : LawfulJson Nat where
  Valid n := n < 2^64
  fromJson_toJson {n} hn := by
    apply congrArg Except.ok
    omega

theorem mapM_toJson {α : Type} [ToJson α] [FromJson α] [LawfulJson α] {l : List α} (hl : ∀ a ∈ l, Valid a) :
    (l.map toJson).mapM fromJson = (.ok l : Decode (List α)) := by
  induction l with
  | nil => rfl
  | cons a l ih =>
    rw [List.map_cons, List.mapM_cons, fromJson_toJson (hl a List.mem_cons_self),
      ih (fun b hb => hl b (List.mem_cons_of_mem a hb))]
    rfl

instance {α : Type} [ToJson α] [FromJson α] [LawfulJson α] : LawfulJson (List α) where
  Valid l := ∀ a ∈ l, Valid a
  fromJson_toJson := mapM_toJson

end LawfulJson

instance : AlwaysValid Json := ⟨fun _ => trivial⟩
instance : AlwaysValid String := ⟨fun _ => trivial⟩
instance : AlwaysValid Bool := ⟨fun _ => trivial⟩
instance : AlwaysValid Double := ⟨fun _ => trivial⟩
instance : AlwaysValid Int32 := ⟨fun _ => trivial⟩
instance : AlwaysValid Object := ⟨fun _ => trivial⟩

instance {α : Type} [ToJson α] [FromJson α] [LawfulJson α] [AlwaysValid α] : AlwaysValid (List α) :=
  ⟨fun _ a _ => AlwaysValid.valid a⟩

instance : NeverNull String := ⟨fun _ => rfl⟩
instance : NeverNull Bool := ⟨fun _ => rfl⟩
instance : NeverNull Double := ⟨fun _ => rfl⟩
instance : NeverNull Object := ⟨fun _ => rfl⟩
instance : NeverNull Int32 := ⟨fun _ => rfl⟩
instance : NeverNull Int := ⟨fun _ => rfl⟩
instance : NeverNull Nat := ⟨fun _ => rfl⟩
instance {α : Type} [ToJson α] : NeverNull (List α) := ⟨fun _ => rfl⟩

end Lib
