import Ycmd.Lib.Json

/-! The project's own layer over the JSON library: members that may be absent, and variants. -/
namespace Ycmd
open Lib

/-- `from_json_optional` of a member that has to be there. -/
def fromMember {α : Type} [FromJson α] (j : Json) (fieldName : String) : Decode α :=
  (j.atKey fieldName).bind fromJson

/-- Once a value is there, null leaves the optional unset. -/
instance {α : Type} [FromJson α] : FromJson (Option α) where
  fromJson j := if j.isNull then .ok none else (fromJson j : Decode α).map some

instance {α : Type} [ToJson α] : ToJson (Option α) where
  toJson
    | some a => toJson a
    | none => .null

/-- `from_json_optional` of a `std::optional` or a `Nullable` member. -/
def fromOptionalMember {α : Type} [FromJson α] (j : Json) (fieldName : String) : Decode (Option α) :=
  match j.find? fieldName with
  | some v => fromJson v
  | none => .ok none

/-- `to_json_optional` of a member that is always written. -/
def toMember {α : Type} [ToJson α] (j : Json) (fieldName : String) (v : α) : Json :=
  j.set fieldName (toJson v)

/-- `to_json_optional` of a `std::optional`: an unset one still makes a null into an object. -/
def toOptionalMember {α : Type} [ToJson α] (j : Json) (fieldName : String) (v : Option α) : Json :=
  match v with
  | some a => j.set fieldName (toJson a)
  | none => if j.isNull then .obj [] else j

/-- `variant_from_json`: a decoder that throws leaves the variant as it was. -/
def variantFromJson {α ν : Type} [FromJson α] (inject : α → ν) (j : Json) (data : ν) : ν :=
  match (fromJson j : Decode α) with
  | .ok a => inject a
  | .error _ => data

/-- Every alternative is tried, starting from a default first one; the last success stands. -/
instance {α β : Type} [Inhabited α] [FromJson α] [FromJson β] : FromJson (α ⊕ β) where
  fromJson j := .ok (variantFromJson (Sum.inr : β → α ⊕ β) j
    (variantFromJson (Sum.inl : α → α ⊕ β) j (.inl default)))

instance {α β : Type} [ToJson α] [ToJson β] : ToJson (α ⊕ β) where
  toJson
    | .inl a => toJson a
    | .inr b => toJson b

/-- A member as a record's list of members names it: one that is always written, a `std::optional`, or a
`Nullable`. -/
inductive Member where
  | required (fieldName : String) (v : Json)
  | optional (fieldName : String) (v : Option Json)
  | nullable (fieldName : String) (v : Option Json)

namespace Member
variable {α : Type} [ToJson α]

def ofValue (fieldName : String) (v : α) : Member := .required fieldName (toJson v)
def ofOptional (fieldName : String) (v : Option α) : Member := .optional fieldName (v.map toJson)
def ofNullable (fieldName : String) (v : Option α) : Member := .nullable fieldName (v.map toJson)

def fieldName : Member → String
  | required fieldName _ => fieldName
  | optional fieldName _ => fieldName
  | nullable fieldName _ => fieldName

/-- What is written, if anything is. -/
def value : Member → Option Json
  | required _ v => some v
  | optional _ v => v
  | nullable _ v => some (v.getD .null)

/-- `NLOHMANN_JSON_TO`. -/
def write (j : Json) : Member → Json
  | required fieldName v => toMember j fieldName v
  | optional fieldName v => toOptionalMember j fieldName v
  | nullable fieldName v => toMember j fieldName v

theorem write_ofOptional (j : Json) (fieldName : String) (v : Option α) :
    (ofOptional fieldName v).write j = toOptionalMember j fieldName v := by
  cases v <;> rfl

end Member

/-- The members of a record, one after the other. -/
def writeMembers (j : Json) (members : List Member) : Json := members.foldl Member.write j

theorem fromMember_of_find? {α : Type} [FromJson α] {j v : Json} {fieldName : String}
    (h : j.find? fieldName = some v) : (fromMember j fieldName : Decode α) = fromJson v := by
  rw [fromMember, Json.atKey_of_find? h]
  rfl

theorem fromMember_isOk {α : Type} [FromJson α] (j : Json) (fieldName : String) :
    (fromMember j fieldName : Decode α).isOk =
      (j.find? fieldName).any (fun v => (fromJson v : Decode α).isOk) := by
  cases h : j.find? fieldName with
  | some v => rw [fromMember_of_find? h, Option.any_some]
  | none =>
    obtain ⟨e, he⟩ := Json.atKey_of_absent h
    rw [fromMember, he]
    rfl

theorem fromOptionalMember_isOk {α : Type} [FromJson α] (j : Json) (fieldName : String) :
    (fromOptionalMember j fieldName : Decode (Option α)).isOk =
      (j.find? fieldName).all (fun v => v.isNull || (fromJson v : Decode α).isOk) := by
  unfold fromOptionalMember
  cases j.find? fieldName with
  | none => rfl
  | some v =>
    rw [Option.all_some]
    change (if v.isNull then .ok none else (fromJson v : Decode α).map some).isOk = _
    cases v.isNull with
    | true => rfl
    | false => exact isOk_map _ _

theorem find?_toMember {α : Type} [ToJson α] (j : Json) (fieldName : String) (v : α) (key : String) :
    (toMember j fieldName v).find? key = if key = fieldName then some (toJson v) else j.find? key :=
  Json.find?_set j fieldName (toJson v) key

/-- An unset `std::optional` leaves what was there. -/
theorem find?_toOptionalMember {α : Type} [ToJson α] (j : Json) (fieldName : String) (v : Option α) (key : String) :
    (toOptionalMember j fieldName v).find? key =
      if key = fieldName then (v.map toJson).or (j.find? key) else j.find? key := by
  cases v with
  | some v =>
    rw [Option.map_some, Option.some_or]
    exact Json.find?_set j fieldName (toJson v) key
  | none =>
    rw [Option.map_none, Option.none_or, ite_self]
    cases j <;> rfl

theorem find?_write (j : Json) (member : Member) (key : String) :
    (member.write j).find? key =
      if key = member.fieldName then member.value.or (j.find? key) else j.find? key := by
  cases member with
  | required fieldName v => exact find?_toMember j fieldName v key
  | optional fieldName v =>
    refine (find?_toOptionalMember j fieldName v key).trans ?_
    cases v <;> rfl
  | nullable fieldName v =>
    refine (find?_toMember j fieldName v key).trans ?_
    cases v <;> rfl

/-- Writing a member makes an object of what is one or is null. -/
theorem isObject_write {j : Json} (h : j.isObject = true ∨ j.isNull = true) (member : Member) :
    (member.write j).isObject = true := by
  cases member with
  | required fieldName v => exact Json.isObject_set _ _ _
  | optional fieldName v =>
    cases v with
    | some v => exact Json.isObject_set _ _ _
    | none =>
      change (if j.isNull then Json.obj [] else j).isObject = true
      split
      · rfl
      · exact h.resolve_right ‹_›
  | nullable fieldName v => exact Json.isObject_set _ _ _

theorem isObject_writeMembers {j : Json} {members : List Member}
    (h : j.isObject = true ∨ j.isNull = true ∧ members ≠ []) : (writeMembers j members).isObject = true := by
  induction members generalizing j with
  | nil => simpa [writeMembers] using h
  | cons member members ih =>
    exact ih (.inl (isObject_write (h.imp_right And.left) member))

/-- A key is written by the member of that name, or was there before. -/
theorem find?_writeMembers {j : Json} {members : List Member} (hnodup : (members.map Member.fieldName).Nodup)
    (key : String) :
    (writeMembers j members).find? key =
      ((members.find? (fun member => key = member.fieldName)).bind Member.value).or (j.find? key) := by
  induction members generalizing j with
  | nil => rfl
  | cons member members ih =>
    rw [List.map_cons, List.nodup_cons] at hnodup
    change (writeMembers (member.write j) members).find? key = _
    rw [ih hnodup.2, find?_write]
    by_cases hkey : key = member.fieldName
    · have hnone : members.find? (fun member => key = member.fieldName) = none := by
        rw [List.find?_eq_none]
        intro other hmem
        have : member.fieldName ≠ other.fieldName := fun heq => hnodup.1 (heq ▸ List.mem_map_of_mem hmem)
        simpa [hkey] using this
      rw [hnone, if_pos hkey, List.find?_cons_of_pos (by simpa using hkey)]
      rfl
    · rw [if_neg hkey, List.find?_cons_of_neg (by simpa using hkey)]

end Ycmd
