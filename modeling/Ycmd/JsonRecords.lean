import Ycmd.JsonSerialisation
import Ycmd.Lib.LawfulJson
import Mathlib.Data.List.Nodup

/-! Records written and read member by member, and what of them comes back. -/
namespace Ycmd
open Lib

section Optionals
variable {α β : Type} [ToJson α] [FromJson α] [LawfulJson α] [ToJson β] [FromJson β] [LawfulJson β]

/-- Nothing that is set may be written as null. -/
instance [NeverNull α] : LawfulJson (Option α) where
  Valid o := ∀ a ∈ o, LawfulJson.Valid a
  fromJson_toJson {o} ho := by
    cases o with
    | none => rfl
    | some a =>
      change (if (toJson a).isNull then .ok none else (fromJson (toJson a) : Decode α).map some) = .ok (some a)
      rw [NeverNull.isNull_toJson, LawfulJson.fromJson_toJson (ho a rfl)]
      rfl

instance [NeverNull α] [AlwaysValid α] : AlwaysValid (Option α) := ⟨fun _ a _ => AlwaysValid.valid a⟩

/-- An `optional<any>`. -/
instance : LawfulJson (Option Json) where
  Valid o := ∀ j ∈ o, j.isNull = false
  fromJson_toJson {o} ho := by
    cases o with
    | none => rfl
    | some j =>
      change (if j.isNull then .ok none else (fromJson j : Decode Json).map some) = .ok (some j)
      rw [ho j rfl]
      rfl

instance [NeverNull α] [NeverNull β] : NeverNull (α ⊕ β) where
  isNull_toJson
    | .inl a => NeverNull.isNull_toJson a
    | .inr b => NeverNull.isNull_toJson b

/-- The last alternative that can be read wins, so it must not be readable from the first. -/
instance [Inhabited α] [Rejects α β] : LawfulJson (α ⊕ β) where
  Valid := Sum.elim LawfulJson.Valid LawfulJson.Valid
  fromJson_toJson {v} hv := by
    apply congrArg Except.ok
    cases v with
    | inl a =>
      obtain ⟨e, he⟩ := Rejects.fromJson_toJson (β := β) a
      have ha : (fromJson (toJson a) : Decode α) = .ok a := LawfulJson.fromJson_toJson hv
      change variantFromJson Sum.inr (toJson a) (variantFromJson Sum.inl (toJson a) (.inl default)) = .inl a
      simp only [variantFromJson, ha, he]
    | inr b =>
      have hb : (fromJson (toJson b) : Decode β) = .ok b := LawfulJson.fromJson_toJson hv
      change variantFromJson Sum.inr (toJson b) (variantFromJson Sum.inl (toJson b) (.inl default)) = .inr b
      simp only [variantFromJson, hb]

end Optionals

/-- An object in which each of the members is found as it is written. -/
structure Holds (j : Json) (members : List Member) : Prop where
  isObject : j.isObject = true
  find? : ∀ member ∈ members, j.find? member.fieldName = member.value

theorem holds_writeMembers {members : List Member} (hne : members ≠ [])
    (hnodup : (members.map Member.fieldName).Nodup) : Holds (writeMembers .null members) members := by
  refine ⟨isObject_writeMembers (.inr ⟨rfl, hne⟩), ?_⟩
  intro member hmem
  rw [find?_writeMembers hnodup]
  have hfound : members.find? (fun other => member.fieldName = other.fieldName) = some member := by
    obtain ⟨other, hother⟩ : ∃ other, members.find? (fun other => member.fieldName = other.fieldName) = some other :=
      Option.isSome_iff_exists.mp (List.find?_isSome.mpr ⟨member, hmem, by simp⟩)
    have hname : member.fieldName = other.fieldName := by simpa using List.find?_some hother
    rw [hother, List.inj_on_of_nodup_map hnodup hmem (List.mem_of_find?_eq_some hother) hname]
  rw [hfound, Option.bind_some, Json.find?_null, Option.or_none]

/-- A member of a record `R` as the macros go through it: how it is written, and how it is read into a
record. -/
structure Field (R : Type) where
  fieldName : String
  write : R → Member
  read : Json → R → Decode R
  /-- The second record with this member as the first one has it. -/
  copy : R → R → R
  Valid : R → Prop
  fieldName_write : ∀ t, (write t).fieldName = fieldName
  read_of_find? : ∀ {j t}, Valid t → j.isObject = true → j.find? fieldName = (write t).value →
    ∀ u, read j u = .ok (copy t u)

namespace Field
variable {R α : Type} [ToJson α] [FromJson α] (fieldName : String)

section Values
variable [LawfulJson α] (get : R → α) (set : α → R → R)

/-- A member that has to be there. -/
def value : Field R where
  fieldName
  write t := .ofValue fieldName (get t)
  read j u := (fun v => set v u) <$> fromMember j fieldName
  copy t := set (get t)
  Valid t := LawfulJson.Valid (get t)
  fieldName_write _ := rfl
  read_of_find? ht _ hfind u := by
    rw [fromMember_of_find? hfind, LawfulJson.fromJson_toJson ht]
    rfl

/-- `NLOHMANN_JSON_FROM_WITH_DEFAULT`. -/
def defaulted (defaultObj : R) : Field R where
  fieldName
  write t := .ofValue fieldName (get t)
  read j u := (fun v => set v u) <$> j.valueOr fieldName (get defaultObj)
  copy t := set (get t)
  Valid t := LawfulJson.Valid (get t)
  fieldName_write _ := rfl
  read_of_find? ht _ hfind u := by
    rw [Json.valueOr_of_find? _ hfind, LawfulJson.fromJson_toJson ht]
    rfl

end Values

section Optionals
variable [LawfulJson (Option α)] (get : R → Option α) (set : Option α → R → R)

def optional : Field R where
  fieldName
  write t := .ofOptional fieldName (get t)
  read j u := (fun v => set v u) <$> fromOptionalMember j fieldName
  copy t := set (get t)
  Valid t := LawfulJson.Valid (get t)
  fieldName_write _ := rfl
  read_of_find? {j t} ht _ hfind u := by
    have hread := LawfulJson.fromJson_toJson ht
    change j.find? fieldName = (get t).map toJson at hfind
    unfold fromOptionalMember
    rw [hfind]
    cases hget : get t with
    | none => rfl
    | some a =>
      rw [hget] at hread
      exact congrArg (Except.map _) hread

def nullable : Field R where
  fieldName
  write t := .ofNullable fieldName (get t)
  read j u := (fun v => set v u) <$> fromOptionalMember j fieldName
  copy t := set (get t)
  Valid t := LawfulJson.Valid (get t)
  fieldName_write _ := rfl
  read_of_find? {j t} ht _ hfind u := by
    have hread := LawfulJson.fromJson_toJson ht
    change j.find? fieldName = some (((get t).map toJson).getD .null) at hfind
    unfold fromOptionalMember
    rw [hfind]
    cases hget : get t <;> rw [hget] at hread <;> exact congrArg (Except.map _) hread

/-- An optional member that the default object leaves unset. -/
def optionalDefaulted (defaultObj : R) (hunset : get defaultObj = none := by rfl) : Field R where
  fieldName
  write t := .ofOptional fieldName (get t)
  read j u := (fun v => set v u) <$> j.valueOr fieldName (get defaultObj)
  copy t := set (get t)
  Valid t := LawfulJson.Valid (get t)
  fieldName_write _ := rfl
  read_of_find? {j t} ht hobject hfind u := by
    have hread := LawfulJson.fromJson_toJson ht
    change j.find? fieldName = (get t).map toJson at hfind
    rw [Json.valueOr_of_isObject hobject, hfind, hunset]
    cases hget : get t with
    | none => rfl
    | some a =>
      rw [hget] at hread
      exact congrArg (Except.map _) hread

end Optionals

section Read
variable {fieldName} (j : Json) (u : R)

@[simp] theorem read_value [LawfulJson α] (get : R → α) (set : α → R → R) :
    (value fieldName get set).read j u = (do
      let v ← fromMember j fieldName
      pure (set v u)) := map_eq_pure_bind _ _

@[simp] theorem read_defaulted [LawfulJson α] (get : R → α) (set : α → R → R) (defaultObj : R) :
    (defaulted fieldName get set defaultObj).read j u = (do
      let v ← j.valueOr fieldName (get defaultObj)
      pure (set v u)) := map_eq_pure_bind _ _

variable [LawfulJson (Option α)] (get : R → Option α) (set : Option α → R → R)

@[simp] theorem read_optional :
    (optional fieldName get set).read j u = (do
      let v ← fromOptionalMember j fieldName
      pure (set v u)) := map_eq_pure_bind _ _

@[simp] theorem read_optionalDefaulted (defaultObj : R) (hunset : get defaultObj = none) :
    (optionalDefaulted fieldName get set defaultObj hunset).read j u = (do
      let v ← j.valueOr fieldName (get defaultObj)
      pure (set v u)) := map_eq_pure_bind _ _

end Read

section Valid
variable {fieldName} {t : R}

@[simp] theorem valid_value [LawfulJson α] [AlwaysValid α] {get : R → α} {set : α → R → R} :
    (value fieldName get set).Valid t := AlwaysValid.valid (get t)

@[simp] theorem valid_defaulted [LawfulJson α] [AlwaysValid α] {get : R → α} {set : α → R → R} {defaultObj : R} :
    (defaulted fieldName get set defaultObj).Valid t := AlwaysValid.valid (get t)

variable [LawfulJson (Option α)] [AlwaysValid (Option α)] {get : R → Option α} {set : Option α → R → R}

@[simp] theorem valid_optional : (optional fieldName get set).Valid t := AlwaysValid.valid (get t)

@[simp] theorem valid_nullable : (nullable fieldName get set).Valid t := AlwaysValid.valid (get t)

@[simp] theorem valid_optionalDefaulted {defaultObj : R} {hunset : get defaultObj = none} :
    (optionalDefaulted fieldName get set defaultObj hunset).Valid t := AlwaysValid.valid (get t)

end Valid

/-- A member of the base, in a record derived from it. -/
def inBase {B : Type} (toBase : R → B) (setBase : B → R → R) (f : Field B) : Field R where
  fieldName := f.fieldName
  write t := f.write (toBase t)
  read j u := (fun b => setBase b u) <$> f.read j (toBase u)
  copy t u := setBase (f.copy (toBase t) (toBase u)) u
  Valid t := f.Valid (toBase t)
  fieldName_write t := f.fieldName_write (toBase t)
  read_of_find? ht hobject hfind u := by
    rw [f.read_of_find? ht hobject hfind]
    rfl

@[simp] theorem read_inBase {B : Type} (toBase : R → B) (setBase : B → R → R) (f : Field B) (j : Json) (u : R) :
    (f.inBase toBase setBase).read j u = (do
      let b ← f.read j (toBase u)
      pure (setBase b u)) := map_eq_pure_bind _ _

end Field

section Fields
variable {R : Type}

/-- `to_json` of a record with these members. -/
def writeFields (fields : List (Field R)) (t : R) : Json :=
  writeMembers .null (fields.map (fun f => f.write t))

/-- `from_json` into `t`. -/
def readFields (fields : List (Field R)) (j : Json) (t : R) : Decode R :=
  fields.foldlM (fun u f => f.read j u) t

@[simp] theorem readFields_nil (j : Json) (t : R) : readFields [] j t = pure t := rfl

@[simp] theorem readFields_cons (f : Field R) (fields : List (Field R)) (j : Json) (t : R) :
    readFields (f :: fields) j t = (do
      let u ← f.read j t
      readFields fields j u) := rfl

theorem readFields_append (fields fields' : List (Field R)) (j : Json) (t : R) :
    readFields (fields ++ fields') j t = readFields fields j t >>= readFields fields' j :=
  List.foldlM_append

/-- What the members make of `u` when they are all taken from `t`. -/
def copyFields (fields : List (Field R)) (t u : R) : R := fields.foldl (fun u f => f.copy t u) u

theorem holds_writeFields {fields : List (Field R)} (hne : fields ≠ [])
    (hnodup : (fields.map Field.fieldName).Nodup) (t : R) :
    Holds (writeFields fields t) (fields.map (fun f => f.write t)) := by
  apply holds_writeMembers (by simpa using hne)
  rw [List.map_map]
  convert hnodup using 2
  funext f
  exact f.fieldName_write t

theorem readFields_of_find? {fields : List (Field R)} {j : Json} {t : R} (hobject : j.isObject = true)
    (h : ∀ f ∈ fields, f.Valid t ∧ j.find? f.fieldName = (f.write t).value) (u : R) :
    readFields fields j u = .ok (copyFields fields t u) := by
  induction fields generalizing u with
  | nil => rfl
  | cons f fields ih =>
    have hread : f.read j u = .ok (f.copy t u) :=
      f.read_of_find? (h f List.mem_cons_self).1 hobject (h f List.mem_cons_self).2 u
    change f.read j u >>= (fun u => readFields fields j u) = .ok (copyFields fields t (f.copy t u))
    rw [hread]
    exact ih (fun g hg => h g (List.mem_cons_of_mem f hg)) (f.copy t u)

/-- Reading what was written takes every listed member over, and no other. -/
theorem readFields_writeFields {fields : List (Field R)} (hne : fields ≠ [])
    (hnodup : (fields.map Field.fieldName).Nodup) {t : R} (hvalid : ∀ f ∈ fields, f.Valid t) (u : R) :
    readFields fields (writeFields fields t) u = .ok (copyFields fields t u) := by
  have hholds := holds_writeFields hne hnodup t
  refine readFields_of_find? hholds.isObject ?_ u
  intro f hf
  have hfind := hholds.find? _ (List.mem_map_of_mem hf)
  rw [f.fieldName_write] at hfind
  exact ⟨hvalid f hf, hfind⟩

end Fields

/-- A record all of whose members are listed, under different names. -/
class Record (R : Type) [ToJson R] [FromJson R] where
  fields : List (Field R)
  /-- The record that `from_json` fills. -/
  initial : R
  toJson_eq : ∀ t : R, toJson t = writeFields fields t := by intro t; rfl
  fromJson_eq : ∀ j, fromJson j = readFields fields j initial := by intro j; rfl
  fields_ne_nil : fields ≠ [] := by exact List.cons_ne_nil _ _
  nodup : (fields.map Field.fieldName).Nodup := by decide
  complete : ∀ t u, copyFields fields t u = t := by intro t u; rfl

section Records
variable {R : Type} [ToJson R] [FromJson R] [Record R]

def Record.members (t : R) : List Member := Record.fields.map (fun f => f.write t)

theorem Record.holds (t : R) : Holds (toJson t) (Record.members t) := by
  rw [Record.toJson_eq]
  exact holds_writeFields Record.fields_ne_nil Record.nodup t

theorem Record.find?_absent (t : R) {key : String}
    (h : key ∉ (Record.fields (R := R)).map Field.fieldName) : (toJson t).find? key = none := by
  have hnames : (Record.members t).map Member.fieldName = (Record.fields (R := R)).map Field.fieldName := by
    rw [Record.members, List.map_map]
    exact List.map_congr_left (fun f _ => f.fieldName_write t)
  have hnone : (Record.members t).find? (fun member => key = member.fieldName) = none := by
    rw [List.find?_eq_none]
    intro member hmember hkey
    rw [of_decide_eq_true hkey, ← hnames] at h
    exact h (List.mem_map_of_mem hmember)
  rw [Record.toJson_eq, writeFields, find?_writeMembers (hnames ▸ Record.nodup), show
    (Record.fields.map (fun f => f.write t)).find? _ = none from hnone]
  rfl

instance : LawfulJson R where
  Valid t := ∀ f ∈ Record.fields, f.Valid t
  fromJson_toJson {t} ht := by
    rw [Record.toJson_eq, Record.fromJson_eq, readFields_writeFields Record.fields_ne_nil Record.nodup ht,
      Record.complete]

theorem Record.valid_iff {t : R} : LawfulJson.Valid t ↔ ∀ f ∈ Record.fields, f.Valid t := Iff.rfl

/-- A record is read from every object that has its members, whatever else is in it. -/
theorem Record.fromJson_of_find? {t : R} {j : Json} (ht : LawfulJson.Valid t) (hobject : j.isObject = true)
    (h : ∀ f ∈ Record.fields (R := R), j.find? f.fieldName = (toJson t).find? f.fieldName) : fromJson j = .ok t := by
  have hfields : ∀ f ∈ Record.fields (R := R), f.Valid t ∧ j.find? f.fieldName = (f.write t).value := by
    intro f hf
    refine ⟨Record.valid_iff.mp ht f hf, (h f hf).trans ?_⟩
    rw [← f.fieldName_write t]
    exact (Record.holds t).find? _ (List.mem_map_of_mem hf)
  rw [Record.fromJson_eq, readFields_of_find? hobject hfields, Record.complete]

instance : NeverNull R where
  isNull_toJson t := by
    have h := (Record.holds t).isObject
    cases hj : toJson t <;> simp_all [Json.isObject, Json.isNull]

end Records

end Ycmd
