import Ycmd.Lib.Computation
import Ycmd.Lib.Double

/-! JSON values and the conversions of nlohmann::json: lookups and getters that throw
exceptions of their own hierarchy. An object is the ordered association list of its members. -/
namespace Lib

/-- `int` stands for both integer representations, `float` for `number_float`. -/
inductive Json where
  | null
  | bool (b : Bool)
  | int (n : Int)
  | float (x : Double)
  | str (s : String)
  | arr (elems : List Json)
  | obj (members : List (String × Json))
  deriving Inhabited

/-- The exceptions derived from `json::exception`, with their documented numbers. -/
inductive JsonErrorKind where
  | parseError
  | typeError
  | outOfRange
  deriving DecidableEq, Repr

structure JsonError where
  kind : JsonErrorKind
  id : Nat
  detail : String
  deriving DecidableEq, Repr

abbrev Decode (α : Type) := Except JsonError α

namespace Json

def typeName : Json → String
  | .null => "null"
  | .bool _ => "boolean"
  | .int _ => "number"
  | .float _ => "number"
  | .str _ => "string"
  | .arr _ => "array"
  | .obj _ => "object"

def typeMustBe (expected : String) (j : Json) : JsonError :=
  ⟨.typeError, 302, "type must be " ++ expected ++ ", but is " ++ j.typeName⟩

/-- `find`: the end iterator, here `none`, on anything that is not an object. -/
def find? : Json → String → Option Json
  | .obj members, key => members.lookup key
  | _, _ => none

def contains (j : Json) (key : String) : Bool := (j.find? key).isSome

/-- `at`. -/
def atKey (j : Json) (key : String) : Decode Json :=
  match j with
  | .obj members => match members.lookup key with
    | some v => .ok v
    | none => .error ⟨.outOfRange, 403, "key '" ++ key ++ "' not found"⟩
  | _ => .error ⟨.typeError, 304, "cannot use at() with " ++ j.typeName⟩

/-- The value of a number, whichever way it is represented. -/
def number? : Json → Option Double
  | .int n => some n
  | .float x => some x
  | _ => none

def isNull : Json → Bool
  | .null => true
  | _ => false

def insertMember (key : String) (value : Json) : List (String × Json) → List (String × Json)
  | [] => [(key, value)]
  | (k, v) :: rest =>
    if k = key then (key, value) :: rest
    else if key < k then (key, value) :: (k, v) :: rest
    else (k, v) :: insertMember key value rest

/-- `j[key] = value` on an object, or on the null a fresh value starts as. -/
def set (j : Json) (key : String) (value : Json) : Json :=
  match j with
  | .obj members => .obj (insertMember key value members)
  | _ => .obj [(key, value)]

/-- The non-constant `operator[]` read by its caller, with the value as it leaves it: a missing key
is made, and reads as null. -/
def index (j : Json) (key : String) : Decode (Json × Json) :=
  match j with
  | .obj members => match members.lookup key with
    | some v => .ok (v, j)
    | none => .ok (.null, j.set key .null)
  | .null => .ok (.null, j.set key .null)
  | _ => .error ⟨.typeError, 305, "cannot use operator[] with a string argument with " ++ j.typeName⟩

/-- `size_t < json`: numbers compare by value, other types by their rank. -/
def natLt (n : Nat) : Json → Bool
  | .null => false
  | .bool _ => false
  | .int m => decide ((n : Int) < m)
  | .float x => decide (Double.ofInt n < x)
  | .str _ => true
  | .arr _ => true
  | .obj _ => true

/-- `json < size_t`. -/
def ltNat (j : Json) (n : Nat) : Bool :=
  match j with
  | .null => true
  | .bool _ => true
  | .int m => decide (m < (n : Int))
  | .float x => decide (x < Double.ofInt n)
  | .str _ => false
  | .arr _ => false
  | .obj _ => false

end Json

/-- `get<T>()`. -/
class FromJson (α : Type) where
  fromJson : Json → Decode α

export FromJson (fromJson)

class ToJson (α : Type) where
  toJson : α → Json

export ToJson (toJson)

instance : FromJson Json := ⟨.ok⟩
instance : ToJson Json := ⟨id⟩

instance : FromJson String where
  fromJson
    | .str s => .ok s
    | j => .error (j.typeMustBe "string")

instance : ToJson String := ⟨.str⟩

instance : FromJson Bool where
  fromJson
    | .bool b => .ok b
    | j => .error (j.typeMustBe "boolean")

instance : ToJson Bool := ⟨.bool⟩

/-- `int64_t`: integers wrap, doubles truncate. -/
instance : FromJson Int where
  fromJson
    | .int n => .ok (n.bmod (2^64))
    | .float x => .ok ((x.num.tdiv x.den).bmod (2^64))
    | j => .error (j.typeMustBe "number")

instance : ToJson Int := ⟨.int⟩

/-- `uint64_t`. -/
instance : FromJson Nat where
  fromJson
    | .int n => .ok (n % 2^64).toNat
    | .float x => .ok ((x.num.tdiv x.den) % 2^64).toNat
    | j => .error (j.typeMustBe "number")

instance : ToJson Nat := ⟨fun n => .int n⟩

/-- `int`: as the other integer types that JSON does not use itself, also from a boolean. -/
instance : FromJson Int32 where
  fromJson
    | .bool b => .ok (if b then 1 else 0)
    | .int n => .ok (Int32.ofInt n)
    | .float x => .ok (Int32.ofInt (x.num.tdiv x.den))
    | j => .error (j.typeMustBe "number")

instance : ToJson Int32 := ⟨fun n => .int n.toInt⟩

instance : FromJson Double where
  fromJson
    | .int n => .ok (Double.ofInt n)
    | .float x => .ok x
    | j => .error (j.typeMustBe "number")

instance : ToJson Double := ⟨.float⟩

instance {α : Type} [FromJson α] : FromJson (List α) where
  fromJson
    | .arr elems => elems.mapM fromJson
    | j => .error (j.typeMustBe "array")

instance {α : Type} [ToJson α] : ToJson (List α) := ⟨fun l => .arr (l.map toJson)⟩

namespace Json

/-- `value(key, default)`. -/
def valueOr {α : Type} [FromJson α] (j : Json) (key : String) (default : α) : Decode α :=
  match j with
  | .obj members => match members.lookup key with
    | some v => fromJson v
    | none => .ok default
  | _ => .error ⟨.typeError, 306, "cannot use value() with " ++ j.typeName⟩

@[simp] theorem find?_obj (members : List (String × Json)) (key : String) :
    (obj members).find? key = members.lookup key := rfl

theorem atKey_of_find? {j v : Json} {key : String} (h : j.find? key = some v) :
    j.atKey key = .ok v := by
  cases j <;> simp_all [find?, atKey]

theorem atKey_of_absent {j : Json} {key : String} (h : j.find? key = none) :
    ∃ e, j.atKey key = .error e := by
  cases j with
  | obj members =>
    rw [find?_obj] at h
    exact ⟨⟨.outOfRange, 403, "key '" ++ key ++ "' not found"⟩, by simp only [atKey, h]⟩
  | _ => exact ⟨_, rfl⟩

theorem valueOr_of_find? {α : Type} [FromJson α] {j v : Json} {key : String} (default : α)
    (h : j.find? key = some v) : j.valueOr key default = fromJson v := by
  cases j <;> simp_all [find?, valueOr]

theorem valueOr_of_absent {α : Type} [FromJson α] {members : List (String × Json)} {key : String}
    (default : α) (h : (obj members).find? key = none) :
    (obj members).valueOr key default = .ok default := by
  rw [find?_obj] at h
  simp only [valueOr, h]

def isObject : Json → Bool
  | .obj _ => true
  | _ => false

theorem isObject_of_find? {j v : Json} {key : String} (h : j.find? key = some v) : j.isObject = true := by
  cases j with
  | obj members => rfl
  | _ => cases h

theorem isNull_of_find? {j v : Json} {key : String} (h : j.find? key = some v) : j.isNull = false := by
  cases j with
  | obj members => rfl
  | _ => cases h

@[simp] theorem isObject_set (j : Json) (key : String) (value : Json) : (j.set key value).isObject = true := by
  cases j <;> rfl

@[simp] theorem find?_null (key : String) : null.find? key = none := rfl

theorem lookup_cons_eq (key : String) (value : Json) (members : List (String × Json)) (key' : String) :
    List.lookup key' ((key, value) :: members) = if key' = key then some value else members.lookup key' := by
  by_cases h : key' = key <;> simp [List.lookup_cons, beq_eq_decide, h]

theorem lookup_insertMember (key : String) (value : Json) (members : List (String × Json)) (key' : String) :
    (insertMember key value members).lookup key' = if key' = key then some value else members.lookup key' := by
  induction members with
  | nil => exact lookup_cons_eq key value [] key'
  | cons member members ih =>
    obtain ⟨k, v⟩ := member
    unfold insertMember
    split
    · rename_i heq
      subst heq
      rw [lookup_cons_eq, lookup_cons_eq]
      split <;> rfl
    · rename_i hne
      split
      · rw [lookup_cons_eq]
      · rw [lookup_cons_eq, lookup_cons_eq, ih]
        by_cases h : key' = k
        · rw [if_pos h, if_pos h, if_neg (fun hkey => hne (h.symm.trans hkey))]
        · rw [if_neg h, if_neg h]

theorem insertMember_perm {key : String} (value : Json) {members : List (String × Json)}
    (h : key ∉ members.map Prod.fst) : (insertMember key value members).Perm ((key, value) :: members) := by
  induction members with
  | nil => exact List.Perm.refl _
  | cons member members ih =>
    rw [List.map_cons, List.mem_cons, not_or] at h
    unfold insertMember
    rw [if_neg (Ne.symm h.1)]
    split
    · exact List.Perm.refl _
    · exact ((ih h.2).cons member).trans (List.Perm.swap _ _ _)

@[simp] theorem find?_set (j : Json) (key : String) (value : Json) (key' : String) :
    (j.set key value).find? key' = if key' = key then some value else j.find? key' := by
  cases j with
  | obj members => exact lookup_insertMember key value members key'
  | _ => exact lookup_cons_eq key value [] key'

/-- `value` on an object reads the member, or takes the default. -/
theorem valueOr_of_isObject {α : Type} [FromJson α] {j : Json} (h : j.isObject = true) (key : String) (default : α) :
    j.valueOr key default = (j.find? key).elim (.ok default) fromJson := by
  cases j with
  | obj members =>
    rw [find?_obj, valueOr]
    cases members.lookup key <;> rfl
  | _ => cases h

end Json

end Lib
