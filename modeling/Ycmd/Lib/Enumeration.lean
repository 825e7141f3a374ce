import Ycmd.Lib.LawfulJson
import Mathlib.Data.List.Nodup

/-! Scoped enumerations over `int`, which JSON holds as their numbers. -/
namespace Lib

/-- The enumerators of an enumeration and the numbers they stand for. -/
class Enumerators (ε : Type) where
  all : List ε
  code : ε → Int32
  mem_all : ∀ e, e ∈ all
  nodup : (all.map code).Nodup

/-- A value of the enumeration: an enumerator, or a number that none of them stands for. -/
inductive Enumeration (ε : Type) [Enumerators ε] where
  | listed (e : ε)
  | other (n : Int32) (unlisted : ∀ e : ε, Enumerators.code e ≠ n)

/-- `get_arithmetic_value` of an `int`: the numbers that `get<int>()` takes, but no boolean. -/
def getArithmeticValue : Json → Decode Int32
  | .int n => .ok (Int32.ofInt n)
  | .float x => .ok (Int32.ofInt (x.num.tdiv x.den))
  | j => .error (j.typeMustBe "number")

namespace Enumeration
variable {ε : Type} [Enumerators ε]

def underlying : Enumeration ε → Int32
  | listed e => Enumerators.code e
  | other n _ => n

/-- `static_cast` from the underlying type. -/
def ofUnderlying (n : Int32) : Enumeration ε :=
  if h : (Enumerators.all.find? (fun e : ε => Enumerators.code e = n)).isSome then .listed (Option.get _ h)
  else .other n (by
    intro e he
    exact h (List.find?_isSome.mpr ⟨e, Enumerators.mem_all e, decide_eq_true he⟩))

instance : Inhabited (Enumeration ε) := ⟨ofUnderlying 0⟩

theorem find?_code (e : ε) :
    (Enumerators.all.find? (fun e' : ε => Enumerators.code e' = Enumerators.code e)) = some e := by
  obtain ⟨e', he'⟩ : ∃ e', Enumerators.all.find? (fun e' : ε => Enumerators.code e' = Enumerators.code e) = some e' :=
    Option.isSome_iff_exists.mp (List.find?_isSome.mpr ⟨e, Enumerators.mem_all e, decide_eq_true rfl⟩)
  have hcode : Enumerators.code e' = Enumerators.code e := by simpa using List.find?_some he'
  rw [he', List.inj_on_of_nodup_map Enumerators.nodup (Enumerators.mem_all e') (Enumerators.mem_all e) hcode]

theorem ofUnderlying_underlying (v : Enumeration ε) : ofUnderlying v.underlying = v := by
  cases v with
  | listed e =>
    have hsome := Option.isSome_of_eq_some (find?_code e)
    rw [underlying, ofUnderlying, dif_pos hsome]
    exact congrArg listed (Option.get_of_eq_some hsome (find?_code e))
  | other n unlisted =>
    have hnone : ¬ (Enumerators.all.find? (fun e : ε => Enumerators.code e = n)).isSome := by
      intro hsome
      obtain ⟨e, _, he⟩ := List.find?_isSome.mp hsome
      exact unlisted e (of_decide_eq_true he)
    rw [underlying, ofUnderlying, dif_neg hnone]

instance : ToJson (Enumeration ε) := ⟨fun v => toJson v.underlying⟩
instance : FromJson (Enumeration ε) := ⟨fun j => ofUnderlying <$> getArithmeticValue j⟩

instance : LawfulJson (Enumeration ε) where
  Valid _ := True
  fromJson_toJson {v} _ := by
    have hread : getArithmeticValue (toJson v.underlying) = .ok v.underlying :=
      congrArg Except.ok (Int32.ofInt_toInt v.underlying)
    change ofUnderlying <$> getArithmeticValue (toJson v.underlying) = _
    rw [hread]
    exact congrArg Except.ok v.ofUnderlying_underlying

instance : NeverNull (Enumeration ε) := ⟨fun _ => rfl⟩

end Enumeration
end Lib
