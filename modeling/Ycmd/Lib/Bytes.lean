import Mathlib.Data.List.Basic
import Mathlib.Data.List.TakeDrop
import Mathlib.Tactic.IntervalCases

/-! Byte strings and the C++ library functions on them, in the "C" locale. -/
namespace Lib

abbrev Bytes := List UInt8

instance : LawfulBEq Bytes := inferInstance

/-- The bytes of an ASCII literal. -/
def ascii (s : String) : Bytes := s.toList.map (fun c => UInt8.ofNat c.toNat)

abbrev LF : UInt8 := 10
abbrev CR : UInt8 := 13
abbrev colon : UInt8 := 58

def isSpace (b : UInt8) : Bool := b == 32 || (9 ≤ b && b ≤ 13)
def isDigit (b : UInt8) : Bool := 48 ≤ b && b ≤ 57
def toLower (b : UInt8) : UInt8 := if 65 ≤ b && b ≤ 90 then b + 32 else b

/-- The order of `std::string`: lexicographic, bytes compared as `unsigned char`. -/
def lexLess (a b : Bytes) : Bool := a.map UInt8.toNat < b.map UInt8.toNat

/-- What an output stream writes for a `size_t`. -/
def decimal (n : Nat) : Bytes := (Nat.toDigits 10 n).map (fun c => UInt8.ofNat c.toNat)

/-- The number a digit string denotes, read after `acc`. -/
def digitsValue (acc : Nat) : Bytes → Nat
  | [] => acc
  | d :: ds => digitsValue (10*acc + (d.toNat-48)) ds

inductive Errc where
  | invalidArgument
  | resultOutOfRange
  deriving DecidableEq, Repr

/-- `std::from_chars` into a `size_t`: the longest digit prefix decides. -/
def fromChars (value : Bytes) : Except Errc Nat :=
  let digits := value.takeWhile isDigit
  if digits = [] then .error .invalidArgument
  else if digitsValue 0 digits < 2^64 then .ok (digitsValue 0 digits)
  else .error .resultOutOfRange

theorem digitsValue_append (acc : Nat) (ds es : Bytes) :
    digitsValue acc (ds ++ es) = digitsValue (digitsValue acc ds) es := by
  induction ds generalizing acc with
  | nil => rfl
  | cons d ds ih => exact ih _

theorem digitsValue_singleton (acc : Nat) (d : UInt8) :
    digitsValue acc [d] = 10*acc + (d.toNat-48) := rfl

theorem decimal_step {n : Nat} (h : 10 ≤ n) :
    decimal n = decimal (n/10) ++ [UInt8.ofNat (n%10).digitChar.toNat] := by
  simp only [decimal, Nat.toDigits_of_base_le (by decide : 1 < 10) h, List.map_append, List.map_cons, List.map_nil]

theorem decimal_small {n : Nat} (h : n < 10) : decimal n = [UInt8.ofNat n.digitChar.toNat] := by
  simp only [decimal, Nat.toDigits_of_lt_base h, List.map_cons, List.map_nil]

private theorem digit_byte {d : Nat} (h : d < 10) :
    isDigit (UInt8.ofNat d.digitChar.toNat) = true ∧ (UInt8.ofNat d.digitChar.toNat).toNat - 48 = d := by
  interval_cases d <;> decide

theorem decimal_digits (n : Nat) : ∀ b ∈ decimal n, isDigit b = true := by
  induction n using Nat.strong_induction_on with
  | _ n ih =>
    by_cases h : n < 10
    · simpa [decimal_small h] using (digit_byte h).1
    · rw [decimal_step (Nat.not_lt.mp h)]
      intro b hb
      rcases List.mem_append.mp hb with hb | hb
      · exact ih (n/10) (by omega) b hb
      · rw [List.mem_singleton.mp hb]
        exact (digit_byte (Nat.mod_lt n (by decide))).1

theorem decimal_value (n : Nat) : digitsValue 0 (decimal n) = n := by
  induction n using Nat.strong_induction_on with
  | _ n ih =>
    by_cases h : n < 10
    · rw [decimal_small h, digitsValue_singleton, (digit_byte h).2, Nat.mul_zero, Nat.zero_add]
    · rw [decimal_step (Nat.not_lt.mp h), digitsValue_append, ih (n/10) (by omega),
        digitsValue_singleton, (digit_byte (Nat.mod_lt n (by decide : 0 < 10))).2]
      omega

theorem decimal_ne_nil (n : Nat) : decimal n ≠ [] := by
  by_cases h : n < 10
  · simp [decimal_small h]
  · simp [decimal_step (Nat.not_lt.mp h)]

/-- Trailing text that does not begin with a digit is ignored. -/
theorem fromChars_digits {digits tail : Bytes} (hne : digits ≠ []) (hd : ∀ b ∈ digits, isDigit b = true)
    (ht : ∀ b ∈ tail.head?, isDigit b = false) (hlt : digitsValue 0 digits < 2^64) :
    fromChars (digits ++ tail) = .ok (digitsValue 0 digits) := by
  have hw : (digits ++ tail).takeWhile isDigit = digits := by
    rw [List.takeWhile_append_of_pos hd]
    cases tail with
    | nil => simp
    | cons b tail => simp [ht b rfl]
  simp only [fromChars, hw, hne, hlt, if_false, if_true]

end Lib
