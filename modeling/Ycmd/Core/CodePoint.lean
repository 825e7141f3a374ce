import Ycmd.Lib.Computation
import Ycmd.Lib.Utf8

/-! UTF-8 code points: a text is split by its leading bytes alone, and each piece is looked up
in the generated Unicode table. -/
namespace Ycmd.Core
open Lib

/-- The ways a construction ends without an object: an exception, a failed `assert`, or a read
through a pointer that holds no object. -/
inductive Failure where
  | unicodeDecodeError (what : String)
  | assertionFailed
  | danglingPointer
  deriving DecidableEq, Repr

inductive BreakProperty where
  | other | cr | lf | control | extend | zwj | regionalIndicator | prepend | spacingMark
  | l | v | t | lv | lvt | extPict
  deriving DecidableEq, Repr

/-- The enumerators' values; the `switch`es treat every other value as `OTHER`. -/
def BreakProperty.ofUInt8 : UInt8 → BreakProperty
  | 1 => .cr | 2 => .lf | 3 => .control | 4 => .extend | 5 => .zwj | 6 => .regionalIndicator
  | 7 => .prepend | 8 => .spacingMark | 9 => .l | 10 => .v | 11 => .t | 12 => .lv | 13 => .lvt
  | 18 => .extPict | _ => .other

structure RawCodePoint where
  original : Bytes
  normal : Bytes
  foldedCase : Bytes
  swappedCase : Bytes
  isLetter : Bool
  isPunctuation : Bool
  isUppercase : Bool
  breakProperty : UInt8
  combiningClass : UInt8
  deriving DecidableEq, Repr

def getCodePointLength (leadingByte : UInt8) : Except Failure Nat :=
  if leadingByte &&& 0x80 = 0x00 then .ok 1
  else if leadingByte &&& 0xe0 = 0xc0 then .ok 2
  else if leadingByte &&& 0xf0 = 0xe0 then .ok 3
  else if leadingByte &&& 0xf8 = 0xf0 then .ok 4
  else .error (.unicodeDecodeError "Invalid leading byte in code point.")

/-- The loop of `BreakIntoCodePoints`; continuation bytes are not looked at. -/
def splitCodePoints : Bytes → Except Failure (List Bytes)
  | [] => .ok []
  | leadingByte :: rest => do
    let length ← getCodePointLength leadingByte
    if rest.length + 1 < length then
      throw (.unicodeDecodeError "Invalid code point length.")
    let codePoints ← splitCodePoints (rest.drop (length-1))
    return (leadingByte :: rest.take (length-1)) :: codePoints
termination_by text => text.length
decreasing_by
  simp only [List.length_drop, List.length_cons]
  omega

/-- A binary search of the sorted table; text it does not have stands for itself. -/
def findCodePoint (codePoints : List RawCodePoint) (text : Bytes) : RawCodePoint :=
  let default : RawCodePoint := ⟨text, text, text, text, false, false, false, 0, 0⟩
  match codePoints.dropWhile (fun entry => lexLess entry.original text) with
  | entry :: _ => if text = entry.original then entry else default
  | [] => default

/-- The generated table. Its normal forms are decomposed to the end. -/
structure UnicodeTable where
  codePoints : List RawCodePoint
  normal_closed : ∀ entry ∈ codePoints, ∃ pieces, splitCodePoints entry.normal = .ok pieces ∧
    ∀ piece ∈ pieces, (findCodePoint codePoints piece).normal = piece

structure CodePoint where
  normal : Bytes
  foldedCase : Bytes
  swappedCase : Bytes
  isLetter : Bool
  isPunctuation : Bool
  isUppercase : Bool
  breakProperty : BreakProperty
  combiningClass : UInt8
  deriving DecidableEq, Repr

def CodePoint.ofRaw (raw : RawCodePoint) : CodePoint where
  normal := raw.normal
  foldedCase := raw.foldedCase
  swappedCase := raw.swappedCase
  isLetter := raw.isLetter
  isPunctuation := raw.isPunctuation
  isUppercase := raw.isUppercase
  breakProperty := .ofUInt8 raw.breakProperty
  combiningClass := raw.combiningClass

variable (table : UnicodeTable)

def CodePoint.of (text : Bytes) : CodePoint := .ofRaw (findCodePoint table.codePoints text)

/-- The code points of a text, as they are when nothing is cached. -/
def codePointsOf (text : Bytes) : Except Failure (List CodePoint) :=
  (splitCodePoints text).map (List.map (CodePoint.of table))

def Decodable (text : Bytes) : Prop := (splitCodePoints text).isOk = true

instance (text : Bytes) : Decidable (Decodable text) := inferInstanceAs (Decidable (_ = true))

theorem splitCodePoints_nil : splitCodePoints [] = .ok [] := by rw [splitCodePoints]

/-- What one round of the loop has to find for the splitting to succeed. -/
theorem splitCodePoints_cons {leadingByte : UInt8} {rest : Bytes} {pieces : List Bytes} :
    splitCodePoints (leadingByte :: rest) = .ok pieces ↔
      ∃ length codePoints, getCodePointLength leadingByte = .ok length ∧ length ≤ rest.length + 1 ∧
        splitCodePoints (rest.drop (length-1)) = .ok codePoints ∧
        pieces = (leadingByte :: rest.take (length-1)) :: codePoints := by
  rw [splitCodePoints]
  constructor
  · intro h
    obtain ⟨length, hlength, h⟩ := bind_ok h
    split at h
    · cases h
    · rename_i hle
      obtain ⟨-, -, h⟩ := bind_ok h
      obtain ⟨codePoints, hcodePoints, h⟩ := bind_ok h
      exact ⟨length, codePoints, hlength, by omega, hcodePoints, (Except.ok.inj h).symm⟩
  · rintro ⟨length, codePoints, hlength, hle, hcodePoints, rfl⟩
    simp only [hlength, hcodePoints, bind, Except.bind]
    rw [if_neg (by omega)]
    rfl

theorem getCodePointLength_pos {leadingByte : UInt8} {length : Nat}
    (h : getCodePointLength leadingByte = .ok length) : 0 < length := by
  unfold getCodePointLength at h
  repeat' split at h
  all_goals cases h
  all_goals decide

/-- The splitting loses nothing. -/
theorem splitCodePoints_flatten {text : Bytes} {pieces : List Bytes}
    (h : splitCodePoints text = .ok pieces) : pieces.flatten = text := by
  induction hn : text.length using Nat.strong_induction_on generalizing text pieces with
  | _ n ih =>
    cases text with
    | nil =>
      rw [splitCodePoints_nil] at h
      rw [← Except.ok.inj h, List.flatten_nil]
    | cons leadingByte rest =>
      obtain ⟨length, codePoints, -, -, hrest, rfl⟩ := splitCodePoints_cons.mp h
      have := ih (rest.drop (length-1)).length (by simp at hn ⊢; omega) hrest rfl
      rw [List.flatten_cons, this, List.cons_append, List.take_append_drop]

/-- Every piece is one code point by itself. -/
theorem splitCodePoints_piece {text piece : Bytes} {pieces : List Bytes}
    (h : splitCodePoints text = .ok pieces) (hp : piece ∈ pieces) : splitCodePoints piece = .ok [piece] := by
  induction hn : text.length using Nat.strong_induction_on generalizing text pieces with
  | _ n ih =>
    cases text with
    | nil =>
      rw [splitCodePoints_nil] at h
      simp [← Except.ok.inj h] at hp
    | cons leadingByte rest =>
      obtain ⟨length, codePoints, hlength, hle, hrest, rfl⟩ := splitCodePoints_cons.mp h
      rcases List.mem_cons.mp hp with rfl | hp
      · have hpos := getCodePointLength_pos hlength
        have htake : (rest.take (length-1)).length = length - 1 := by
          rw [List.length_take]
          omega
        refine splitCodePoints_cons.mpr ⟨length, [], hlength, by omega, ?_, ?_⟩
        · rw [List.drop_of_length_le (by omega), splitCodePoints_nil]
        · rw [List.take_of_length_le (Nat.le_of_eq htake)]
      · exact ih (rest.drop (length-1)).length (by simp at hn ⊢; omega) hrest hp rfl

/-- The pieces of a concatenation are those of its parts. -/
theorem splitCodePoints_append {text text' : Bytes} {pieces pieces' : List Bytes}
    (h : splitCodePoints text = .ok pieces) (h' : splitCodePoints text' = .ok pieces') :
    splitCodePoints (text ++ text') = .ok (pieces ++ pieces') := by
  induction hn : text.length using Nat.strong_induction_on generalizing text pieces with
  | _ n ih =>
    cases text with
    | nil =>
      rw [splitCodePoints_nil] at h
      rwa [← Except.ok.inj h]
    | cons leadingByte rest =>
      obtain ⟨length, codePoints, hlength, hle, hrest, rfl⟩ := splitCodePoints_cons.mp h
      have := ih (rest.drop (length-1)).length (by simp at hn ⊢; omega) hrest rfl
      change splitCodePoints (leadingByte :: (rest ++ text')) = _
      refine splitCodePoints_cons.mpr ⟨length, codePoints ++ pieces', hlength, ?_, ?_, ?_⟩
      · rw [List.length_append]
        omega
      · rwa [List.drop_append_of_le_length (by omega)]
      · rw [List.take_append_of_le_length (by omega), List.cons_append]

/-- The leading byte of an encoded code point tells how many bytes it has. -/
theorem getCodePointLength_utf8EncodeChar (c : Char) : ∃ leadingByte continuation,
    String.utf8EncodeChar c = leadingByte :: continuation ∧
      getCodePointLength leadingByte = .ok (continuation.length + 1) := by
  have hone : ∀ n < 0x80, getCodePointLength (UInt8.ofNat n) = .ok 1 := by decide
  have htwo : ∀ n < 0x20, getCodePointLength (UInt8.ofNat (n + 0xc0)) = .ok 2 := by decide
  have hthree : ∀ n < 0x10, getCodePointLength (UInt8.ofNat (n + 0xe0)) = .ok 3 := by decide
  have hfour : ∀ n < 0x08, getCodePointLength (UInt8.ofNat (n + 0xf0)) = .ok 4 := by decide
  unfold String.utf8EncodeChar
  dsimp only
  split
  · exact ⟨_, _, rfl, hone _ (Nat.lt_succ_of_le ‹_›)⟩
  · split
    · exact ⟨_, _, rfl, htwo _ (Nat.mod_lt _ (by decide))⟩
    · split
      · exact ⟨_, _, rfl, hthree _ (Nat.mod_lt _ (by decide))⟩
      · exact ⟨_, _, rfl, hfour _ (Nat.mod_lt _ (by decide))⟩

theorem splitCodePoints_utf8 (text : List Char) :
    splitCodePoints (utf8 text) = .ok (text.map String.utf8EncodeChar) := by
  induction text with
  | nil => exact splitCodePoints_nil
  | cons c text ih =>
    obtain ⟨leadingByte, continuation, hc, hlength⟩ := getCodePointLength_utf8EncodeChar c
    rw [utf8_cons, hc, List.cons_append]
    refine splitCodePoints_cons.mpr ⟨_, text.map String.utf8EncodeChar, hlength, ?_, ?_, ?_⟩
    · rw [List.length_append]
      omega
    · rw [Nat.add_sub_cancel, List.drop_left]
      exact ih
    · rw [Nat.add_sub_cancel, List.take_left, List.map_cons, hc]

theorem decodable_utf8 (text : List Char) : Decodable (utf8 text) := by
  rw [Decodable, splitCodePoints_utf8]
  rfl

variable {table}

/-- A text each of whose code points is its own normal form. -/
def IsNormal (table : UnicodeTable) (text : Bytes) : Prop :=
  ∃ pieces, splitCodePoints text = .ok pieces ∧ ∀ piece ∈ pieces, (CodePoint.of table piece).normal = piece

theorem IsNormal.append {text text' : Bytes} (h : IsNormal table text) (h' : IsNormal table text') :
    IsNormal table (text ++ text') := by
  obtain ⟨pieces, hs, hn⟩ := h
  obtain ⟨pieces', hs', hn'⟩ := h'
  refine ⟨pieces ++ pieces', splitCodePoints_append hs hs', ?_⟩
  intro piece hp
  exact (List.mem_append.mp hp).elim (hn piece) (hn' piece)

/-- Normal forms are normal, those of the text the table does not have included. -/
theorem isNormal_normal {piece : Bytes} (h : splitCodePoints piece = .ok [piece]) :
    IsNormal table (CodePoint.of table piece).normal := by
  by_cases hfound : findCodePoint table.codePoints piece ∈ table.codePoints
  · exact table.normal_closed _ hfound
  · have hself : (CodePoint.of table piece).normal = piece := by
      simp only [CodePoint.of, CodePoint.ofRaw]
      revert hfound
      unfold findCodePoint
      split
      · rename_i entry later heq
        split
        · intro hfound
          have : entry ∈ table.codePoints.dropWhile (fun entry => lexLess entry.original piece) := by simp [heq]
          exact absurd (List.dropWhile_subset _ this) hfound
        · exact fun _ => rfl
      · exact fun _ => rfl
    exact ⟨[piece], by rw [hself, h], by simpa using hself⟩

theorem isNormal_of_codePoints {text : Bytes} {pieces : List Bytes} (h : splitCodePoints text = .ok pieces) :
    ∀ codePoint ∈ pieces.map (CodePoint.of table), IsNormal table codePoint.normal := by
  intro codePoint hc
  obtain ⟨piece, hp, rfl⟩ := List.mem_map.mp hc
  exact isNormal_normal (splitCodePoints_piece h hp)

end Ycmd.Core
