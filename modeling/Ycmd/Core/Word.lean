import Ycmd.Core.Character

/-! Words and candidates: text broken into characters by the extended grapheme cluster rules. -/
namespace Ycmd.Core
open Lib

structure BreakFlags where
  isRegionalIndicatorNbOdd : Bool
  withinEmojiModifier : Bool
  deriving DecidableEq, Repr

/-- The nested `switch`es: whether a code point joins the one before it, and the flags after. -/
def joins (flags : BreakFlags) (previous property : BreakProperty) : Bool × BreakFlags :=
  match previous with
  | .cr => match property with
    | .lf => (true, flags)
    | _ => (false, flags)
  | .control | .lf => (false, flags)
  | .l => match property with
    | .l | .v | .lv | .lvt | .extend | .zwj | .spacingMark => (true, flags)
    | _ => (false, flags)
  | .lv | .v => match property with
    | .v | .t | .extend | .zwj | .spacingMark => (true, flags)
    | _ => (false, flags)
  | .lvt | .t => match property with
    | .t | .extend | .zwj | .spacingMark => (true, flags)
    | _ => (false, flags)
  | .prepend => match property with
    | .control | .cr | .lf => (false, flags)
    | _ => (true, flags)
  | .extend => match property with
    | .extend | .zwj => (true, flags)
    | .spacingMark => (true, { flags with withinEmojiModifier := false })
    | _ => (false, { flags with withinEmojiModifier := false })
  | .zwj => match property with
    | .extend | .zwj | .spacingMark => (true, { flags with withinEmojiModifier := false })
    | .extPict =>
      if flags.withinEmojiModifier then (true, { flags with withinEmojiModifier := false })
      else (false, flags)
    | _ => (false, { flags with withinEmojiModifier := false })
  | .extPict => match property with
    | .spacingMark => (true, flags)
    | .extend | .zwj => (true, { flags with withinEmojiModifier := true })
    | _ => (false, flags)
  | .regionalIndicator => match property with
    | .extend | .zwj | .spacingMark => (true, { flags with isRegionalIndicatorNbOdd := false })
    | .regionalIndicator =>
      let odd := !flags.isRegionalIndicatorNbOdd
      (odd, { flags with isRegionalIndicatorNbOdd := odd })
    | _ => (false, { flags with isRegionalIndicatorNbOdd := false })
  | .other | .spacingMark => match property with
    | .extend | .zwj | .spacingMark => (true, flags)
    | _ => (false, flags)

/-- The loop over the code points after the first; `character` is the one being filled. -/
def breakLoop (flags : BreakFlags) (previous : CodePoint) (character : Bytes) : List CodePoint → List Bytes
  | [] => [character]
  | codePoint :: codePoints =>
    match joins flags previous.breakProperty codePoint.breakProperty with
    | (true, flags) => breakLoop flags codePoint (character ++ codePoint.normal) codePoints
    | (false, flags) => character :: breakLoop flags codePoint codePoint.normal codePoints

def breakCodePointsIntoCharacters : List CodePoint → List Bytes
  | [] => []
  | codePoint :: codePoints => breakLoop ⟨false, false⟩ codePoint codePoint.normal codePoints

/-- A `std::bitset` with one bit for each byte value. -/
abbrev Bitset := BitVec 256

def Bitset.set (bits : Bitset) (byte : UInt8) : Bitset := bits ||| BitVec.twoPow 256 byte.toNat

structure Word where
  text : Bytes
  characters : List Character
  bytesPresent : Bitset
  deriving DecidableEq, Repr

namespace Word

def computeBytesPresent (characters : List Character) : Bitset :=
  characters.foldl (fun bits character => character.base.foldl Bitset.set bits) 0

def length (word : Word) : Nat := word.characters.length

def isEmpty (word : Word) : Bool := word.characters.isEmpty

def containsBytes (word other : Word) : Bool := word.bytesPresent &&& other.bytesPresent == other.bytesPresent

def build (text : Bytes) (characters : List Character) : Word :=
  ⟨text, characters, computeBytesPresent characters⟩

end Word

structure Candidate extends Word where
  caseSwappedText : Bytes
  wordBoundaryChars : List Character
  textIsLowercase : Bool
  deriving DecidableEq, Repr

namespace Candidate

private def boundaryLoop (previous : Character) : List Character → List Character
  | [] => []
  | character :: characters =>
    if (!previous.isUppercase && character.isUppercase) || (previous.isPunctuation && character.isLetter) then
      character :: boundaryLoop character characters
    else boundaryLoop character characters

def computeWordBoundaryChars : List Character → List Character
  | [] => []
  | first :: characters =>
    (if !first.isPunctuation then [first] else []) ++ boundaryLoop first characters

def build (word : Word) : Candidate where
  toWord := word
  caseSwappedText := word.characters.flatMap Character.swappedCase
  wordBoundaryChars := computeWordBoundaryChars word.characters
  textIsLowercase := word.characters.all (fun character => !character.isUppercase)

end Candidate

variable (env : Environment)

/-- The word of a text, as it is when nothing is cached. -/
def Word.of (text : Bytes) : Except Failure Word := do
  let codePoints ← codePointsOf env.table text
  let characters ← (breakCodePointsIntoCharacters codePoints).mapM (Character.of env)
  return .build text characters

def Candidate.of (text : Bytes) : Except Failure Candidate := (Word.of env text).map .build

variable {env}

theorem breakLoop_mem {P : Bytes → Prop} (happend : ∀ a b, P a → P b → P (a ++ b))
    {flags : BreakFlags} {previous : CodePoint} {character : Bytes} {codePoints : List CodePoint}
    (hchar : P character) (h : ∀ codePoint ∈ codePoints, P codePoint.normal) :
    ∀ cluster ∈ breakLoop flags previous character codePoints, P cluster := by
  induction codePoints generalizing flags previous character with
  | nil => simpa [breakLoop] using hchar
  | cons codePoint codePoints ih =>
    rw [List.forall_mem_cons] at h
    unfold breakLoop
    split
    · exact ih (happend _ _ hchar h.1) h.2
    · exact List.forall_mem_cons.mpr ⟨hchar, ih h.1 h.2⟩

/-- Clusters are concatenations of the code points' normal forms. -/
theorem breakCodePointsIntoCharacters_mem {P : Bytes → Prop} (happend : ∀ a b, P a → P b → P (a ++ b))
    {codePoints : List CodePoint} (h : ∀ codePoint ∈ codePoints, P codePoint.normal) :
    ∀ cluster ∈ breakCodePointsIntoCharacters codePoints, P cluster := by
  cases codePoints with
  | nil => simp [breakCodePointsIntoCharacters]
  | cons codePoint codePoints =>
    rw [List.forall_mem_cons] at h
    exact breakLoop_mem happend h.1 h.2

theorem breakLoop_ne_nil {flags : BreakFlags} {previous : CodePoint} {character : Bytes}
    {codePoints : List CodePoint} : breakLoop flags previous character codePoints ≠ [] := by
  induction codePoints generalizing flags previous character with
  | nil => simp [breakLoop]
  | cons codePoint codePoints ih =>
    unfold breakLoop
    split
    · exact ih
    · simp

theorem breakCodePointsIntoCharacters_eq_nil {codePoints : List CodePoint} :
    breakCodePointsIntoCharacters codePoints = [] ↔ codePoints = [] := by
  cases codePoints with
  | nil => simp [breakCodePointsIntoCharacters]
  | cons codePoint codePoints => simp [breakCodePointsIntoCharacters, breakLoop_ne_nil]

/-- Only the first decoding can fail: what comes after it works on normal forms. -/
theorem Word.of_split (env : Environment) {text : Bytes} {pieces : List Bytes}
    (h : splitCodePoints text = .ok pieces) :
    ∃ characters, Word.of env text = .ok (.build text characters) ∧ (characters = [] ↔ text = []) := by
  have hnormal : ∀ cluster ∈ breakCodePointsIntoCharacters (pieces.map (CodePoint.of env.table)),
      IsNormal env.table cluster :=
    breakCodePointsIntoCharacters_mem (fun _ _ => IsNormal.append) (isNormal_of_codePoints h)
  have hall : ((breakCodePointsIntoCharacters (pieces.map (CodePoint.of env.table))).mapM
      (Character.of env)).isOk = true := by
    rw [mapM_isOk, List.all_eq_true]
    intro cluster hc
    obtain ⟨character, hok⟩ := Character.of_isNormal (hnormal cluster hc)
    rw [hok]
    rfl
  cases hm : (breakCodePointsIntoCharacters (pieces.map (CodePoint.of env.table))).mapM (Character.of env) with
  | error e => simp [hm] at hall
  | ok characters =>
    have hlen := (mapM_ok_iff.mp hm).length_eq
    refine ⟨characters, ?_, ?_⟩
    · simp [Word.of, codePointsOf, h, hm, Except.map, bind, Except.bind, pure, Except.pure]
    · rw [← List.length_eq_zero_iff, ← hlen, List.length_eq_zero_iff, breakCodePointsIntoCharacters_eq_nil,
        List.map_eq_nil_iff]
      constructor
      · rintro rfl
        exact (splitCodePoints_flatten h).symm
      · rintro rfl
        rw [splitCodePoints_nil] at h
        exact (Except.ok.inj h).symm

/-- A text has a word exactly when it decodes. -/
theorem Word.of_isOk (env : Environment) (text : Bytes) : (Word.of env text).isOk = true ↔ Decodable text := by
  unfold Decodable
  cases h : splitCodePoints text with
  | ok pieces =>
    obtain ⟨characters, hw, -⟩ := Word.of_split env h
    simp [hw]
  | error failure => simp [Word.of, codePointsOf, h, Except.map, bind, Except.bind]

theorem Word.exists_of (env : Environment) {text : Bytes} (h : Decodable text) : ∃ word, Word.of env text = .ok word := by
  cases hw : Word.of env text with
  | ok word => exact ⟨word, rfl⟩
  | error failure => simpa [hw] using (Word.of_isOk env text).mpr h

theorem Candidate.of_isOk (env : Environment) (text : Bytes) :
    (Candidate.of env text).isOk = true ↔ Decodable text := by
  rw [Candidate.of, isOk_map, Word.of_isOk]

theorem Candidate.of_ok {text : Bytes} {candidate : Candidate} (h : Candidate.of env text = .ok candidate) :
    candidate.text = text ∧ (candidate.isEmpty = true ↔ text = []) := by
  cases hs : splitCodePoints text with
  | error failure => simp [Candidate.of, Word.of, codePointsOf, hs, Except.map, bind, Except.bind] at h
  | ok pieces =>
    obtain ⟨characters, hw, hempty⟩ := Word.of_split env hs
    rw [Candidate.of, hw] at h
    obtain rfl := Except.ok.inj h
    exact ⟨rfl, by simpa [Candidate.build, Word.build, Word.isEmpty] using hempty⟩

end Ycmd.Core
