import Ycmd.Core.IdentifierRuns

/-! Where decoding fails: at the leading bytes that the first splitting comes to, and nowhere after. -/
namespace Ycmd.Core
open Lib

/-- The rests of a text at which the splitting looks for a leading byte. -/
inductive Walks (text : Bytes) : Bytes → Prop where
  | start : Walks text text
  | next {leadingByte : UInt8} {rest : Bytes} {length : Nat} (h : Walks text (leadingByte :: rest))
    (hlength : getCodePointLength leadingByte = .ok length) (hle : length ≤ rest.length + 1) :
    Walks text (rest.drop (length-1))

/-- A leading byte that is met is invalid, or its sequence runs past the end. -/
def WalkFails (text : Bytes) : Prop :=
  ∃ leadingByte rest, Walks text (leadingByte :: rest) ∧
    ((∃ failure, getCodePointLength leadingByte = .error failure) ∨
      ∃ length, getCodePointLength leadingByte = .ok length ∧ rest.length + 1 < length)

/-- The walk from the next leading byte is part of the walk from this one. -/
theorem Walks.of_next {leadingByte : UInt8} {rest after : Bytes} {length : Nat}
    (hlength : getCodePointLength leadingByte = .ok length) (hle : length ≤ rest.length + 1)
    (h : Walks (rest.drop (length-1)) after) : Walks (leadingByte :: rest) after := by
  induction h with
  | start => exact .next .start hlength hle
  | next _ hlength' hle' ih => exact .next ih hlength' hle'

theorem decodable_iff_exists {text : Bytes} : Decodable text ↔ ∃ pieces, splitCodePoints text = .ok pieces := by
  rw [Decodable]
  cases splitCodePoints text <;> simp

/-- What the walk comes to in a text that can be split can be split. -/
theorem Walks.decodable {text after : Bytes} (h : Walks text after) (hdec : Decodable text) : Decodable after := by
  induction h with
  | start => exact hdec
  | @next leadingByte rest length _ hlength _ ih =>
    obtain ⟨pieces, hpieces⟩ := decodable_iff_exists.mp ih
    obtain ⟨length', codePoints, hlength', -, hrest, -⟩ := splitCodePoints_cons.mp hpieces
    obtain rfl := Except.ok.inj (hlength.symm.trans hlength')
    exact decodable_iff_exists.mpr ⟨_, hrest⟩

theorem getCodePointLength_error {leadingByte : UInt8} {failure : Failure}
    (h : getCodePointLength leadingByte = .error failure) : ∃ what, failure = .unicodeDecodeError what := by
  unfold getCodePointLength at h
  repeat' split at h
  all_goals cases h
  exact ⟨_, rfl⟩

/-- The splitting throws only decoding errors, and only where the walk fails. -/
theorem walkFails_of_error {text : Bytes} {failure : Failure} (h : splitCodePoints text = .error failure) :
    WalkFails text ∧ ∃ what, failure = .unicodeDecodeError what := by
  induction hn : text.length using Nat.strong_induction_on generalizing text with
  | _ n ih =>
    cases text with
    | nil =>
      rw [splitCodePoints_nil] at h
      cases h
    | cons leadingByte rest =>
      rw [splitCodePoints] at h
      cases hlength : getCodePointLength leadingByte with
      | error failure' =>
        simp only [hlength, bind, Except.bind] at h
        obtain rfl := Except.error.inj h
        exact ⟨⟨leadingByte, rest, .start, .inl ⟨_, hlength⟩⟩, getCodePointLength_error hlength⟩
      | ok length =>
        simp only [hlength, bind, Except.bind] at h
        by_cases hlt : rest.length + 1 < length
        · rw [if_pos hlt] at h
          exact ⟨⟨leadingByte, rest, .start, .inr ⟨length, hlength, hlt⟩⟩, _, (Except.error.inj h).symm⟩
        · rw [if_neg hlt] at h
          cases hrest : splitCodePoints (rest.drop (length-1)) with
          | ok codePoints => simp [hrest, pure, Except.pure] at h
          | error failure' =>
            simp only [hrest] at h
            obtain rfl := Except.error.inj h
            obtain ⟨⟨leadingByte', rest', hwalks, hbad⟩, hwhat⟩ :=
              ih (rest.drop (length-1)).length (by simp at hn ⊢; omega) hrest rfl
            exact ⟨⟨leadingByte', rest', hwalks.of_next hlength (Nat.le_of_not_lt hlt), hbad⟩, hwhat⟩

theorem decodable_iff (text : Bytes) : Decodable text ↔ ¬ WalkFails text := by
  constructor
  · rintro hdec ⟨leadingByte, rest, hwalks, hbad⟩
    obtain ⟨pieces, hsplit⟩ := decodable_iff_exists.mp (hwalks.decodable hdec)
    obtain ⟨length, -, hlength, hle, -⟩ := splitCodePoints_cons.mp hsplit
    rcases hbad with ⟨failure, herror⟩ | ⟨length', hlength', hlt⟩
    · simp [hlength] at herror
    · obtain rfl := Except.ok.inj (hlength.symm.trans hlength')
      omega
  · intro h
    cases hsplit : splitCodePoints text with
    | error failure => exact absurd (walkFails_of_error hsplit).1 h
    | ok pieces => exact decodable_iff_exists.mpr ⟨pieces, hsplit⟩

section Caches
variable {env : Environment}

theorem breakIntoCodePoints_error {text : Bytes} {failure : Failure} (h : splitCodePoints text = .error failure)
    (caches : CodePointCache) : breakIntoCodePoints env text caches = .error failure caches := by
  rw [breakIntoCodePoints, h]
  rfl

theorem makeWord_error {text : Bytes} {failure : Failure} (h : splitCodePoints text = .error failure)
    (caches : CharacterCache) : makeWord env text caches = .error failure caches := by
  simp only [makeWord, below, bind, EStateM.bind, breakIntoCodePoints_error h]

theorem breakIntoCodePoints_ok_iff {caches : CodePointCache} (h : CodePointsSound env caches) {text : Bytes}
    {codePoints : List CodePoint} :
    (∃ after, breakIntoCodePoints env text caches = .ok codePoints after) ↔
      codePointsOf env.table text = .ok codePoints := by
  constructor
  · rintro ⟨after, hrun⟩
    have := computes_breakIntoCodePoints text caches h
    rw [hrun] at this
    exact this.1
  · intro hpure
    obtain ⟨after, hrun, -⟩ := (computes_breakIntoCodePoints text).ok h hpure
    exact ⟨after, hrun⟩

theorem exists_codePointsOf (table : UnicodeTable) {text : Bytes} (h : Decodable text) :
    ∃ codePoints, codePointsOf table text = .ok codePoints := by
  obtain ⟨pieces, hsplit⟩ := decodable_iff_exists.mp h
  exact ⟨pieces.map (CodePoint.of table), by simp [codePointsOf, hsplit, Except.map]⟩

theorem codePointsOf_append {table : UnicodeTable} {text text' : Bytes} {codePoints codePoints' : List CodePoint}
    (h : codePointsOf table text = .ok codePoints) (h' : codePointsOf table text' = .ok codePoints') :
    codePointsOf table (text ++ text') = .ok (codePoints ++ codePoints') := by
  cases hsplit : splitCodePoints text with
  | error failure => simp [codePointsOf, hsplit, Except.map] at h
  | ok pieces =>
    cases hsplit' : splitCodePoints text' with
    | error failure => simp [codePointsOf, hsplit', Except.map] at h'
    | ok pieces' =>
      simp only [codePointsOf, hsplit, hsplit', Except.map, Except.ok.injEq] at h h'
      simp only [codePointsOf, splitCodePoints_append hsplit hsplit', Except.map, List.map_append, h, h']

end Caches

/-- In every state a process comes to, constructing a word throws in its first step, where the walk over the
text fails, or it returns the word of the text, and the first step its code points; and texts that are accepted
are put together code point by code point. -/
theorem decoding_fails_first (env : Environment) (db : IdentifierDatabase)
    (h : IdentifierDatabase.Reachable env db) (text : Bytes) :
    (WalkFails text → ∃ what,
      breakIntoCodePoints env text db.2.2.2 = .error (.unicodeDecodeError what) db.2.2.2 ∧
      makeWord env text db.2.2 = .error (.unicodeDecodeError what) db.2.2) ∧
    (¬ WalkFails text →
      (∃ codePoints after, codePointsOf env.table text = .ok codePoints ∧
        breakIntoCodePoints env text db.2.2.2 = .ok codePoints after) ∧
      ∃ word after, Word.of env text = .ok word ∧ makeWord env text db.2.2 = .ok word after) ∧
    ∀ text' codePoints codePoints' after after',
      breakIntoCodePoints env text db.2.2.2 = .ok codePoints after →
      breakIntoCodePoints env text' db.2.2.2 = .ok codePoints' after' →
      ∃ after'', breakIntoCodePoints env (text ++ text') db.2.2.2 = .ok (codePoints ++ codePoints') after'' := by
  obtain ⟨-, hcharacters⟩ := h.built.2
  refine ⟨fun hfails => ?_, fun hfails => ?_, ?_⟩
  · cases hsplit : splitCodePoints text with
    | ok pieces => exact absurd hfails ((decodable_iff text).mp (decodable_iff_exists.mpr ⟨pieces, hsplit⟩))
    | error failure =>
      obtain ⟨-, what, rfl⟩ := walkFails_of_error hsplit
      exact ⟨what, breakIntoCodePoints_error hsplit _, makeWord_error hsplit _⟩
  · have hdec := (decodable_iff text).mpr hfails
    obtain ⟨codePoints, hcodePoints⟩ := exists_codePointsOf env.table hdec
    obtain ⟨afterSplit, hsplit⟩ := (breakIntoCodePoints_ok_iff hcharacters.2).mpr hcodePoints
    obtain ⟨word, hword⟩ := Word.exists_of env hdec
    obtain ⟨after, hrun, -⟩ := (computes_makeWord text).ok hcharacters hword
    exact ⟨⟨codePoints, afterSplit, hcodePoints, hsplit⟩, word, after, hword, hrun⟩
  · intro text' codePoints codePoints' after after' hrun hrun'
    have hsound := hcharacters.2
    rw [breakIntoCodePoints_ok_iff hsound]
    exact codePointsOf_append ((breakIntoCodePoints_ok_iff hsound).mp ⟨after, hrun⟩)
      ((breakIntoCodePoints_ok_iff hsound).mp ⟨after', hrun'⟩)

/-- A sequence whose continuation byte is not one is taken as it is. -/
theorem decoding_fails_first_malformed :
    ¬ WalkFails [0xc3, 0x28] ∧
    (∃ codePoints after, codePoints.map CodePoint.normal = [[0xc3, 0x28]] ∧
      breakIntoCodePoints IdentifierDatabase.letterEnvironment [0xc3, 0x28] IdentifierDatabase.empty.2.2.2 =
        .ok codePoints after) ∧
    ∃ word after, Word.of IdentifierDatabase.letterEnvironment [0xc3, 0x28] = .ok word ∧
      makeWord IdentifierDatabase.letterEnvironment [0xc3, 0x28] IdentifierDatabase.empty.2.2 = .ok word after := by
  have hfails : ¬ WalkFails [0xc3, 0x28] := (decodable_iff _).mp (by decide +kernel)
  obtain ⟨⟨codePoints, after, hcodePoints, hsplit⟩, hword⟩ :=
    (decoding_fails_first IdentifierDatabase.letterEnvironment .empty .empty [0xc3, 0x28]).2.1 hfails
  have hnormal : (codePointsOf IdentifierDatabase.letterEnvironment.table [0xc3, 0x28]).map (List.map CodePoint.normal) =
      .ok [[0xc3, 0x28]] := by decide +kernel
  rw [hcodePoints] at hnormal
  exact ⟨hfails, ⟨codePoints, after, Except.ok.inj hnormal, hsplit⟩, hword⟩

end Ycmd.Core
