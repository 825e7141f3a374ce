import Ycmd.Core.CanonicalOrder
import Ycmd.Core.Result
import Mathlib.Data.List.Forall2

/-! The test of the bytes of a query, made before a candidate is matched against it: which matches it
hides. -/
namespace Ycmd.Core
open Lib

/-- Taking every element that matches finds a subsequence when there is one. -/
private theorem sublistForall₂_cons_cons {α β : Type} {R : α → β → Prop} {a : α} {b : β} {l : List α}
    {m : List β} :
    List.SublistForall₂ R (a :: l) (b :: m) ↔
      (R a b ∧ List.SublistForall₂ R l m) ∨ List.SublistForall₂ R (a :: l) m := by
  constructor
  · intro h
    cases h with
    | cons hab h => exact .inl ⟨hab, h⟩
    | cons_right h => exact .inr h
  · rintro (⟨hab, h⟩ | h)
    · exact .cons hab h
    · exact .cons_right h

private theorem SublistForall₂.tail {α β : Type} {R : α → β → Prop} {a : α} {l : List α} {m : List β}
    (h : List.SublistForall₂ R (a :: l) m) : List.SublistForall₂ R l m := by
  induction m with
  | nil => cases h
  | cons b m ih =>
    cases h with
    | cons _ h => exact .cons_right h
    | cons_right h => exact .cons_right (ih h)

private theorem SublistForall₂.exists_of_mem {α β : Type} {R : α → β → Prop} {l : List α} {m : List β}
    (h : List.SublistForall₂ R l m) {a : α} (ha : a ∈ l) : ∃ b ∈ m, R a b := by
  induction h with
  | nil => cases ha
  | cons hab _ ih =>
    rcases List.mem_cons.mp ha with rfl | ha
    · exact ⟨_, List.mem_cons_self, hab⟩
    · obtain ⟨b, hb, hR⟩ := ih ha
      exact ⟨b, List.mem_cons_of_mem _ hb, hR⟩
  | cons_right _ ih =>
    obtain ⟨b, hb, hR⟩ := ih ha
    exact ⟨b, List.mem_cons_of_mem _ hb, hR⟩

/-- The characters of the query match characters of the candidate, in order. -/
abbrev Candidate.HasSubsequence (candidate : Candidate) (query : Word) : Prop :=
  List.SublistForall₂ (fun queryCharacter character => queryCharacter.matchesSmart character = true)
    query.characters candidate.characters

theorem Candidate.matchLoop_isSome (candidate : Candidate) (query : Word) {queryIndex candidateIndex indexSum : Nat}
    {queryCharacters characters : List Character} (hne : queryCharacters ≠ []) :
    (matchLoop candidate query queryIndex candidateIndex indexSum queryCharacters characters).isSome = true ↔
      List.SublistForall₂ (fun queryCharacter character => queryCharacter.matchesSmart character = true)
        queryCharacters characters := by
  induction characters generalizing queryIndex candidateIndex indexSum queryCharacters with
  | nil =>
    obtain ⟨queryCharacter, rest, rfl⟩ := List.exists_cons_of_ne_nil hne
    simp only [matchLoop, Option.isSome_none, Bool.false_eq_true, false_iff]
    rintro ⟨⟩
  | cons character characters ih =>
    obtain ⟨queryCharacter, rest, rfl⟩ := List.exists_cons_of_ne_nil hne
    rw [sublistForall₂_cons_cons, matchLoop]
    by_cases hmatch : queryCharacter.matchesSmart character = true
    · rw [if_pos hmatch, and_iff_right hmatch, or_iff_left_of_imp SublistForall₂.tail]
      by_cases hrest : rest = []
      · subst hrest
        exact iff_of_true rfl .nil
      · rw [if_neg hrest, ih hrest]
    · rw [if_neg hmatch, ih hne, or_iff_right (fun h => hmatch h.1)]

theorem Candidate.queryMatchResult_isSome (candidate : Candidate) (query : Word) :
    (candidate.queryMatchResult query).isSome = true ↔ candidate.HasSubsequence query := by
  unfold queryMatchResult HasSubsequence
  by_cases hempty : query.characters = []
  · rw [if_pos (by simp [Word.isEmpty, hempty]), hempty]
    exact iff_of_true rfl .nil
  · rw [if_neg (by simpa [Word.isEmpty] using hempty)]
    split
    · rename_i hlt
      apply iff_of_false (by simp)
      intro h
      obtain ⟨part, hpart, hsublist⟩ := List.sublistForall₂_iff.mp h
      have := hpart.length_eq.trans_le hsublist.length_le
      simp only [Word.length] at hlt
      omega
    · exact matchLoop_isSome candidate query hempty

theorem getLsbD_foldl_set (bytes : Bytes) (bits : Bitset) (i : Nat) :
    (bytes.foldl Bitset.set bits).getLsbD i = true ↔
      bits.getLsbD i = true ∨ ∃ byte ∈ bytes, byte.toNat = i := by
  induction bytes generalizing bits with
  | nil => simp
  | cons byte bytes ih =>
    have hlt := byte.toNat_lt
    rw [List.foldl_cons, ih, Bitset.set, BitVec.getLsbD_or, BitVec.getLsbD_twoPow]
    simp only [Bool.or_eq_true, Bool.and_eq_true, decide_eq_true_eq, List.exists_mem_cons_iff, or_assoc]
    rw [and_iff_right (by omega)]

/-- A bit is set for every byte of every base. -/
theorem Word.getLsbD_computeBytesPresent (characters : List Character) (i : Nat) :
    (computeBytesPresent characters).getLsbD i = true ↔
      ∃ character ∈ characters, ∃ byte ∈ character.base, byte.toNat = i := by
  have hfold : ∀ bits : Bitset,
      (characters.foldl (fun bits character => character.base.foldl Bitset.set bits) bits).getLsbD i = true ↔
        bits.getLsbD i = true ∨ ∃ character ∈ characters, ∃ byte ∈ character.base, byte.toNat = i := by
    induction characters with
    | nil => simp
    | cons character characters ih =>
      intro bits
      rw [List.foldl_cons, ih, getLsbD_foldl_set, List.exists_mem_cons_iff, or_assoc]
  rw [computeBytesPresent, hfold]
  simp

theorem Word.containsBytes_build (text text' : Bytes) (characters characters' : List Character) :
    (Word.build text characters).containsBytes (.build text' characters') = true ↔
      ∀ character' ∈ characters', ∀ byte ∈ character'.base, ∃ character ∈ characters, byte ∈ character.base := by
  rw [containsBytes, beq_iff_eq]
  constructor
  · intro h character' hcharacter' byte hbyte
    have hbit := (getLsbD_computeBytesPresent characters' byte.toNat).mpr ⟨character', hcharacter', byte, hbyte, rfl⟩
    change (computeBytesPresent characters &&& computeBytesPresent characters') = computeBytesPresent characters' at h
    rw [← h, BitVec.getLsbD_and, Bool.and_eq_true] at hbit
    obtain ⟨character, hcharacter, byte', hbyte', heq⟩ := (getLsbD_computeBytesPresent characters _).mp hbit.1
    exact ⟨character, hcharacter, UInt8.toNat_inj.mp heq ▸ hbyte'⟩
  · intro h
    apply BitVec.eq_of_getLsbD_eq
    intro i _
    change (computeBytesPresent characters &&& computeBytesPresent characters').getLsbD i =
      (computeBytesPresent characters').getLsbD i
    rw [BitVec.getLsbD_and, Bool.and_eq_right_iff_imp]
    intro hbit
    obtain ⟨character', hcharacter', byte, hbyte, rfl⟩ := (getLsbD_computeBytesPresent characters' i).mp hbit
    obtain ⟨character, hcharacter, hmem⟩ := h character' hcharacter' byte hbyte
    exact (getLsbD_computeBytesPresent characters _).mpr ⟨character, hcharacter, byte, hmem, rfl⟩

variable {env : Environment}

/-- What the character of a normalised cluster is made of. -/
theorem Character.of_eq {cluster : Bytes} {character : Character} (hnormal : IsNormal env.table cluster)
    (h : Character.of env cluster = .ok character) :
    ∃ codePoints, character = ofCodePoints codePoints ∧ Decomposed env.table codePoints := by
  obtain ⟨pieces, hsplit, hpieces⟩ := hnormal
  have hself := normalFormOf_of_isNormal ⟨pieces, hsplit, hpieces⟩
  simp only [Character.of, canonicalDecompositionOf, hself, codePointsOf, hsplit, bind, Except.bind,
    Except.map] at h
  rw [if_neg (fun hne => hne rfl)] at h
  refine ⟨_, (Except.ok.inj h).symm, fun codePoint hmem => ?_⟩
  rw [(canonicalSort_perm env.std _).mem_iff] at hmem
  obtain ⟨piece, hpiece, rfl⟩ := List.mem_map.mp hmem
  rw [hpieces piece hpiece]
  exact ⟨splitCodePoints_piece hsplit hpiece, rfl⟩

/-- Characters with the same normal form are the same. -/
theorem Character.eq_of_normal {cluster cluster' : Bytes} {character character' : Character}
    (hnormal : IsNormal env.table cluster) (hnormal' : IsNormal env.table cluster')
    (h : Character.of env cluster = .ok character) (h' : Character.of env cluster' = .ok character')
    (heq : character.normal = character'.normal) : character = character' := by
  obtain ⟨codePoints, rfl, hself⟩ := Character.of_eq hnormal h
  obtain ⟨codePoints', rfl, hself'⟩ := Character.of_eq hnormal' h'
  rw [hself.eq_of_normal hself' heq]

/-- The characters of a word are those of normalised clusters. -/
theorem Word.of_characters {text : Bytes} {word : Word} (h : Word.of env text = .ok word) :
    word = .build text word.characters ∧ ∀ character ∈ word.characters,
      ∃ cluster, IsNormal env.table cluster ∧ Character.of env cluster = .ok character := by
  obtain ⟨codePoints, hcodePoints, h⟩ := bind_ok h
  obtain ⟨characters, hcharacters, h⟩ := bind_ok h
  obtain rfl := Except.ok.inj h
  refine ⟨rfl, fun character hmem => ?_⟩
  obtain ⟨pieces, hsplit, rfl⟩ : ∃ pieces, splitCodePoints text = .ok pieces ∧
      pieces.map (CodePoint.of env.table) = codePoints := by
    cases hsplit : splitCodePoints text with
    | error failure => simp [codePointsOf, hsplit, Except.map] at hcodePoints
    | ok pieces => exact ⟨pieces, rfl, by simpa [codePointsOf, hsplit, Except.map] using hcodePoints⟩
  obtain ⟨i, hi, rfl⟩ := List.getElem_of_mem hmem
  have hforall := mapM_ok_iff.mp hcharacters
  have hlt : i < (breakCodePointsIntoCharacters (pieces.map (CodePoint.of env.table))).length := by
    rw [hforall.length_eq]
    exact hi
  exact ⟨_, breakCodePointsIntoCharacters_mem (fun _ _ => IsNormal.append) (isNormal_of_codePoints hsplit) _
    (List.getElem_mem hlt), hforall.get hlt hi⟩

theorem Candidate.of_eq_build {text : Bytes} {candidate : Candidate} (h : Candidate.of env text = .ok candidate) :
    ∃ word, Word.of env text = .ok word ∧ .build word = candidate := by
  cases hword : Word.of env text with
  | error failure => simp [Candidate.of, hword, Except.map] at h
  | ok word => exact ⟨word, rfl, by simpa [Candidate.of, hword, Except.map] using h⟩

/-- The query character is not uppercase and equals one of the candidate when case is ignored, but has a byte
in its base that is in no base of the candidate. -/
def Candidate.LosesByte (candidate : Candidate) (queryCharacter : Character) : Prop :=
  queryCharacter.isUppercase = false ∧
    (∃ character ∈ candidate.characters, queryCharacter.equalsIgnoreCase character = true) ∧
    ∃ byte ∈ queryCharacter.base, ∀ character ∈ candidate.characters, byte ∉ character.base

/-- The query matches, but one of its characters loses a byte. -/
def Candidate.Hides (candidate : Candidate) (query : Word) : Prop :=
  candidate.HasSubsequence query ∧ ∃ queryCharacter ∈ query.characters, candidate.LosesByte queryCharacter

/-- The byte is in the folded case of a combining mark of the character. -/
def Character.InMark (env : Environment) (byte : UInt8) (character : Character) : Prop :=
  ∃ cluster codePoints, canonicalDecompositionOf env cluster = .ok codePoints ∧ character = ofCodePoints codePoints ∧
    ∃ mark ∈ codePoints, mark.breakProperty.isMark = true ∧ byte ∈ mark.foldedCase

theorem Character.exists_ofCodePoints {cluster : Bytes} {character : Character}
    (h : Character.of env cluster = .ok character) :
    ∃ codePoints, canonicalDecompositionOf env cluster = .ok codePoints ∧ character = ofCodePoints codePoints := by
  cases hcodePoints : canonicalDecompositionOf env cluster with
  | error failure => simp [Character.of, hcodePoints, Except.map] at h
  | ok codePoints =>
    refine ⟨codePoints, rfl, ?_⟩
    simpa [Character.of, hcodePoints, Except.map] using h.symm

/-- The folded case has the bytes of the base and those of the combining marks. -/
theorem Character.mem_foldedCase_iff {cluster : Bytes} {character : Character} {byte : UInt8}
    (h : Character.of env cluster = .ok character) :
    byte ∈ character.foldedCase ↔ byte ∈ character.base ∨ character.InMark env byte := by
  obtain ⟨codePoints, hcodePoints, rfl⟩ := exists_ofCodePoints h
  have hbase : byte ∈ (ofCodePoints codePoints).base ↔
      ∃ codePoint ∈ codePoints, codePoint.breakProperty.isMark = false ∧ byte ∈ codePoint.foldedCase := by
    rw [base_ofCodePoints, List.mem_flatMap]
    refine exists_congr (fun codePoint => and_congr_right (fun _ => ?_))
    cases codePoint.breakProperty.isMark <;> simp
  constructor
  · intro hbyte
    rw [foldedCase_ofCodePoints, List.mem_flatMap] at hbyte
    obtain ⟨codePoint, hmem, hbyte⟩ := hbyte
    cases hmark : codePoint.breakProperty.isMark with
    | false => exact .inl (hbase.mpr ⟨codePoint, hmem, hmark, hbyte⟩)
    | true => exact .inr ⟨cluster, codePoints, hcodePoints, rfl, codePoint, hmem, hmark, hbyte⟩
  · rintro (hbyte | ⟨-, codePoints', -, hsame, mark, hmem, -, hbyte⟩)
    · obtain ⟨codePoint, hmem, -, hbyte⟩ := hbase.mp hbyte
      rw [foldedCase_ofCodePoints]
      exact List.mem_flatMap_of_mem hmem hbyte
    · rw [hsame, foldedCase_ofCodePoints]
      exact List.mem_flatMap_of_mem hmem hbyte

/-- A match brings the bytes of a base with it, unless it is only one of folded cases. -/
theorem mem_base_of_matchesSmart {cluster cluster' : Bytes} {queryCharacter character : Character} {byte : UInt8}
    (hnormal : IsNormal env.table cluster) (hnormal' : IsNormal env.table cluster')
    (h : Character.of env cluster = .ok queryCharacter) (h' : Character.of env cluster' = .ok character)
    (hmatch : queryCharacter.matchesSmart character = true) (hbyte : byte ∈ queryCharacter.base) :
    byte ∈ character.base ∨
      queryCharacter.isUppercase = false ∧ queryCharacter.equalsIgnoreCase character = true := by
  simp only [Character.matchesSmart, Bool.or_eq_true, Bool.and_eq_true, Bool.not_eq_true'] at hmatch
  obtain (⟨⟨-, hbase⟩, -⟩ | hfolded) | hsame := hmatch
  · exact .inl (beq_iff_eq.mp hbase ▸ hbyte)
  · exact .inr hfolded
  · exact .inl (Character.eq_of_normal hnormal hnormal' h h' (beq_iff_eq.mp hsame) ▸ hbyte)

/-- The test keeps a match exactly when no character of the query loses a byte. -/
theorem containsBytes_of_match_iff {text query : Bytes} {candidate : Candidate} {word : Word}
    (h : Candidate.of env text = .ok candidate) (hquery : Word.of env query = .ok word) :
    ((candidate.queryMatchResult word).isSome = true → candidate.containsBytes word = true) ↔
      ¬ candidate.Hides word := by
  obtain ⟨candidateWord, hword, rfl⟩ := Candidate.of_eq_build h
  obtain ⟨hbuild, hcharacters⟩ := Word.of_characters hword
  obtain ⟨hbuild', hcharacters'⟩ := Word.of_characters hquery
  have hcontains : (Candidate.build candidateWord).containsBytes word = true ↔
      ∀ queryCharacter ∈ word.characters, ∀ byte ∈ queryCharacter.base,
        ∃ character ∈ candidateWord.characters, byte ∈ character.base := by
    rw [← Word.containsBytes_build text query, ← hbuild, ← hbuild']
    rfl
  rw [Candidate.queryMatchResult_isSome, hcontains, Candidate.Hides, not_and, not_exists]
  apply imp_congr_right
  intro hsubsequence
  constructor
  · rintro hall queryCharacter ⟨hmem, -, -, byte, hbyte, hnone⟩
    obtain ⟨character, hcharacter, hin⟩ := hall queryCharacter hmem byte hbyte
    exact hnone character hcharacter hin
  · intro hnone queryCharacter hmem byte hbyte
    by_contra hlost
    rw [not_exists] at hlost
    obtain ⟨character, hcharacter, hmatch⟩ : ∃ character ∈ candidateWord.characters,
        queryCharacter.matchesSmart character = true := SublistForall₂.exists_of_mem hsubsequence hmem
    obtain ⟨cluster, hnormal, hof⟩ := hcharacters' queryCharacter hmem
    obtain ⟨cluster', hnormal', hof'⟩ := hcharacters character hcharacter
    obtain hin | ⟨hupper, hfolded⟩ := mem_base_of_matchesSmart hnormal hnormal' hof hof' hmatch hbyte
    · exact hlost character ⟨hcharacter, hin⟩
    · exact hnone queryCharacter ⟨hmem, hupper, ⟨character, hcharacter, hfolded⟩, byte, hbyte,
        fun c hc hin => hlost c ⟨hc, hin⟩⟩

/-- What a match loses are bytes that combining marks of the candidate fold to. -/
theorem Candidate.Hides.exists_inMark {text query : Bytes} {candidate : Candidate} {word : Word}
    (h : Candidate.of env text = .ok candidate) (hquery : Word.of env query = .ok word) (hhides : candidate.Hides word) :
    ∃ queryCharacter ∈ word.characters, ∃ character ∈ candidate.characters,
      queryCharacter.equalsIgnoreCase character = true ∧
      ∃ byte ∈ queryCharacter.base, character.InMark env byte ∧ ∀ other ∈ candidate.characters, byte ∉ other.base := by
  obtain ⟨candidateWord, hword, rfl⟩ := Candidate.of_eq_build h
  obtain ⟨-, queryCharacter, hmem, -, ⟨character, hcharacter, hfolded⟩, byte, hbyte, hnone⟩ := hhides
  obtain ⟨cluster, -, hof⟩ := (Word.of_characters hquery).2 queryCharacter hmem
  obtain ⟨cluster', -, hof'⟩ := (Word.of_characters hword).2 character hcharacter
  have hin : byte ∈ character.foldedCase := by
    rw [← beq_iff_eq.mp hfolded]
    exact (Character.mem_foldedCase_iff hof).mpr (.inl hbyte)
  exact ⟨queryCharacter, hmem, character, hcharacter, hfolded, byte, hbyte,
    ((Character.mem_foldedCase_iff hof').mp hin).resolve_left (hnone character hcharacter), hnone⟩

end Ycmd.Core
