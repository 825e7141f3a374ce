import Ycmd.RequestWrap

/-! The identifiers of a line and the cursor: those that end at or before it, and those that end after it. -/
namespace Ycmd
open Lib Clangd

/-- Where an identifier of a line ends, in bytes. -/
def endOf (identifier : Nat × Bytes) : Nat := identifier.1 + identifier.2.length

/-- The text of an identifier, empty where there is none. -/
def textOf (identifier : Option (Nat × Bytes)) : Bytes := (identifier.map Prod.snd).getD []

/-- The first `i` identifiers end at or before the index and the others after it. -/
def SplitAt (found : List (Nat × Bytes)) (index i : Nat) : Prop :=
  PartitionPoint (fun identifier => decide (endOf identifier ≤ index)) found i

theorem splitAt_iff {found : List (Nat × Bytes)} {index i : Nat} :
    SplitAt found index i ↔ i ≤ found.length ∧ (∀ identifier ∈ found.take i, endOf identifier ≤ index) ∧
      ∀ identifier ∈ found.drop i, index < endOf identifier := by
  constructor
  · intro h
    refine ⟨h.le_length, ?_, ?_⟩
    · intro identifier hmem
      exact of_decide_eq_true (h.before identifier hmem)
    · intro identifier hmem
      exact Nat.lt_of_not_le (of_decide_eq_false (h.after identifier hmem))
  · rintro ⟨hle, hbefore, hafter⟩
    refine ⟨hle, ?_, ?_⟩
    · intro identifier hmem
      exact decide_eq_true (hbefore identifier hmem)
    · intro identifier hmem
      exact decide_eq_false (Nat.not_le_of_lt (hafter identifier hmem))

/-- The bytes before the end of a match are those of the characters before it. -/
theorem endOf_match {text : List Char} {found : Nat × List Char} (h : found.2 <+: text.drop found.1) :
    endOf ((utf8 (text.take found.1)).length, utf8 found.2) =
      (utf8 (text.take (found.1 + found.2.length))).length := by
  rw [endOf, List.take_add, utf8_append, List.length_append, ← List.prefix_iff_eq_take.mp h]

theorem length_utf8_take_le {text : List Char} {n k : Nat} (h : n ≤ k) :
    (utf8 (text.take n)).length ≤ (utf8 (text.take k)).length := by
  obtain ⟨d, rfl⟩ := Nat.exists_eq_add_of_le h
  rw [List.take_add, utf8_append, List.length_append]
  exact Nat.le_add_right _ _

/-- The identifiers of a line end one after the other. -/
theorem identifiersInLine_pairwise {regex : Pattern Char} {line : View UInt8} {found : List (Nat × Bytes)}
    (h : identifiersInLine regex line = .ok found) :
    found.Pairwise (fun identifier later => endOf identifier ≤ endOf later) := by
  cases htext : decodeUtf8 line.elems with
  | none =>
    rw [identifiersInLine, htext] at h
    cases h
  | some text =>
    rw [identifiersInLine, htext] at h
    obtain rfl := Except.ok.inj h
    rw [List.pairwise_map]
    apply (regex.search_pairwise 0 text).imp_of_mem
    intro identifier later hidentifier hlater hends
    rw [endOf_match (Pattern.mem_search hidentifier).2.2, endOf_match (Pattern.mem_search hlater).2.2]
    exact length_utf8_take_le (Nat.le_add_right_of_le hends)

theorem exists_splitAt {regex : Pattern Char} {line : View UInt8} {found : List (Nat × Bytes)}
    (h : identifiersInLine regex line = .ok found) (index : Nat) : ∃ i, SplitAt found index i := by
  apply exists_partitionPoint
  apply (identifiersInLine_pairwise h).imp
  intro identifier later hends hlater
  exact decide_eq_true (Nat.le_trans hends (of_decide_eq_true hlater))

section AtLine
variable {classes : CharacterClasses} {req : SimpleRequest} {file : FileData} {line : View UInt8}
  {filetype : String} {found : List (Nat × Bytes)}

/-- Both loops stop at the first identifier that ends after the index. -/
theorem identifiers_at_split (hfile : req.file = .ok file) (hline : lineOf req file = .ok line)
    (hfiletype : frontFiletype file = .ok filetype)
    (hfound : identifiersInLine (identifierRegexForFiletype classes filetype) line = .ok found)
    (hindex : toSize (req.columnNum - 1) ≤ line.size) {i : Nat} (h : SplitAt found (toSize (req.columnNum - 1)) i) :
    identifierBeforeCursor classes req = .ok (textOf (found.take i).getLast?) ∧
      identifierUnderCursor classes req = .ok (textOf found[i]?) := by
  have hsame : (fun identifier : Nat × Bytes => !decide (endOf identifier ≤ toSize (req.columnNum - 1))) =
      fun identifier => decide (toSize (req.columnNum - 1) < identifier.1 + identifier.2.length) := by
    funext identifier
    rw [← decide_not, decide_eq_decide, Nat.not_le, endOf]
  have hbefore := h.takeWhile_eq
  have hunder := h.find?_eq
  rw [hsame] at hunder
  constructor
  · simp only [identifierBeforeCursor, hfile, hline, hfiletype, hfound, bind, Except.bind]
    rw [if_neg (Nat.not_lt.mpr hindex), ← hbefore]
    rfl
  · simp only [identifierUnderCursor, hfile, hline, hfiletype, hfound, bind, Except.bind]
    rw [if_neg (Nat.not_lt.mpr hindex), hunder]
    rfl

theorem identifiers_beyond_line (hfile : req.file = .ok file) (hline : lineOf req file = .ok line)
    (hindex : line.size < toSize (req.columnNum - 1)) :
    identifierBeforeCursor classes req = .ok [] ∧ identifierUnderCursor classes req = .ok [] := by
  simp only [identifierBeforeCursor, identifierUnderCursor, hfile, hline, bind, Except.bind]
  rw [if_pos hindex, if_pos hindex]
  exact ⟨rfl, rfl⟩

end AtLine

theorem lineOf_mem {req : SimpleRequest} {file : FileData} {line : View UInt8} (h : lineOf req file = .ok line) :
    line ∈ splitLines (contentsOfFile file) := by
  simp only [lineOf] at h
  split at h
  · obtain rfl := Except.ok.inj h
    exact List.getElem_mem _
  · cases h

/-- For every line and every cursor in it one number of identifiers ends at or before the cursor: the last of
them is the one before it, and the next one is the one under it. -/
theorem identifiers_split_at_cursor (classes : CharacterClasses) (req : SimpleRequest) (file : FileData)
    (line : View UInt8) (filetype : String) (hfile : req.file = .ok file) (hline : lineOf req file = .ok line)
    (hfiletype : frontFiletype file = .ok filetype) :
    ∃ found, identifiersInLine (identifierRegexForFiletype classes filetype) line = .ok found ∧
      (toSize (req.columnNum - 1) ≤ line.size →
        ∃ i, (∀ j, (j ≤ found.length ∧
            (∀ identifier ∈ found.take j, endOf identifier ≤ toSize (req.columnNum - 1)) ∧
            ∀ identifier ∈ found.drop j, toSize (req.columnNum - 1) < endOf identifier) ↔ j = i) ∧
          identifierBeforeCursor classes req = .ok (textOf (found.take i).getLast?) ∧
          identifierUnderCursor classes req = .ok (textOf found[i]?)) ∧
      (line.size < toSize (req.columnNum - 1) →
        identifierBeforeCursor classes req = .ok [] ∧ identifierUnderCursor classes req = .ok []) := by
  obtain ⟨found, hfound, -⟩ :=
    exists_identifiersInLine (lineOf_mem hline) (identifierRegexForFiletype classes filetype)
  refine ⟨found, hfound, ?_, identifiers_beyond_line hfile hline⟩
  intro hindex
  obtain ⟨i, hi⟩ := exists_splitAt hfound (toSize (req.columnNum - 1))
  refine ⟨i, ?_, identifiers_at_split hfile hline hfiletype hfound hindex hi⟩
  intro j
  rw [← splitAt_iff]
  constructor
  · intro hj
    exact PartitionPoint.eq hj hi
  · rintro rfl
    exact hi

theorem identifiersInLine_two {line : View UInt8} (helems : line.elems = utf8 "ab cd".toList) :
    identifiersInLine (defaultIdentifierRegex asciiClasses) line =
      .ok [(0, utf8 "ab".toList), (3, utf8 "cd".toList)] := by
  have hsearch : (defaultIdentifierRegex asciiClasses).search 0 "ab cd".toList =
      [(0, "ab".toList), (3, "cd".toList)] := by
    have hblank : "b cd".toList.dropWhile (defaultIdentifierRegex asciiClasses).rest = " cd".toList := by decide
    have hend : "d".toList.dropWhile (defaultIdentifierRegex asciiClasses).rest = [] := by decide
    change (defaultIdentifierRegex asciiClasses).search 0 ('a' :: "b cd".toList) = _
    rw [Pattern.search, if_pos (by decide), hblank]
    change _ :: (defaultIdentifierRegex asciiClasses).search 2 (' ' :: 'c' :: "d".toList) = _
    rw [Pattern.search, if_neg (by decide), Pattern.search, if_pos (by decide), hend, Pattern.search]
    decide
  rw [identifiersInLine, helems, decodeUtf8_utf8]
  change Except.ok (((defaultIdentifierRegex asciiClasses).search 0 "ab cd".toList).map _) = _
  rw [hsearch]
  rfl

/-- The cursor at the end of the first of two identifiers. -/
theorem identifiers_split_between : ∃ line,
    lineOf (RequestWrapper.requestIn "ab cd" 3) ⟨["cpp"], "ab cd"⟩ = .ok line ∧ line.elems = utf8 "ab cd".toList ∧
    identifiersInLine (defaultIdentifierRegex asciiClasses) line =
      .ok [(0, utf8 "ab".toList), (3, utf8 "cd".toList)] ∧
    endOf (0, utf8 "ab".toList) ≤ 2 ∧ 2 < endOf (3, utf8 "cd".toList) ∧
    identifierBeforeCursor asciiClasses (RequestWrapper.requestIn "ab cd" 3) = .ok (utf8 "ab".toList) ∧
    identifierUnderCursor asciiClasses (RequestWrapper.requestIn "ab cd" 3) = .ok (utf8 "cd".toList) := by
  have hfile : (RequestWrapper.requestIn "ab cd" 3).file = .ok ⟨["cpp"], "ab cd"⟩ := by
    simp [SimpleRequest.file, RequestWrapper.requestIn, oneFile]
  obtain ⟨line, hlines, helems⟩ := List.map_eq_singleton_iff.mp
    (@splitLines_of_no_feed (contentsOfFile ⟨["cpp"], "ab cd"⟩) (by decide) (by decide))
  have hline : lineOf (RequestWrapper.requestIn "ab cd" 3) ⟨["cpp"], "ab cd"⟩ = .ok line := by
    simp only [lineOf, hlines]
    rfl
  have hsize : line.size = 5 := by
    rw [← View.length_elems, helems]
    decide
  obtain ⟨found, hfound, hinside, -⟩ := identifiers_split_at_cursor asciiClasses _ _ line "cpp" hfile hline rfl
  obtain rfl : [(0, utf8 "ab".toList), (3, utf8 "cd".toList)] = found :=
    Except.ok.inj ((identifiersInLine_two helems).symm.trans hfound)
  obtain ⟨i, hi, hbefore, hunder⟩ := hinside (by rw [hsize]; decide)
  obtain rfl : 1 = i := (hi 1).mp (by decide)
  exact ⟨line, hline, helems, hfound, by decide, by decide, hbefore, hunder⟩

end Ycmd
