import Ycmd.RequestWrap

/-! What the requests at a cursor read: the views they form of its line, and the line they take. -/
namespace Ycmd
open Lib Clangd RequestWrapper

/-- A text that is cut counts the code points before the cut, and the one that the cut is in. -/
theorem countAsDecoded_append_take (library : TextLibrary) (before text : List Char) {n : Nat}
    (hle : n ≤ (utf8 text).length) :
    (n = 0 → library.countAsDecoded (utf8 before ++ (utf8 text).take n) = before.length) ∧
    (1 ≤ n → before.length + 1 ≤ library.countAsDecoded (utf8 before ++ (utf8 text).take n)) ∧
    library.countAsDecoded (utf8 before ++ (utf8 text).take n) ≤ before.length + text.length := by
  induction text generalizing before n with
  | nil =>
    obtain rfl : n = 0 := Nat.le_zero.mp hle
    simp [library.countAsDecoded_utf8]
  | cons c text ih =>
    rw [utf8_cons, List.length_append] at hle
    rw [utf8_cons, List.take_append, List.length_cons]
    by_cases hinside : n < (String.utf8EncodeChar c).length
    · rw [Nat.sub_eq_zero_of_le hinside.le, List.take_zero, List.append_nil]
      by_cases hn : n = 0
      · subst hn
        simp [library.countAsDecoded_utf8]
      · rw [library.countAsDecoded_cut before c _ (by simp [hn]) (List.take_prefix _ _)]
        omega
    · have hbefore : utf8 before ++ String.utf8EncodeChar c = utf8 (before ++ [c]) := by simp [utf8_cons]
      rw [List.take_of_length_le (Nat.le_of_not_lt hinside), ← List.append_assoc, hbefore]
      have hpos := length_utf8EncodeChar_pos c
      obtain ⟨hzero, hsome, hall⟩ := ih (before ++ [c]) (n := n - (String.utf8EncodeChar c).length) (by omega)
      rw [List.length_append, List.length_singleton] at hzero hsome hall
      by_cases hn : n - (String.utf8EncodeChar c).length = 0
      · have := hzero hn
        omega
      · have := hsome (by omega)
        omega

/-- A text cut behind its first byte counts some of its code points. -/
theorem countAsDecoded_take (library : TextLibrary) (text : List Char) {n : Nat} (hpos : 1 ≤ n)
    (hle : n ≤ (utf8 text).length) :
    1 ≤ library.countAsDecoded ((utf8 text).take n) ∧ library.countAsDecoded ((utf8 text).take n) ≤ text.length := by
  obtain ⟨-, hsome, hall⟩ := countAsDecoded_append_take library [] text hle
  simp only [utf8_nil, List.nil_append, List.length_nil, Nat.zero_add] at hsome hall
  exact ⟨hsome hpos, hall⟩

theorem size_le_of_mem_splitLines (contents : Bytes) : ∀ line ∈ splitLines contents, line.size ≤ contents.length := by
  induction contents using splitLines.induct with
  | case1 => simp [splitLines]
  | case2 b contents ih =>
    rw [splitLines, List.forall_mem_cons]
    refine ⟨(List.takeWhile_prefix _).length_le, fun line hline => (ih line hline).trans ?_⟩
    exact (length_otherLines_lt b contents).le

section Reads
variable (text : TextLibrary) (classes : CharacterClasses) (req : SimpleRequest)

/-- The views and substrings that the members form, by how far they reach from the start of the line they
are of, and the size of that line. -/
inductive Forms : Nat → Nat → Prop where
  | columnCodepoint {line : View UInt8} (hline : lineBytes req = .ok line) : Forms (columnNum req) line.size
  /-- The loop of `StartOfLongestIdentifierEndingAt`, where the view of every round ends at `end`. -/
  | startOfLongestIdentifier {line : View Char} {column : Nat} (hline : lineValue text req = .ok line)
    (hcolumn : columnCodepoint text req = .ok column) (hend : 0 < sizeSub column 1) :
    Forms (sizeSub column 1) line.size
  | startColumn {line : View Char} {start : Nat} (hline : lineValue text req = .ok line)
    (hstart : startCodepoint text classes req = .ok start) : Forms start line.size
  | query {line part : View Char} {start column : Nat} (hline : lineValue text req = .ok line)
    (hstart : startCodepoint text classes req = .ok start) (hcolumn : columnCodepoint text req = .ok column)
    (hpart : line.substr (sizeSub start 1) (sizeSub column start) = some part) :
    Forms (sizeSub start 1 + part.size) line.size
  | queryBytes {line part : View UInt8} {start : Nat} (hline : lineBytes req = .ok line)
    (hstart : startColumn text classes req = .ok start)
    (hpart : line.substr (sizeSub start 1) (sizeSub (columnNum req) start) = some part) :
    Forms (sizeSub start 1 + part.size) line.size

/-- Nothing is read that is not of the line or its one terminator, and there is one line that all of it is
read from. -/
structure ReadsInside (file : FileData) : Prop where
  views : ∀ reach size, Forms text classes req reach size → reach ≤ size + 1
  lineBytes : lineBytes req ≠ .error .undefined
  columnCodepoint : columnCodepoint text req ≠ .error .undefined
  startCodepoint : startCodepoint text classes req ≠ .error .undefined
  startColumn : startColumn text classes req ≠ .error .undefined
  query : query text classes req ≠ .error .undefined
  queryBytes : queryBytes text classes req ≠ .error .undefined
  identifierUnderCursor : identifierUnderCursor classes req ≠ .error .undefined
  identifierBeforeCursor : identifierBeforeCursor classes req ≠ .error .undefined
  line : lineOf req file = RequestWrapper.lineBytes req

/-- The line of the request exists, and its column is at a byte of the line or at its terminator. -/
def CursorInside (file : FileData) : Prop :=
  1 ≤ req.lineNum ∧ ∃ line, (splitLines (contentsOfFile file))[req.lineNum.toNat - 1]? = some line ∧
    1 ≤ columnNum req ∧ columnNum req ≤ line.size + 1

end Reads

variable {text : TextLibrary} {classes : CharacterClasses} {req : SimpleRequest} {file : FileData}

theorem reach_substr {α : Type} {view part : View α} {pos n : Nat} (h : view.substr pos n = some part) :
    pos + part.size ≤ view.size := by
  unfold View.substr at h
  split at h
  · obtain rfl := Option.some.inj h
    change pos + min n (view.size - pos) ≤ view.size
    omega
  · cases h

theorem lineBytes_of_exists {line : View UInt8} (hfile : req.file = .ok file) (hpos : 1 ≤ req.lineNum)
    (hget : (splitLines (contentsOfFile file))[req.lineNum.toNat - 1]? = some line) :
    lineBytes req = .ok line ∧ lineOf req file = .ok line := by
  obtain ⟨hlt, rfl⟩ := List.getElem?_eq_some_iff.mp hget
  have hexists : 1 ≤ req.lineNum ∧ req.lineNum.toNat ≤ (splitLines (contentsOfFile file)).length := ⟨hpos, by omega⟩
  refine ⟨?_, dif_pos hexists⟩
  simp only [lineBytes, lines, hfile, bind, Except.bind, pure, Except.pure]
  exact dif_pos hexists

/-- The line of a request that it is inside of, and how much of it is before the cursor. -/
structure LineOfCursor (text : TextLibrary) (req : SimpleRequest) (file : FileData) (line : View UInt8)
    (chars : List Char) (column : Nat) : Prop where
  lineBytes : lineBytes req = .ok line
  lineOf : lineOf req file = .ok line
  lineValue : lineValue text req = .ok (.ofString chars NUL)
  columnCodepoint : columnCodepoint text req = .ok column
  pos : 1 ≤ column
  le : column ≤ chars.length + 1

theorem CursorInside.lineOfCursor (text : TextLibrary) (h : CursorInside req file) (hfile : req.file = .ok file) :
    ∃ line chars column, LineOfCursor text req file line chars column ∧ columnNum req ≤ line.size + 1 := by
  obtain ⟨hpos, line, hget, hcolumn, hle⟩ := h
  obtain ⟨hline, hlineOf⟩ := lineBytes_of_exists hfile hpos hget
  have hmem := List.mem_of_getElem? hget
  obtain ⟨chars, helems⟩ := splitLines_utf8 _ line hmem
  obtain ⟨b, memory, hmemory, hb⟩ := memory_splitLines _ line hmem
  have hvalue : lineValue text req = .ok (.ofString chars NUL) := by
    simp only [lineValue, hline, bind, Except.bind, pure, Except.pure, helems, text.decode_utf8]
  obtain ⟨c, hc⟩ : ∃ c, [b] = String.utf8EncodeChar c := by
    rcases hb with rfl | rfl
    · exact ⟨'\n', by decide⟩
    · exact ⟨NUL, by decide⟩
  have hended : line.memory = utf8 (chars ++ [c]) ++ memory := by
    rw [hmemory, helems, utf8_append, utf8_cons, utf8_nil, List.append_nil, ← hc, List.append_assoc]
    rfl
  have hlength : (utf8 (chars ++ [c])).length = line.size + 1 := by
    rw [utf8_append, utf8_cons, utf8_nil, List.append_nil, ← hc, ← helems, List.length_append, View.length_elems]
    rfl
  obtain ⟨part, hpart, hpartElems⟩ := View.fromData_of_le line 0 (columnNum req) (by
    rw [hended, List.length_append]
    omega)
  rw [List.drop_zero, hended, List.take_append_of_le_length (by omega)] at hpartElems
  obtain ⟨hfirst, hlast⟩ := countAsDecoded_take text (chars ++ [c]) hcolumn (by omega)
  rw [List.length_append, List.length_singleton] at hlast
  refine ⟨line, chars, _, ⟨hline, hlineOf, hvalue, ?_, hfirst, hlast⟩, hle⟩
  simp only [columnCodepoint, hline, bind, Except.bind, hpart, Option.getDM, pure, Except.pure, hpartElems]

theorem getDM_thrown {α : Type} (o : Option α) : o.getDM (.error .thrown : Except Interrupt α) ≠ .error .undefined := by
  cases o <;> simp [Option.getDM, pure, Except.pure]

namespace LineOfCursor
variable {line : View UInt8} {chars : List Char} {column : Nat}

/-- The loop comes to a start that is not past the cursor. -/
theorem exists_startCodepoint (h : LineOfCursor text req file line chars column) (classes : CharacterClasses)
    (hfile : req.file = .ok file) (hfiletypes : file.filetypes ≠ []) :
    ∃ start, startCodepoint text classes req = .ok start ∧ start ≤ column := by
  obtain ⟨filetype, rest, hcons⟩ := List.exists_cons_of_ne_nil hfiletypes
  have hfiletype : firstFiletype req = .ok filetype := by
    rw [firstFiletype_of_file hfile, hcons]
    rfl
  have hstart := startOfLongest_eq (first_imp_rest classes) (.ofString chars NUL) h.pos (by simpa using h.le)
  have hrun : startCodepoint text classes req =
      startOfLongestIdentifierEndingAt column (defaultIdentifierRegex classes) (.ofString chars NUL) := by
    simp only [startCodepoint, hfiletype, h.columnCodepoint, h.lineValue, bind, Except.bind]
    rfl
  exact ⟨_, hrun.trans hstart, Nat.sub_le _ _⟩

/-- No view reaches past the terminator, since both columns are on the line and the start is not past them. -/
theorem views (h : LineOfCursor text req file line chars column) (hcolumn : columnNum req ≤ line.size + 1)
    {start : Nat} (hstart : startCodepoint text classes req = .ok start) (hle : start ≤ column) {reach size : Nat}
    (hforms : Forms text classes req reach size) : reach ≤ size + 1 := by
  have hchars := h.le
  cases hforms with
  | columnCodepoint hline =>
    obtain rfl := Except.ok.inj (h.lineBytes.symm.trans hline)
    exact hcolumn
  | startOfLongestIdentifier hline hcolumn' =>
    obtain rfl := Except.ok.inj (h.lineValue.symm.trans hline)
    obtain rfl := Except.ok.inj (h.columnCodepoint.symm.trans hcolumn')
    rw [sizeSub_of_le h.pos, View.size_ofString]
    omega
  | startColumn hline hstart' =>
    obtain rfl := Except.ok.inj (h.lineValue.symm.trans hline)
    obtain rfl := Except.ok.inj (hstart.symm.trans hstart')
    rw [View.size_ofString]
    omega
  | query _ _ _ hpart => exact (reach_substr hpart).trans (Nat.le_succ _)
  | queryBytes _ _ hpart => exact (reach_substr hpart).trans (Nat.le_succ _)

theorem readsInside (h : LineOfCursor text req file line chars column) (hcolumn : columnNum req ≤ line.size + 1)
    (hfile : req.file = .ok file) (hfiletypes : file.filetypes ≠ []) (hinside : CursorInside req file) :
    ReadsInside text classes req file := by
  obtain ⟨start, hstart, hle⟩ := h.exists_startCodepoint classes hfile hfiletypes
  obtain ⟨filetype, hfiletype⟩ := frontFiletype_of_ne_nil hfiletypes
  have hchars := h.le
  obtain ⟨part, hpart, -⟩ := View.fromData_of_le (.ofString chars NUL) 0 start (by simp; omega)
  have hstartColumn : startColumn text classes req = .ok (text.countAsEncoded part.elems) := by
    simp only [startColumn, h.lineValue, hstart, bind, Except.bind, hpart, Option.getDM, pure, Except.pure]
  obtain ⟨hpos, found, hget, -⟩ := hinside
  have hlines : req.lineNum.toNat ≤ (splitLines (contentsOfFile file)).length := by
    have := (List.getElem?_eq_some_iff.mp hget).1
    omega
  constructor
  case views =>
    intro reach size hforms
    exact h.views hcolumn hstart hle hforms
  case lineBytes => simp [h.lineBytes]
  case columnCodepoint => simp [h.columnCodepoint]
  case startCodepoint => simp [hstart]
  case startColumn => simp [hstartColumn]
  case query =>
    simp only [query, h.lineValue, hstart, h.columnCodepoint, bind, Except.bind]
    exact getDM_thrown _
  case queryBytes =>
    simp only [queryBytes, h.lineBytes, hstartColumn, bind, Except.bind]
    exact getDM_thrown _
  case identifierUnderCursor =>
    obtain ⟨identifier, hidentifier⟩ : ∃ identifier, identifierUnderCursor classes req = .ok (utf8 identifier) :=
      exists_identifierUnderCursor hfile hfiletype hpos hlines
    simp [hidentifier]
  case identifierBeforeCursor =>
    obtain ⟨identifier, hidentifier⟩ : ∃ identifier, identifierBeforeCursor classes req = .ok (utf8 identifier) :=
      exists_identifierBeforeCursor hfile hfiletype hpos hlines
    simp [hidentifier]
  case line => exact h.lineOf.trans h.lineBytes.symm

end LineOfCursor

theorem exists_lineBytes (hfile : req.file = .ok file) : ∃ line, lineBytes req = .ok line := by
  simp only [lineBytes, lines, hfile, bind, Except.bind, pure, Except.pure]
  split <;> exact ⟨_, rfl⟩

/-- Only for a line that exists does `lineOf` not read past the lines. -/
theorem exists_of_lineOf {line : View UInt8} (h : lineOf req file = .ok line) :
    1 ≤ req.lineNum ∧ (splitLines (contentsOfFile file))[req.lineNum.toNat - 1]? = some line := by
  unfold lineOf at h
  dsimp only at h
  split at h
  · rename_i hexists
    obtain rfl := Except.ok.inj h
    exact ⟨hexists.1, List.getElem?_eq_getElem (by omega)⟩
  · cases h

/-- Column zero is taken for a cursor as far to the right as can be counted. -/
theorem ReadsInside.columnNum_pos (h : ReadsInside text classes req file) {line : View UInt8}
    (hline : RequestWrapper.lineBytes req = .ok line) (hmem : line ∈ splitLines (contentsOfFile file))
    (hsize : (contentsOfFile file).length < 2^63) : 1 ≤ columnNum req := by
  by_contra hzero
  have hzero : columnNum req = 0 := by omega
  obtain ⟨chars, helems⟩ := splitLines_utf8 _ line hmem
  obtain ⟨part, hpart, hpartElems⟩ := View.fromData_of_le line 0 0 (Nat.zero_le _)
  rw [List.drop_zero, List.take_zero] at hpartElems
  have hvalue : lineValue text req = .ok (.ofString chars NUL) := by
    simp only [lineValue, hline, bind, Except.bind, pure, Except.pure, helems, text.decode_utf8]
  have hcolumn : RequestWrapper.columnCodepoint text req = .ok 0 := by
    simp only [RequestWrapper.columnCodepoint, hline, bind, Except.bind, hzero, hpart, Option.getDM, pure,
      Except.pure, hpartElems]
    exact congrArg Except.ok (text.countAsDecoded_utf8 [])
  have hreach := h.views _ _ (.startOfLongestIdentifier hvalue hcolumn (by decide))
  have hchars : chars.length ≤ line.size := by
    rw [← View.length_elems, helems]
    exact length_le_length_utf8 chars
  have hline := size_le_of_mem_splitLines _ line hmem
  have hend : sizeSub 0 1 = 2^64 - 1 := by decide
  rw [hend, View.size_ofString] at hreach
  omega

/-- For every request about a file that has a filetype, nothing else is read exactly when the cursor is inside
the file. -/
theorem reads_inside_iff (text : TextLibrary) (classes : CharacterClasses) (req : SimpleRequest) (file : FileData)
    (hfile : req.file = .ok file) (hfiletypes : file.filetypes ≠ [])
    (hsize : (contentsOfFile file).length < 2^63) :
    ReadsInside text classes req file ↔ CursorInside req file := by
  constructor
  · intro h
    obtain ⟨line, hline⟩ := exists_lineBytes hfile
    obtain ⟨hpos, hget⟩ := exists_of_lineOf (h.line.trans hline)
    exact ⟨hpos, line, hget, h.columnNum_pos hline (List.mem_of_getElem? hget) hsize,
      h.views _ _ (.columnCodepoint hline)⟩
  · intro hinside
    obtain ⟨line, chars, column, h, hcolumn⟩ := hinside.lineOfCursor text hfile
    exact h.readsInside hcolumn hfile hfiletypes hinside

theorem splitLines_letter : (splitLines (contentsOfFile ⟨["cpp"], "a"⟩)).map View.elems = [[97]] :=
  splitLines_of_no_feed (by decide) (by decide)

/-- At the terminator of the only line. -/
theorem reads_inside_letter :
    ReadsInside .leading asciiClasses (requestIn "a" 2) ⟨["cpp"], "a"⟩ := by
  refine (reads_inside_iff .leading asciiClasses (requestIn "a" 2) ⟨["cpp"], "a"⟩
    (by simp [SimpleRequest.file, requestIn, oneFile]) (by decide) (by decide)).mpr ?_
  obtain ⟨line, hline, helems⟩ := List.map_eq_singleton_iff.mp splitLines_letter
  have hsize : line.size = 1 := by rw [← View.length_elems, helems]; rfl
  exact ⟨by decide, line, by rw [hline]; rfl, by decide, by rw [hsize]; decide⟩

/-- Where there is no line, one of the two groups goes on with an empty one. -/
theorem line_of_not_exists (hfile : req.file = .ok file)
    (h : ¬ (1 ≤ req.lineNum ∧ req.lineNum.toNat ≤ (splitLines (contentsOfFile file)).length)) :
    lineBytes req = .ok (.ofString [] 0) ∧ lineOf req file = .error .undefined := by
  refine ⟨?_, dif_neg h⟩
  simp only [lineBytes, lines, hfile, bind, Except.bind, pure, Except.pure]
  exact dif_neg h

/-- An empty buffer has no line that an identifier could be at, and a column is not compared with its line. -/
theorem reads_outside :
    lineBytes (requestIn "" 1) = .ok (.ofString [] 0) ∧
    identifierUnderCursor asciiClasses (requestIn "" 1) = .error .undefined ∧
    ¬ ReadsInside .leading asciiClasses (requestIn "" 1) ⟨["cpp"], ""⟩ ∧
    Forms .leading asciiClasses (requestIn "a" 9) 9 1 ∧
    ¬ ReadsInside .leading asciiClasses (requestIn "a" 9) ⟨["cpp"], "a"⟩ := by
  have hfile (contents : String) (columnNum : Int) :
      (requestIn contents columnNum).file = .ok ⟨["cpp"], contents⟩ := by
    simp [SimpleRequest.file, requestIn, oneFile]
  have hlines : splitLines (contentsOfFile ⟨["cpp"], ""⟩) = [] := splitLines.eq_1
  obtain ⟨hline, hlineOf⟩ := line_of_not_exists (hfile "" 1) (by rw [hlines]; decide)
  have hunder : identifierUnderCursor asciiClasses (requestIn "" 1) = .error .undefined := by
    simp only [identifierUnderCursor, hfile, hlineOf, bind, Except.bind]
  obtain ⟨line, hlines', helems⟩ := List.map_eq_singleton_iff.mp splitLines_letter
  have hsize : line.size = 1 := by
    rw [← View.length_elems, helems]
    rfl
  have hforms : Forms .leading asciiClasses (requestIn "a" 9) 9 1 := by
    rw [← hsize]
    exact .columnCodepoint (lineBytes_of_exists (hfile "a" 9) (by decide) (by rw [hlines']; rfl)).1
  refine ⟨hline, hunder, fun h => h.identifierUnderCursor hunder, hforms, fun h => ?_⟩
  exact absurd (h.views 9 1 hforms) (by decide)

end Ycmd
