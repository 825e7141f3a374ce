import Ycmd.IdentifierUtils

/-! `RequestWrapper`: the place of a request in bytes and in code points, and the query before it. Its
members are computed when they are first asked for, from the request alone. -/
namespace Ycmd.RequestWrapper
open Lib Clangd

section Members
variable (text : TextLibrary) (classes : CharacterClasses) (req : SimpleRequest)

def lines : Except Interrupt (List (View UInt8)) := do
  let file ← req.file
  return splitLines (contentsOfFile file)

def lineBytes : Except Interrupt (View UInt8) := do
  let fileLines ← lines req
  if h : 1 ≤ req.lineNum ∧ req.lineNum.toNat ≤ fileLines.length then
    return fileLines[req.lineNum.toNat - 1]
  else return .ofString [] 0

def lineValue : Except Interrupt (View Char) := do
  let bytes ← lineBytes req
  return .ofString (text.decode bytes.elems) NUL

def columnNum : Nat := toSize req.columnNum

/-- The column, a 1-based offset, is taken for a length. -/
def columnCodepoint : Except Interrupt Nat := do
  let line ← lineBytes req
  let prefixBytes ← (line.fromData 0 (columnNum req)).getDM (.error .undefined)
  return text.countAsDecoded prefixBytes.elems

def startCodepoint : Except Interrupt Nat := do
  let identifierRegex := identifierRegexForFiletype classes (← firstFiletype req)
  startOfLongestIdentifierEndingAt (← columnCodepoint text req) identifierRegex (← lineValue text req)

def startColumn : Except Interrupt Nat := do
  let line ← lineValue text req
  let unicodePrefix ← (line.fromData 0 (← startCodepoint text classes req)).getDM (.error .undefined)
  return text.countAsEncoded unicodePrefix.elems

def query : Except Interrupt (View Char) := do
  let line ← lineValue text req
  let start ← startCodepoint text classes req
  let column ← columnCodepoint text req
  (line.substr (sizeSub start 1) (sizeSub column start)).getDM (.error .thrown)

def queryBytes : Except Interrupt (View UInt8) := do
  let line ← lineBytes req
  let start ← startColumn text classes req
  (line.substr (sizeSub start 1) (sizeSub (columnNum req) start)).getDM (.error .thrown)

end Members

variable {text : TextLibrary} {classes : CharacterClasses} {req : SimpleRequest} {file : FileData}
  {before after : List Char}

/-- The request is at a line that exists, between two parts of its text. -/
structure CursorAt (req : SimpleRequest) (file : FileData) (before after : List Char) : Prop where
  file_eq : req.file = .ok file
  line_pos : 1 ≤ req.lineNum
  line_eq : (splitLines (contentsOfFile file))[req.lineNum.toNat - 1]?.map View.elems =
    some (utf8 (before ++ after))
  column_eq : req.columnNum = (utf8 before).length + 1

theorem CursorAt.columnNum_eq (h : CursorAt req file before after) :
    columnNum req = (utf8 before).length + 1 := by
  rw [columnNum, h.column_eq]
  exact toSize_natCast _

theorem CursorAt.lineBytes_eq (h : CursorAt req file before after) :
    ∃ line b memory, lineBytes req = .ok line ∧ line.elems = utf8 (before ++ after) ∧
      line.memory = utf8 (before ++ after) ++ b :: memory ∧ (b = LF ∨ b = 0) := by
  obtain ⟨line, hline, helems⟩ := Option.map_eq_some_iff.mp h.line_eq
  obtain ⟨hlt, rfl⟩ := List.getElem?_eq_some_iff.mp hline
  obtain ⟨b, memory, hmemory, hb⟩ := memory_splitLines _ _ (List.getElem_mem hlt)
  have hpos := h.line_pos
  refine ⟨_, b, memory, ?_, helems, helems ▸ hmemory, hb⟩
  simp only [lineBytes, lines, h.file_eq, bind, Except.bind, pure, Except.pure]
  exact dif_pos ⟨hpos, by omega⟩

theorem CursorAt.lineValue_eq (text : TextLibrary) (h : CursorAt req file before after) :
    lineValue text req = .ok (.ofString (before ++ after) NUL) := by
  obtain ⟨line, -, -, hline, helems, -, -⟩ := h.lineBytes_eq
  simp only [lineValue, hline, bind, Except.bind, pure, Except.pure, helems, text.decode_utf8]

/-- The bytes the column counts end with the first byte of what is at the cursor. -/
theorem countAsDecoded_cursor (text : TextLibrary) (before after : List Char) (b : UInt8) (memory : Bytes)
    (hb : b = LF ∨ b = 0) :
    text.countAsDecoded ((utf8 (before ++ after) ++ b :: memory).take ((utf8 before).length + 1)) =
      before.length + 1 := by
  rw [utf8_append, List.append_assoc, List.take_length_add_append]
  cases after with
  | nil =>
    have hchar : ∃ c, [b] = String.utf8EncodeChar c := by
      rcases hb with rfl | rfl
      · exact ⟨'\n', by decide⟩
      · exact ⟨NUL, by decide⟩
    obtain ⟨c, hc⟩ := hchar
    have hutf8 : utf8 before ++ [b] = utf8 (before ++ [c]) := by
      rw [hc, utf8_append, utf8_cons, utf8_nil, List.append_nil]
    simp only [utf8_nil, List.nil_append, List.take_succ_cons, List.take_zero]
    rw [hutf8, text.countAsDecoded_utf8, List.length_append, List.length_singleton]
  | cons c after =>
    obtain ⟨leadingByte, continuation, hc, -, -⟩ := utf8EncodeChar_eq_cons c
    rw [utf8_cons, hc]
    apply text.countAsDecoded_cut before c _ (by simp)
    rw [hc]
    simp

theorem CursorAt.columnCodepoint_eq (text : TextLibrary) (h : CursorAt req file before after) :
    columnCodepoint text req = .ok (before.length + 1) := by
  obtain ⟨line, b, memory, hline, -, hmemory, hb⟩ := h.lineBytes_eq
  obtain ⟨part, hpart, helems⟩ := View.fromData_of_le line 0 ((utf8 before).length + 1)
    (by rw [hmemory]; simp; omega)
  rw [List.drop_zero, hmemory] at helems
  simp only [columnCodepoint, hline, h.columnNum_eq, bind, Except.bind, hpart, Option.getDM, pure, Except.pure,
    helems, countAsDecoded_cursor text before after b memory hb]

/-- What the loop accepts of the text before the cursor: the last characters an identifier can begin with. -/
def queryText (classes : CharacterClasses) (before : List Char) : List Char :=
  before.rtakeWhile (defaultIdentifierRegex classes).first

/-- The text before the query. -/
def prefixText (classes : CharacterClasses) (before : List Char) : List Char :=
  before.rdropWhile (defaultIdentifierRegex classes).first

theorem prefixText_append_queryText (classes : CharacterClasses) (before : List Char) :
    prefixText classes before ++ queryText classes before = before :=
  List.rdropWhile_append_rtakeWhile

theorem append_eq_prefixText (classes : CharacterClasses) (before after : List Char) :
    before ++ after = prefixText classes before ++ (queryText classes before ++ after) := by
  rw [← List.append_assoc, prefixText_append_queryText]

theorem length_prefixText_add (classes : CharacterClasses) (before : List Char) :
    (prefixText classes before).length + (queryText classes before).length = before.length := by
  rw [← List.length_append, prefixText_append_queryText]

theorem length_utf8_prefixText_add (classes : CharacterClasses) (before : List Char) :
    (utf8 (prefixText classes before)).length + (utf8 (queryText classes before)).length =
      (utf8 before).length := by
  rw [← List.length_append, ← utf8_append, prefixText_append_queryText]

theorem CursorAt.firstFiletype_eq (h : CursorAt req file before after) {filetype : String} {rest : List String}
    (hfiletypes : file.filetypes = filetype :: rest) : firstFiletype req = .ok filetype := by
  rw [firstFiletype_of_file h.file_eq, hfiletypes]
  rfl

theorem CursorAt.startCodepoint_eq (text : TextLibrary) (classes : CharacterClasses)
    (h : CursorAt req file before after) (hfiletypes : file.filetypes ≠ []) :
    startCodepoint text classes req = .ok ((prefixText classes before).length + 1) := by
  obtain ⟨filetype, rest, hcons⟩ := List.exists_cons_of_ne_nil hfiletypes
  have hlen := length_prefixText_add classes before
  have hstart := startOfLongest_eq (first_imp_rest classes) (.ofString (before ++ after) NUL)
    (c := before.length + 1) (by omega) (by simp)
  rw [View.elems_ofString, Nat.add_sub_cancel, List.take_left] at hstart
  simp only [startCodepoint, h.firstFiletype_eq hcons, h.columnCodepoint_eq text, h.lineValue_eq text, bind,
    Except.bind]
  refine hstart.trans (congrArg Except.ok ?_)
  change before.length + 1 - (queryText classes before).length = _
  omega

/-- The start column counts the first character of the query, or the one at the cursor, with all its
bytes. -/
theorem CursorAt.startColumn_eq (text : TextLibrary) (classes : CharacterClasses)
    (h : CursorAt req file before after) (hfiletypes : file.filetypes ≠ []) :
    ∃ c rest, queryText classes before ++ after ++ [NUL] = c :: rest ∧
      startColumn text classes req =
        .ok ((utf8 (prefixText classes before)).length + (String.utf8EncodeChar c).length) := by
  obtain ⟨c, rest, hcons⟩ := List.exists_cons_of_ne_nil
    (l := queryText classes before ++ after ++ [NUL]) (by simp)
  have hmemory : (View.ofString (before ++ after) NUL).memory = prefixText classes before ++ c :: rest := by
    rw [← hcons, View.memory_ofString, ← List.append_assoc, ← List.append_assoc, prefixText_append_queryText]
  obtain ⟨part, hpart, helems⟩ := View.fromData_of_le (.ofString (before ++ after) NUL) 0
    ((prefixText classes before).length + 1) (by rw [hmemory]; simp)
  rw [List.drop_zero, hmemory, List.take_length_add_append, List.take_succ_cons, List.take_zero] at helems
  refine ⟨c, rest, hcons, ?_⟩
  simp only [startColumn, h.lineValue_eq text, h.startCodepoint_eq text classes hfiletypes, bind, Except.bind,
    hpart, Option.getDM, pure, Except.pure, helems, text.countAsEncoded_eq, utf8_append, utf8_cons, utf8_nil,
    List.append_nil, List.length_append]

theorem CursorAt.startColumn_of_cons (text : TextLibrary) (h : CursorAt req file before after)
    (hfiletypes : file.filetypes ≠ []) {c : Char} {tail : List Char}
    (hfirst : queryText classes before ++ after = c :: tail) :
    startColumn text classes req =
      .ok ((utf8 (prefixText classes before)).length + (String.utf8EncodeChar c).length) := by
  obtain ⟨d, rest, hcons, hstart⟩ := h.startColumn_eq text classes hfiletypes
  rw [hfirst, List.cons_append] at hcons
  obtain ⟨rfl, -⟩ := List.cons.inj hcons
  exact hstart

theorem CursorAt.query_eq (text : TextLibrary) (classes : CharacterClasses)
    (h : CursorAt req file before after) (hfiletypes : file.filetypes ≠ []) :
    ∃ part, query text classes req = .ok part ∧ part.elems = queryText classes before := by
  have hlen := length_prefixText_add classes before
  obtain ⟨part, hpart, helems⟩ := View.substr_of_le (.ofString (before ++ after) NUL)
    (prefixText classes before).length (queryText classes before).length (by simp; omega)
  have hcount : sizeSub (before.length + 1) ((prefixText classes before).length + 1) =
      (queryText classes before).length := by
    rw [sizeSub_of_le (by omega)]
    omega
  refine ⟨part, ?_, ?_⟩
  · simp only [query, h.lineValue_eq text, h.startCodepoint_eq text classes hfiletypes,
      h.columnCodepoint_eq text, bind, Except.bind, sizeSub_of_le (Nat.le_add_left 1 _), Nat.add_sub_cancel, hcount, hpart, Option.getDM, pure, Except.pure]
  · rw [helems, View.elems_ofString, append_eq_prefixText classes, List.drop_left, List.take_left]

/-- Where the start column is the one of the query, the bytes of the query are its encoding. -/
theorem CursorAt.queryBytes_eq (h : CursorAt req file before after)
    (hstart : startColumn text classes req = .ok ((utf8 (prefixText classes before)).length + 1)) :
    ∃ part, queryBytes text classes req = .ok part ∧ part.elems = utf8 (queryText classes before) := by
  obtain ⟨line, -, -, hline, helems, -, -⟩ := h.lineBytes_eq
  have hlen := length_utf8_prefixText_add classes before
  have hsplit : utf8 (before ++ after) =
      utf8 (prefixText classes before) ++ (utf8 (queryText classes before) ++ utf8 after) := by
    rw [append_eq_prefixText classes, utf8_append, utf8_append]
  have hsize : line.size =
      (utf8 (prefixText classes before)).length + (utf8 (queryText classes before) ++ utf8 after).length := by
    rw [← View.length_elems, helems, hsplit, List.length_append]
  obtain ⟨part, hpart, hpartElems⟩ := View.substr_of_le line
    (utf8 (prefixText classes before)).length (utf8 (queryText classes before)).length (by omega)
  have hcount : sizeSub (columnNum req) ((utf8 (prefixText classes before)).length + 1) =
      (utf8 (queryText classes before)).length := by
    rw [h.columnNum_eq, sizeSub_of_le (by omega)]
    omega
  refine ⟨part, ?_, ?_⟩
  · simp only [queryBytes, hline, hstart, bind, Except.bind, sizeSub_of_le (Nat.le_add_left 1 _),
      Nat.add_sub_cancel, hcount, hpart, Option.getDM, pure, Except.pure]
  · rw [hpartElems, helems, hsplit, List.drop_left, List.take_left]

/-- The columns agree: the start of the query in bytes and in code points, and its two forms. -/
def ColumnsAgree (text : TextLibrary) (classes : CharacterClasses) (req : SimpleRequest) : Prop :=
  ∃ line startColumn' startCodepoint' query' queryBytes',
    lineValue text req = .ok line ∧ startColumn text classes req = .ok startColumn' ∧
    startCodepoint text classes req = .ok startCodepoint' ∧ query text classes req = .ok query' ∧
    queryBytes text classes req = .ok queryBytes' ∧
    startColumn' - 1 = (utf8 (line.elems.take (startCodepoint' - 1))).length ∧
    1 ≤ startColumn' ∧ startColumn' ≤ columnNum req ∧ queryBytes'.elems = utf8 query'.elems

theorem forall_head_append {P : Char → Prop} {l rest : List Char} {c d : Char} (hcons : l ++ [d] = c :: rest)
    (hd : P d) : (∀ a ∈ l.head?, P a) ↔ P c := by
  cases l with
  | nil =>
    obtain ⟨rfl, -⟩ := List.cons.inj hcons
    simpa using hd
  | cons a l =>
    obtain ⟨rfl, -⟩ := List.cons.inj hcons
    simp

/-- For every cursor the columns agree exactly when the file has a filetype and the query, or what is at
the cursor when there is none, does not begin with a character of several bytes. -/
theorem columns_agree_iff (text : TextLibrary) (classes : CharacterClasses) (req : SimpleRequest)
    (file : FileData) (before after : List Char) (h : CursorAt req file before after) :
    ColumnsAgree text classes req ↔
      file.filetypes ≠ [] ∧ ∀ c ∈ (queryText classes before ++ after).head?, c.toNat < 0x80 := by
  by_cases hfiletypes : file.filetypes = []
  · refine iff_of_false ?_ (fun hand => hand.1 hfiletypes)
    rintro ⟨-, -, start, -, -, -, -, hstart, -⟩
    have hthrown : firstFiletype req = .error .undefined := by
      rw [firstFiletype_of_file h.file_eq, hfiletypes]
      rfl
    simp only [startCodepoint, hthrown, bind, Except.bind] at hstart
    cases hstart
  · obtain ⟨c, rest, hcons, hstart⟩ := h.startColumn_eq text classes hfiletypes
    have hcodepoint := h.startCodepoint_eq text classes hfiletypes
    have hprefix : (before ++ after).take (prefixText classes before).length = prefixText classes before := by
      rw [append_eq_prefixText classes, List.take_left]
    rw [and_iff_right hfiletypes, forall_head_append hcons (by decide), ← length_utf8EncodeChar_eq_one]
    constructor
    · rintro ⟨_, _, _, _, _, hline, hstart', hcodepoint', -, -, hagree, -⟩
      obtain rfl := Except.ok.inj ((h.lineValue_eq text).symm.trans hline)
      obtain rfl := Except.ok.inj (hstart.symm.trans hstart')
      obtain rfl := Except.ok.inj (hcodepoint.symm.trans hcodepoint')
      rw [View.elems_ofString, Nat.add_sub_cancel, hprefix] at hagree
      have := length_utf8EncodeChar_pos c
      omega
    · intro hc
      rw [hc] at hstart
      obtain ⟨query', hquery, helems⟩ := h.query_eq text classes hfiletypes
      obtain ⟨queryBytes', hbytes, hbytesElems⟩ := h.queryBytes_eq hstart
      refine ⟨_, _, _, query', queryBytes', h.lineValue_eq text, hstart, hcodepoint, hquery, hbytes, ?_, ?_, ?_, ?_⟩
      · rw [View.elems_ofString, Nat.add_sub_cancel, Nat.add_sub_cancel, hprefix]
      · exact Nat.le_add_left 1 _
      · have := length_utf8_prefixText_add classes before
        rw [h.columnNum_eq]
        omega
      · rw [hbytesElems, helems]

/-- A request in a file of one line. -/
def requestIn (contents : String) (columnNum : Int) : SimpleRequest where
  lineNum := 1
  columnNum := columnNum
  filepath := "/a.cpp"
  fileData := oneFile contents

theorem cursorAt_requestIn (contents : String) (before after : List Char)
    (hcontents : contents.toList = before ++ after) (hne : before ++ after ≠ [])
    (hfeed : LF ∉ utf8 (before ++ after)) :
    CursorAt (requestIn contents (((utf8 before).length + 1 : Nat) : Int)) ⟨["cpp"], contents⟩ before after where
  file_eq := by simp [SimpleRequest.file, requestIn, oneFile]
  line_pos := Int.le_refl 1
  line_eq := by
    have := splitLines_of_no_feed (mt utf8_eq_nil.mp hne) hfeed
    rw [contentsOfFile, hcontents, ← List.getElem?_map, this]
    rfl
  column_eq := rfl

theorem columns_agree_iff_letters :
    ColumnsAgree .leading asciiClasses (requestIn "x.ab" 5) ↔
      (["cpp"] : List String) ≠ [] ∧ ∀ c ∈ (queryText asciiClasses "x.ab".toList ++ []).head?, c.toNat < 0x80 :=
  columns_agree_iff .leading asciiClasses _ _ _ _
    (cursorAt_requestIn "x.ab" "x.ab".toList [] (by decide) (by decide) (by decide))

/-- At a character of two bytes the start column is past the cursor. -/
theorem start_column_past_cursor :
    CursorAt (requestIn "é" 1) ⟨["cpp"], "é"⟩ [] "é".toList ∧
    startColumn .leading asciiClasses (requestIn "é" 1) = .ok 2 ∧
    ¬ ColumnsAgree .leading asciiClasses (requestIn "é" 1) := by
  have hcursor : CursorAt (requestIn "é" 1) ⟨["cpp"], "é"⟩ [] "é".toList :=
    cursorAt_requestIn "é" [] "é".toList (by decide) (by decide) (by decide)
  obtain ⟨c, rest, hcons, hstart⟩ :=
    hcursor.startColumn_eq .leading asciiClasses (by decide)
  have hstart' : startColumn .leading asciiClasses (requestIn "é" 1) = .ok 2 := by
    obtain ⟨rfl, -⟩ := List.cons.inj hcons
    exact hstart
  refine ⟨hcursor, hstart', ?_⟩
  rintro ⟨_, start, _, _, _, -, hcolumn, -, -, -, -, -, hle, -⟩
  obtain rfl := Except.ok.inj (hstart'.symm.trans hcolumn)
  exact absurd hle (by decide)

end Ycmd.RequestWrapper
