import Ycmd.Core.Narrowing
import Ycmd.CursorIdentifiers
import Ycmd.IdentifierCompleter

/-! The identifiers of a whole buffer against those at the cursors in it. -/
namespace Ycmd
open Lib Clangd
variable {classes : CharacterClasses}

/-- No word goes past the end of a line. -/
def CharacterClasses.EndAtLines (classes : CharacterClasses) : Prop := classes.isWord (Char.ofNat 10) = false

theorem identifierRegex_feed (h : classes.EndAtLines) (filetype : String) :
    (identifierRegexForFiletype classes filetype).first (Char.ofNat 10) = false ∧
      (identifierRegexForFiletype classes filetype).rest (Char.ofNat 10) = false := by
  have hword : classes.isWord (Char.ofNat 10) = false := h
  constructor
  · change (classes.isWord (Char.ofNat 10) && !classes.isDigit (Char.ofNat 10)) = false
    rw [hword, Bool.false_and]
  · exact hword

/-- A search finds what it finds in the first line and in the others. -/
theorem map_snd_search_lines {regex : Pattern Char} (hfirst : regex.first (Char.ofNat 10) = false)
    (hrest : regex.rest (Char.ofNat 10) = false) (text : List Char) :
    (regex.search 0 text).map Prod.snd =
      (regex.search 0 (text.takeWhile (· ≠ Char.ofNat 10))).map Prod.snd ++
        (regex.search 0 ((text.dropWhile (· ≠ Char.ofNat 10)).drop 1)).map Prod.snd := by
  cases hdrop : text.dropWhile (· ≠ Char.ofNat 10) with
  | nil =>
    rw [List.takeWhile_eq_self_iff.mpr (List.dropWhile_eq_nil_iff.mp hdrop), List.drop_nil, Pattern.search,
      List.map_nil, List.append_nil]
  | cons c rest =>
    have hfeed := List.head?_dropWhile_not (· ≠ Char.ofNat 10) text
    rw [hdrop] at hfeed
    obtain rfl : c = Char.ofNat 10 := by simpa using hfeed
    conv => lhs; rw [← List.takeWhile_append_dropWhile (p := (· ≠ Char.ofNat 10)) (l := text), hdrop]
    rw [Pattern.search_append_cons hfirst hrest, List.map_append, List.drop_one, List.tail_cons]
    exact congrArg (List.append _) (regex.map_snd_search _ 0 rest)

/-- The texts of some identifiers. -/
def textsOf (found : List (Nat × Bytes)) : List Bytes := found.map Prod.snd

theorem identifiersInLine_eq (regex : Pattern Char) {line : View UInt8} {lineText : List Char}
    (helems : line.elems = utf8 lineText) :
    ∃ found, identifiersInLine regex line = .ok found ∧
      textsOf found = ((regex.search 0 lineText).map Prod.snd).map utf8 := by
  refine ⟨_, by rw [identifiersInLine, helems, decodeUtf8_utf8]; rfl, ?_⟩
  rw [textsOf, List.map_map, List.map_map]
  rfl

/-- The identifiers of a text are those of its lines, line by line. -/
theorem identifiers_of_lines {regex : Pattern Char} (hfirst : regex.first (Char.ofNat 10) = false)
    (hrest : regex.rest (Char.ofNat 10) = false) (text : List Char) :
    ∃ founds, List.Forall₂ (fun line found => identifiersInLine regex line = .ok found) (splitLines (utf8 text)) founds ∧
      ((regex.search 0 text).map Prod.snd).map utf8 = founds.flatMap textsOf := by
  induction hn : text.length using Nat.strong_induction_on generalizing text with
  | _ n ih =>
    cases hbytes : utf8 text with
    | nil =>
      obtain rfl := utf8_eq_nil.mp hbytes
      refine ⟨[], ?_, ?_⟩
      · rw [splitLines]
        exact .nil
      · rw [Pattern.search]
        rfl
    | cons b bytes =>
      obtain ⟨htake, hdrop⟩ := takeWhile_utf8 text
      have hshort : ((text.dropWhile (· ≠ Char.ofNat 10)).drop 1).length < n := by
        have hsuffix := (List.dropWhile_suffix (· ≠ Char.ofNat 10) (l := text)).length_le
        have hne : 0 < text.length := List.length_pos_iff.mpr (fun h => by simp [h] at hbytes)
        rw [List.length_drop]
        omega
      obtain ⟨founds, hfounds, htexts⟩ := ih _ hshort _ rfl
      rw [← hdrop, hbytes] at hfounds
      have helems : View.elems { memory := b :: bytes ++ [0], size := ((b :: bytes).takeWhile (· ≠ LF)).length,
                                 bound := length_firstLine_le (b :: bytes) } =
          utf8 (text.takeWhile (· ≠ Char.ofNat 10)) := by
        have hprefix := List.takeWhile_prefix (· ≠ LF) (l := b :: bytes)
        change (b :: bytes ++ [0]).take ((b :: bytes).takeWhile (· ≠ LF)).length = _
        rw [List.take_append_of_le_length hprefix.length_le, ← List.prefix_iff_eq_take.mp hprefix, ← hbytes, htake]
      rw [splitLines]
      obtain ⟨found, hfound, hline⟩ := identifiersInLine_eq regex helems
      refine ⟨found :: founds, .cons hfound hfounds, ?_⟩
      rw [map_snd_search_lines hfirst hrest, List.map_append, htexts, List.flatMap_cons, hline]

/-- The identifiers of a line stand apart: each begins where the one before it has ended, or behind. -/
theorem identifiersInLine_apart {regex : Pattern Char} {line : View UInt8} {found : List (Nat × Bytes)}
    (h : identifiersInLine regex line = .ok found) :
    found.Pairwise (fun identifier later => endOf identifier ≤ later.1) ∧
      ∀ identifier ∈ found, identifier.2 ≠ [] ∧ endOf identifier ≤ line.size := by
  cases htext : decodeUtf8 line.elems with
  | none =>
    rw [identifiersInLine, htext] at h
    cases h
  | some text =>
    rw [identifiersInLine, htext] at h
    obtain rfl := Except.ok.inj h
    constructor
    · rw [List.pairwise_map]
      apply (regex.search_pairwise 0 text).imp_of_mem
      intro identifier later hidentifier _ hends
      rw [endOf_match (Pattern.mem_search hidentifier).2.2]
      exact length_utf8_take_le hends
    · intro identifier hidentifier
      obtain ⟨found, hfound, rfl⟩ := List.mem_map.mp hidentifier
      obtain ⟨-, hne, hprefix⟩ := Pattern.mem_search hfound
      refine ⟨mt utf8_eq_nil.mp hne, ?_⟩
      rw [endOf_match hprefix, ← View.length_elems, ← utf8_of_decodeUtf8 htext]
      calc (utf8 (text.take (found.1 + found.2.length))).length
          ≤ (utf8 (text.take (found.1 + found.2.length) ++ text.drop (found.1 + found.2.length))).length := by
            rw [utf8_append, List.length_append]
            exact Nat.le_add_right _ _
        _ = (utf8 text).length := by rw [List.take_append_drop]

/-- At the end of an identifier it is the last one that has ended; before that it is the next one to end. -/
theorem splitAt_end {found : List (Nat × Bytes)} (happart : found.Pairwise (fun identifier later => endOf identifier ≤ later.1))
    (hne : ∀ identifier ∈ found, identifier.2 ≠ []) {k : Nat} (hk : k < found.length) :
    SplitAt found (endOf found[k]) (k + 1) ∧ SplitAt found (endOf found[k] - 1) k := by
  have hends : ∀ i j (hi : i < found.length) (hj : j < found.length), i < j → endOf found[i] < endOf found[j] := by
    intro i j hi hj hij
    have hle := List.pairwise_iff_getElem.mp happart i j hi hj hij
    have hpos := List.length_pos_iff.mpr (hne _ (List.getElem_mem hj))
    exact Nat.lt_of_le_of_lt hle (Nat.lt_add_of_pos_right hpos)
  have hpos := List.length_pos_iff.mpr (hne _ (List.getElem_mem hk))
  have hend : endOf found[k] = found[k].1 + found[k].2.length := rfl
  constructor
  · rw [splitAt_iff]
    refine ⟨hk, ?_, ?_⟩
    · intro identifier hmem
      obtain ⟨i, hi, rfl⟩ := List.mem_take_iff_getElem.mp hmem
      rcases Nat.lt_or_eq_of_le (show i ≤ k by omega) with hlt | rfl
      · exact (hends i k (by omega) hk hlt).le
      · exact le_rfl
    · intro identifier hmem
      obtain ⟨i, hi, rfl⟩ := List.mem_drop_iff_getElem.mp hmem
      exact hends k _ hk (by omega) (by omega)
  · rw [splitAt_iff]
    refine ⟨hk.le, ?_, ?_⟩
    · intro identifier hmem
      obtain ⟨i, hi, rfl⟩ := List.mem_take_iff_getElem.mp hmem
      have := hends i k (by omega) hk (by omega)
      omega
    · intro identifier hmem
      obtain ⟨i, hi, rfl⟩ := List.mem_drop_iff_getElem.mp hmem
      rcases Nat.eq_zero_or_pos i with rfl | hi'
      · simp only [Nat.add_zero]
        omega
      · have := hends k (k + i) hk (by omega) (by omega)
        omega

/-- What is at or before a cursor is one of the identifiers of its line, if it is anything. -/
theorem mem_line_of_cursor {req : SimpleRequest} {file : FileData} {filetype : String} {t : Bytes} (hne : t ≠ [])
    (hfile : req.file = .ok file) (hfiletype : frontFiletype file = .ok filetype)
    (h : identifierBeforeCursor classes req = .ok t ∨ identifierUnderCursor classes req = .ok t) :
    ∃ line ∈ splitLines (contentsOfFile file), ∃ found,
      identifiersInLine (identifierRegexForFiletype classes filetype) line = .ok found ∧ t ∈ textsOf found := by
  have htextOf {identifier : Option (Nat × Bytes)} (ht : textOf identifier = t) :
      ∃ a, identifier = some a ∧ a.2 = t := by
    cases identifier with
    | none => exact absurd ht.symm hne
    | some a => exact ⟨a, rfl, ht⟩
  cases hline : lineOf req file with
  | error interrupt =>
    simp only [identifierBeforeCursor, identifierUnderCursor, hfile, hline, bind, Except.bind] at h
    rcases h with h | h <;> cases h
  | ok line =>
    have hmem := lineOf_mem hline
    obtain ⟨found, hfound, -⟩ := exists_identifiersInLine hmem (identifierRegexForFiletype classes filetype)
    refine ⟨line, hmem, found, hfound, ?_⟩
    by_cases hindex : toSize (req.columnNum - 1) ≤ line.size
    · obtain ⟨i, hi⟩ := exists_splitAt hfound (toSize (req.columnNum - 1))
      obtain ⟨hbefore, hunder⟩ := identifiers_at_split hfile hline hfiletype hfound hindex hi
      rw [hbefore, hunder] at h
      rcases h with h | h
      · obtain ⟨identifier, hlast, rfl⟩ := htextOf (Except.ok.inj h)
        exact List.mem_map_of_mem (List.mem_of_mem_take (List.mem_of_getLast? hlast))
      · obtain ⟨identifier, hget, rfl⟩ := htextOf (Except.ok.inj h)
        exact List.mem_map_of_mem (List.mem_of_getElem? hget)
    · have hbeyond : identifierBeforeCursor classes req = .ok [] ∧ identifierUnderCursor classes req = .ok [] :=
        identifiers_beyond_line hfile hline (Nat.lt_of_not_le hindex)
      rw [hbeyond.1, hbeyond.2] at h
      rcases h with h | h <;> exact absurd (Except.ok.inj h).symm hne

/-- The identifiers of a buffer, line by line. -/
theorem identifiersFromBuffer_lines (hends : classes.EndAtLines) {file : FileData} {filetype : String}
    (hfiletype : frontFiletype file = .ok filetype) :
    ∃ founds, List.Forall₂ (fun line found =>
        identifiersInLine (identifierRegexForFiletype classes filetype) line = .ok found)
        (splitLines (contentsOfFile file)) founds ∧
      identifiersFromBuffer classes file = .ok (founds.flatMap textsOf) := by
  obtain ⟨hfirst, hrest⟩ := identifierRegex_feed hends filetype
  obtain ⟨founds, hfounds, htexts⟩ := identifiers_of_lines hfirst hrest file.contents.toList
  refine ⟨founds, hfounds, ?_⟩
  rw [identifiersFromBuffer, hfiletype, ← htexts, List.map_map]
  rfl

/-- What is at or before a cursor is one of the identifiers of the buffer, if it is anything. -/
theorem mem_buffer_of_cursor (hends : classes.EndAtLines) {req : SimpleRequest} {file : FileData} {t : Bytes}
    (hne : t ≠ []) (hfile : req.file = .ok file) {identifiers : List Bytes}
    (hidentifiers : identifiersFromBuffer classes file = .ok identifiers)
    (h : identifierBeforeCursor classes req = .ok t ∨ identifierUnderCursor classes req = .ok t) : t ∈ identifiers := by
  cases hfiletype : frontFiletype file with
  | error interrupt =>
    rw [identifiersFromBuffer, hfiletype] at hidentifiers
    cases hidentifiers
  | ok filetype =>
    obtain ⟨founds, hfounds, hbuffer⟩ := identifiersFromBuffer_lines hends hfiletype
    obtain rfl := Except.ok.inj (hidentifiers.symm.trans hbuffer)
    obtain ⟨line, hline, found, hfound, ht⟩ := mem_line_of_cursor hne hfile hfiletype h
    obtain ⟨i, hi, rfl⟩ := List.getElem_of_mem hline
    have hi' : i < founds.length := hfounds.length_eq ▸ hi
    obtain rfl := Except.ok.inj (hfound.symm.trans (hfounds.get hi hi'))
    exact List.mem_flatMap.mpr ⟨_, List.getElem_mem hi', ht⟩

theorem length_splitLines_le (contents : Bytes) :
    (splitLines contents).length ≤ contents.length ∧ ∀ line ∈ splitLines contents, line.size ≤ contents.length := by
  induction contents using splitLines.induct with
  | case1 => simp [splitLines]
  | case2 b contents ih =>
    have hlt := length_otherLines_lt b contents
    rw [splitLines, List.forall_mem_cons, List.length_cons]
    refine ⟨by omega, (List.takeWhile_prefix _).length_le, ?_⟩
    intro line hline
    exact (ih.2 line hline).trans hlt.le

/-- The same request with the cursor elsewhere. -/
def SimpleRequest.at (req : SimpleRequest) (lineNum columnNum : Int32) : SimpleRequest :=
  { req with lineNum := lineNum.toInt, columnNum := columnNum.toInt }

theorem lineOf_at {req : SimpleRequest} {file : FileData} {n : Nat} (hn : n < (splitLines (contentsOfFile file)).length)
    (hfits : n + 1 < 2^31) (columnNum : Int32) :
    lineOf (req.at (Int32.ofNat (n+1)) columnNum) file = .ok (splitLines (contentsOfFile file))[n] := by
  have hline : (req.at (Int32.ofNat (n+1)) columnNum).lineNum = ((n + 1 : Nat) : Int) :=
    Int32.toInt_ofNat_of_lt hfits
  have hindex : (req.at (Int32.ofNat (n+1)) columnNum).lineNum.toNat - 1 = n := by
    rw [hline, Int.toNat_natCast, Nat.add_sub_cancel]
  unfold lineOf
  rw [dif_pos (by rw [hline]; omega)]
  simp only [hindex]

/-- Every identifier of a buffer is the one before some cursor, and the one under another. -/
theorem exists_cursor_of_mem_buffer {req : SimpleRequest} {file : FileData} {filetype : String}
    (hfile : req.file = .ok file) (hfiletype : frontFiletype file = .ok filetype)
    (hsize : (contentsOfFile file).length + 1 < 2^31) {founds : List (List (Nat × Bytes))}
    (hfounds : List.Forall₂ (fun line found =>
      identifiersInLine (identifierRegexForFiletype classes filetype) line = .ok found)
      (splitLines (contentsOfFile file)) founds) {t : Bytes} (ht : t ∈ founds.flatMap textsOf) :
    (∃ lineNum columnNum, identifierBeforeCursor classes (req.at lineNum columnNum) = .ok t) ∧
      ∃ lineNum columnNum, identifierUnderCursor classes (req.at lineNum columnNum) = .ok t := by
  obtain ⟨found, hmem, ht⟩ := List.mem_flatMap.mp ht
  obtain ⟨identifier, hidentifier, rfl⟩ := List.mem_map.mp ht
  obtain ⟨n, hn, rfl⟩ := List.getElem_of_mem hmem
  have hn' : n < (splitLines (contentsOfFile file)).length := hfounds.length_eq ▸ hn
  have hfound := hfounds.get hn' hn
  obtain ⟨k, hk, rfl⟩ := List.getElem_of_mem hidentifier
  obtain ⟨happart, hinside⟩ := identifiersInLine_apart hfound
  obtain ⟨hended, hnext⟩ := splitAt_end happart (fun identifier h => (hinside identifier h).1) hk
  obtain ⟨hlines, hsizes⟩ := length_splitLines_le (contentsOfFile file)
  have hline := hsizes _ (List.getElem_mem hn')
  have hend : endOf founds[n][k] ≤ (splitLines (contentsOfFile file))[n].size := (hinside _ (List.getElem_mem hk)).2
  -- the cursor stands in the line, at an index that fits in an `int`
  have hat (index : Nat) (hindex : index ≤ endOf founds[n][k]) {i : Nat} (hsplit : SplitAt founds[n] index i) :
      identifierBeforeCursor classes (req.at (Int32.ofNat (n+1)) (Int32.ofNat (index+1))) =
          .ok (textOf (founds[n].take i).getLast?) ∧
        identifierUnderCursor classes (req.at (Int32.ofNat (n+1)) (Int32.ofNat (index+1))) =
          .ok (textOf founds[n][i]?) := by
    have hcolumn : toSize ((req.at (Int32.ofNat (n+1)) (Int32.ofNat (index+1))).columnNum - 1) = index := by
      have hint : (req.at (Int32.ofNat (n+1)) (Int32.ofNat (index+1))).columnNum = ((index + 1 : Nat) : Int) :=
        Int32.toInt_ofNat_of_lt (by omega)
      rw [hint, Int.natCast_add, Int.natCast_one, Int.add_sub_cancel, toSize_natCast]
    exact @identifiers_at_split classes (req.at (Int32.ofNat (n+1)) (Int32.ofNat (index+1))) file _ filetype _ hfile
      (lineOf_at hn' (by omega) _) hfiletype hfound (by rw [hcolumn]; omega) i (by rwa [hcolumn])
  constructor
  · refine ⟨_, _, (hat _ le_rfl hended).1.trans ?_⟩
    rw [List.take_succ_eq_append_getElem hk, List.getLast?_append, List.getLast?_singleton]
    rfl
  · refine ⟨_, _, (hat _ (Nat.sub_le _ 1) hnext).2.trans ?_⟩
    rw [List.getElem?_eq_getElem hk]
    rfl

/-- For every file that a request can address, the identifiers of the buffer are the texts before the cursors in
it, and the texts under them. -/
theorem buffer_identifiers_at_cursors (classes : CharacterClasses) (hends : classes.EndAtLines) (req : SimpleRequest)
    (file : FileData) (hfile : req.file = .ok file) (hne : file.filetypes ≠ [])
    (hsize : (contentsOfFile file).length + 1 < 2^31) :
    ∃ identifiers, identifiersFromBuffer classes file = .ok identifiers ∧ ∀ t, t ≠ [] →
      ((t ∈ identifiers ↔ ∃ lineNum columnNum,
          identifierBeforeCursor classes (req.at lineNum columnNum) = .ok t) ∧
        (t ∈ identifiers ↔ ∃ lineNum columnNum,
          identifierUnderCursor classes (req.at lineNum columnNum) = .ok t)) := by
  obtain ⟨filetype, hfiletype⟩ := frontFiletype_of_ne_nil hne
  obtain ⟨founds, hfounds, hbuffer⟩ := identifiersFromBuffer_lines hends hfiletype
  refine ⟨_, hbuffer, fun t ht => ⟨⟨?_, ?_⟩, ⟨?_, ?_⟩⟩⟩
  · intro hmem
    exact (exists_cursor_of_mem_buffer hfile hfiletype hsize hfounds hmem).1
  · rintro ⟨lineNum, columnNum, hbefore⟩
    exact @mem_buffer_of_cursor classes hends (req.at lineNum columnNum) file t ht hfile _ hbuffer (.inl hbefore)
  · intro hmem
    exact (exists_cursor_of_mem_buffer hfile hfiletype hsize hfounds hmem).2
  · rintro ⟨lineNum, columnNum, hunder⟩
    exact @mem_buffer_of_cursor classes hends (req.at lineNum columnNum) file t ht hfile _ hbuffer (.inr hunder)

theorem asciiClasses_endAtLines : asciiClasses.EndAtLines := by
  unfold CharacterClasses.EndAtLines
  decide

theorem buffer_identifiers_at_cursors_between :
    ∃ identifiers, identifiersFromBuffer asciiClasses ⟨["cpp"], "ab cd"⟩ = .ok identifiers ∧
      (ascii "cd" ∈ identifiers ↔ ∃ lineNum columnNum, identifierUnderCursor asciiClasses
        ((RequestWrapper.requestIn "ab cd" 3).at lineNum columnNum) = .ok (ascii "cd")) := by
  obtain ⟨identifiers, hbuffer, hcursors⟩ := buffer_identifiers_at_cursors asciiClasses asciiClasses_endAtLines
    (RequestWrapper.requestIn "ab cd" 3) ⟨["cpp"], "ab cd"⟩
    (by simp [SimpleRequest.file, RequestWrapper.requestIn, oneFile]) (by decide) (by decide)
  exact ⟨identifiers, hbuffer, (hcursors (ascii "cd") (by decide)).2⟩

namespace General.IdentifierCompleter
open Ycmd.Core IdentifierDatabase
variable {env : Core.Environment} {events later : List EventNotification} {parsed : EventNotification} {file : FileData}

/-- A file that has been parsed has the identifiers of its buffer, and no others. -/
theorem recorded_parsed (hparsed : parsed.eventName = .fileReadyToParse) (hfile : parsed.file = .ok file)
    {filetype filepath t : Bytes} (hconcerns : Concerns parsed filetype filepath) :
    Recorded classes (events ++ [parsed]) filetype filepath t ↔
      ∃ identifiers, identifiersFromBuffer classes file = .ok identifiers ∧ t ∈ identifiers := by
  have hextracts : Extracts classes parsed t ↔
      ∃ identifiers, identifiersFromBuffer classes file = .ok identifiers ∧ t ∈ identifiers := by
    simp [Extracts, hparsed, hfile]
  have hreplaces : Replaces parsed filetype filepath := ⟨hparsed, hconcerns⟩
  rw [recorded_concat, ← hextracts]
  simp [hconcerns, hreplaces]

/-- Whatever event is about a file tells of its buffer's identifiers only. -/
theorem mem_buffer_of_extracts (hends : classes.EndAtLines) {requestData : EventNotification}
    (hfile : requestData.file = .ok file) {t : Bytes} (hne : t ≠ []) {filetype filepath : Bytes}
    (hconcerns : Concerns requestData filetype filepath) (h : Extracts classes requestData t) :
    ∃ identifiers, identifiersFromBuffer classes file = .ok identifiers ∧ t ∈ identifiers := by
  obtain ⟨file', name, hfile', hname, -⟩ := hconcerns
  obtain rfl := Except.ok.inj (hfile.symm.trans hfile')
  obtain ⟨identifiers, hbuffer, -⟩ : ∃ identifiers, identifiersFromBuffer classes file = .ok identifiers ∧
      ∀ t ∈ identifiers, ∃ text, t = utf8 text := identifiersFromBuffer_of_filetype hname
  refine ⟨identifiers, hbuffer, ?_⟩
  cases hevent : requestData.eventName with
  | fileReadyToParse =>
    simp only [Extracts, hevent] at h
    obtain ⟨file', identifiers', hfile', hbuffer', ht⟩ := h
    obtain rfl := Except.ok.inj (hfile.symm.trans hfile')
    obtain rfl := Except.ok.inj (hbuffer.symm.trans hbuffer')
    exact ht
  | insertLeave =>
    simp only [Extracts, hevent] at h
    exact mem_buffer_of_cursor hends hne hfile hbuffer (.inr h)
  | currentIdentifierFinished =>
    simp only [Extracts, hevent] at h
    exact mem_buffer_of_cursor hends hne hfile hbuffer (.inl h)
  | fileSave | bufferVisit | bufferUnload => simp [Extracts, hevent] at h

/-- As long as a file stays as it was parsed, the events about it tell of nothing new. -/
theorem recorded_unchanged (hends : classes.EndAtLines) (hparsed : parsed.eventName = .fileReadyToParse)
    (hfile : parsed.file = .ok file)
    (hlater : ∀ requestData ∈ later, requestData.filepath = parsed.filepath ∧ requestData.file = .ok file)
    {filetype filepath t : Bytes} (hne : t ≠ []) :
    Recorded classes (events ++ parsed :: later) filetype filepath t ↔
      Recorded classes (events ++ [parsed]) filetype filepath t := by
  induction later using List.reverseRecOn with
  | nil => rfl
  | append_singleton later requestData ih =>
    obtain ⟨hfilepath, hfile'⟩ := hlater requestData (by simp)
    have hbefore := ih (fun e he => hlater e (List.mem_append_left _ he))
    rw [← List.cons_append, ← List.append_assoc, recorded_concat, hbefore]
    have hsame : Concerns requestData filetype filepath ↔ Concerns parsed filetype filepath := by
      unfold Concerns
      rw [hfilepath, hfile, hfile']
    by_cases hconcerns : Concerns parsed filetype filepath
    · rw [recorded_parsed hparsed hfile hconcerns]
      constructor
      · rintro (⟨hconcerns', hextracts⟩ | ⟨hrecorded, -⟩)
        · exact mem_buffer_of_extracts hends hfile' hne hconcerns' hextracts
        · exact hrecorded
      · intro hrecorded
        by_cases hevent : requestData.eventName = .fileReadyToParse
        · obtain ⟨identifiers, hbuffer, ht⟩ := hrecorded
          refine .inl ⟨hsame.mpr hconcerns, ?_⟩
          simp only [Extracts, hevent]
          exact ⟨file, identifiers, hfile', hbuffer, ht⟩
        · exact .inr ⟨hrecorded, fun hreplaces => hevent hreplaces.1⟩
    · have hnot : ¬ Replaces requestData filetype filepath := fun hreplaces => hconcerns (hsame.mp hreplaces.2)
      rw [hsame, and_iff_left hnot, or_iff_right (fun h => hconcerns h.1)]

/-- Events in a file that stays as it was parsed leave what is offered, for every request. -/
theorem events_offer_nothing_new (env : Core.Environment) (classes : CharacterClasses) (text : TextLibrary)
    (hends : classes.EndAtLines) (hinside : ∀ requestData ∈ events ++ parsed :: later, Inside requestData)
    (hparsed : parsed.eventName = .fileReadyToParse) (hfile : parsed.file = .ok file)
    (hlater : ∀ requestData ∈ later, requestData.filepath = parsed.filepath ∧ requestData.file = .ok file)
    {userOptions : Json} {n : Nat}
    (hoption : option userOptions "min_num_identifier_candidate_chars" = .ok (.int n)) {requestWrap : SimpleRequest}
    {query : View UInt8} (hquery : RequestWrapper.queryBytes text classes requestWrap = .ok query) {filetype : String}
    (hfiletype : firstFiletype requestWrap = .ok filetype) {candidates candidates' : List Completion}
    {db db' : IdentifierDatabase}
    (hrun : computeCandidates env classes text userOptions requestWrap (run env classes (events ++ [parsed]) .empty) =
      .ok candidates db)
    (hrun' : computeCandidates env classes text userOptions requestWrap
      (run env classes (events ++ parsed :: later) .empty) = .ok candidates' db') :
    (candidates.map Completion.insertionText).Perm (candidates'.map Completion.insertionText) := by
  have hinside' : ∀ requestData ∈ events ++ [parsed], Inside requestData := by
    intro requestData hmem
    apply hinside
    rcases List.mem_append.mp hmem with hmem | hmem
    · exact List.mem_append_left _ hmem
    · rw [List.mem_singleton.mp hmem]
      exact List.mem_append_right _ List.mem_cons_self
  obtain ⟨hnodup, htexts⟩ := computeCandidates_texts hinside' hoption hquery hfiletype hrun
  obtain ⟨hnodup', htexts'⟩ := computeCandidates_texts hinside hoption hquery hfiletype hrun'
  apply (List.perm_ext_iff_of_nodup hnodup hnodup').mpr
  intro t
  rw [htexts, htexts', and_congr_left_iff]
  intro _
  unfold Offered
  apply and_congr_right
  intro hne
  simp only [recorded_unchanged hends hparsed hfile hlater hne]

/-- An identifier is offered for every query that has some of its characters in their order, in whatever
events it has been told of, unless one of them has replaced those of its file since. -/
theorem identifiers_offered_as_typed (env : Core.Environment) (classes : CharacterClasses) (text : TextLibrary)
    (hinside : ∀ requestData ∈ events, Inside requestData) {userOptions : Json} {n : Nat}
    (hoption : option userOptions "min_num_identifier_candidate_chars" = .ok (.int n)) {requestWrap : SimpleRequest}
    {query : View UInt8} (hquery : RequestWrapper.queryBytes text classes requestWrap = .ok query) {filetype : String}
    (hfiletype : firstFiletype requestWrap = .ok filetype) {filepath t : Bytes}
    (hrecorded : Recorded classes events (utf8 filetype.toList) filepath t) (hlimit : t.length ≤ 80)
    (hlong : n < t.length) {word word' : Word} (hword : Word.of env query.elems = .ok word)
    (hword' : Word.of env t = .ok word') (hnarrows : word.Narrows word') :
    ∃ candidates db', computeCandidates env classes text userOptions requestWrap (run env classes events .empty) =
        .ok candidates db' ∧ t ∈ candidates.map Completion.insertionText := by
  have hdec : Decodable query.elems := (Word.of_isOk env query.elems).mp (by rw [hword]; rfl)
  obtain ⟨candidates, db', hrun⟩ : ∃ candidates db', computeCandidates env classes text userOptions requestWrap
      (run env classes events .empty) = .ok candidates db' :=
    computeCandidates_returns hinside hoption hquery hfiletype hdec
  have hne : t ≠ [] := List.length_pos_iff.mp (Nat.zero_lt_of_lt hlong)
  obtain ⟨candidate, hof, -, hbytes, hsome⟩ := (answers_iff hword).mp (answers_of_own hword hword' hne hnarrows)
  refine ⟨candidates, db', hrun, ?_⟩
  rw [(computeCandidates_texts hinside hoption hquery hfiletype hrun).2]
  exact ⟨⟨hne, hlimit, ⟨filepath, hrecorded⟩, candidate, hof, word, hword, hbytes, hsome⟩, hlong⟩

theorem identifiers_offered_as_typed_letters :
    ∃ candidates db', computeCandidates letterEnvironment asciiClasses .leading (minimumChars 1)
        (RequestWrapper.requestIn "A" 2) (run letterEnvironment asciiClasses letterEvents .empty) =
        .ok candidates db' ∧ ascii "Ab" ∈ candidates.map Completion.insertionText := by
  obtain ⟨query, hquery, helems⟩ := queryBytes_letter
  have hwords : (do
      let word ← Word.of letterEnvironment (ascii "A")
      let word' ← Word.of letterEnvironment (ascii "Ab")
      return word.characters.isSublist word'.characters) = Except.ok true := by
    decide +kernel
  obtain ⟨word, hword, hwords⟩ := bind_ok hwords
  obtain ⟨word', hword', hwords⟩ := bind_ok hwords
  have hnarrows : word.Narrows word' := List.isSublist_iff_sublist.mp (Except.ok.inj hwords)
  rw [← helems] at hword
  obtain ⟨-, -, ⟨filepath, hrecorded⟩, -⟩ := letters_offered
  exact identifiers_offered_as_typed letterEnvironment asciiClasses .leading letterEvents_inside rfl hquery
    (by simp [firstFiletype, RequestWrapper.requestIn, oneFile]) hrecorded (by decide) (by decide) hword hword' hnarrows

/-- The insert mode is left where the file was parsed. -/
def laterEvents : List EventNotification := [{ RequestWrapper.requestIn "Ab" 1 with eventName := .insertLeave }]

theorem laterEvents_inside : ∀ requestData ∈ laterEvents, Inside requestData := by
  have hlines := @splitLines_of_no_feed (contentsOfFile ⟨["cpp"], "Ab"⟩) (by decide) (by decide)
  have hlength : (splitLines (contentsOfFile ⟨["cpp"], "Ab"⟩)).length = 1 := by
    rw [← List.length_map (f := View.elems), hlines, List.length_singleton]
  simp [laterEvents, Inside, SimpleRequest.file, RequestWrapper.requestIn, oneFile, hlength]

theorem events_offer_nothing_new_letters :
    ∃ candidates candidates' db db',
      computeCandidates letterEnvironment asciiClasses .leading (minimumChars 1) (RequestWrapper.requestIn "A" 2)
        (run letterEnvironment asciiClasses letterEvents .empty) = .ok candidates db ∧
      computeCandidates letterEnvironment asciiClasses .leading (minimumChars 1) (RequestWrapper.requestIn "A" 2)
        (run letterEnvironment asciiClasses (letterEvents ++ laterEvents) .empty) = .ok candidates' db' ∧
      (candidates.map Completion.insertionText).Perm (candidates'.map Completion.insertionText) := by
  obtain ⟨query, hquery, helems⟩ := queryBytes_letter
  have hfiletype : firstFiletype (RequestWrapper.requestIn "A" 2) = .ok "cpp" := by
    simp [firstFiletype, RequestWrapper.requestIn, oneFile]
  have hoption : option (minimumChars 1) "min_num_identifier_candidate_chars" = .ok (.int (1 : Nat)) := rfl
  have hdec : Decodable query.elems := by rw [helems]; decide +kernel
  have hinside : ∀ requestData ∈ letterEvents ++ laterEvents, Inside requestData :=
    List.forall_mem_append.mpr ⟨letterEvents_inside, laterEvents_inside⟩
  obtain ⟨candidates, db, hrun⟩ : ∃ candidates db, computeCandidates letterEnvironment asciiClasses .leading
      (minimumChars 1) (RequestWrapper.requestIn "A" 2) (run letterEnvironment asciiClasses letterEvents .empty) =
        .ok candidates db :=
    computeCandidates_returns letterEvents_inside hoption hquery hfiletype hdec
  obtain ⟨candidates', db', hrun'⟩ : ∃ candidates db, computeCandidates letterEnvironment asciiClasses .leading
      (minimumChars 1) (RequestWrapper.requestIn "A" 2)
      (run letterEnvironment asciiClasses (letterEvents ++ laterEvents) .empty) = .ok candidates db :=
    computeCandidates_returns hinside hoption hquery hfiletype hdec
  have hlater : ∀ requestData ∈ laterEvents,
      requestData.filepath = "/a.cpp" ∧ requestData.file = .ok ⟨["cpp"], "Ab"⟩ := by
    simp [laterEvents, SimpleRequest.file, RequestWrapper.requestIn, oneFile]
  refine ⟨candidates, candidates', db, db', hrun, hrun', ?_⟩
  exact @events_offer_nothing_new [] laterEvents { RequestWrapper.requestIn "Ab" 1 with eventName := .fileReadyToParse }
    ⟨["cpp"], "Ab"⟩ letterEnvironment asciiClasses .leading asciiClasses_endAtLines hinside rfl
    (by simp [SimpleRequest.file, RequestWrapper.requestIn, oneFile]) hlater _ _ hoption _ _ hquery _ hfiletype _ _ _ _
    hrun hrun'

end General.IdentifierCompleter
end Ycmd
