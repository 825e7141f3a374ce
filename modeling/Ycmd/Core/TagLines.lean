import Ycmd.Core.IdentifierUtils

/-! The lines of a tag file with their fields, and what of a line the reader of tag files takes for its
language. -/
namespace Ycmd.Core
open Lib

/-- A line as it is written: extension fields stand behind the command, the language in one of them. -/
structure TagLine where
  name : Bytes
  file : Bytes
  excmd : Bytes
  fields : List Bytes
  carriageReturn : Bool
  name_ne : name ≠ []
  file_ne : file ≠ []
  name_plain : TAB ∉ name ∧ LF ∉ name
  file_plain : TAB ∉ file ∧ LF ∉ file
  excmd_plain : LF ∉ excmd
  fields_plain : ∀ field ∈ fields, TAB ∉ field ∧ LF ∉ field

namespace TagLine

/-- What stands behind the path and its tab. -/
def rest (line : TagLine) : Bytes :=
  line.excmd ++ ascii ";\"" ++ line.fields.flatMap (TAB :: ·) ++ if line.carriageReturn then [CR] else []

def text (line : TagLine) : Bytes := line.name ++ TAB :: (line.file ++ TAB :: line.rest)

/-- The languages that fields of the line give; an empty one is none. -/
def languages (line : TagLine) : List Bytes :=
  line.fields.filterMap (fun field => if langStr <+: field ∧ field ≠ langStr then some (field.drop langStr.length)
    else none)

/-- The line is to be recorded under a filetype and a path. -/
def Records (weaklyCanonical : Bytes → Bytes) (pathToTagFile : Bytes) (line : TagLine) (filetype path : Bytes) : Prop :=
  path = weaklyCanonical (joinPath (parentPath pathToTagFile) line.file) ∧ filetype ∈ line.languages.map filetypeOf

instance (weaklyCanonical : Bytes → Bytes) (pathToTagFile : Bytes) (line : TagLine) (filetype path : Bytes) :
    Decidable (line.Records weaklyCanonical pathToTagFile filetype path) :=
  inferInstanceAs (Decidable (_ ∧ _))

end TagLine

/-- A text up to its first tab, and where it has none, without the carriage return that ends it. -/
def upToTab (text : Bytes) : Bytes :=
  if TAB ∈ text then text.takeWhile (· ≠ TAB) else if text.getLast? = some CR then text.dropLast else text

/-- Whatever stands behind the first `language:` after the path, if anything does, names the filetype that the
language fields name, and there is such a field. -/
def TagLine.Unambiguous (line : TagLine) : Prop :=
  ∀ before after, FirstOccurrence langStr line.rest before after → after ≠ [] →
    line.languages ≠ [] ∧ ∀ language ∈ line.languages, filetypeOf language = filetypeOf (upToTab after)

section Spec
variable (weaklyCanonical : Bytes → Bytes) (pathToTagFile : Bytes) (lines : List TagLine)

/-- Every line is recorded as it is to be, and the names stand in the order of the lines. -/
structure ReadsFields : Prop where
  records : ∀ line ∈ lines, ∀ filetype path,
    tagRecord weaklyCanonical pathToTagFile line.text = some ⟨filetype, path, line.name⟩ ↔
      line.Records weaklyCanonical pathToTagFile filetype path
  names : ∀ filetype path,
    identifiersOf (extractIdentifiersFromTagsFile weaklyCanonical
        (fun _ => some (lines.flatMap (fun line => line.text ++ [LF]))) pathToTagFile) filetype path =
      (lines.filter (fun line => line.Records weaklyCanonical pathToTagFile filetype path)).map TagLine.name

end Spec

variable {weaklyCanonical : Bytes → Bytes} {pathToTagFile : Bytes} {line : TagLine}

theorem LF_not_mem_text (line : TagLine) : LF ∉ line.text := by
  have hfields : LF ∉ line.fields.flatMap (TAB :: ·) := by
    intro h
    obtain ⟨field, hfield, hmem⟩ := List.mem_flatMap.mp h
    rcases List.mem_cons.mp hmem with htab | hmem
    · cases htab
    · exact (line.fields_plain field hfield).2 hmem
  have hquote : LF ∉ ascii ";\"" := by decide
  have hreturn : LF ∉ if line.carriageReturn then [CR] else [] := by split <;> decide
  simp only [TagLine.text, TagLine.rest, List.mem_append, List.mem_cons, not_or]
  exact ⟨line.name_plain.2, by decide, line.file_plain.2, by decide, ⟨⟨line.excmd_plain, hquote⟩, hfields⟩, hreturn⟩

theorem takeWhile_tab {l : Bytes} (h : TAB ∉ l) (rest : Bytes) :
    (l ++ TAB :: rest).takeWhile (· ≠ TAB) = l ∧ (l ++ TAB :: rest).dropWhile (· ≠ TAB) = TAB :: rest := by
  have hl : ∀ b ∈ l, decide (b ≠ TAB) = true := fun b hb => decide_eq_true (fun heq => h (heq ▸ hb))
  constructor
  · rw [List.takeWhile_append_of_pos hl, List.takeWhile_cons_of_neg (by simp), List.append_nil]
  · rw [List.dropWhile_append_of_pos hl, List.dropWhile_cons_of_neg (by simp)]

theorem pathOf_file (line : TagLine) : pathOf (line.file ++ TAB :: line.rest) = some (line.file, line.rest) := by
  obtain ⟨first, file, hfile⟩ := List.exists_cons_of_ne_nil line.file_ne
  have hplain := line.file_plain.1
  rw [hfile, List.mem_cons, not_or] at hplain
  obtain ⟨htake, hdrop⟩ := takeWhile_tab hplain.2 line.rest
  have hfirst : (first :: (file ++ TAB :: line.rest)).dropWhile (· = TAB) = first :: (file ++ TAB :: line.rest) :=
    List.dropWhile_cons_of_neg (by simpa using Ne.symm hplain.1)
  simp only [pathOf, hfile, List.cons_append, hfirst, hdrop, htake]

/-- The name and the path of a line are read; for its language what is behind them is searched. -/
theorem tagRecord_text (line : TagLine) :
    tagRecord weaklyCanonical pathToTagFile line.text = (languageOf line.text line.rest).map fun language =>
      ⟨filetypeOf language, weaklyCanonical (joinPath (parentPath pathToTagFile) line.file), line.name⟩ := by
  obtain ⟨htake, hdrop⟩ := takeWhile_tab line.name_plain.1 (line.file ++ TAB :: line.rest)
  rw [tagRecord]
  rw [TagLine.text] at *
  simp only [hdrop, htake, pathOf_file, Option.bind_some]

theorem toLower_eq_tab {b : UInt8} (h : toLower b = TAB) : b = TAB := by
  unfold toLower at h
  split at h
  · rename_i hupper
    rw [Bool.and_eq_true, decide_eq_true_eq, decide_eq_true_eq, UInt8.le_iff_toNat_le, UInt8.le_iff_toNat_le] at hupper
    have hsum := congrArg UInt8.toNat h
    rw [UInt8.toNat_add] at hsum
    change 65 ≤ b.toNat ∧ b.toNat ≤ 90 at hupper
    change (b.toNat + 32) % 2^8 = 9 at hsum
    omega
  · exact h

theorem langToFiletype_plain : ∀ entry ∈ langToFiletype,
    entry.2 ≠ [] ∧ TAB ∉ entry.2 ∧ entry.1.head? ≠ some TAB := by decide

theorem mem_of_lookup {language filetype : Bytes} (h : langToFiletype.lookup language = some filetype) :
    (language, filetype) ∈ langToFiletype := by
  obtain ⟨before, after, hsplit, -⟩ := List.lookup_eq_some_iff.mp h
  rw [hsplit]
  exact List.mem_append_right before List.mem_cons_self

theorem filetypeOf_ne_nil {language : Bytes} (h : language ≠ []) : filetypeOf language ≠ [] := by
  unfold filetypeOf
  cases hl : langToFiletype.lookup language with
  | none => simpa [lowercase] using h
  | some filetype => exact (langToFiletype_plain _ (mem_of_lookup hl)).1

theorem tab_not_mem_filetypeOf {language : Bytes} (h : TAB ∉ language) : TAB ∉ filetypeOf language := by
  unfold filetypeOf
  cases hl : langToFiletype.lookup language with
  | none =>
    intro hmem
    obtain ⟨b, hb, heq⟩ := List.mem_map.mp hmem
    exact h (toLower_eq_tab heq ▸ hb)
  | some filetype => exact (langToFiletype_plain _ (mem_of_lookup hl)).2.1

theorem filetypeOf_tab (text : Bytes) : TAB ∈ filetypeOf (TAB :: text) := by
  unfold filetypeOf
  cases hl : langToFiletype.lookup (TAB :: text) with
  | none => exact List.mem_cons_self
  | some filetype => exact absurd rfl (langToFiletype_plain _ (mem_of_lookup hl)).2.2

theorem filetypeOf_nil : filetypeOf [] = [] := rfl

theorem mem_languages {language : Bytes} :
    language ∈ line.languages ↔ language ≠ [] ∧ langStr ++ language ∈ line.fields := by
  simp only [TagLine.languages, List.mem_filterMap]
  constructor
  · rintro ⟨field, hfield, h⟩
    split at h
    · rename_i hlang
      obtain ⟨⟨language', rfl⟩, hne⟩ := hlang
      rw [List.drop_left, Option.some.injEq] at h
      subst h
      exact ⟨fun hnil => hne (by rw [hnil, List.append_nil]), hfield⟩
    · cases h
  · rintro ⟨hne, hfield⟩
    refine ⟨_, hfield, ?_⟩
    rw [if_pos ⟨List.prefix_append _ _, by simpa using hne⟩, List.drop_left]

theorem tab_not_mem_language {language : Bytes} (h : language ∈ line.languages) : TAB ∉ language := by
  intro htab
  exact (line.fields_plain _ (mem_languages.mp h).2).1 (List.mem_append_right langStr htab)

/-- A language field is a place where the search can stop. -/
theorem langStr_occurs {language : Bytes} (h : language ∈ line.languages) :
    ∃ before after, line.rest = before ++ langStr ++ after ∧ after ≠ [] := by
  obtain ⟨hne, hfield⟩ := mem_languages.mp h
  obtain ⟨fields, fields', hsplit⟩ := List.append_of_mem hfield
  refine ⟨line.excmd ++ ascii ";\"" ++ fields.flatMap (TAB :: ·) ++ [TAB],
    language ++ fields'.flatMap (TAB :: ·) ++ if line.carriageReturn then [CR] else [], ?_, by simp [hne]⟩
  simp [TagLine.rest, hsplit]

/-- The search stops before the end of the line when there is a language field. -/
theorem languageOf_ne_none (h : line.languages ≠ []) (text : Bytes) : languageOf text line.rest ≠ none := by
  obtain ⟨language, hlanguage⟩ := List.exists_mem_of_ne_nil _ h
  obtain ⟨before, after, hsplit, hne⟩ := langStr_occurs hlanguage
  obtain ⟨after', hafter⟩ := behindFirst_isSome hsplit
  obtain ⟨before', hfirst⟩ := behindFirst_eq_some_iff.mp hafter
  have hlength := hfirst.first before after hsplit
  have hsame := congrArg List.length (hsplit.symm.trans hfirst.split)
  have hpos := List.length_pos_iff.mpr hne
  cases after' with
  | nil =>
    simp only [List.length_append, List.length_nil] at hsame
    omega
  | cons first after' =>
    rw [languageOf, hafter]
    exact Option.some_ne_none _

theorem languageFrom_eq {first : UInt8} {text rest before : Bytes} (hfirst : first ≠ TAB)
    (htext : text = before ++ first :: rest) : languageFrom text first rest = upToTab (first :: rest) := by
  have hmem : TAB ∈ first :: rest ↔ TAB ∈ rest := by simp [Ne.symm hfirst]
  have hlast : text.getLast? = (first :: rest).getLast? := by
    rw [htext, List.getLast?_append_of_ne_nil _ (List.cons_ne_nil first rest)]
  unfold languageFrom upToTab
  rw [hlast, List.takeWhile_cons_of_pos (by simpa using hfirst)]
  simp only [hmem]

/-- A tab at once: what is read then begins with it. -/
theorem languageFrom_tab (text rest : Bytes) (htext : text.getLast? = (TAB :: rest).getLast?) :
    ∃ tail, languageFrom text TAB rest = TAB :: tail := by
  unfold languageFrom
  split
  · exact ⟨_, rfl⟩
  · split
    · cases rest with
      | nil =>
        rename_i hreturn _
        rw [htext] at hreturn
        cases hreturn
      | cons b rest => exact ⟨_, rfl⟩
    · exact ⟨_, rfl⟩

/-- For the filetype of a language field it makes no difference at which byte the search for the tab begins. -/
theorem filetypeOf_languageFrom {language text before after : Bytes} {first : UInt8}
    (hlanguage : language ∈ line.languages) (htext : text = before ++ first :: after) :
    filetypeOf language = filetypeOf (languageFrom text first after) ↔
      filetypeOf language = filetypeOf (upToTab (first :: after)) := by
  by_cases hfirst : first = TAB
  · subst hfirst
    have hlast : text.getLast? = (TAB :: after).getLast? := by
      rw [htext, List.getLast?_append_of_ne_nil _ (List.cons_ne_nil TAB after)]
    obtain ⟨tail, htail⟩ := languageFrom_tab text after hlast
    have hupTo : upToTab (TAB :: after) = [] := by
      rw [upToTab, if_pos List.mem_cons_self, List.takeWhile_cons_of_neg (by simp)]
    rw [htail, hupTo, filetypeOf_nil]
    refine iff_of_false ?_ (filetypeOf_ne_nil (mem_languages.mp hlanguage).1)
    intro heq
    exact tab_not_mem_filetypeOf (tab_not_mem_language hlanguage) (heq ▸ filetypeOf_tab tail)
  · rw [languageFrom_eq hfirst htext]

theorem languageOf_eq_some_iff {text rest language : Bytes} :
    languageOf text rest = some language ↔ ∃ before first after,
      FirstOccurrence langStr rest before (first :: after) ∧ languageFrom text first after = language := by
  unfold languageOf
  constructor
  · intro h
    cases hafter : behindFirst langStr rest with
    | none => simp [hafter] at h
    | some behind =>
      cases behind with
      | nil => simp [hafter] at h
      | cons first after =>
        obtain ⟨before, hfirst⟩ := behindFirst_eq_some_iff.mp hafter
        simp only [hafter, Option.some.injEq] at h
        exact ⟨before, first, after, hfirst, h⟩
  · rintro ⟨before, first, after, hfirst, rfl⟩
    simp only [behindFirst_eq_some_iff.mpr ⟨before, hfirst⟩]

theorem forall_eq_some_iff {languages : List Bytes} {filetype : Bytes} :
    (∀ ft, some filetype = some ft ↔ ft ∈ languages.map filetypeOf) ↔
      languages ≠ [] ∧ ∀ language ∈ languages, filetypeOf language = filetype := by
  constructor
  · intro h
    obtain ⟨language, hlanguage, -⟩ := List.mem_map.mp ((h filetype).mp rfl)
    refine ⟨List.ne_nil_of_mem hlanguage, ?_⟩
    intro language hlanguage
    exact (Option.some.inj ((h _).mpr (List.mem_map_of_mem hlanguage))).symm
  · rintro ⟨hne, hall⟩ ft
    constructor
    · rintro ⟨⟩
      obtain ⟨language, hlanguage⟩ := List.exists_mem_of_ne_nil _ hne
      exact List.mem_map.mpr ⟨language, hlanguage, hall language hlanguage⟩
    · intro hft
      obtain ⟨language, hlanguage, rfl⟩ := List.mem_map.mp hft
      exact congrArg some (hall language hlanguage).symm

theorem eq_some_record {r : Option Bytes} {path path' name filetype : Bytes} :
    r.map (fun language => TagRecord.mk (filetypeOf language) path name) = some ⟨filetype, path', name⟩ ↔
      path' = path ∧ r.map filetypeOf = some filetype := by
  cases r with
  | none => simp
  | some language =>
    simp only [Option.map_some, Option.some.injEq, TagRecord.mk.injEq, and_true]
    rw [and_comm, eq_comm (a := path)]

/-- The path is always read: what matters is the filetype. -/
theorem records_iff_languageOf (weaklyCanonical : Bytes → Bytes) (pathToTagFile : Bytes) (line : TagLine) :
    (∀ filetype path, tagRecord weaklyCanonical pathToTagFile line.text = some ⟨filetype, path, line.name⟩ ↔
      line.Records weaklyCanonical pathToTagFile filetype path) ↔
      ∀ filetype, (languageOf line.text line.rest).map filetypeOf = some filetype ↔
        filetype ∈ line.languages.map filetypeOf := by
  simp only [tagRecord_text, eq_some_record, TagLine.Records, and_congr_right_iff]
  constructor
  · intro h filetype
    exact h filetype _ rfl
  · intro h filetype path _
    exact h filetype

/-- A line is recorded as it is to be exactly when it is unambiguous. -/
theorem records_iff_unambiguous (weaklyCanonical : Bytes → Bytes) (pathToTagFile : Bytes) (line : TagLine) :
    (∀ filetype path, tagRecord weaklyCanonical pathToTagFile line.text = some ⟨filetype, path, line.name⟩ ↔
      line.Records weaklyCanonical pathToTagFile filetype path) ↔ line.Unambiguous := by
  rw [records_iff_languageOf]
  cases hlanguage : languageOf line.text line.rest with
  | none =>
    have hno : line.languages = [] := by
      by_contra hne
      exact languageOf_ne_none hne line.text hlanguage
    refine iff_of_true (fun filetype => by simp [hno]) ?_
    intro before after hfirst hne
    obtain ⟨first, after, rfl⟩ := List.exists_cons_of_ne_nil hne
    rw [languageOf_eq_some_iff.mpr ⟨before, first, after, hfirst, rfl⟩] at hlanguage
    cases hlanguage
  | some language =>
    obtain ⟨before, first, after, hfirst, rfl⟩ := languageOf_eq_some_iff.mp hlanguage
    have htext : line.text = line.name ++ TAB :: (line.file ++ TAB :: (before ++ langStr)) ++ first :: after := by
      rw [TagLine.text, hfirst.split]
      simp
    rw [Option.map_some, forall_eq_some_iff]
    constructor
    · rintro ⟨hne, hall⟩ before' after' hfirst' -
      obtain rfl := hfirst.after_eq hfirst'
      refine ⟨hne, ?_⟩
      intro language hlanguage
      exact (filetypeOf_languageFrom hlanguage htext).mp (hall language hlanguage)
    · intro h
      obtain ⟨hne, hall⟩ := h before (first :: after) hfirst (List.cons_ne_nil _ _)
      refine ⟨hne, ?_⟩
      intro language hlanguage
      exact (filetypeOf_languageFrom hlanguage htext).mpr (hall language hlanguage)

theorem identifier_of_tagRecord {record : TagRecord}
    (h : tagRecord weaklyCanonical pathToTagFile line.text = some record) : record.identifier = line.name := by
  rw [tagRecord_text, Option.map_eq_some_iff] at h
  obtain ⟨language, -, rfl⟩ := h
  rfl

theorem filter_records (lines : List TagLine) (filetype path : Bytes) :
    (((lines.map TagLine.text).filterMap (tagRecord weaklyCanonical pathToTagFile)).filter
        (fun record => record.filetype = filetype ∧ record.path = path)).map TagRecord.identifier =
      (lines.filter (fun line => tagRecord weaklyCanonical pathToTagFile line.text =
        some ⟨filetype, path, line.name⟩)).map TagLine.name := by
  induction lines with
  | nil => rfl
  | cons line lines ih =>
    rw [List.map_cons, List.filterMap_cons, List.filter_cons]
    cases h : tagRecord weaklyCanonical pathToTagFile line.text with
    | none =>
      rw [if_neg (by simp)]
      exact ih
    | some record =>
      have hname := identifier_of_tagRecord h
      obtain ⟨ft, path', identifier⟩ := record
      obtain rfl : identifier = line.name := hname
      simp only [List.filter_cons, Option.some.injEq, TagRecord.mk.injEq, and_true]
      by_cases hkey : ft = filetype ∧ path' = path
      · rw [if_pos (decide_eq_true hkey), if_pos (decide_eq_true hkey), List.map_cons, List.map_cons, ih]
      · rw [if_neg (by simpa using hkey), if_neg (by simpa using hkey), ih]

/-- The names under a filetype and a path are those of the lines recorded there. -/
theorem identifiersOf_lines (weaklyCanonical : Bytes → Bytes) (pathToTagFile : Bytes) (lines : List TagLine)
    (filetype path : Bytes) :
    identifiersOf (extractIdentifiersFromTagsFile weaklyCanonical
        (fun _ => some (lines.flatMap (fun line => line.text ++ [LF]))) pathToTagFile) filetype path =
      (lines.filter (fun line => tagRecord weaklyCanonical pathToTagFile line.text =
        some ⟨filetype, path, line.name⟩)).map TagLine.name := by
  have hlines : lines.flatMap (fun line => line.text ++ [LF]) =
      (lines.map TagLine.text).flatMap (fun line => line ++ [LF]) := by rw [List.flatMap_map]
  have hplain : ∀ text ∈ lines.map TagLine.text, LF ∉ text :=
    List.forall_mem_map.mpr (fun line _ => LF_not_mem_text line)
  simp only [extractIdentifiersFromTagsFile, readUtf8File, hlines, getlines_lines hplain, extractIdentifiers,
    identifiersOf_foldl]
  exact filter_records lines filetype path

/-- For every list of lines the reader records what the fields say exactly when no line has anything behind a
first `language:` but the language that its fields name. -/
theorem tag_lines_read_iff (weaklyCanonical : Bytes → Bytes) (pathToTagFile : Bytes) (lines : List TagLine) :
    ReadsFields weaklyCanonical pathToTagFile lines ↔ ∀ line ∈ lines, line.Unambiguous := by
  constructor
  · intro h line hline
    exact (records_iff_unambiguous weaklyCanonical pathToTagFile line).mp (h.records line hline)
  · intro h
    have hrecords : ∀ line ∈ lines, ∀ filetype path,
        tagRecord weaklyCanonical pathToTagFile line.text = some ⟨filetype, path, line.name⟩ ↔
          line.Records weaklyCanonical pathToTagFile filetype path := fun line hline =>
      (records_iff_unambiguous weaklyCanonical pathToTagFile line).mpr (h line hline)
    refine ⟨hrecords, ?_⟩
    intro filetype path
    rw [identifiersOf_lines]
    apply congrArg (List.map TagLine.name)
    apply List.filter_congr
    intro line hline
    exact decide_eq_decide.mpr (hrecords line hline filetype path)

/-- A line without extension fields, whose command finds the text of a language field. -/
def excmdLine : TagLine where
  name := ascii "main"
  file := ascii "main.c"
  excmd := ascii "/language:x/"
  fields := []
  carriageReturn := false
  name_ne := by decide
  file_ne := by decide
  name_plain := by decide
  file_plain := by decide
  excmd_plain := by decide
  fields_plain := by simp

/-- It is recorded, under what follows in the command. -/
theorem excmd_taken_for_field :
    excmdLine.languages = [] ∧
    identifiersOf (extractIdentifiersFromTagsFile id
        (fun _ => some ([excmdLine].flatMap (fun line => line.text ++ [LF]))) (ascii "/src/tags"))
      (ascii "x/;\"") (ascii "/src/main.c") = [ascii "main"] ∧
    ¬ ReadsFields id (ascii "/src/tags") [excmdLine] := by
  have hnone : excmdLine.languages = [] := rfl
  have hrecord : tagRecord id (ascii "/src/tags") excmdLine.text =
      some ⟨ascii "x/;\"", ascii "/src/main.c", excmdLine.name⟩ := by decide
  refine ⟨hnone, ?_, ?_⟩
  · rw [identifiersOf_lines]
    decide
  · intro h
    obtain ⟨-, hmem⟩ := (h.records excmdLine List.mem_cons_self _ _).mp hrecord
    rw [hnone] at hmem
    cases hmem

end Ycmd.Core
