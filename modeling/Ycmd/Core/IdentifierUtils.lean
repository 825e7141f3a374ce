import Ycmd.Lib.Occurrence
import Ycmd.Core.IdentifierDatabase

/-! The identifiers of tag files, read line by line. -/
namespace Ycmd.Core
open Lib

abbrev TAB : UInt8 := 9
abbrev slash : UInt8 := 47

/-- `std::getline` until it fails; `line` is what has been read of the line. -/
def getlines (line : Bytes) : Bytes → List Bytes
  | [] => if line = [] then [] else [line]
  | b :: contents => if b = LF then line :: getlines [] contents else getlines (line ++ [b]) contents

/-- What a file system holds: no contents for what is no regular file, or cannot be read. -/
abbrev Files := Bytes → Option Bytes

/-- `ReadUtf8File`, and no lines where that throws. -/
def readUtf8File (files : Files) (filepath : Bytes) : List Bytes :=
  match files filepath with
  | some contents => getlines [] contents
  | none => []

/-- `fs::path::parent_path`: a path without a name is its own parent, and slashes before the only name are the
root directory, which is one slash. -/
def parentPath (path : Bytes) : Bytes :=
  let directory := (path.reverse.dropWhile (· ≠ slash)).reverse
  let trimmed := (directory.reverse.dropWhile (· = slash)).reverse
  if trimmed ≠ [] then trimmed
  else if directory = path then path
  else directory.take 1

/-- `operator/` of `fs::path`: an absolute path takes the place of the other. -/
def joinPath (directory path : Bytes) : Bytes :=
  if path.head? = some slash then path
  else if directory = [] ∨ directory.getLast? = some slash then directory ++ path
  else directory ++ slash :: path

/-- `LANG_TO_FILETYPE`. -/
def langToFiletype : List (Bytes × Bytes) := [
  (ascii "C#", ascii "cs"),
  (ascii "C++", ascii "cpp"),
  (ascii "gdbinit", ascii "gdb"),
  (ascii "JavaProperties", ascii "jproperties"),
  (ascii "ObjectiveC", ascii "objc"),
  (ascii "PuppetManifest", ascii "puppet"),
  (ascii "RelaxNG", ascii "rng"),
  (ascii "reStructuredText", ascii "rst"),
  (ascii "RpmSpec", ascii "spec"),
  (ascii "SystemdUnit", ascii "systemd")]

def lowercase (text : Bytes) : Bytes := text.map toLower

/-- The filetype of a language, as `FindWithDefault` finds it. -/
def filetypeOf (language : Bytes) : Bytes := (langToFiletype.lookup language).getD (lowercase language)

def langStr : Bytes := ascii "language:"

/-- The identifiers under a filetype and a path. -/
def identifiersOf (map : FiletypeIdentifierMap) (filetype path : Bytes) : List Bytes :=
  (((map.lookup filetype).getD ∅).lookup path).getD []

/-- What a line has recorded. -/
structure TagRecord where
  filetype : Bytes
  path : Bytes
  identifier : Bytes
  deriving DecidableEq, Repr

/-- Both subscripts create the entry they do not find. -/
def emplaceBack (map : FiletypeIdentifierMap) (record : TagRecord) : FiletypeIdentifierMap :=
  map.insert record.filetype (((map.lookup record.filetype).getD ∅).insert record.path
    (identifiersOf map record.filetype record.path ++ [record.identifier]))

/-- The language from where it begins; a tab is looked for behind its first byte. -/
def languageFrom (line : Bytes) (first : UInt8) (rest : Bytes) : Bytes :=
  if TAB ∈ rest then first :: rest.takeWhile (· ≠ TAB)
  else if line.getLast? = some CR then (first :: rest).dropLast
  else first :: rest

/-- From behind the path on: the line is left where there is no language. -/
def languageOf (line rest : Bytes) : Option Bytes :=
  match behindFirst langStr rest with
  | some (first :: rest) => some (languageFrom line first rest)
  | _ => none

/-- From behind the identifier on: the path begins after all tabs, and ends at one. -/
def pathOf (rest : Bytes) : Option (Bytes × Bytes) :=
  match rest.dropWhile (· = TAB) with
  | [] => none
  | first :: rest => match rest.dropWhile (· ≠ TAB) with
    | [] => none
    | _ :: behind => some (first :: rest.takeWhile (· ≠ TAB), behind)

variable (weaklyCanonical : Bytes → Bytes)

/-- The body of the loop over the lines. -/
def tagRecord (pathToTagFile line : Bytes) : Option TagRecord :=
  match line.dropWhile (· ≠ TAB) with
  | [] => none
  | _ :: rest => (pathOf rest).bind fun path => (languageOf line path.2).map fun language =>
    ⟨filetypeOf language, weaklyCanonical (joinPath (parentPath pathToTagFile) path.1), line.takeWhile (· ≠ TAB)⟩

def extractIdentifiers (pathToTagFile : Bytes) (lines : List Bytes) : FiletypeIdentifierMap :=
  (lines.filterMap (tagRecord weaklyCanonical pathToTagFile)).foldl emplaceBack ∅

def extractIdentifiersFromTagsFile (files : Files) (pathToTagFile : Bytes) : FiletypeIdentifierMap :=
  extractIdentifiers weaklyCanonical pathToTagFile (readUtf8File files pathToTagFile)

variable {weaklyCanonical}

theorem getlines_cons {line : Bytes} (hline : LF ∉ line) (read contents : Bytes) :
    getlines read (line ++ LF :: contents) = (read ++ line) :: getlines [] contents := by
  induction line generalizing read with
  | nil => rw [List.nil_append, getlines, if_pos rfl, List.append_nil]
  | cons b line ih =>
    rw [List.mem_cons, not_or] at hline
    rw [List.cons_append, getlines, if_neg (Ne.symm hline.1), ih hline.2, List.append_assoc, List.singleton_append]

/-- Lines that are written one after the other are read again. -/
theorem getlines_lines {lines : List Bytes} (h : ∀ line ∈ lines, LF ∉ line) :
    getlines [] (lines.flatMap (fun line => line ++ [LF])) = lines := by
  induction lines with
  | nil => rfl
  | cons line lines ih =>
    rw [List.forall_mem_cons] at h
    rw [List.flatMap_cons, List.append_assoc, List.singleton_append, getlines_cons h.1, ih h.2, List.nil_append]

theorem identifiersOf_eq (map : FiletypeIdentifierMap) (filetype path : Bytes) :
    identifiersOf map filetype path = ((map.lookup filetype).bind (fun paths => paths.lookup path)).getD [] := by
  unfold identifiersOf
  cases map.lookup filetype <;> rfl

/-- One entry gets longer, and no other changes. -/
theorem lookup_emplaceBack (map : FiletypeIdentifierMap) (record : TagRecord) (filetype path : Bytes) :
    ((emplaceBack map record).lookup filetype).bind (fun paths => paths.lookup path) =
      if record.filetype = filetype ∧ record.path = path then
        some (identifiersOf map filetype path ++ [record.identifier])
      else (map.lookup filetype).bind (fun paths => paths.lookup path) := by
  unfold emplaceBack
  by_cases hft : filetype = record.filetype
  · subst hft
    rw [AList.lookup_insert, Option.bind_some]
    by_cases hpath : path = record.path
    · subst hpath
      rw [if_pos ⟨rfl, rfl⟩, AList.lookup_insert]
    · rw [if_neg (fun h => hpath h.2.symm), AList.lookup_insert_ne hpath]
      cases map.lookup record.filetype <;> rfl
  · rw [if_neg (fun h => hft h.1.symm), AList.lookup_insert_ne hft]

theorem identifiersOf_emplaceBack (map : FiletypeIdentifierMap) (record : TagRecord) (filetype path : Bytes) :
    identifiersOf (emplaceBack map record) filetype path =
      identifiersOf map filetype path ++
        (if record.filetype = filetype ∧ record.path = path then [record.identifier] else []) := by
  rw [identifiersOf_eq, lookup_emplaceBack]
  by_cases hkey : record.filetype = filetype ∧ record.path = path
  · rw [if_pos hkey, if_pos hkey, Option.getD_some]
  · rw [if_neg hkey, if_neg hkey, List.append_nil, identifiersOf_eq]

/-- Every entry has an identifier. -/
theorem extractIdentifiers_ne_nil {pathToTagFile : Bytes} {lines : List Bytes} {filetype path : Bytes}
    {identifiers : List Bytes}
    (h : ((extractIdentifiers weaklyCanonical pathToTagFile lines).lookup filetype).bind
      (fun paths => paths.lookup path) = some identifiers) : identifiers ≠ [] := by
  revert identifiers
  unfold extractIdentifiers
  apply List.foldlRecOn (motive := fun map : FiletypeIdentifierMap => ∀ {identifiers},
    (map.lookup filetype).bind (fun paths => paths.lookup path) = some identifiers → identifiers ≠ [])
  · intro identifiers h
    simp at h
  · intro map ih record _ identifiers h
    rw [lookup_emplaceBack] at h
    split at h
    · obtain rfl := Option.some.inj h
      exact List.append_ne_nil_of_right_ne_nil _ (List.cons_ne_nil _ _)
    · exact ih h

/-- What is recorded under a filetype and a path, in the order of the records. -/
theorem identifiersOf_foldl (map : FiletypeIdentifierMap) (records : List TagRecord) (filetype path : Bytes) :
    identifiersOf (records.foldl emplaceBack map) filetype path =
      identifiersOf map filetype path ++
        (records.filter (fun record => record.filetype = filetype ∧ record.path = path)).map TagRecord.identifier := by
  induction records generalizing map with
  | nil => rw [List.foldl_nil, List.filter_nil, List.map_nil, List.append_nil]
  | cons record records ih =>
    rw [List.foldl_cons, ih, identifiersOf_emplaceBack, List.append_assoc, List.filter_cons]
    by_cases hkey : record.filetype = filetype ∧ record.path = path
    · rw [if_pos hkey, if_pos (decide_eq_true hkey), List.map_cons, List.singleton_append]
    · rw [if_neg hkey, if_neg (by simpa using hkey), List.nil_append]

end Ycmd.Core
