import Ycmd.Lsp.Documents
import Mathlib.Data.List.Nodup
import Mathlib.Data.Set.Function

/-! `ClangdCompleter::sync_files`: the opened files it keeps, and its two loops when nothing else
runs between them. -/
namespace Ycmd.Clangd
open Lsp

/-- `URI`. -/
def URI (filePath : String) : String := "file://" ++ filePath

abbrev FilePath := String

/-- What two paths are compared by: the root directory and the elements after it. Repeated
separators count once, and one at the end makes an empty last element. -/
def FilePath.elements (path : FilePath) : Bool × List (List Char) :=
  let names := path.toList.splitOn '/'
  let filenames := names.filter (· ≠ [])
  (decide (1 < names.length) && names.head? == some [],
    if filenames ≠ [] ∧ names.getLast? = some [] then filenames ++ [[]] else filenames)

structure FileData where
  filetypes : List String
  contents : String
  deriving DecidableEq, Repr

/-- `std::map<FilePath, FileData>`: no two keys are the same path. -/
structure FileDataMap where
  files : List (FilePath × FileData)
  nodup : (files.map (fun f => f.1.elements)).Nodup

/-- `file_data.contains`: the name is compared as a path. -/
def FileDataMap.contains (fileData : FileDataMap) (path : FilePath) : Bool :=
  fileData.files.any (fun f => f.1.elements = path.elements)

/-- An entry of `opened_files`. An iterator is the node it points to. -/
structure OpenedFile where
  node : Nat
  filename : String
  version : Int
  hash : UInt64
  deriving DecidableEq, Repr

/-- Where an insertion puts the new entry, and how it rearranges the others. -/
structure Layout where
  emplace : List OpenedFile → OpenedFile → List OpenedFile
  perm : ∀ files file, (emplace files file).Perm (file :: files)

/-- A notification with the entry it is sent for. -/
structure Announcement where
  node : Nat
  filename : String
  notification : Notification
  deriving DecidableEq, Repr

/-- The completer's files, with what it has sent and erased so far. `undefined` once it has read
past an empty vector or used an iterator to an erased entry. -/
structure Sync where
  openedFiles : List OpenedFile := []
  emplaced : Nat := 0
  sent : List Announcement := []
  erased : List Nat := []
  undefined : Bool := false
  deriving DecidableEq, Repr

def Sync.names (s : Sync) : List String := s.openedFiles.map OpenedFile.filename

def Sync.notifications (s : Sync) : List Notification := s.sent.map Announcement.notification

variable (layout : Layout) (XXH64 : String → UInt64)

/-- A file that is not opened: the entry is made, then announced. -/
def emplaceFile (s : Sync) (filename : FilePath) (languageId contents : String) : Sync :=
  let file : OpenedFile := { node := s.emplaced, filename, version := 1, hash := XXH64 contents }
  { s with
    openedFiles := layout.emplace s.openedFiles file
    emplaced := s.emplaced + 1
    sent := s.sent ++ [⟨file.node, filename, .didOpen (URI filename) languageId 1 contents⟩] }

/-- A file that is opened with other contents. -/
def updateFile (s : Sync) (pos : OpenedFile) (filename : FilePath) (contents : String) : Sync :=
  let file : OpenedFile := { pos with hash := XXH64 contents, version := pos.version + 1 }
  { s with
    openedFiles := s.openedFiles.map (fun f => if f.node = pos.node then file else f)
    sent := s.sent ++ [⟨file.node, filename, .didChange (URI filename) file.version contents⟩] }

/-- One iteration of the first loop; `none` when the file is as it was and nothing is sent. -/
def visitFile (s : Sync) (filename : FilePath) (filedata : FileData) : Option Sync :=
  match s.openedFiles.find? (fun file => file.filename = filename) with
  | none => match filedata.filetypes with
    | languageId :: _ => some (emplaceFile layout XXH64 s filename languageId filedata.contents)
    | [] => some { s with undefined := true }
  | some pos =>
    if pos.hash ≠ XXH64 filedata.contents then some (updateFile XXH64 s pos filename filedata.contents)
    else none

/-- The notification of an iteration of the second loop: it names the file, not its URI. -/
def sendClose (s : Sync) (file : OpenedFile) : Sync :=
  { s with sent := s.sent ++ [⟨file.node, file.filename, .didClose file.filename⟩] }

/-- `opened_files.erase( iter )`. -/
def eraseFile (s : Sync) (node : Nat) : Sync :=
  if s.openedFiles.any (fun file => file.node = node) then
    { s with
      openedFiles := s.openedFiles.eraseP (fun file => file.node = node)
      erased := s.erased ++ [node] }
  else { s with undefined := true }

def openFiles (s : Sync) (files : List (FilePath × FileData)) : Sync :=
  files.foldl (fun s f => (visitFile layout XXH64 s f.1 f.2).getD s) s

def closeFiles (fileData : FileDataMap) (s : Sync) (files : List OpenedFile) : Sync :=
  files.foldl (fun s file =>
    if fileData.contains file.filename then s else eraseFile (sendClose s file) file.node) s

/-- `sync_files`, from its start to its end. -/
def syncFiles (s : Sync) (fileData : FileDataMap) : Sync :=
  let s := openFiles layout XXH64 s fileData.files
  closeFiles fileData s s.openedFiles

theorem URI_injective : Function.Injective URI := by
  intro a b h
  exact (String.append_right_inj _).mp h

variable {layout XXH64}

theorem mem_names {s : Sync} {filename : String} :
    filename ∈ s.names ↔ ∃ file ∈ s.openedFiles, file.filename = filename := by
  simp [Sync.names]

/-- What visiting a file can do. -/
theorem visitFile_cases {s s' : Sync} {filename : FilePath} {filedata : FileData}
    (h : visitFile layout XXH64 s filename filedata = some s') :
    (filename ∉ s.names ∧ filedata.filetypes = [] ∧ s' = { s with undefined := true }) ∨
    (filename ∉ s.names ∧ ∃ languageId, filedata.filetypes.head? = some languageId ∧
      s' = emplaceFile layout XXH64 s filename languageId filedata.contents) ∨
    (∃ pos ∈ s.openedFiles, pos.filename = filename ∧ pos.hash ≠ XXH64 filedata.contents ∧
      s' = updateFile XXH64 s pos filename filedata.contents) := by
  unfold visitFile at h
  split at h
  · next hf =>
    have hnot : filename ∉ s.names := by
      rw [mem_names]
      simpa using hf
    split at h
    · next languageId _ hl => exact .inr (.inl ⟨hnot, languageId, by simp [hl], (Option.some.inj h).symm⟩)
    · next hl => exact .inl ⟨hnot, hl, (Option.some.inj h).symm⟩
  · next pos hf =>
    split at h
    · next hne =>
      have hname := List.find?_some hf
      exact .inr (.inr ⟨pos, List.mem_of_find?_eq_some hf, by simpa using hname, hne, (Option.some.inj h).symm⟩)
    · cases h

theorem visitFile_none {s : Sync} {filename : FilePath} {filedata : FileData}
    (h : visitFile layout XXH64 s filename filedata = none) :
    ∃ pos ∈ s.openedFiles, pos.filename = filename ∧ pos.hash = XXH64 filedata.contents := by
  unfold visitFile at h
  split at h
  · split at h <;> cases h
  · next pos hf =>
    split at h
    · cases h
    · next heq =>
      have hname := List.find?_some hf
      exact ⟨pos, List.mem_of_find?_eq_some hf, by simpa using hname, by simpa using heq⟩

/-- The entries are told apart by their nodes and by their names. -/
structure Keyed (s : Sync) : Prop where
  nodes : (s.openedFiles.map OpenedFile.node).Nodup
  node_lt : ∀ file ∈ s.openedFiles, file.node < s.emplaced
  names : s.names.Nodup

theorem mem_emplaceFile {s : Sync} {filename languageId contents : String} {file : OpenedFile} :
    file ∈ (emplaceFile layout XXH64 s filename languageId contents).openedFiles ↔
      file = { node := s.emplaced, filename, version := 1, hash := XXH64 contents } ∨ file ∈ s.openedFiles :=
  (layout.perm _ _).mem_iff.trans List.mem_cons

theorem Keyed.emplaceFile {s : Sync} (hk : Keyed s) {filename : FilePath} (hnot : filename ∉ s.names)
    (languageId contents : String) : Keyed (emplaceFile layout XXH64 s filename languageId contents) where
  nodes := by
    refine ((layout.perm _ _).map OpenedFile.node).nodup_iff.mpr (List.nodup_cons.mpr ⟨?_, hk.nodes⟩)
    intro hmem
    obtain ⟨file, hfile, hnode⟩ := List.mem_map.mp hmem
    exact absurd (hk.node_lt file hfile) (by simp [hnode])
  node_lt := by
    intro file hfile
    rcases mem_emplaceFile.mp hfile with rfl | hfile
    · exact Nat.lt_succ_self _
    · exact Nat.lt_succ_of_lt (hk.node_lt file hfile)
  names := ((layout.perm _ _).map OpenedFile.filename).nodup_iff.mpr (List.nodup_cons.mpr ⟨hnot, hk.names⟩)

theorem updateFile_map {β : Type} (f : OpenedFile → β) (s : Sync) (pos : OpenedFile) (filename : FilePath)
    (contents : String) (hf : ∀ hash version, f { pos with hash, version } = f pos)
    (hk : Keyed s) (hpos : pos ∈ s.openedFiles) :
    (updateFile XXH64 s pos filename contents).openedFiles.map f = s.openedFiles.map f := by
  rw [updateFile, List.map_map]
  apply List.map_congr_left
  intro file hfile
  by_cases h : file.node = pos.node
  · have : file = pos := List.inj_on_of_nodup_map hk.nodes hfile hpos h
    simp [this, hf]
  · simp [h]

theorem Keyed.updateFile {s : Sync} (hk : Keyed s) {pos : OpenedFile} (hpos : pos ∈ s.openedFiles)
    (filename : FilePath) (contents : String) : Keyed (updateFile XXH64 s pos filename contents) where
  nodes := by
    rw [updateFile_map OpenedFile.node s pos filename contents (fun _ _ => rfl) hk hpos]
    exact hk.nodes
  node_lt := by
    intro file hfile
    obtain ⟨file', hfile', rfl⟩ := List.mem_map.mp hfile
    split
    · exact hk.node_lt pos hpos
    · exact hk.node_lt file' hfile'
  names := by
    rw [Sync.names, updateFile_map OpenedFile.filename s pos filename contents (fun _ _ => rfl) hk hpos]
    exact hk.names

theorem Keyed.visit {s s' : Sync} (hk : Keyed s) {filename : FilePath} {filedata : FileData}
    (h : visitFile layout XXH64 s filename filedata = some s') : Keyed s' := by
  obtain ⟨-, -, rfl⟩ | ⟨hnot, languageId, -, rfl⟩ | ⟨pos, hpos, -, -, rfl⟩ := visitFile_cases h
  · exact ⟨hk.nodes, hk.node_lt, hk.names⟩
  · exact hk.emplaceFile hnot languageId filedata.contents
  · exact hk.updateFile hpos filename filedata.contents

theorem Keyed.getD_visit {s : Sync} (hk : Keyed s) (f : FilePath × FileData) :
    Keyed ((visitFile layout XXH64 s f.1 f.2).getD s) := by
  cases h : visitFile layout XXH64 s f.1 f.2 with
  | none => exact hk
  | some s' => exact hk.visit h

theorem Keyed.openFiles {s : Sync} (hk : Keyed s) {files : List (FilePath × FileData)} :
    Keyed (openFiles layout XXH64 s files) := by
  induction files generalizing s with
  | nil => exact hk
  | cons f files ih => exact ih (hk.getD_visit f)

theorem names_emplaceFile {s : Sync} {filename languageId text name : String} :
    name ∈ (emplaceFile layout XXH64 s filename languageId text).names ↔ name = filename ∨ name ∈ s.names := by
  apply ((layout.perm _ _).map OpenedFile.filename).mem_iff.trans
  rw [List.map_cons, List.mem_cons]
  rfl

theorem names_updateFile {s : Sync} (hk : Keyed s) {pos : OpenedFile} (hpos : pos ∈ s.openedFiles)
    (filename : FilePath) (text : String) : (updateFile XXH64 s pos filename text).names = s.names :=
  updateFile_map OpenedFile.filename s pos filename text (fun _ _ => rfl) hk hpos

/-- No visit opens or closes any other file. -/
theorem names_visit {s s' : Sync} (hk : Keyed s) {filename : FilePath} {filedata : FileData}
    (h : visitFile layout XXH64 s filename filedata = some s') {name : String} (hne : name ≠ filename) :
    name ∈ s'.names ↔ name ∈ s.names := by
  obtain ⟨-, -, rfl⟩ | ⟨-, languageId, -, rfl⟩ | ⟨pos, hpos, -, -, rfl⟩ := visitFile_cases h
  · rfl
  · rw [names_emplaceFile]
    simp [hne]
  · rw [names_updateFile hk hpos]

/-- New entries at the front. -/
def atFront : Layout := ⟨fun files file => file :: files, fun _ _ => .refl _⟩

/-- The hashes of `int x;` and `int y;`. -/
def sampleHash (text : String) : UInt64 := if text = "int x;" then 0x5df8483df0ca45d5 else 0x914892d56e1fd4b8

def oneFile (text : String) : FileDataMap := ⟨[("/a.cpp", ⟨["cpp"], text⟩)], List.nodup_singleton _⟩

def noFiles : FileDataMap := ⟨[], List.nodup_nil⟩

end Ycmd.Clangd
