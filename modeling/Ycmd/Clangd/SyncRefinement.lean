import Ycmd.Lib.Machine
import Ycmd.Clangd.Sync
import Mathlib.Data.Set.Finite.Lemmas

/-! What requests handled one after another do to the language server's documents. -/
namespace Ycmd.Clangd
open Lib Lsp

variable {layout : Layout} {XXH64 : String → UInt64} {contents : String → Set String}

/-- The server's documents are the opened files, each with the version and the hash of its text. -/
structure Mirror (XXH64 : String → UInt64) (contents : String → Set String) (s : Sync) (st : Store) : Prop
    extends Keyed s where
  replayed : Store.empty.replay s.notifications = some st
  opened : ∀ file ∈ s.openedFiles, ∃ text ∈ contents file.filename,
    st (URI file.filename) = some ⟨file.version, text⟩ ∧ file.hash = XXH64 text
  only : ∀ uri, st uri ≠ none → ∃ file ∈ s.openedFiles, URI file.filename = uri

theorem Mirror.emplaceFile {s : Sync} {st : Store} (hm : Mirror XXH64 contents s st) {filename : FilePath}
    (hnot : filename ∉ s.names) (languageId : String) {text : String} (htext : text ∈ contents filename) :
    Mirror XXH64 contents (emplaceFile layout XXH64 s filename languageId text)
      (Function.update st (URI filename) (some ⟨1, text⟩)) where
  toKeyed := hm.toKeyed.emplaceFile hnot languageId text
  replayed := by
    have hnone : st (URI filename) = none := by
      by_contra h
      obtain ⟨file, hfile, huri⟩ := hm.only _ h
      exact hnot (mem_names.mpr ⟨file, hfile, URI_injective huri⟩)
    rw [Clangd.emplaceFile, Sync.notifications, List.map_append, Store.replay_append]
    change (Store.empty.replay s.notifications).bind _ = _
    rw [hm.replayed, Option.bind_some, List.map_singleton, Store.replay_singleton, Store.apply, hnone]
  opened := by
    intro file hfile
    rcases mem_emplaceFile.mp hfile with rfl | hfile
    · exact ⟨text, htext, by simp, rfl⟩
    · have hne : URI file.filename ≠ URI filename :=
        fun h => hnot (mem_names.mpr ⟨file, hfile, URI_injective h⟩)
      rw [Function.update_of_ne hne]
      exact hm.opened file hfile
  only := by
    intro uri huri
    by_cases h : uri = URI filename
    · exact ⟨_, mem_emplaceFile.mpr (.inl rfl), h.symm⟩
    · rw [Function.update_of_ne h] at huri
      obtain ⟨file, hfile, heq⟩ := hm.only uri huri
      exact ⟨file, mem_emplaceFile.mpr (.inr hfile), heq⟩

theorem Mirror.updateFile {s : Sync} {st : Store} (hm : Mirror XXH64 contents s st) {pos : OpenedFile}
    (hpos : pos ∈ s.openedFiles) {text : String} (htext : text ∈ contents pos.filename) :
    Mirror XXH64 contents (updateFile XXH64 s pos pos.filename text)
      (Function.update st (URI pos.filename) (some ⟨pos.version + 1, text⟩)) where
  toKeyed := hm.toKeyed.updateFile hpos pos.filename text
  replayed := by
    obtain ⟨old, -, hst, -⟩ := hm.opened pos hpos
    rw [Clangd.updateFile, Sync.notifications, List.map_append, Store.replay_append]
    change (Store.empty.replay s.notifications).bind _ = _
    rw [hm.replayed, Option.bind_some, List.map_singleton, Store.replay_singleton, Store.apply, hst]
    exact if_pos (Int.lt_succ pos.version)
  opened := by
    intro file hfile
    obtain ⟨file', hfile', rfl⟩ := List.mem_map.mp hfile
    by_cases h : file'.node = pos.node
    · rw [if_pos h]
      exact ⟨text, htext, by simp, rfl⟩
    · rw [if_neg h]
      have hne : URI file'.filename ≠ URI pos.filename := by
        intro huri
        exact h (by rw [List.inj_on_of_nodup_map hm.names hfile' hpos (URI_injective huri)])
      rw [Function.update_of_ne hne]
      exact hm.opened file' hfile'
  only := by
    intro uri huri
    have hnames : (Clangd.updateFile XXH64 s pos pos.filename text).names = s.names :=
      names_updateFile hm.toKeyed hpos pos.filename text
    have hfile : ∃ file ∈ s.openedFiles, URI file.filename = uri := by
      by_cases h : uri = URI pos.filename
      · exact ⟨pos, hpos, h.symm⟩
      · rw [Function.update_of_ne h] at huri
        exact hm.only uri huri
    obtain ⟨file, hfile, rfl⟩ := hfile
    have hmem : file.filename ∈ (Clangd.updateFile XXH64 s pos pos.filename text).names := by
      rw [hnames]
      exact List.mem_map_of_mem hfile
    obtain ⟨file', hfile', heq⟩ := List.mem_map.mp hmem
    exact ⟨file', hfile', by rw [heq]⟩

/-- Visiting a file brings the server's document of it up to date and no other. -/
structure Visited (XXH64 : String → UInt64) (contents : String → Set String) (s : Sync) (st : Store)
    (f : FilePath × FileData) (s' : Sync) (st' : Store) : Prop where
  mirror : Mirror XXH64 contents s' st'
  text : (st' (URI f.1)).map Document.text = some f.2.contents
  others : ∀ uri, uri ≠ URI f.1 → st' uri = st uri
  names : ∀ name, name ∈ s'.names ↔ name = f.1 ∨ name ∈ s.names

variable (layout) in
/-- The step lemma of the first loop. -/
theorem Mirror.visit {s : Sync} {st : Store} (hm : Mirror XXH64 contents s st) {f : FilePath × FileData}
    (htext : f.2.contents ∈ contents f.1) (hhash : Set.InjOn XXH64 (contents f.1))
    (hdef : ((visitFile layout XXH64 s f.1 f.2).getD s).undefined = false) :
    ∃ st', Visited XXH64 contents s st f ((visitFile layout XXH64 s f.1 f.2).getD s) st' := by
  obtain ⟨filename, filedata⟩ := f
  cases h : visitFile layout XXH64 s filename filedata with
  | none =>
    -- the hash is the one last sent, and so is the text
    obtain ⟨pos, hpos, rfl, hh⟩ := visitFile_none h
    obtain ⟨old, hold, hst, hhold⟩ := hm.opened pos hpos
    have : old = filedata.contents := hhash hold htext (hhold.symm.trans hh)
    refine ⟨st, hm, by simp [hst, this], fun _ _ => rfl, fun name => ?_⟩
    have hname : pos.filename ∈ s.names := mem_names.mpr ⟨pos, hpos, rfl⟩
    constructor
    · exact .inr
    · rintro (rfl | hn)
      · exact hname
      · exact hn
  | some s' =>
    obtain ⟨-, -, rfl⟩ | ⟨hnot, languageId, -, rfl⟩ | ⟨pos, hpos, rfl, -, rfl⟩ := visitFile_cases h
    · simp [h] at hdef
    · exact ⟨_, hm.emplaceFile hnot languageId htext, by simp, fun uri hne => Function.update_of_ne hne _ _,
        fun name => names_emplaceFile⟩
    · refine ⟨_, hm.updateFile hpos htext, by simp, fun uri hne => Function.update_of_ne hne _ _, fun name => ?_⟩
      have hname : pos.filename ∈ s.names := mem_names.mpr ⟨pos, hpos, rfl⟩
      rw [Option.getD_some, names_updateFile hm.toKeyed hpos]
      constructor
      · exact .inr
      · rintro (rfl | hn)
        · exact hname
        · exact hn

variable (layout XXH64) in
theorem undefined_visit {s : Sync} {f : FilePath × FileData} :
    ((visitFile layout XXH64 s f.1 f.2).getD s).undefined = false ↔
      s.undefined = false ∧ (f.1 ∉ s.names → f.2.filetypes ≠ []) := by
  cases h : visitFile layout XXH64 s f.1 f.2 with
  | none =>
    obtain ⟨pos, hpos, hname, -⟩ := visitFile_none h
    have : f.1 ∈ s.names := mem_names.mpr ⟨pos, hpos, hname⟩
    simp [this]
  | some s' =>
    obtain ⟨hnot, hnil, rfl⟩ | ⟨hnot, languageId, hhead, rfl⟩ | ⟨pos, hpos, hname, -, rfl⟩ := visitFile_cases h
    · simp [hnot, hnil]
    · have : f.2.filetypes ≠ [] := by
        rintro hnil
        simp [hnil] at hhead
      simp [Clangd.emplaceFile, this]
    · have : f.1 ∈ s.names := mem_names.mpr ⟨pos, hpos, hname⟩
      simp [Clangd.updateFile, this]

/-- The first loop: the documents of the files visited are up to date, and no other has changed. -/
structure Opened (XXH64 : String → UInt64) (contents : String → Set String) (s : Sync) (st : Store)
    (files : List (FilePath × FileData)) (s' : Sync) (st' : Store) : Prop where
  mirror : Mirror XXH64 contents s' st'
  text : ∀ f ∈ files, (st' (URI f.1)).map Document.text = some f.2.contents
  others : ∀ uri, uri ∉ files.map (fun f => URI f.1) → st' uri = st uri
  names : ∀ name, name ∈ s'.names ↔ name ∈ files.map Prod.fst ∨ name ∈ s.names

theorem undefined_openFiles_mono {s : Sync} {files : List (FilePath × FileData)}
    (h : (openFiles layout XXH64 s files).undefined = false) : s.undefined = false := by
  induction files generalizing s with
  | nil => exact h
  | cons f files ih => exact ((undefined_visit layout XXH64).mp (ih h)).1

variable (layout) in
theorem Mirror.openFiles {s : Sync} {st : Store} {files : List (FilePath × FileData)}
    (hm : Mirror XXH64 contents s st) (hkeys : (files.map Prod.fst).Nodup)
    (htext : ∀ f ∈ files, f.2.contents ∈ contents f.1) (hhash : ∀ filename, Set.InjOn XXH64 (contents filename))
    (hdef : (openFiles layout XXH64 s files).undefined = false) :
    ∃ st', Opened XXH64 contents s st files (openFiles layout XXH64 s files) st' := by
  induction files generalizing s st with
  | nil => exact ⟨st, hm, by simp, fun _ _ => rfl, by simp [Clangd.openFiles]⟩
  | cons f files ih =>
    rw [List.forall_mem_cons] at htext
    rw [List.map_cons, List.nodup_cons] at hkeys
    obtain ⟨st1, hv⟩ := hm.visit layout htext.1 (hhash _) (undefined_openFiles_mono hdef)
    obtain ⟨st2, ho⟩ := ih hv.mirror hkeys.2 htext.2 hdef
    refine ⟨st2, ho.mirror, ?_, ?_, ?_⟩
    · rw [List.forall_mem_cons]
      refine ⟨?_, ho.text⟩
      rw [ho.others _ ?_, hv.text]
      intro hmem
      obtain ⟨g, hg, heq⟩ := List.mem_map.mp hmem
      exact hkeys.1 (List.mem_map.mpr ⟨g, hg, URI_injective heq⟩)
    · intro uri huri
      rw [List.map_cons, List.mem_cons, not_or] at huri
      rw [ho.others uri huri.2, hv.others uri huri.1]
    · intro name
      have h1 := ho.names name
      have h2 := hv.names name
      rw [List.map_cons, List.mem_cons, or_assoc, or_left_comm, ← h2]
      exact h1

/-- A file without filetypes is only safe when it is opened already. -/
theorem undefined_openFiles {s : Sync} (hk : Keyed s) {files : List (FilePath × FileData)}
    (hkeys : (files.map Prod.fst).Nodup) :
    (openFiles layout XXH64 s files).undefined = false ↔
      s.undefined = false ∧ ∀ f ∈ files, f.1 ∉ s.names → f.2.filetypes ≠ [] := by
  induction files generalizing s with
  | nil => simp [Clangd.openFiles]
  | cons f files ih =>
    rw [List.map_cons, List.nodup_cons] at hkeys
    have hk' : Keyed ((visitFile layout XXH64 s f.1 f.2).getD s) := hk.getD_visit f
    have hothers : ∀ g ∈ files, g.1 ∉ ((visitFile layout XXH64 s f.1 f.2).getD s).names ↔ g.1 ∉ s.names := by
      intro g hg
      cases h : visitFile layout XXH64 s f.1 f.2 with
      | none => rfl
      | some s' =>
        exact not_congr (names_visit hk h (fun heq => hkeys.1 (List.mem_map.mpr ⟨g, hg, heq⟩)))
    have hrest : (∀ g ∈ files, g.1 ∉ ((visitFile layout XXH64 s f.1 f.2).getD s).names → g.2.filetypes ≠ []) ↔
        ∀ g ∈ files, g.1 ∉ s.names → g.2.filetypes ≠ [] :=
      forall₂_congr fun g hg => imp_congr_left (hothers g hg)
    rw [List.forall_mem_cons, ← and_assoc, ← undefined_visit layout XXH64, ← hrest]
    exact ih hk' hkeys.2

/-- What the second loop sends, whatever order it runs in. -/
theorem notifications_closeFiles (fileData : FileDataMap) (s : Sync) (files : List OpenedFile) :
    (closeFiles fileData s files).notifications = s.notifications ++
      ((files.map OpenedFile.filename).filter (fun name => !fileData.contains name)).map .didClose := by
  induction files generalizing s with
  | nil => simp [closeFiles]
  | cons file files ih =>
    apply (ih _).trans
    cases hc : fileData.contains file.filename with
    | true => simp [hc]
    | false =>
      have hsent : (eraseFile (sendClose s file) file.node).notifications =
          s.notifications ++ [.didClose file.filename] := by
        rw [eraseFile]
        split <;> simp [sendClose, Sync.notifications]
      simp [hc, hsent]

theorem closeFiles_of_contains {fileData : FileDataMap} {s : Sync} {files : List OpenedFile}
    (h : ∀ file ∈ files, fileData.contains file.filename = true) : closeFiles fileData s files = s := by
  induction files with
  | nil => rfl
  | cons file files ih =>
    rw [List.forall_mem_cons] at h
    rw [closeFiles, List.foldl_cons, if_pos h.1]
    exact ih h.2

theorem undefined_eraseFile_mono {s : Sync} {node : Nat} (h : (eraseFile s node).undefined = false) :
    s.undefined = false := by
  unfold eraseFile at h
  split at h
  · exact h
  · cases h

theorem undefined_closeFiles_mono {fileData : FileDataMap} {s : Sync} {files : List OpenedFile}
    (h : (closeFiles fileData s files).undefined = false) : s.undefined = false := by
  induction files generalizing s with
  | nil => exact h
  | cons file files ih =>
    have hstep : (if fileData.contains file.filename then s else eraseFile (sendClose s file) file.node).undefined
        = false := ih h
    split at hstep
    · exact hstep
    · exact undefined_eraseFile_mono (s := sendClose s file) hstep

theorem FileDataMap.keys_nodup (fileData : FileDataMap) : (fileData.files.map Prod.fst).Nodup := by
  apply List.Nodup.of_map FilePath.elements
  rw [List.map_map]
  exact fileData.nodup

theorem FileDataMap.contains_of_mem {fileData : FileDataMap} {path : FilePath}
    (h : path ∈ fileData.files.map Prod.fst) : fileData.contains path = true := by
  obtain ⟨f, hf, rfl⟩ := List.mem_map.mp h
  exact List.any_eq_true.mpr ⟨f, hf, by simp⟩

/-- No list of names holds the URI of each of its own: the longest is longer than the rest. -/
theorem eq_nil_of_URI_mem {names : List String} (h : ∀ name ∈ names, URI name ∈ names) : names = [] := by
  by_contra hne
  obtain ⟨name, hname, hmax⟩ := Set.exists_max_image {name | name ∈ names} String.length
    (List.finite_toSet names) (List.exists_mem_of_ne_nil names hne)
  have hlt := hmax (URI name) (h name hname)
  rw [URI, String.length_append] at hlt
  exact absurd hlt (Nat.not_le_of_lt (Nat.lt_add_of_pos_left (by decide)))

/-- The completer between two requests, with the files of the last one. -/
structure Session where
  sync : Sync := {}
  current : List (FilePath × FileData) := []
  deriving DecidableEq, Repr

/-- Nothing can be said of a completer once it has done something undefined. -/
def sessionStep (layout : Layout) (XXH64 : String → UInt64) (s : Session) (fileData : FileDataMap) : Option Session :=
  if s.sync.undefined then none
  else some { sync := syncFiles layout XXH64 s.sync fileData, current := fileData.files }

def session (layout : Layout) (XXH64 : String → UInt64) : Machine Session FileDataMap :=
  ⟨sessionStep layout XXH64⟩

/-- The text the editor has for a URI. -/
def editorText (files : List (FilePath × FileData)) (uri : String) : Option String :=
  (files.find? (fun f => URI f.1 = uri)).map (fun f => f.2.contents)

/-- Every notification so far was legal, and the server now holds the editor's files. -/
def Faithful (s : Session) : Prop :=
  s.sync.undefined = false ∧ ∃ st, Store.empty.replay s.sync.notifications = some st ∧
    ∀ uri, (st uri).map Document.text = editorText s.current uri

/-- The request still has every file of the one before, and a filetype for each of its new ones. -/
def Retains (s : Session) (fileData : FileDataMap) : Prop :=
  (∀ f ∈ s.current, f.1 ∈ fileData.files.map Prod.fst) ∧
    ∀ f ∈ fileData.files, f.1 ∉ s.current.map Prod.fst → f.2.filetypes ≠ []

/-- The contents a file takes in the run. -/
def contentsOf (requests : List FileDataMap) (filename : String) : Set String :=
  {text | ∃ fileData ∈ requests, ∃ f ∈ fileData.files, f.1 = filename ∧ f.2.contents = text}

structure Settled (XXH64 : String → UInt64) (contents : String → Set String) (s : Session) (st : Store) : Prop where
  mirror : Mirror XXH64 contents s.sync st
  defined : s.sync.undefined = false
  text : ∀ f ∈ s.current, (st (URI f.1)).map Document.text = some f.2.contents
  names : ∀ name, name ∈ s.sync.names ↔ name ∈ s.current.map Prod.fst

theorem Settled.faithful {s : Session} {st : Store} (hs : Settled XXH64 contents s st) : Faithful s := by
  refine ⟨hs.defined, st, hs.mirror.replayed, fun uri => ?_⟩
  rw [editorText]
  cases hf : s.current.find? (fun f => URI f.1 = uri) with
  | some f =>
    have huri : URI f.1 = uri := by simpa using List.find?_some hf
    rw [← huri, hs.text f (List.mem_of_find?_eq_some hf), Option.map_some]
  | none =>
    cases hst : st uri with
    | none => rfl
    | some document =>
      obtain ⟨file, hfile, huri⟩ := hs.mirror.only uri (by simp [hst])
      obtain ⟨f, hf', hname⟩ := List.mem_map.mp ((hs.names _).mp (mem_names.mpr ⟨file, hfile, rfl⟩))
      have := List.find?_eq_none.mp hf f hf'
      simp [hname, huri] at this

theorem Settled.retains_step {s : Session} {st : Store} (hs : Settled XXH64 contents s st) {fileData : FileDataMap}
    (htext : ∀ f ∈ fileData.files, f.2.contents ∈ contents f.1) (hhash : ∀ name, Set.InjOn XXH64 (contents name))
    (hr : Retains s fileData) :
    ∃ st', Settled XXH64 contents ⟨syncFiles layout XXH64 s.sync fileData, fileData.files⟩ st' := by
  have hdef : (openFiles layout XXH64 s.sync fileData.files).undefined = false :=
    (undefined_openFiles hs.mirror.toKeyed fileData.keys_nodup).mpr
      ⟨hs.defined, fun f hf hnot => hr.2 f hf ((hs.names f.1).not.mp hnot)⟩
  obtain ⟨st', ho⟩ := hs.mirror.openFiles layout fileData.keys_nodup htext hhash hdef
  have hnames : ∀ name, name ∈ (openFiles layout XXH64 s.sync fileData.files).names ↔
      name ∈ fileData.files.map Prod.fst := by
    intro name
    rw [ho.names name, hs.names name]
    constructor
    · rintro (h | h)
      · exact h
      · obtain ⟨f, hf, rfl⟩ := List.mem_map.mp h
        exact hr.1 f hf
    · exact .inl
  have hsync : syncFiles layout XXH64 s.sync fileData = openFiles layout XXH64 s.sync fileData.files :=
    closeFiles_of_contains fun file hfile =>
      FileDataMap.contains_of_mem ((hnames _).mp (mem_names.mpr ⟨file, hfile, rfl⟩))
  rw [hsync]
  exact ⟨st', ho.mirror, hdef, ho.text, hnames⟩

/-- A request that drops a file sends a close that does not name the document it is to close. -/
theorem Settled.not_faithful_step {s : Session} {st : Store} (hs : Settled XXH64 contents s st)
    {fileData : FileDataMap} (htext : ∀ f ∈ fileData.files, f.2.contents ∈ contents f.1)
    (hhash : ∀ name, Set.InjOn XXH64 (contents name)) (hr : ¬ Retains s fileData) :
    ¬ Faithful ⟨syncFiles layout XXH64 s.sync fileData, fileData.files⟩ := by
  rintro ⟨hdef, st', hreplay, heditor⟩
  have hdef1 : (openFiles layout XXH64 s.sync fileData.files).undefined = false := undefined_closeFiles_mono hdef
  obtain ⟨st1, ho⟩ := hs.mirror.openFiles layout fileData.keys_nodup htext hhash hdef1
  have hfiletypes := ((undefined_openFiles hs.mirror.toKeyed fileData.keys_nodup).mp hdef1).2
  obtain ⟨f, hf, hdropped⟩ : ∃ f ∈ s.current, f.1 ∉ fileData.files.map Prod.fst := by
    by_contra hall
    simp only [not_exists, not_and, not_not] at hall
    exact hr ⟨hall, fun g hg hnot => hfiletypes g hg ((hs.names g.1).not.mpr hnot)⟩
  -- what the second loop closes, and what the server is left with
  let closed := ((openFiles layout XXH64 s.sync fileData.files).names).filter (fun name => !fileData.contains name)
  have hclose : ∀ uri, st' uri = if uri ∈ closed then none else st1 uri := by
    apply Store.replay_didClose
    have hsent : (syncFiles layout XXH64 s.sync fileData).notifications =
        (openFiles layout XXH64 s.sync fileData.files).notifications ++ closed.map .didClose :=
      notifications_closeFiles fileData _ _
    rw [hsent, Store.replay_append, ho.mirror.replayed, Option.bind_some] at hreplay
    exact hreplay
  have hgone : ∀ name, name ∈ (openFiles layout XXH64 s.sync fileData.files).names →
      name ∉ fileData.files.map Prod.fst → URI name ∈ closed := by
    intro name hname hnot
    by_contra hkept
    have hst := hclose (URI name)
    rw [if_neg hkept] at hst
    obtain ⟨file, hfile, rfl⟩ := mem_names.mp hname
    obtain ⟨text, -, hopen, -⟩ := ho.mirror.opened file hfile
    have heq := heditor (URI file.filename)
    rw [hst, hopen, Option.map_some, editorText] at heq
    obtain ⟨g, hg, -⟩ := Option.map_eq_some_iff.mp heq.symm
    have huri : URI g.1 = URI file.filename := by simpa using List.find?_some hg
    exact hnot (List.mem_map.mpr ⟨g, List.mem_of_find?_eq_some hg, URI_injective huri⟩)
  have hempty : closed = [] := by
    apply eq_nil_of_URI_mem
    intro name hname
    obtain ⟨hname, hnot⟩ := List.mem_filter.mp hname
    apply hgone name hname
    intro hmem
    simp [FileDataMap.contains_of_mem hmem] at hnot
  have hf' : f.1 ∈ (openFiles layout XXH64 s.sync fileData.files).names :=
    (ho.names f.1).mpr (.inr ((hs.names f.1).mpr (List.mem_map_of_mem hf)))
  have := hgone f.1 hf' hdropped
  simp [hempty] at this

/-- Requests handled one after another keep the server's documents equal to the editor's files
exactly when no request drops a file. -/
theorem sync_files_faithful_iff (layout : Layout) (XXH64 : String → UInt64) (requests : List FileDataMap)
    (hhash : ∀ filename, Set.InjOn XXH64 (contentsOf requests filename)) :
    (∀ s ∈ (session layout XXH64).states {} requests, Faithful s) ↔
      ∀ p ∈ (session layout XXH64).steps {} requests, Retains p.1 p.2 := by
  have hempty : Settled XXH64 (contentsOf requests) {} Store.empty :=
    ⟨⟨⟨by simp, by simp, by simp [Sync.names]⟩, rfl, by simp, by simp [Store.empty]⟩, rfl, by simp,
      by simp [Sync.names]⟩
  refine (session layout XXH64).states_iff_guarded
    (fun s => ∃ st, Settled XXH64 (contentsOf requests) s st) (fun fileData => fileData ∈ requests)
    (fun _ h => h.elim (fun _ hs => hs.faithful)) ?_ ?_ ⟨_, hempty⟩ (fun _ h => h)
  · rintro s fileData s' hmem ⟨st, hs⟩ hr h
    have h : sessionStep layout XXH64 s fileData = some s' := h
    rw [sessionStep, hs.defined] at h
    rw [← Option.some.inj h]
    exact hs.retains_step (fun f hf => ⟨fileData, hmem, f, hf, rfl, rfl⟩) hhash hr
  · rintro s fileData s' hmem ⟨st, hs⟩ hr h
    have h : sessionStep layout XXH64 s fileData = some s' := h
    rw [sessionStep, hs.defined] at h
    rw [← Option.some.inj h]
    exact hs.not_faithful_step (fun f hf => ⟨fileData, hmem, f, hf, rfl, rfl⟩) hhash hr

theorem sync_files_faithful_iff_edit :
    (∀ s ∈ (session atFront sampleHash).states {} [oneFile "int x;", oneFile "int y;"], Faithful s) ↔
      ∀ p ∈ (session atFront sampleHash).steps {} [oneFile "int x;", oneFile "int y;"], Retains p.1 p.2 := by
  apply sync_files_faithful_iff atFront sampleHash _
  intro filename a ha b hb hab
  have htexts : ∀ text ∈ contentsOf [oneFile "int x;", oneFile "int y;"] filename,
      text = "int x;" ∨ text = "int y;" := by
    rintro text ⟨fileData, hmem, f, hf, -, rfl⟩
    rcases List.mem_pair.mp hmem with rfl | rfl
    · exact .inl (by rw [List.mem_singleton.mp hf])
    · exact .inr (by rw [List.mem_singleton.mp hf])
  rcases htexts a ha with rfl | rfl <;> rcases htexts b hb with rfl | rfl
  · rfl
  · exact absurd hab (by decide)
  · exact absurd hab (by decide)
  · rfl

/-- A file opened and dropped again: the close names no open document, and the server keeps the file. -/
theorem dropped_file_stays_open : ∃ s, (session atFront sampleHash).run {} [oneFile "int x;", noFiles] = some s ∧
    s.sync.notifications = [.didOpen "file:///a.cpp" "cpp" 1 "int x;", .didClose "/a.cpp"] ∧
    Store.empty.replay s.sync.notifications = none ∧ ¬ Faithful s := by
  have hillegal : Store.empty.replay [.didOpen "file:///a.cpp" "cpp" 1 "int x;", .didClose "/a.cpp"] = none := by
    decide
  refine ⟨_, rfl, rfl, hillegal, ?_⟩
  rintro ⟨-, st, hst, -⟩
  exact absurd (hst.symm.trans hillegal) (by simp)

end Ycmd.Clangd
