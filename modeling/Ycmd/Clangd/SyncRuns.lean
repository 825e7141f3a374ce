import Ycmd.Lib.Machine
import Ycmd.Clangd.Sync

/-! Runs of `sync_files` that requests handled at the same time start. A run leaves off only where
it awaits a notification, and any other may go on there. -/
namespace Ycmd.Clangd
open Lib Lsp

/-- Where a run stands: in an iteration of a loop, or awaiting what that iteration sent. -/
inductive Pc where
  | files (rest : List (FilePath × FileData))
  | sending (rest : List (FilePath × FileData))
  | entries (iter : Option Nat)
  | closing (node : Nat)
  | done
  deriving DecidableEq, Repr

structure Run where
  fileData : FileDataMap
  pc : Pc

/-- `active` is the run that executes, if one does. -/
structure Syncs where
  sync : Sync := {}
  runs : List Run := []
  active : Option Nat := none

inductive SyncStep where
  | start (fileData : FileDataMap)
  | resume (i : Nat)
  | iterate

def begin (files : List OpenedFile) : Option Nat := files.head?.map OpenedFile.node

/-- The iterator after the one to this node. -/
def next (files : List OpenedFile) (node : Nat) : Option Nat :=
  begin (files.dropWhile (fun file => file.node ≠ node)).tail

variable (layout : Layout) (XXH64 : String → UInt64)

/-- One iteration of the loop the run is in. -/
def iterateRun (s : Syncs) (i : Nat) (run : Run) : Option Syncs :=
  match run.pc with
  | .files ((filename, filedata) :: rest) => match visitFile layout XXH64 s.sync filename filedata with
    | some sync => some { sync, runs := s.runs.set i { run with pc := .sending rest }, active := none }
    | none => some { s with runs := s.runs.set i { run with pc := .files rest } }
  | .files [] => some { s with runs := s.runs.set i { run with pc := .entries (begin s.sync.openedFiles) } }
  | .entries (some node) => match s.sync.openedFiles.find? (fun file => file.node = node) with
    | some file =>
      if !run.fileData.contains file.filename then
        some { sync := sendClose s.sync file, runs := s.runs.set i { run with pc := .closing node }, active := none }
      else some { s with runs := s.runs.set i { run with pc := .entries (next s.sync.openedFiles node) } }
    | none => some { s with sync := { s.sync with undefined := true } }
  | .entries none => some { s with runs := s.runs.set i { run with pc := .done }, active := none }
  | _ => none

/-- What a run does first when its notification has been written. -/
def resumeRun (s : Syncs) (i : Nat) (run : Run) : Option Syncs :=
  match run.pc with
  | .sending rest => some { s with runs := s.runs.set i { run with pc := .files rest }, active := some i }
  | .closing node => some {
      sync := eraseFile s.sync node
      runs := s.runs.set i { run with pc := .entries (next s.sync.openedFiles node) }
      active := some i }
  | _ => none

def syncStep (s : Syncs) (a : SyncStep) : Option Syncs :=
  if s.sync.undefined then none
  else match a, s.active with
  | .start fileData, none =>
    some { s with runs := s.runs ++ [⟨fileData, .files fileData.files⟩], active := some s.runs.length }
  | .resume i, none => s.runs[i]?.bind (resumeRun s i)
  | .iterate, some i => s.runs[i]?.bind (iterateRun layout XXH64 s i)
  | _, _ => none

def syncs : Machine Syncs SyncStep := ⟨syncStep layout XXH64⟩

def Run.closing? (run : Run) : Option Nat :=
  match run.pc with
  | .closing node => some node
  | _ => none

/-- The entries whose `didClose` some run awaits. -/
def Syncs.closing (s : Syncs) : List Nat := s.runs.filterMap Run.closing?

def Announcement.opens (a : Announcement) : Bool :=
  match a.notification with
  | .didOpen .. => true
  | _ => false

def Announcement.changes (a : Announcement) : Bool :=
  match a.notification with
  | .didChange .. => true
  | _ => false

def Announcement.closes (a : Announcement) : Bool :=
  match a.notification with
  | .didClose .. => true
  | _ => false

/-- Whether the last thing sent about a file's being open is that it is. -/
def openAfter (sent : List Announcement) (filename : String) : Bool :=
  sent.foldl (fun isOpen a => if a.filename = filename then a.opens || (isOpen && !a.closes) else isOpen) false

/-- What the runs together may be seen to do: every entry announced once, closed at most once and
erased at most once, no change sent for a file that is closed, and no erased entry used. -/
structure Orderly (s : Sync) : Prop where
  announced : (s.sent.filter Announcement.opens).map Announcement.node = List.range s.emplaced
  closedOnce : ((s.sent.filter Announcement.closes).map Announcement.node).Nodup
  closedAnnounced : ∀ a ∈ s.sent, a.closes = true → a.node < s.emplaced
  erasedOnce : s.erased.Nodup
  changed : ∀ (i : Nat) (a : Announcement), s.sent[i]? = some a → a.changes = true →
    openAfter (s.sent.take i) a.filename = true
  defined : s.undefined = false

/-- A loop comes to a file that another run is closing only when its own request has the file, and in
the first loop with the contents last sent; and a file to be opened has a filetype. -/
def Undisturbed (s : Syncs) : SyncStep → Prop
  | .iterate => ∀ i run, s.active = some i → s.runs[i]? = some run →
    match run.pc with
    | .files ((filename, filedata) :: _) =>
      (filename ∉ s.sync.names → filedata.filetypes ≠ []) ∧
      ∀ file ∈ s.sync.openedFiles, file.filename = filename → file.node ∈ s.closing →
        file.hash = XXH64 filedata.contents
    | .entries (some node) => ∀ file ∈ s.sync.openedFiles, file.node = node → node ∈ s.closing →
      run.fileData.contains file.filename = true
    | _ => True
  | _ => True

variable {layout XXH64}

/-- The invariant: an entry is open to the server unless a run awaits its close, which is in the
map until that run erases it. -/
structure Tracked (s : Syncs) : Prop where
  keyed : Keyed s.sync
  defined : s.sync.undefined = false
  announced : (s.sync.sent.filter Announcement.opens).map Announcement.node = List.range s.sync.emplaced
  closed : ((s.sync.sent.filter Announcement.closes).map Announcement.node).Perm (s.sync.erased ++ s.closing)
  once : (s.sync.erased ++ s.closing).Nodup
  erased : ∀ node ∈ s.sync.erased, node < s.sync.emplaced ∧ node ∉ s.sync.openedFiles.map OpenedFile.node
  present : ∀ node ∈ s.closing, node ∈ s.sync.openedFiles.map OpenedFile.node
  opened : ∀ file ∈ s.sync.openedFiles, openAfter s.sync.sent file.filename = decide (file.node ∉ s.closing)
  unopened : ∀ name, name ∉ s.sync.names → openAfter s.sync.sent name = false
  changed : ∀ (i : Nat) (a : Announcement), s.sync.sent[i]? = some a → a.changes = true →
    openAfter (s.sync.sent.take i) a.filename = true
  iter : ∀ i run node, s.active = some i → s.runs[i]? = some run → run.pc = .entries (some node) →
    node ∈ s.sync.openedFiles.map OpenedFile.node

private theorem filterMap_cons_toList {α β : Type} (f : α → Option β) (a : α) (l : List α) :
    (a :: l).filterMap f = (f a).toList ++ l.filterMap f := by
  cases h : f a <;> simp [h]

theorem closing_set {runs : List Run} {i : Nat} {run : Run} (h : runs[i]? = some run) (run' : Run) :
    (run.closing?.toList ++ (runs.set i run').filterMap Run.closing?).Perm
      (run'.closing?.toList ++ runs.filterMap Run.closing?) := by
  induction runs generalizing i with
  | nil => simp at h
  | cons r runs ih =>
    cases i with
    | zero =>
      obtain rfl : r = run := by simpa using h
      rw [List.set_cons_zero, filterMap_cons_toList, filterMap_cons_toList]
      exact List.perm_append_comm_assoc _ _ _
    | succ i =>
      rw [List.set_cons_succ, filterMap_cons_toList, filterMap_cons_toList]
      have hrest := (ih (by simpa using h)).append_left r.closing?.toList
      exact (List.perm_append_comm_assoc _ _ _).trans (hrest.trans (List.perm_append_comm_assoc _ _ _))

theorem openAfter_append (sent : List Announcement) (a : Announcement) (filename : String) :
    openAfter (sent ++ [a]) filename = if a.filename = filename
      then a.opens || (openAfter sent filename && !a.closes) else openAfter sent filename := by
  simp [openAfter]

theorem changed_append {sent : List Announcement} {a : Announcement}
    (h : ∀ (i : Nat) (b : Announcement), sent[i]? = some b → b.changes = true →
      openAfter (sent.take i) b.filename = true)
    (ha : a.changes = true → openAfter sent a.filename = true) :
    ∀ (i : Nat) (b : Announcement), (sent ++ [a])[i]? = some b → b.changes = true →
      openAfter ((sent ++ [a]).take i) b.filename = true := by
  intro i b hb hc
  rcases Nat.lt_or_ge i sent.length with hlt | hge
  · rw [List.getElem?_append_left hlt] at hb
    rw [List.take_append_of_le_length (Nat.le_of_lt hlt)]
    exact h i b hb hc
  · rw [List.getElem?_append_right hge, List.getElem?_singleton] at hb
    split at hb
    · next h0 =>
      obtain rfl : a = b := Option.some.inj hb
      obtain rfl : i = sent.length := by omega
      rw [List.take_left]
      exact ha hc
    · cases hb

theorem mem_eraseFile {files : List OpenedFile} (hnodes : (files.map OpenedFile.node).Nodup) {node : Nat}
    {file : OpenedFile} :
    file ∈ files.eraseP (fun f => f.node = node) ↔ file ∈ files ∧ file.node ≠ node := by
  induction files with
  | nil => simp
  | cons f files ih =>
    rw [List.map_cons, List.nodup_cons] at hnodes
    by_cases h : f.node = node
    · rw [List.eraseP_cons_of_pos (by simpa using h), List.mem_cons]
      constructor
      · intro hmem
        refine ⟨.inr hmem, fun hnode => hnodes.1 ?_⟩
        exact List.mem_map.mpr ⟨file, hmem, hnode.trans h.symm⟩
      · rintro ⟨rfl | hmem, hne⟩
        · exact absurd h hne
        · exact hmem
    · rw [List.eraseP_cons_of_neg (by simpa using h), List.mem_cons, List.mem_cons, ih hnodes.2]
      constructor
      · rintro (rfl | ⟨hmem, hne⟩)
        · exact ⟨.inl rfl, h⟩
        · exact ⟨.inr hmem, hne⟩
      · rintro ⟨rfl | hmem, hne⟩
        · exact .inl rfl
        · exact .inr ⟨hmem, hne⟩

theorem mem_next {files : List OpenedFile} (hnodes : (files.map OpenedFile.node).Nodup) {node n : Nat}
    (h : next files node = some n) : n ∈ files.map OpenedFile.node ∧ n ≠ node := by
  induction files with
  | nil => simp [next, begin] at h
  | cons f files ih =>
    rw [List.map_cons, List.nodup_cons] at hnodes
    by_cases hf : f.node = node
    · rw [next, List.dropWhile_cons_of_neg (by simpa using hf), List.tail_cons, begin, Option.map_eq_some_iff] at h
      obtain ⟨g, hg, rfl⟩ := h
      have hmem : g.node ∈ files.map OpenedFile.node := List.mem_map_of_mem (List.mem_of_head? hg)
      refine ⟨List.mem_cons_of_mem _ hmem, fun heq => hnodes.1 ?_⟩
      rwa [hf, ← heq]
    · rw [next, List.dropWhile_cons_of_pos (by simpa using hf)] at h
      obtain ⟨hmem, hne⟩ := ih hnodes.2 h
      exact ⟨List.mem_cons_of_mem _ hmem, hne⟩

theorem Tracked.orderly {s : Syncs} (ht : Tracked s) : Orderly s.sync where
  announced := ht.announced
  closedOnce := ht.closed.nodup_iff.mpr ht.once
  closedAnnounced := by
    intro a ha hc
    have hmem : a.node ∈ s.sync.erased ++ s.closing :=
      ht.closed.mem_iff.mp (List.mem_map_of_mem (List.mem_filter.mpr ⟨ha, hc⟩))
    rcases List.mem_append.mp hmem with h | h
    · exact (ht.erased _ h).1
    · obtain ⟨file, hfile, hnode⟩ := List.mem_map.mp (ht.present _ h)
      exact hnode ▸ ht.keyed.node_lt file hfile
  erasedOnce := (List.nodup_append.mp ht.once).1
  changed := ht.changed
  defined := ht.defined

/-- A run that only moves on changes nothing it shares with the others. -/
theorem Tracked.move {s s' : Syncs} (ht : Tracked s) (hsync : s'.sync = s.sync) (hc : s'.closing.Perm s.closing)
    (hiter : ∀ i run node, s'.active = some i → s'.runs[i]? = some run → run.pc = .entries (some node) →
      node ∈ s.sync.openedFiles.map OpenedFile.node) : Tracked s' where
  keyed := hsync ▸ ht.keyed
  defined := hsync ▸ ht.defined
  announced := hsync ▸ ht.announced
  closed := hsync ▸ ht.closed.trans (hc.symm.append_left _)
  once := hsync ▸ (hc.append_left _).nodup_iff.mpr ht.once
  erased := hsync ▸ ht.erased
  present := by
    intro node hnode
    rw [hsync]
    exact ht.present node (hc.mem_iff.mp hnode)
  opened := by
    intro file hfile
    rw [hsync] at hfile ⊢
    rw [ht.opened file hfile]
    simp only [hc.mem_iff]
  unopened := hsync ▸ ht.unopened
  changed := hsync ▸ ht.changed
  iter := by
    intro i run node hi hr hp
    rw [hsync]
    exact hiter i run node hi hr hp

theorem Tracked.emplace {s s' : Syncs} (ht : Tracked s) {filename : FilePath} (hnot : filename ∉ s.sync.names)
    {languageId contents : String} (hsync : s'.sync = emplaceFile layout XXH64 s.sync filename languageId contents)
    (hc : s'.closing.Perm s.closing) (hactive : s'.active = none) : Tracked s' where
  keyed := hsync ▸ ht.keyed.emplaceFile hnot languageId contents
  defined := by rw [hsync]; exact ht.defined
  announced := by
    rw [hsync, emplaceFile, List.filter_append, List.map_append, ht.announced, List.range_succ]
    rfl
  closed := by
    rw [hsync, emplaceFile, List.filter_append, List.map_append]
    change (_ ++ []).Perm _
    rw [List.append_nil]
    exact ht.closed.trans (hc.symm.append_left _)
  once := by rw [hsync]; exact (hc.append_left _).nodup_iff.mpr ht.once
  erased := by
    intro node hnode
    rw [hsync] at hnode ⊢
    obtain ⟨hlt, hgone⟩ := ht.erased node hnode
    refine ⟨Nat.lt_succ_of_lt hlt, fun hmem => ?_⟩
    obtain ⟨file, hfile, rfl⟩ := List.mem_map.mp hmem
    rcases mem_emplaceFile.mp hfile with rfl | hfile
    · exact absurd hlt (Nat.lt_irrefl _)
    · exact hgone (List.mem_map_of_mem hfile)
  present := by
    intro node hnode
    obtain ⟨file, hfile, rfl⟩ := List.mem_map.mp (ht.present node (hc.mem_iff.mp hnode))
    rw [hsync]
    exact List.mem_map_of_mem (mem_emplaceFile.mpr (.inr hfile))
  opened := by
    intro file hfile
    rw [hsync] at hfile ⊢
    simp only [emplaceFile, openAfter_append, hc.mem_iff]
    rcases mem_emplaceFile.mp hfile with rfl | hfile
    · have hnew : s.sync.emplaced ∉ s.closing := by
        intro hmem
        obtain ⟨file, hfile, hnode⟩ := List.mem_map.mp (ht.present _ hmem)
        exact absurd (ht.keyed.node_lt file hfile) (by simp [hnode])
      simp [Announcement.opens, hnew]
    · have hne : filename ≠ file.filename := fun h => hnot (mem_names.mpr ⟨file, hfile, h.symm⟩)
      rw [if_neg hne]
      exact ht.opened file hfile
  unopened := by
    intro name hname
    rw [hsync] at hname ⊢
    rw [names_emplaceFile, not_or] at hname
    simp only [emplaceFile, openAfter_append, if_neg (Ne.symm hname.1)]
    exact ht.unopened name hname.2
  changed := by
    rw [hsync]
    exact changed_append ht.changed (by simp [Announcement.changes])
  iter := by simp [hactive]

theorem Tracked.update {s s' : Syncs} (ht : Tracked s) {pos : OpenedFile} (hpos : pos ∈ s.sync.openedFiles)
    (hopen : pos.node ∉ s.closing) {contents : String}
    (hsync : s'.sync = updateFile XXH64 s.sync pos pos.filename contents)
    (hc : s'.closing.Perm s.closing) (hactive : s'.active = none) : Tracked s' := by
  have hnodes : s'.sync.openedFiles.map OpenedFile.node = s.sync.openedFiles.map OpenedFile.node := by
    rw [hsync]
    exact updateFile_map OpenedFile.node s.sync pos pos.filename contents (fun _ _ => rfl) ht.keyed hpos
  have hafter : ∀ name, openAfter s'.sync.sent name = openAfter s.sync.sent name := by
    intro name
    rw [hsync]
    simp [updateFile, openAfter_append, Announcement.opens, Announcement.closes]
  exact {
    keyed := hsync ▸ ht.keyed.updateFile hpos pos.filename contents
    defined := by rw [hsync]; exact ht.defined
    announced := by
      rw [hsync, updateFile, List.filter_append, List.map_append]
      exact (List.append_nil _).trans ht.announced
    closed := by
      rw [hsync, updateFile, List.filter_append, List.map_append]
      change (_ ++ []).Perm _
      rw [List.append_nil]
      exact ht.closed.trans (hc.symm.append_left _)
    once := by rw [hsync]; exact (hc.append_left _).nodup_iff.mpr ht.once
    erased := by
      intro node hnode
      rw [hnodes]
      rw [hsync] at hnode ⊢
      exact ht.erased node hnode
    present := fun node hnode => hnodes ▸ ht.present node (hc.mem_iff.mp hnode)
    opened := by
      intro file hfile
      rw [hafter]
      simp only [hc.mem_iff]
      rw [hsync] at hfile
      obtain ⟨file', hfile', rfl⟩ := List.mem_map.mp hfile
      by_cases h : file'.node = pos.node
      · rw [if_pos h]
        exact ht.opened pos hpos
      · rw [if_neg h]
        exact ht.opened file' hfile'
    unopened := by
      intro name hname
      rw [hsync, names_updateFile ht.keyed hpos] at hname
      rw [hafter]
      exact ht.unopened name hname
    changed := by
      rw [hsync]
      refine changed_append ht.changed fun _ => ?_
      rw [ht.opened pos hpos]
      simpa using hopen
    iter := by simp [hactive] }

theorem Tracked.sendClose {s s' : Syncs} (ht : Tracked s) {file : OpenedFile} (hfile : file ∈ s.sync.openedFiles)
    (hopen : file.node ∉ s.closing) (hsync : s'.sync = sendClose s.sync file)
    (hc : s'.closing.Perm (file.node :: s.closing)) (hactive : s'.active = none) : Tracked s' where
  keyed := hsync ▸ ⟨ht.keyed.nodes, ht.keyed.node_lt, ht.keyed.names⟩
  defined := by rw [hsync]; exact ht.defined
  announced := by
    rw [hsync, Clangd.sendClose, List.filter_append, List.map_append]
    exact (List.append_nil _).trans ht.announced
  closed := by
    rw [hsync, Clangd.sendClose, List.filter_append, List.map_append]
    refine ((ht.closed.append_right _).trans ?_).trans (hc.symm.append_left _)
    rw [List.append_assoc]
    exact (@List.perm_append_comm _ _ [file.node]).append_left _
  once := by
    rw [hsync]
    refine (hc.append_left _).nodup_iff.mpr (List.nodup_middle.mpr (List.nodup_cons.mpr ⟨?_, ht.once⟩))
    intro hmem
    rcases List.mem_append.mp hmem with h | h
    · exact (ht.erased _ h).2 (List.mem_map_of_mem hfile)
    · exact hopen h
  erased := by rw [hsync]; exact ht.erased
  present := by
    intro node hnode
    rw [hsync]
    rcases List.mem_cons.mp (hc.mem_iff.mp hnode) with rfl | hnode
    · exact List.mem_map_of_mem hfile
    · exact ht.present node hnode
  opened := by
    intro file' hfile'
    rw [hsync] at hfile' ⊢
    simp only [Clangd.sendClose, openAfter_append, hc.mem_iff, List.mem_cons]
    by_cases h : file'.node = file.node
    · obtain rfl : file' = file := List.inj_on_of_nodup_map ht.keyed.nodes hfile' hfile h
      simp [Announcement.opens, Announcement.closes]
    · have hne : file.filename ≠ file'.filename :=
        fun hname => h (by rw [List.inj_on_of_nodup_map ht.keyed.names hfile hfile' hname])
      simp [hne, h, ht.opened file' hfile']
  unopened := by
    intro name hname
    rw [hsync] at hname ⊢
    have hne : file.filename ≠ name := fun h => hname (mem_names.mpr ⟨file, hfile, h⟩)
    simp only [Clangd.sendClose, openAfter_append, if_neg hne]
    exact ht.unopened name hname
  changed := by
    rw [hsync]
    exact changed_append ht.changed (by simp [Announcement.changes])
  iter := by simp [hactive]

theorem Tracked.erase {s s' : Syncs} (ht : Tracked s) {node : Nat}
    (hc : s.closing.Perm (node :: s'.closing)) (hsync : s'.sync = eraseFile s.sync node)
    (hiter : ∀ i run n, s'.active = some i → s'.runs[i]? = some run → run.pc = .entries (some n) →
      next s.sync.openedFiles node = some n) : Tracked s' := by
  have hnode : node ∈ s.closing := hc.mem_iff.mpr List.mem_cons_self
  obtain ⟨file, hfile, rfl⟩ := List.mem_map.mp (ht.present node hnode)
  have hany : s.sync.openedFiles.any (fun f => f.node = file.node) = true :=
    List.any_eq_true.mpr ⟨file, hfile, by simp⟩
  rw [eraseFile, if_pos hany] at hsync
  have hmem : ∀ f, f ∈ s'.sync.openedFiles ↔ f ∈ s.sync.openedFiles ∧ f.node ≠ file.node := by
    rw [hsync]
    exact fun f => mem_eraseFile ht.keyed.nodes
  have hsub : s'.sync.openedFiles.Sublist s.sync.openedFiles := by
    rw [hsync]
    exact List.eraseP_sublist
  have honce : (s.sync.erased ++ file.node :: s'.closing).Nodup := (hc.append_left _).nodup_iff.mp ht.once
  exact {
    keyed := by
      refine ⟨ht.keyed.nodes.sublist (hsub.map _), fun f hf => ?_, ht.keyed.names.sublist (hsub.map _)⟩
      rw [hsync]
      exact ht.keyed.node_lt f ((hmem f).mp hf).1
    defined := by rw [hsync]; exact ht.defined
    announced := by rw [hsync]; exact ht.announced
    closed := by
      rw [hsync]
      apply (ht.closed.trans (hc.append_left _)).trans
      rw [List.append_assoc]
      exact .refl _
    once := by
      rw [hsync, List.append_assoc]
      exact honce
    erased := by
      intro n hn
      rw [hsync] at hn
      have hgone : n ∉ s'.sync.openedFiles.map OpenedFile.node ∧ n < s.sync.emplaced := by
        rcases List.mem_append.mp hn with hn | hn
        · obtain ⟨hlt, hnot⟩ := ht.erased n hn
          exact ⟨fun h => hnot ((hsub.map _).subset h), hlt⟩
        · obtain rfl := List.mem_singleton.mp hn
          refine ⟨fun h => ?_, ht.keyed.node_lt file hfile⟩
          obtain ⟨f, hf, hfn⟩ := List.mem_map.mp h
          exact ((hmem f).mp hf).2 hfn
      exact ⟨by rw [hsync]; exact hgone.2, hgone.1⟩
    present := by
      intro n hn
      obtain ⟨f, hf, rfl⟩ := List.mem_map.mp (ht.present n (hc.mem_iff.mpr (List.mem_cons_of_mem _ hn)))
      refine List.mem_map_of_mem ((hmem f).mpr ⟨hf, fun h => ?_⟩)
      have := (List.nodup_append.mp honce).2.1
      rw [h] at hn
      exact (List.nodup_cons.mp this).1 hn
    opened := by
      intro f hf
      obtain ⟨hf, hne⟩ := (hmem f).mp hf
      have := ht.opened f hf
      simp only [hc.mem_iff, List.mem_cons, hne, false_or] at this
      rw [← this, hsync]
    unopened := by
      intro name hname
      have hsent : s'.sync.sent = s.sync.sent := by rw [hsync]
      rw [hsent]
      by_cases h : name ∈ s.sync.names
      · -- the erased file was the only one of this name, and its close has been sent
        obtain ⟨f, hf, rfl⟩ := mem_names.mp h
        have hfn : f.node = file.node := by
          by_contra hne
          exact hname (mem_names.mpr ⟨f, (hmem f).mpr ⟨hf, hne⟩, rfl⟩)
        rw [ht.opened f hf, hfn]
        simpa using hnode
      · exact ht.unopened name h
    changed := by rw [hsync]; exact ht.changed
    iter := by
      intro i run n hi hr hp
      obtain ⟨hn, hne⟩ := mem_next ht.keyed.nodes (hiter i run n hi hr hp)
      obtain ⟨f, hf, rfl⟩ := List.mem_map.mp hn
      exact List.mem_map_of_mem ((hmem f).mpr ⟨hf, hne⟩) }

/-- What each step is. -/
theorem syncStep_cases {s s' : Syncs} {a : SyncStep} (h : syncStep layout XXH64 s a = some s') :
    s.sync.undefined = false ∧
    ((∃ fileData, a = .start fileData ∧ s.active = none ∧ s' = { s with
        runs := s.runs ++ [⟨fileData, .files fileData.files⟩], active := some s.runs.length }) ∨
      (∃ i run, a = .resume i ∧ s.active = none ∧ s.runs[i]? = some run ∧ resumeRun s i run = some s') ∨
      (∃ i run, a = .iterate ∧ s.active = some i ∧ s.runs[i]? = some run ∧
        iterateRun layout XXH64 s i run = some s')) := by
  unfold syncStep at h
  split at h
  · cases h
  · next hdef =>
    refine ⟨by simpa using hdef, ?_⟩
    split at h
    · next fileData hactive => exact .inl ⟨fileData, rfl, hactive, (Option.some.inj h).symm⟩
    · next i hactive =>
      obtain ⟨run, hr, h⟩ := Option.bind_eq_some_iff.mp h
      exact .inr (.inl ⟨i, run, rfl, hactive, hr, h⟩)
    · next i hactive =>
      obtain ⟨run, hr, h⟩ := Option.bind_eq_some_iff.mp h
      exact .inr (.inr ⟨i, run, rfl, hactive, hr, h⟩)
    · cases h

/-- The closing entries after one run has moved. -/
theorem closing_move {s s' : Syncs} {i : Nat} {run : Run} (hr : s.runs[i]? = some run) (pc : Pc)
    (hruns : s'.runs = s.runs.set i { run with pc }) :
    (run.closing?.toList ++ s'.closing).Perm (({ run with pc } : Run).closing?.toList ++ s.closing) := by
  rw [Syncs.closing, hruns]
  exact closing_set hr _

theorem runs_move {s s' : Syncs} {i : Nat} {run : Run} (hr : s.runs[i]? = some run) {pc : Pc}
    (hruns : s'.runs = s.runs.set i { run with pc }) : s'.runs[i]? = some { run with pc } := by
  rw [hruns, List.getElem?_set_self (List.getElem?_eq_some_iff.mp hr).1]

theorem closing?_of_pc {run : Run} {pc : Pc} (h : run.pc = pc) (hpc : ∀ node, pc ≠ .closing node) :
    run.closing? = none := by
  unfold Run.closing?
  split
  · next node hn => exact absurd (h.symm.trans hn) (hpc node)
  · rfl

/-- A run moves on to another place in its loops, and executes on. -/
theorem Tracked.moveTo {s : Syncs} (ht : Tracked s) {i : Nat} {run : Run} (hr : s.runs[i]? = some run)
    (hrun : run.closing? = none) {pc : Pc} (hpc : ∀ node, pc ≠ .closing node) (active : Option Nat)
    (hactive : active = none ∨ active = some i)
    (hiter : ∀ node, pc = .entries (some node) → node ∈ s.sync.openedFiles.map OpenedFile.node) :
    Tracked { s with runs := s.runs.set i { run with pc }, active } := by
  have hc : (run.closing?.toList ++ Syncs.closing { s with runs := s.runs.set i { run with pc }, active }).Perm _ :=
    closing_move hr pc rfl
  rw [hrun, closing?_of_pc rfl hpc] at hc
  refine ht.move rfl hc fun j run' node hj hr' hp => ?_
  rcases hactive with rfl | rfl
  · cases hj
  · obtain rfl := Option.some.inj hj
    rw [runs_move hr rfl] at hr'
    rw [← Option.some.inj hr'] at hp
    exact hiter node hp

theorem Tracked.iterate {s s' : Syncs} (ht : Tracked s) {i : Nat} {run : Run} (hi : s.active = some i)
    (hr : s.runs[i]? = some run) (hok : Undisturbed XXH64 s .iterate)
    (h : iterateRun layout XXH64 s i run = some s') : Tracked s' := by
  have hok := hok i run hi hr
  obtain ⟨fileData, pc⟩ := run
  cases pc with
  | files rest =>
    cases rest with
    | nil =>
      obtain rfl := Option.some.inj h
      rw [hi]
      refine ht.moveTo hr rfl (by simp) _ (.inr rfl) fun node hnode => ?_
      obtain ⟨file, hfile, rfl⟩ := Option.map_eq_some_iff.mp (Pc.entries.inj hnode)
      exact List.mem_map_of_mem (List.mem_of_head? hfile)
    | cons f rest =>
      obtain ⟨filename, filedata⟩ := f
      simp only [iterateRun] at h
      split at h
      · next sync hv =>
        have hc : s'.closing.Perm s.closing := closing_move hr (.sending rest) (by rw [← Option.some.inj h])
        obtain ⟨hnot, hnil, -⟩ | ⟨hnot, languageId, -, hsync⟩ | ⟨pos, hpos, rfl, hne, hsync⟩ := visitFile_cases hv
        · exact absurd hnil (hok.1 hnot)
        · exact ht.emplace hnot (by rw [← Option.some.inj h, hsync]) hc (by rw [← Option.some.inj h])
        · exact ht.update hpos (fun hmem => hne (hok.2 pos hpos rfl hmem)) (by rw [← Option.some.inj h, hsync]) hc
            (by rw [← Option.some.inj h])
      · rw [← Option.some.inj h, hi]
        exact ht.moveTo hr rfl (by simp) _ (.inr rfl) (by simp)
  | entries iter =>
    cases iter with
    | none =>
      rw [← Option.some.inj h]
      exact ht.moveTo hr rfl (by simp) _ (.inl rfl) (by simp)
    | some node =>
      obtain ⟨file, hfile, hnode⟩ := List.mem_map.mp (ht.iter i _ node hi hr rfl)
      simp only [iterateRun] at h
      split at h
      · next file' hf =>
        obtain rfl : file'.node = node := by simpa using List.find?_some hf
        have hmem := List.mem_of_find?_eq_some hf
        split at h
        · next hcontains =>
          have hc : s'.closing.Perm (file'.node :: s.closing) :=
            closing_move hr (.closing file'.node) (by rw [← Option.some.inj h])
          refine ht.sendClose hmem (fun hclosing => ?_) (by rw [← Option.some.inj h]) hc (by rw [← Option.some.inj h])
          have := hok file' hmem rfl hclosing
          simp [this] at hcontains
        · rw [← Option.some.inj h, hi]
          refine ht.moveTo hr rfl (by simp) _ (.inr rfl) fun n hn => ?_
          exact (mem_next ht.keyed.nodes (Pc.entries.inj hn)).1
      · next hf =>
        have := List.find?_eq_none.mp hf file hfile
        simp [hnode] at this
  | _ => cases h

theorem Tracked.resume {s s' : Syncs} (ht : Tracked s) {i : Nat} {run : Run} (hr : s.runs[i]? = some run)
    (h : resumeRun s i run = some s') : Tracked s' := by
  obtain ⟨fileData, pc⟩ := run
  cases pc with
  | sending rest =>
    rw [← Option.some.inj h]
    exact ht.moveTo hr rfl (by simp) _ (.inr rfl) (by simp)
  | closing node =>
    have hs' := (Option.some.inj h).symm
    have hruns : s'.runs = s.runs.set i ⟨fileData, .entries (next s.sync.openedFiles node)⟩ := by rw [hs']
    refine ht.erase (closing_move hr _ hruns).symm (by rw [hs']) fun j run' n hj hr' hp => ?_
    have hj : some i = some j := by rw [← hj, hs']
    obtain rfl := Option.some.inj hj
    rw [runs_move hr hruns] at hr'
    rw [← Option.some.inj hr'] at hp
    exact Pc.entries.inj hp
  | _ => cases h

/-- The step lemma. -/
theorem tracked_step (s : Syncs) (a : SyncStep) (s' : Syncs) (ht : Tracked s) (hok : Undisturbed XXH64 s a)
    (h : (syncs layout XXH64).step s a = some s') : Tracked s' := by
  obtain ⟨-, ⟨fileData, rfl, -, rfl⟩ | ⟨i, run, rfl, -, hr, h⟩ | ⟨i, run, rfl, hi, hr, h⟩⟩ := syncStep_cases h
  · have hc : (s.runs ++ [(⟨fileData, .files fileData.files⟩ : Run)]).filterMap Run.closing? = s.closing :=
      List.filterMap_append.trans (List.append_nil _)
    refine ht.move rfl (.of_eq hc) fun i run node hi hr hp => ?_
    obtain rfl := Option.some.inj hi
    rw [List.getElem?_concat_length] at hr
    obtain rfl := Option.some.inj hr
    cases hp
  · exact ht.resume hr h
  · exact ht.iterate hi hr hok h

/-- A loop that comes to a file another run is closing sends what it should not. -/
theorem Tracked.not_orderly_step {s s' : Syncs} {a : SyncStep} (ht : Tracked s) (hok : ¬ Undisturbed XXH64 s a)
    (h : (syncs layout XXH64).step s a = some s') : ¬ Orderly s'.sync := by
  intro ho
  apply hok
  obtain ⟨-, ⟨fileData, rfl, -, rfl⟩ | ⟨i, run, rfl, -, hr, h⟩ | ⟨i, run, rfl, hi, hr, h⟩⟩ := syncStep_cases h
  · exact trivial
  · exact trivial
  intro j run' hj hr'
  obtain rfl : i = j := Option.some.inj (hi.symm.trans hj)
  obtain rfl : run = run' := Option.some.inj (hr.symm.trans hr')
  obtain ⟨fileData, pc⟩ := run
  cases pc with
  | files rest =>
    cases rest with
    | nil => exact trivial
    | cons f rest =>
      obtain ⟨filename, filedata⟩ := f
      simp only [iterateRun] at h
      split at h
      · next sync hv =>
        obtain rfl := Option.some.inj h
        obtain ⟨hnot, hnil, rfl⟩ | ⟨hnot, languageId, hhead, rfl⟩ | ⟨pos, hpos, rfl, hne, rfl⟩ := visitFile_cases hv
        · exact absurd ho.defined (by simp)
        · refine ⟨fun _ hnil => by simp [hnil] at hhead, fun file hfile hname => ?_⟩
          exact absurd (mem_names.mpr ⟨file, hfile, hname⟩) hnot
        · refine ⟨fun hnot => absurd (mem_names.mpr ⟨pos, hpos, rfl⟩) hnot, fun file hfile hname hclosing => ?_⟩
          obtain rfl : file = pos := List.inj_on_of_nodup_map ht.keyed.names hfile hpos hname
          have hlast := ho.changed s.sync.sent.length _
            (by simp only [updateFile]; exact List.getElem?_concat_length) rfl
          simp only [updateFile, List.take_left] at hlast
          rw [ht.opened file hfile] at hlast
          simp [hclosing] at hlast
      · next hv =>
        obtain ⟨pos, hpos, rfl, hh⟩ := visitFile_none hv
        refine ⟨fun hnot => absurd (mem_names.mpr ⟨pos, hpos, rfl⟩) hnot, fun file hfile hname _ => ?_⟩
        obtain rfl : file = pos := List.inj_on_of_nodup_map ht.keyed.names hfile hpos hname
        exact hh
  | entries iter =>
    cases iter with
    | none => exact trivial
    | some node =>
      intro file hfile hnode hclosing
      by_contra hcontains
      have hf : s.sync.openedFiles.find? (fun f => f.node = node) = some file := by
        cases hf : s.sync.openedFiles.find? (fun f => f.node = node) with
        | none => simpa [hnode] using List.find?_eq_none.mp hf file hfile
        | some file' =>
          have hn : file'.node = node := by simpa using List.find?_some hf
          rw [List.inj_on_of_nodup_map ht.keyed.nodes (List.mem_of_find?_eq_some hf) hfile (hn.trans hnode.symm)]
      simp only [iterateRun, hf] at h
      rw [if_pos (by simpa using hcontains)] at h
      obtain rfl := Option.some.inj h
      -- the close another run sent is among those sent before this one
      have honce := ho.closedOnce
      have hsent : node ∈ (s.sync.sent.filter Announcement.closes).map Announcement.node :=
        ht.closed.mem_iff.mpr (List.mem_append.mpr (.inr hclosing))
      simp only [Clangd.sendClose, List.filter_append, List.map_append] at honce
      exact (List.nodup_append.mp honce).2.2 node hsent node (by simp [Announcement.closes, hnode]) rfl
  | _ => cases h

/-- Runs of `sync_files` in any interleaving keep their files in order exactly when no loop comes to
a file that another run is closing. -/
theorem sync_runs_orderly_iff (layout : Layout) (XXH64 : String → UInt64) (schedule : List SyncStep) :
    (∀ s ∈ (syncs layout XXH64).states {} schedule, Orderly s.sync) ↔
      ∀ p ∈ (syncs layout XXH64).steps {} schedule, Undisturbed XXH64 p.1 p.2 := by
  have hinit : Tracked {} := by
    refine ⟨⟨by simp, by simp, by simp [Sync.names]⟩, rfl, rfl, .refl _, by simp [Syncs.closing], by simp,
      by simp [Syncs.closing], by simp, fun _ _ => rfl, by simp, by simp⟩
  exact (syncs layout XXH64).states_iff_guarded Tracked (fun _ => True) (fun s ht => ht.orderly)
    (fun s a s' _ ht hok h => tracked_step s a s' ht hok h) (fun s a s' _ ht hok h => ht.not_orderly_step hok h)
    hinit (fun _ _ => trivial)

/-- One request opens a file, and two that have none then find it. -/
def droppedTwice : List SyncStep :=
  [.start (oneFile "int x;"), .iterate, .resume 0, .iterate, .iterate, .iterate,
    .start noFiles, .iterate, .iterate, .start noFiles, .iterate, .iterate, .resume 1, .iterate, .resume 2]

/-- Both close it, and the second one's iterator is to an entry the first has erased. -/
theorem dropped_twice_closes_twice : ∃ s, (syncs atFront sampleHash).run {} droppedTwice = some s ∧
    s.sync.notifications = [.didOpen "file:///a.cpp" "cpp" 1 "int x;", .didClose "/a.cpp", .didClose "/a.cpp"] ∧
    s.sync.erased = [0] ∧ s.sync.undefined = true ∧ ¬ Orderly s.sync :=
  ⟨_, rfl, rfl, rfl, rfl, fun ho => absurd ho.closedOnce (by decide)⟩

end Ycmd.Clangd
