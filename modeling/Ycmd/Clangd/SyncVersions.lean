import Ycmd.Clangd.SyncRuns

/-! What runs of `sync_files` announce of a file in any interleaving, the disorderly ones included: each
announcement continues the one before it. -/
namespace Ycmd.Clangd
open Lib Lsp

/-- The version and the text that an announcement tells. -/
def Announcement.told (a : Announcement) : Option (Int × String) :=
  match a.notification with
  | .didOpen _ _ version text => some (version, text)
  | .didChange _ version text => some (version, text)
  | .didClose _ => none

/-- The entry last announced under a name, with the version and the text told of it. -/
def lastTold (sent : List Announcement) (filename : String) : Option (Nat × Int × String) :=
  sent.foldl (fun last a => if a.filename = filename then (a.told.map (Prod.mk a.node)).or last else last) none

/-- A new entry starts at version 1; a change is the next version of the entry told last and brings another
text; and only the entry told last is closed. -/
def Continues (sent : List Announcement) (a : Announcement) : Prop :=
  match a.notification with
  | .didOpen uri _ version _ => uri = URI a.filename ∧ version = 1 ∧ a.node ∉ sent.map Announcement.node
  | .didChange uri version text => uri = URI a.filename ∧
    ∃ before, lastTold sent a.filename = some (a.node, version - 1, before) ∧ text ≠ before
  | .didClose _ => ∃ last, lastTold sent a.filename = some (a.node, last)

variable (layout : Layout) (XXH64 : String → UInt64)

/-- The invariant: an entry holds the version and the hash of what was last told under its name. -/
structure Versioned (s : Sync) : Prop where
  keyed : Keyed s
  sent_lt : ∀ a ∈ s.sent, a.node < s.emplaced
  told : ∀ file ∈ s.openedFiles,
    ∃ text, lastTold s.sent file.filename = some (file.node, file.version, text) ∧ XXH64 text = file.hash
  continues : ∀ (i : Nat) (a : Announcement), s.sent[i]? = some a → Continues (s.sent.take i) a

variable {layout XXH64} {s s' : Sync}

theorem lastTold_append (sent : List Announcement) (a : Announcement) (filename : String) :
    lastTold (sent ++ [a]) filename = if a.filename = filename
      then (a.told.map (Prod.mk a.node)).or (lastTold sent filename) else lastTold sent filename := by
  simp [lastTold]

theorem continues_append {sent : List Announcement} {a : Announcement}
    (h : ∀ (i : Nat) (b : Announcement), sent[i]? = some b → Continues (sent.take i) b) (ha : Continues sent a) :
    ∀ (i : Nat) (b : Announcement), (sent ++ [a])[i]? = some b → Continues ((sent ++ [a]).take i) b := by
  intro i b hb
  rcases Nat.lt_or_ge i sent.length with hlt | hge
  · rw [List.getElem?_append_left hlt] at hb
    rw [List.take_append_of_le_length (Nat.le_of_lt hlt)]
    exact h i b hb
  · rw [List.getElem?_append_right hge, List.getElem?_singleton] at hb
    split at hb
    · next h0 =>
      obtain rfl : a = b := Option.some.inj hb
      obtain rfl : i = sent.length := by omega
      rw [List.take_left]
      exact ha
    · cases hb

theorem Versioned.emplace (h : Versioned XXH64 s) {filename : FilePath} (hnot : filename ∉ s.names)
    (languageId contents : String) : Versioned XXH64 (emplaceFile layout XXH64 s filename languageId contents) where
  keyed := h.keyed.emplaceFile hnot languageId contents
  sent_lt := by
    intro a ha
    rcases List.mem_append.mp ha with ha | ha
    · exact Nat.lt_succ_of_lt (h.sent_lt a ha)
    · obtain rfl := List.mem_singleton.mp ha
      exact Nat.lt_succ_self _
  told := by
    intro file hfile
    simp only [emplaceFile, lastTold_append]
    rcases mem_emplaceFile.mp hfile with rfl | hfile
    · exact ⟨contents, by simp [Announcement.told], rfl⟩
    · have hne : filename ≠ file.filename := fun heq => hnot (mem_names.mpr ⟨file, hfile, heq.symm⟩)
      rw [if_neg hne]
      exact h.told file hfile
  continues := by
    refine continues_append h.continues ⟨rfl, rfl, fun hmem => ?_⟩
    obtain ⟨a, ha, hnode⟩ := List.mem_map.mp hmem
    exact absurd (h.sent_lt a ha) (by simp [hnode])

theorem Versioned.update (h : Versioned XXH64 s) {pos : OpenedFile} (hpos : pos ∈ s.openedFiles) {contents : String}
    (hne : pos.hash ≠ XXH64 contents) : Versioned XXH64 (updateFile XXH64 s pos pos.filename contents) where
  keyed := h.keyed.updateFile hpos pos.filename contents
  sent_lt := by
    intro a ha
    rcases List.mem_append.mp ha with ha | ha
    · exact h.sent_lt a ha
    · obtain rfl := List.mem_singleton.mp ha
      exact h.keyed.node_lt pos hpos
  told := by
    intro file hfile
    obtain ⟨file', hfile', rfl⟩ := List.mem_map.mp hfile
    simp only [updateFile, lastTold_append]
    by_cases heq : file'.node = pos.node
    · rw [if_pos heq]
      exact ⟨contents, by simp [Announcement.told], rfl⟩
    · have hname : pos.filename ≠ file'.filename :=
        fun hname => heq (congrArg _ (List.inj_on_of_nodup_map h.keyed.names hfile' hpos hname.symm))
      rw [if_neg heq, if_neg hname]
      exact h.told file' hfile'
  continues := by
    obtain ⟨text, htold, htext⟩ := h.told pos hpos
    refine continues_append h.continues ⟨rfl, text, ?_, ?_⟩
    · rw [htold, Int.add_sub_cancel]
    · exact fun heq => hne (htext.symm.trans (congrArg XXH64 heq.symm))

theorem Versioned.visit (h : Versioned XXH64 s) {filename : FilePath} {filedata : FileData}
    (hvisit : visitFile layout XXH64 s filename filedata = some s') : Versioned XXH64 s' := by
  obtain ⟨-, -, rfl⟩ | ⟨hnot, languageId, -, rfl⟩ | ⟨pos, hpos, rfl, hne, rfl⟩ := visitFile_cases hvisit
  · exact ⟨⟨h.keyed.nodes, h.keyed.node_lt, h.keyed.names⟩, h.sent_lt, h.told, h.continues⟩
  · exact h.emplace hnot languageId filedata.contents
  · exact h.update hpos hne

theorem Versioned.sendClose (h : Versioned XXH64 s) {file : OpenedFile} (hfile : file ∈ s.openedFiles) :
    Versioned XXH64 (sendClose s file) where
  keyed := ⟨h.keyed.nodes, h.keyed.node_lt, h.keyed.names⟩
  sent_lt := by
    intro a ha
    rcases List.mem_append.mp ha with ha | ha
    · exact h.sent_lt a ha
    · obtain rfl := List.mem_singleton.mp ha
      exact h.keyed.node_lt file hfile
  told := by
    intro file' hfile'
    obtain ⟨text, htold, htext⟩ := h.told file' hfile'
    refine ⟨text, ?_, htext⟩
    simp only [Clangd.sendClose, lastTold_append, Announcement.told, Option.map_none, Option.none_or, ite_self]
    exact htold
  continues := by
    obtain ⟨text, htold, -⟩ := h.told file hfile
    exact continues_append h.continues ⟨_, htold⟩

theorem Versioned.erase (h : Versioned XXH64 s) (node : Nat) : Versioned XXH64 (eraseFile s node) := by
  unfold eraseFile
  split
  · have hsub : (s.openedFiles.eraseP (fun file => file.node = node)).Sublist s.openedFiles := List.eraseP_sublist
    refine ⟨⟨h.keyed.nodes.sublist (hsub.map _), ?_, h.keyed.names.sublist (hsub.map _)⟩, h.sent_lt, ?_, h.continues⟩
    · exact fun file hfile => h.keyed.node_lt file (hsub.subset hfile)
    · exact fun file hfile => h.told file (hsub.subset hfile)
  · exact ⟨⟨h.keyed.nodes, h.keyed.node_lt, h.keyed.names⟩, h.sent_lt, h.told, h.continues⟩

/-- What a step does to what the runs share. -/
theorem syncStep_sync {s s' : Syncs} {a : SyncStep} (h : syncStep layout XXH64 s a = some s') :
    s'.sync = s.sync ∨ (∃ filename filedata, visitFile layout XXH64 s.sync filename filedata = some s'.sync) ∨
      (∃ file ∈ s.sync.openedFiles, s'.sync = sendClose s.sync file) ∨
      (∃ node, s'.sync = eraseFile s.sync node) ∨ s'.sync = { s.sync with undefined := true } := by
  obtain ⟨-, ⟨fileData, -, -, rfl⟩ | ⟨i, run, -, -, -, h⟩ | ⟨i, run, -, -, -, h⟩⟩ := syncStep_cases h
  · exact .inl rfl
  · unfold resumeRun at h
    split at h
    · exact .inl (Option.some.inj h ▸ rfl)
    · next node _ => exact .inr (.inr (.inr (.inl ⟨node, Option.some.inj h ▸ rfl⟩)))
    · cases h
  · unfold iterateRun at h
    split at h
    · next filename filedata rest _ =>
      split at h
      · next sync hvisit => exact .inr (.inl ⟨filename, filedata, by rw [← Option.some.inj h, hvisit]⟩)
      · exact .inl (Option.some.inj h ▸ rfl)
    · exact .inl (Option.some.inj h ▸ rfl)
    · split at h
      · next file hfind =>
        split at h
        · exact .inr (.inr (.inl ⟨file, List.mem_of_find?_eq_some hfind, Option.some.inj h ▸ rfl⟩))
        · exact .inl (Option.some.inj h ▸ rfl)
      · exact .inr (.inr (.inr (.inr (Option.some.inj h ▸ rfl))))
    · exact .inl (Option.some.inj h ▸ rfl)
    · cases h

/-- The step lemma. -/
theorem versioned_step (s : Syncs) (a : SyncStep) (s' : Syncs) (h : Versioned XXH64 s.sync)
    (hstep : (syncs layout XXH64).step s a = some s') : Versioned XXH64 s'.sync := by
  obtain hsync | ⟨filename, filedata, hvisit⟩ | ⟨file, hfile, hsync⟩ | ⟨node, hsync⟩ | hsync :=
    syncStep_sync hstep
  · exact hsync ▸ h
  · exact h.visit hvisit
  · exact hsync ▸ h.sendClose hfile
  · exact hsync ▸ h.erase node
  · exact hsync ▸ ⟨⟨h.keyed.nodes, h.keyed.node_lt, h.keyed.names⟩, h.sent_lt, h.told, h.continues⟩

/-- However the runs of `sync_files` overlap, the versions of an entry go up by one from its first, no change
repeats the text it replaces, and what is closed under a name is the entry last announced. -/
theorem announcements_continue (layout : Layout) (XXH64 : String → UInt64) (schedule : List SyncStep) :
    ∀ s ∈ (syncs layout XXH64).states {} schedule, ∀ (i : Nat) (a : Announcement), s.sync.sent[i]? = some a →
      Continues (s.sync.sent.take i) a := by
  have hinit : Versioned XXH64 ({} : Syncs).sync :=
    ⟨⟨by simp, by simp, by simp [Sync.names]⟩, by simp, by simp, by simp⟩
  intro s hs
  have hversioned : Versioned XXH64 s.sync :=
    (syncs layout XXH64).states_of_invariant (fun s a s' => versioned_step s a s') hinit s hs
  exact hversioned.continues

/-- A file is opened, and changed by another run before the first has ended. -/
def overlappingEdits : List SyncStep :=
  [.start (oneFile "int x;"), .iterate, .start (oneFile "int y;"), .iterate, .resume 0, .iterate]

theorem announcements_continue_overlapping : ∃ s, (syncs atFront sampleHash).run {} overlappingEdits = some s ∧
    s.sync.notifications = [.didOpen "file:///a.cpp" "cpp" 1 "int x;", .didChange "file:///a.cpp" 2 "int y;"] ∧
    ∀ (i : Nat) (a : Announcement), s.sync.sent[i]? = some a → Continues (s.sync.sent.take i) a :=
  ⟨_, rfl, rfl, announcements_continue atFront sampleHash overlappingEdits _
    ((syncs atFront sampleHash).mem_states_of_run rfl)⟩

end Ycmd.Clangd
