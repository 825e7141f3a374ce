import Ycmd.Clangd.SyncRefinement
import Ycmd.Clangd.SyncRuns

/-! A run of `sync_files` that no other interrupts does what the two loops do in one piece. -/
namespace Ycmd.Clangd
open Lib

variable {layout : Layout} {XXH64 : String → UInt64} (fileData : FileDataMap) (runs : List Run)

/-- The last run executes, between two iterations. -/
def executing (sync : Sync) (pc : Pc) : Syncs :=
  { sync, runs := runs ++ [⟨fileData, pc⟩], active := some runs.length }

/-- The last run does not execute, and no other does. -/
def waiting (sync : Sync) (pc : Pc) : Syncs :=
  { sync, runs := runs ++ [⟨fileData, pc⟩], active := none }

variable (layout XXH64) in
theorem step_iterate {sync : Sync} (pc : Pc) (hdef : sync.undefined = false) :
    (syncs layout XXH64).step (executing fileData runs sync pc) .iterate =
      iterateRun layout XXH64 (executing fileData runs sync pc) runs.length ⟨fileData, pc⟩ := by
  simp [syncs, syncStep, executing, hdef]

variable (layout XXH64) in
theorem step_resume (sync : Sync) (pc : Pc) (hdef : sync.undefined = false) :
    (syncs layout XXH64).step (waiting fileData runs sync pc) (.resume runs.length) =
      resumeRun (waiting fileData runs sync pc) runs.length ⟨fileData, pc⟩ := by
  simp [syncs, syncStep, waiting, hdef]

/-- The first loop. -/
theorem openFiles_alone {sync : Sync} {rest : List (FilePath × FileData)}
    (hdef : (openFiles layout XXH64 sync rest).undefined = false) :
    ∃ schedule, (syncs layout XXH64).run (executing fileData runs sync (.files rest)) schedule =
      some (executing fileData runs (openFiles layout XXH64 sync rest) (.files [])) := by
  induction rest generalizing sync with
  | nil => exact ⟨[], rfl⟩
  | cons f rest ih =>
    have hiter := step_iterate layout XXH64 fileData runs (.files (f :: rest)) (undefined_openFiles_mono hdef)
    have hdef' : (openFiles layout XXH64 ((visitFile layout XXH64 sync f.1 f.2).getD sync) rest).undefined = false :=
      hdef
    obtain ⟨schedule, hrun⟩ := ih hdef'
    cases hv : visitFile layout XXH64 sync f.1 f.2 with
    | none =>
      have hstep : (syncs layout XXH64).step (executing fileData runs sync (.files (f :: rest))) .iterate =
          some (executing fileData runs sync (.files rest)) := by
        rw [hiter]
        simp [iterateRun, executing, hv]
      refine ⟨.iterate :: schedule, ?_⟩
      rw [(syncs layout XXH64).run_cons hstep]
      rw [hv] at hrun
      exact hrun.trans (by simp [openFiles, hv])
    | some sync' =>
      rw [hv, Option.getD_some] at hrun hdef'
      have hstep : (syncs layout XXH64).step (executing fileData runs sync (.files (f :: rest))) .iterate =
          some (waiting fileData runs sync' (.sending rest)) := by
        rw [hiter]
        simp [iterateRun, executing, waiting, hv]
      have hresume : (syncs layout XXH64).step (waiting fileData runs sync' (.sending rest)) (.resume runs.length) =
          some (executing fileData runs sync' (.files rest)) := by
        rw [step_resume layout XXH64 fileData runs sync' (.sending rest) (undefined_openFiles_mono hdef')]
        simp [resumeRun, executing, waiting]
      refine ⟨.iterate :: .resume runs.length :: schedule, ?_⟩
      rw [(syncs layout XXH64).run_cons hstep, (syncs layout XXH64).run_cons hresume]
      exact hrun.trans (by simp [openFiles, hv])

/-- What stands after an entry in a list that holds its node once. -/
theorem next_append {kept files : List OpenedFile} {file : OpenedFile}
    (h : file.node ∉ kept.map OpenedFile.node) : next (kept ++ file :: files) file.node = begin files := by
  have hkept : ∀ f ∈ kept, f.node ≠ file.node := fun f hf heq => h (List.mem_map.mpr ⟨f, hf, heq⟩)
  rw [next, List.dropWhile_append_of_pos (by simpa using hkept), List.dropWhile_cons_of_neg (by simp), List.tail_cons]

theorem find?_node {kept files : List OpenedFile} {file : OpenedFile}
    (h : file.node ∉ kept.map OpenedFile.node) :
    (kept ++ file :: files).find? (fun f => f.node = file.node) = some file := by
  have hkept : ∀ f ∈ kept, f.node ≠ file.node := fun f hf heq => h (List.mem_map.mpr ⟨f, hf, heq⟩)
  have hnone : kept.find? (fun f => f.node = file.node) = none := by simpa using hkept
  rw [List.find?_append, hnone, Option.none_or, List.find?_cons_of_pos (by simp)]

theorem eraseP_node {kept files : List OpenedFile} {file : OpenedFile}
    (h : file.node ∉ kept.map OpenedFile.node) :
    (kept ++ file :: files).eraseP (fun f => f.node = file.node) = kept ++ files := by
  have hkept : ∀ f ∈ kept, f.node ≠ file.node := fun f hf heq => h (List.mem_map.mpr ⟨f, hf, heq⟩)
  rw [List.eraseP_append_right _ (by simpa using hkept), List.eraseP_cons_of_pos (by simp)]

section SecondLoop
variable {fileData runs} {sync : Sync} {kept files : List OpenedFile} {file : OpenedFile}

variable (layout XXH64 runs) in
/-- The iterator passes an entry that the request has. -/
theorem step_keep (hdef : sync.undefined = false) (hopened : sync.openedFiles = kept ++ file :: files)
    (hfresh : file.node ∉ kept.map OpenedFile.node) (hc : fileData.contains file.filename = true) :
    (syncs layout XXH64).step (executing fileData runs sync (.entries (begin (file :: files)))) .iterate =
      some (executing fileData runs sync (.entries (begin files))) := by
  have hfind : sync.openedFiles.find? (fun f => f.node = file.node) = some file := by
    rw [hopened]
    exact find?_node hfresh
  have hnext : next sync.openedFiles file.node = begin files := by
    rw [hopened]
    exact next_append hfresh
  rw [step_iterate layout XXH64 fileData runs (.entries (begin (file :: files))) hdef]
  simp [iterateRun, begin, executing, hfind, hc, hnext]

variable (layout XXH64 runs) in
/-- An entry that the request lacks is closed, and erased once that is sent. -/
theorem run_close (hdef : sync.undefined = false) (hopened : sync.openedFiles = kept ++ file :: files)
    (hfresh : file.node ∉ kept.map OpenedFile.node) (hc : fileData.contains file.filename = false) :
    (syncs layout XXH64).run (executing fileData runs sync (.entries (begin (file :: files))))
        [.iterate, .resume runs.length] =
      some (executing fileData runs (eraseFile (sendClose sync file) file.node) (.entries (begin files))) := by
  have hfind : sync.openedFiles.find? (fun f => f.node = file.node) = some file := by
    rw [hopened]
    exact find?_node hfresh
  have hnext : next sync.openedFiles file.node = begin files := by
    rw [hopened]
    exact next_append hfresh
  have hstep : (syncs layout XXH64).step (executing fileData runs sync (.entries (begin (file :: files)))) .iterate =
      some (waiting fileData runs (sendClose sync file) (.closing file.node)) := by
    rw [step_iterate layout XXH64 fileData runs (.entries (begin (file :: files))) hdef]
    simp [iterateRun, begin, executing, waiting, hfind, hc]
  have hresume : (syncs layout XXH64).step (waiting fileData runs (sendClose sync file) (.closing file.node))
      (.resume runs.length) =
      some (executing fileData runs (eraseFile (sendClose sync file) file.node) (.entries (begin files))) := by
    rw [step_resume layout XXH64 fileData runs (sendClose sync file) (.closing file.node) hdef, ← hnext]
    simp [resumeRun, executing, waiting, sendClose]
  rw [(syncs layout XXH64).run_cons hstep, (syncs layout XXH64).run_cons hresume]
  rfl

theorem openedFiles_close (hopened : sync.openedFiles = kept ++ file :: files)
    (hfresh : file.node ∉ kept.map OpenedFile.node) :
    (eraseFile (sendClose sync file) file.node).openedFiles = kept ++ files := by
  have hany : (sendClose sync file).openedFiles.any (fun f => f.node = file.node) = true := by
    simp [sendClose, hopened]
  rw [eraseFile, if_pos hany]
  simp only [sendClose, hopened]
  exact eraseP_node hfresh

end SecondLoop

variable (layout XXH64) in
/-- The second loop, from the entry its iterator has come to. -/
theorem closeFiles_alone {sync : Sync} {kept files : List OpenedFile} (hopened : sync.openedFiles = kept ++ files)
    (hnodes : ((kept ++ files).map OpenedFile.node).Nodup)
    (hdef : (closeFiles fileData sync files).undefined = false) :
    ∃ schedule, (syncs layout XXH64).run (executing fileData runs sync (.entries (begin files))) schedule =
      some (waiting fileData runs (closeFiles fileData sync files) .done) := by
  induction files generalizing sync kept with
  | nil =>
    have hstep : (syncs layout XXH64).step (executing fileData runs sync (.entries none)) .iterate =
        some (waiting fileData runs sync .done) := by
      rw [step_iterate layout XXH64 fileData runs (.entries none) (undefined_closeFiles_mono hdef)]
      simp [iterateRun, executing, waiting]
    refine ⟨[.iterate], ?_⟩
    rw [begin, List.head?_nil, Option.map_none, (syncs layout XXH64).run_cons hstep]
    rfl
  | cons file files ih =>
    have hnow := undefined_closeFiles_mono hdef
    have hfresh : file.node ∉ kept.map OpenedFile.node := by
      rw [List.map_append, List.map_cons] at hnodes
      exact fun hmem => (List.nodup_append.mp hnodes).2.2 _ hmem _ List.mem_cons_self rfl
    cases hc : fileData.contains file.filename with
    | true =>
      have hclose : closeFiles fileData sync (file :: files) = closeFiles fileData sync files := by
        rw [closeFiles, List.foldl_cons, if_pos hc]
        rfl
      rw [hclose] at hdef ⊢
      have hopened' : sync.openedFiles = (kept ++ [file]) ++ files := by simp [hopened]
      obtain ⟨schedule, hrun⟩ := ih hopened' (by simpa using hnodes) hdef
      refine ⟨.iterate :: schedule, ?_⟩
      rw [(syncs layout XXH64).run_cons (step_keep layout XXH64 runs hnow hopened hfresh hc)]
      exact hrun
    | false =>
      have hclose : closeFiles fileData sync (file :: files) =
          closeFiles fileData (eraseFile (sendClose sync file) file.node) files := by
        rw [closeFiles, List.foldl_cons, if_neg (by simp [hc])]
        rfl
      have hnodes' : ((kept ++ files).map OpenedFile.node).Nodup :=
        hnodes.sublist (((List.sublist_cons_self _ _).append_left _).map _)
      rw [hclose] at hdef ⊢
      obtain ⟨schedule, hrun⟩ := ih (openedFiles_close hopened hfresh) hnodes' hdef
      refine ⟨[.iterate, .resume runs.length] ++ schedule, ?_⟩
      rw [(syncs layout XXH64).run_append, run_close layout XXH64 runs hnow hopened hfresh hc, Option.bind_some]
      exact hrun

/-- A run that nothing interrupts ends, with the state `syncFiles` computes. -/
theorem syncFiles_alone {s : Syncs} (hactive : s.active = none) (hk : Keyed s.sync)
    (hdef : (syncFiles layout XXH64 s.sync fileData).undefined = false) :
    ∃ schedule, (syncs layout XXH64).run s (.start fileData :: schedule) =
      some (waiting fileData s.runs (syncFiles layout XXH64 s.sync fileData) .done) := by
  have hdef1 : (openFiles layout XXH64 s.sync fileData.files).undefined = false := undefined_closeFiles_mono hdef
  have hk1 : Keyed (openFiles layout XXH64 s.sync fileData.files) := hk.openFiles
  have hstart : (syncs layout XXH64).step s (.start fileData) =
      some (executing fileData s.runs s.sync (.files fileData.files)) := by
    simp [syncs, syncStep, executing, hactive, undefined_openFiles_mono hdef1]
  have hturn : (syncs layout XXH64).step
      (executing fileData s.runs (openFiles layout XXH64 s.sync fileData.files) (.files [])) .iterate =
      some (executing fileData s.runs (openFiles layout XXH64 s.sync fileData.files)
        (.entries (begin (openFiles layout XXH64 s.sync fileData.files).openedFiles))) := by
    rw [step_iterate layout XXH64 fileData s.runs (.files []) hdef1]
    simp [iterateRun, executing]
  obtain ⟨schedule1, hrun1⟩ := openFiles_alone fileData s.runs hdef1
  obtain ⟨schedule2, hrun2⟩ := closeFiles_alone layout XXH64 fileData s.runs (List.nil_append _).symm
    (by simpa using hk1.nodes) hdef
  refine ⟨schedule1 ++ .iterate :: schedule2, ?_⟩
  rw [(syncs layout XXH64).run_cons hstart, (syncs layout XXH64).run_append, hrun1, Option.bind_some,
    (syncs layout XXH64).run_cons hturn]
  exact hrun2

end Ycmd.Clangd
