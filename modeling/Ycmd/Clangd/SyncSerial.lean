import Ycmd.Clangd.SyncRefinement
import Ycmd.Clangd.SyncVersions

/-! Runs of `sync_files` that come one after another, followed through every place they suspend at. -/
namespace Ycmd.Clangd
open Lib Lsp

variable {layout : Layout} {XXH64 : String → UInt64} {contents : String → Set String} {s s' : Syncs}

/-- Only the last run goes on, no request drops a file of one before it, and every file has a filetype. -/
structure Serial (s : Syncs) : Prop where
  alone : ∀ run ∈ s.runs.dropLast, run.pc = .done
  retained : s.runs.Pairwise (fun a b => ∀ f ∈ a.fileData.files, f.1 ∈ b.fileData.files.map Prod.fst)
  typed : ∀ run ∈ s.runs, ∀ f ∈ run.fileData.files, f.2.filetypes ≠ []

instance (s : Syncs) : Decidable (Serial s) :=
  decidable_of_iff ((∀ run ∈ s.runs.dropLast, run.pc = .done) ∧
      s.runs.Pairwise (fun a b => ∀ f ∈ a.fileData.files, f.1 ∈ b.fileData.files.map Prod.fst) ∧
      ∀ run ∈ s.runs, ∀ f ∈ run.fileData.files, f.2.filetypes ≠ [])
    ⟨fun h => ⟨h.1, h.2.1, h.2.2⟩, fun h => ⟨h.alone, h.retained, h.typed⟩⟩

/-- How far a run has come: it opens the files one by one, and then there is none to close. -/
def RunPhase (layout : Layout) (XXH64 : String → UInt64) (contents : String → Set String) (sync : Sync) (run : Run) :
    Prop :=
  match run.pc with
  | .files rest | .sending rest => ∃ s st visited, Settled XXH64 contents s st ∧ Retains s run.fileData ∧
    run.fileData.files = visited ++ rest ∧ sync = openFiles layout XXH64 s.sync visited
  | .entries iter => (∃ st, Settled XXH64 contents ⟨sync, run.fileData.files⟩ st) ∧
    ∀ node, iter = some node → node ∈ sync.openedFiles.map OpenedFile.node
  | .closing _ => False
  | .done => ∃ st, Settled XXH64 contents ⟨sync, run.fileData.files⟩ st

/-- The invariant of runs that come one after another. -/
structure Settling (layout : Layout) (XXH64 : String → UInt64) (contents : String → Set String) (s : Syncs) : Prop where
  texts : ∀ run ∈ s.runs, ∀ f ∈ run.fileData.files, f.2.contents ∈ contents f.1
  idle : s.runs = [] → ∃ st, Settled XXH64 contents ⟨s.sync, []⟩ st
  last : ∀ runs run, s.runs = runs ++ [run] → RunPhase layout XXH64 contents s.sync run

theorem settled_empty : Settled XXH64 contents {} Store.empty :=
  ⟨⟨⟨by simp, by simp, by simp [Sync.names]⟩, rfl, by simp, by simp [Store.empty]⟩, rfl, by simp, by simp [Sync.names]⟩

theorem settling_empty : Settling layout XXH64 contents {} where
  texts := by simp
  idle := fun _ => ⟨_, settled_empty⟩
  last := by simp

/-- The first loop leaves the completer settled, since it opens a file or none at each turn and none is dropped. -/
theorem Settled.openFiles {s : Session} {st : Store} (hs : Settled XXH64 contents s st) {fileData : FileDataMap}
    (htext : ∀ f ∈ fileData.files, f.2.contents ∈ contents f.1) (hhash : ∀ name, Set.InjOn XXH64 (contents name))
    (hr : Retains s fileData) :
    ∃ st', Settled XXH64 contents ⟨openFiles layout XXH64 s.sync fileData.files, fileData.files⟩ st' := by
  have hdef : (Clangd.openFiles layout XXH64 s.sync fileData.files).undefined = false :=
    (undefined_openFiles hs.mirror.toKeyed fileData.keys_nodup).mpr
      ⟨hs.defined, fun f hf hnot => hr.2 f hf ((hs.names f.1).not.mp hnot)⟩
  obtain ⟨st', ho⟩ := hs.mirror.openFiles layout fileData.keys_nodup htext hhash hdef
  refine ⟨st', ho.mirror, hdef, ho.text, fun name => ?_⟩
  rw [ho.names name, hs.names name]
  constructor
  · rintro (h | h)
    · exact h
    · obtain ⟨f, hf, rfl⟩ := List.mem_map.mp h
      exact hr.1 f hf
  · exact .inl

theorem Settled.contains {sync : Sync} {st : Store} {fileData : FileDataMap}
    (hs : Settled XXH64 contents ⟨sync, fileData.files⟩ st) {file : OpenedFile} (hfile : file ∈ sync.openedFiles) :
    fileData.contains file.filename = true :=
  FileDataMap.contains_of_mem ((hs.names _).mp (mem_names.mpr ⟨file, hfile, rfl⟩))

/-- A run that has something left to do is the last. -/
theorem Serial.eq_last (h : Serial s) {i : Nat} {run : Run} (hr : s.runs[i]? = some run) (hpc : run.pc ≠ .done) :
    ∃ runs, s.runs = runs ++ [run] ∧ i = runs.length := by
  have hne : s.runs ≠ [] := List.ne_nil_of_mem (List.mem_of_getElem? hr)
  have hsplit := List.dropLast_append_getLast hne
  rw [← hsplit] at hr
  rcases Nat.lt_trichotomy i s.runs.dropLast.length with hlt | heq | hgt
  · rw [List.getElem?_append_left hlt] at hr
    exact absurd (h.alone run (List.mem_of_getElem? hr)) hpc
  · rw [heq, List.getElem?_concat_length] at hr
    obtain rfl := Option.some.inj hr
    exact ⟨_, hsplit.symm, heq⟩
  · rw [List.getElem?_eq_none (by rw [List.length_append, List.length_singleton]; exact hgt)] at hr
    cases hr

/-- The last run moves. -/
theorem Settling.move (hs : Settling layout XXH64 contents s) {runs : List Run} {run : Run}
    (hruns : s.runs = runs ++ [run]) (pc : Pc) (hruns' : s'.runs = s.runs.set runs.length { run with pc })
    (hphase : RunPhase layout XXH64 contents s'.sync { run with pc }) : Settling layout XXH64 contents s' := by
  rw [hruns, List.set_append_right _ _ (Nat.le_refl _), Nat.sub_self, List.set_cons_zero] at hruns'
  refine ⟨fun run' hrun' => ?_, fun hnil => ?_, fun runs' run' heq => ?_⟩
  · rw [hruns', List.mem_append, List.mem_singleton] at hrun'
    rcases hrun' with hrun' | rfl
    · exact hs.texts run' (by rw [hruns]; exact List.mem_append_left _ hrun')
    · exact hs.texts run (by rw [hruns]; exact List.mem_append_right _ List.mem_cons_self)
  · simp [hnil] at hruns'
  · obtain ⟨-, heq⟩ := List.append_inj' (hruns'.symm.trans heq) rfl
    obtain rfl := List.singleton_inj.mp heq
    exact hphase

theorem Settling.start (hs : Settling layout XXH64 contents s) {fileData : FileDataMap}
    (htext : ∀ f ∈ fileData.files, f.2.contents ∈ contents f.1)
    (hsync : s'.sync = s.sync) (hruns : s'.runs = s.runs ++ [⟨fileData, .files fileData.files⟩]) (hserial : Serial s') :
    Settling layout XXH64 contents s' := by
  have htyped := hserial.typed ⟨fileData, .files fileData.files⟩ (by simp [hruns])
  refine ⟨fun run hrun => ?_, fun hnil => ?_, fun runs run heq => ?_⟩
  · rw [hruns, List.mem_append, List.mem_singleton] at hrun
    rcases hrun with hrun | rfl
    · exact hs.texts run hrun
    · exact htext
  · simp [hnil] at hruns
  · obtain ⟨-, heq⟩ := List.append_inj' (hruns.symm.trans heq) rfl
    obtain rfl := List.singleton_inj.mp heq
    rw [hsync]
    rcases List.eq_nil_or_concat s.runs with hnil | ⟨runs', run', hconcat⟩
    · obtain ⟨st, hst⟩ := hs.idle hnil
      exact ⟨⟨s.sync, []⟩, st, [], hst, ⟨by simp, fun f hf _ => htyped f hf⟩, rfl, rfl⟩
    · rw [List.concat_eq_append] at hconcat
      have hpc : run'.pc = .done := hserial.alone run' (by simp [hruns, hconcat])
      have hphase := hs.last runs' run' hconcat
      rw [RunPhase, hpc] at hphase
      obtain ⟨st, hst⟩ := hphase
      refine ⟨⟨s.sync, run'.fileData.files⟩, st, [], hst, ⟨fun f hf => ?_, fun f hf _ => htyped f hf⟩, rfl, rfl⟩
      have hretained := hserial.retained
      rw [hruns, List.pairwise_append] at hretained
      exact hretained.2.2 run' (by simp [hconcat]) _ List.mem_cons_self f hf

theorem Settling.iterate (hs : Settling layout XXH64 contents s) (hhash : ∀ name, Set.InjOn XXH64 (contents name))
    (hserial : Serial s) {i : Nat} {run : Run} (hr : s.runs[i]? = some run)
    (h : iterateRun layout XXH64 s i run = some s') : Settling layout XXH64 contents s' := by
  have hpc : run.pc ≠ .done := by
    intro hdone
    simp [iterateRun, hdone] at h
  obtain ⟨runs, hruns, rfl⟩ := hserial.eq_last hr hpc
  have hphase := hs.last runs run hruns
  have htexts := hs.texts run (List.mem_of_getElem? hr)
  obtain ⟨fileData, pc⟩ := run
  cases pc with
  | files rest =>
    obtain ⟨before, st, visited, hst, hretains, hfiles, hsync⟩ := hphase
    cases rest with
    | nil =>
      obtain rfl := Option.some.inj h
      rw [List.append_nil] at hfiles
      rw [← hfiles] at hsync
      refine hs.move hruns (.entries (begin s.sync.openedFiles)) rfl ⟨?_, fun node hnode => ?_⟩
      · change ∃ st, Settled XXH64 contents ⟨s.sync, fileData.files⟩ st
        rw [hsync]
        exact hst.openFiles htexts hhash hretains
      · obtain ⟨file, hfile, rfl⟩ := Option.map_eq_some_iff.mp hnode
        exact List.mem_map_of_mem (List.mem_of_head? hfile)
    | cons f rest =>
      have hvisited : openFiles layout XXH64 before.sync (visited ++ [f]) =
          (visitFile layout XXH64 s.sync f.1 f.2).getD s.sync := by
        rw [openFiles, List.foldl_append, hsync]
        rfl
      have hfiles' : fileData.files = (visited ++ [f]) ++ rest := by
        rw [List.append_assoc]
        exact hfiles
      obtain ⟨filename, filedata⟩ := f
      simp only [iterateRun] at h
      split at h
      · next sync hv =>
        obtain rfl := Option.some.inj h
        rw [hv] at hvisited
        exact hs.move hruns (.sending rest) rfl ⟨before, st, _, hst, hretains, hfiles', hvisited.symm⟩
      · next hv =>
        obtain rfl := Option.some.inj h
        rw [hv] at hvisited
        exact hs.move hruns (.files rest) rfl ⟨before, st, _, hst, hretains, hfiles', hvisited.symm⟩
  | entries iter =>
    obtain ⟨⟨st, hst⟩, hiter⟩ := hphase
    cases iter with
    | none =>
      obtain rfl := Option.some.inj h
      exact hs.move hruns .done rfl ⟨st, hst⟩
    | some node =>
      obtain ⟨file, hfile, hnode⟩ := List.mem_map.mp (hiter node rfl)
      simp only [iterateRun] at h
      split at h
      · next file' hf =>
        have hcontains := hst.contains (List.mem_of_find?_eq_some hf)
        rw [if_neg (by simp [hcontains])] at h
        obtain rfl := Option.some.inj h
        refine hs.move hruns (.entries (next s.sync.openedFiles node)) rfl ⟨⟨st, hst⟩, fun n hn => ?_⟩
        exact (mem_next hst.mirror.nodes hn).1
      · next hf =>
        have := List.find?_eq_none.mp hf file hfile
        simp [hnode] at this
  | _ => cases h

theorem Settling.resume (hs : Settling layout XXH64 contents s) (hserial : Serial s) {i : Nat} {run : Run}
    (hr : s.runs[i]? = some run) (h : resumeRun s i run = some s') : Settling layout XXH64 contents s' := by
  have hpc : run.pc ≠ .done := by
    intro hdone
    simp [resumeRun, hdone] at h
  obtain ⟨runs, hruns, rfl⟩ := hserial.eq_last hr hpc
  have hphase := hs.last runs run hruns
  obtain ⟨fileData, pc⟩ := run
  cases pc with
  | sending rest =>
    obtain rfl := Option.some.inj h
    exact hs.move hruns (.files rest) rfl hphase
  | closing node => exact hphase.elim
  | _ => cases h

/-- The step lemma. -/
theorem settling_step (hs : Settling layout XXH64 contents s) (hhash : ∀ name, Set.InjOn XXH64 (contents name))
    {a : SyncStep} (htext : ∀ fileData, a = .start fileData → ∀ f ∈ fileData.files, f.2.contents ∈ contents f.1)
    (hserial : Serial s) (hserial' : Serial s') (h : syncStep layout XXH64 s a = some s') :
    Settling layout XXH64 contents s' := by
  obtain ⟨-, ⟨fileData, ha, -, rfl⟩ | ⟨i, run, -, -, hr, h⟩ | ⟨i, run, -, -, hr, h⟩⟩ := syncStep_cases h
  · exact hs.start (htext fileData ha) rfl rfl hserial'
  · exact hs.resume hserial hr h
  · exact hs.iterate hhash hserial hr h

/-- A step sends at the end of what was sent. -/
theorem sent_prefix_step {a : SyncStep} (h : syncStep layout XXH64 s a = some s') :
    s.sync.sent <+: s'.sync.sent := by
  obtain hsync | ⟨filename, filedata, hvisit⟩ | ⟨file, -, hsync⟩ | ⟨node, hsync⟩ | hsync := syncStep_sync h
  · exact hsync ▸ List.prefix_rfl
  · obtain ⟨-, -, hsync⟩ | ⟨-, languageId, -, hsync⟩ | ⟨pos, -, -, -, hsync⟩ := visitFile_cases hvisit
    · exact hsync ▸ List.prefix_rfl
    · exact hsync ▸ List.prefix_append _ _
    · exact hsync ▸ List.prefix_append _ _
  · exact hsync ▸ List.prefix_append _ _
  · rw [hsync, eraseFile]
    split <;> exact List.prefix_rfl
  · exact hsync ▸ List.prefix_rfl

def SyncStep.fileData? : SyncStep → Option FileDataMap
  | .start fileData => some fileData
  | _ => none

theorem map_fileData_set {runs : List Run} {i : Nat} {run : Run} (hr : runs[i]? = some run) (pc : Pc) :
    (runs.set i { run with pc }).map Run.fileData = runs.map Run.fileData := by
  apply List.ext_getElem?
  intro j
  rw [List.getElem?_map, List.getElem?_map, List.getElem?_set]
  split
  · next heq =>
    rw [← heq, hr, if_pos (List.getElem?_eq_some_iff.mp hr).1]
    rfl
  · rfl

/-- The runs keep the requests they were started for. -/
theorem fileData_step {a : SyncStep} (h : syncStep layout XXH64 s a = some s') :
    s'.runs.map Run.fileData = s.runs.map Run.fileData ++ a.fileData?.toList := by
  obtain ⟨-, ⟨fileData, rfl, -, rfl⟩ | ⟨i, run, rfl, -, hr, h⟩ | ⟨i, run, rfl, -, hr, h⟩⟩ := syncStep_cases h
  · exact List.map_append
  · change _ = _ ++ []
    rw [List.append_nil]
    unfold resumeRun at h
    split at h
    · exact Option.some.inj h ▸ map_fileData_set hr _
    · exact Option.some.inj h ▸ map_fileData_set hr _
    · cases h
  · change _ = _ ++ []
    rw [List.append_nil]
    unfold iterateRun at h
    split at h
    · split at h
      · exact Option.some.inj h ▸ map_fileData_set hr _
      · exact Option.some.inj h ▸ map_fileData_set hr _
    · exact Option.some.inj h ▸ map_fileData_set hr _
    · split at h
      · split at h
        · exact Option.some.inj h ▸ map_fileData_set hr _
        · exact Option.some.inj h ▸ map_fileData_set hr _
      · exact Option.some.inj h ▸ rfl
    · exact Option.some.inj h ▸ map_fileData_set hr _
    · cases h

end Ycmd.Clangd
