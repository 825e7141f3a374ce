import Ycmd.JsonRecords
import Ycmd.Clangd.Sync
import Mathlib.Data.Bool.Basic
import Mathlib.Data.Char
import Mathlib.Data.List.Lex
import Mathlib.Data.List.Perm.Basic
import Mathlib.Data.List.Sort
import Mathlib.Data.Prod.Lex

/-! `SimpleRequest::FileDataMap`: the files of a request in the order of their paths, as a JSON object
whose members are in the order of their names. -/
namespace Ycmd.Api
open Lib
open Clangd (FilePath FileData)

def FileData.fields : List (Field FileData) := [
  .defaulted "filetypes" (·.filetypes) (fun v t => { t with filetypes := v }) ⟨[], ""⟩,
  .defaulted "contents" (·.contents) (fun v t => { t with contents := v }) ⟨[], ""⟩]

instance : ToJson FileData := ⟨writeFields FileData.fields⟩
instance : FromJson FileData := ⟨fun j => readFields FileData.fields j ⟨[], ""⟩⟩

instance : Record FileData where
  fields := FileData.fields
  initial := ⟨[], ""⟩

instance : AlwaysValid FileData := ⟨fun _ => Record.valid_iff.mpr (by simp [Record.fields, FileData.fields])⟩

/-- `path::compare` goes by the root directory, then name by name. -/
def compared (path : FilePath) : Bool ×ₗ List (List Char) := toLex path.elements

def before (f g : FilePath × FileData) : Prop := compared f.1 ≤ compared g.1

instance : DecidableRel before := fun f g => inferInstanceAs (Decidable (compared f.1 ≤ compared g.1))
instance : Std.Total before := ⟨fun f g => le_total (compared f.1) (compared g.1)⟩
instance : IsTrans (FilePath × FileData) before := ⟨fun _ _ _ => le_trans⟩

/-- The map with its entries in order. -/
structure FileDataMap extends Clangd.FileDataMap where
  ordered : files.Pairwise before

namespace FileDataMap

theorem nodup_nil : (([] : List (FilePath × FileData)).map (fun f => f.1.elements)).Nodup := List.nodup_nil

theorem ordered_nil : ([] : List (FilePath × FileData)).Pairwise before := List.Pairwise.nil

def empty : FileDataMap := ⟨⟨[], nodup_nil⟩, ordered_nil⟩

/-- An entry is put in its place, unless there is one for the same path. -/
def insert (m : FileDataMap) (f : FilePath × FileData) : FileDataMap :=
  if h : m.contains f.1 then m
  else {
    files := m.files.orderedInsert before f
    nodup := by
      rw [((List.perm_orderedInsert _ f m.files).map _).nodup_iff, List.map_cons, List.nodup_cons]
      refine ⟨fun hmem => h ?_, m.nodup⟩
      obtain ⟨g, hg, hpath⟩ := List.mem_map.mp hmem
      exact List.any_eq_true.mpr ⟨g, hg, decide_eq_true hpath⟩
    ordered := m.ordered.orderedInsert f m.files }

/-- No two entries are the same path, so the order they are inserted in does not matter. -/
theorem eq_of_perm {m m' : FileDataMap} (h : m.files.Perm m'.files) : m = m' := by
  have hfiles : m.files = m'.files := by
    refine h.eq_of_pairwise ?_ m.ordered m'.ordered
    intro f g hf hg hfg hgf
    have hpath : compared f.1 = compared g.1 := le_antisymm hfg hgf
    exact List.inj_on_of_nodup_map m'.nodup (h.mem_iff.mp hf) hg (toLex.injective hpath)
  obtain ⟨⟨files, nodup⟩, ordered⟩ := m
  obtain ⟨⟨files', nodup'⟩, ordered'⟩ := m'
  obtain rfl : files = files' := hfiles
  rfl

theorem files_insert {m : FileDataMap} {f : FilePath × FileData}
    (h : f.1.elements ∉ m.files.map (fun g => g.1.elements)) : (m.insert f).files.Perm (f :: m.files) := by
  have hnew : ¬ m.contains f.1 = true := by
    intro hcontains
    obtain ⟨g, hg, hpath⟩ := List.any_eq_true.mp hcontains
    exact h (List.mem_map.mpr ⟨g, hg, of_decide_eq_true hpath⟩)
  rw [insert, dif_neg hnew]
  exact List.perm_orderedInsert before f m.files

theorem files_foldl_insert {m : FileDataMap} {entries : List (FilePath × FileData)}
    (h : ((entries ++ m.files).map (fun f => f.1.elements)).Nodup) :
    (entries.foldl insert m).files.Perm (entries ++ m.files) := by
  induction entries generalizing m with
  | nil => exact List.Perm.refl _
  | cons f entries ih =>
    rw [List.cons_append, List.map_cons, List.nodup_cons] at h
    have hinsert : (m.insert f).files.Perm (f :: m.files) := by
      refine files_insert (fun hmem => h.1 ?_)
      rw [List.map_append]
      exact List.mem_append_right _ hmem
    have hperm : (entries ++ (m.insert f).files).Perm (f :: entries ++ m.files) :=
      (hinsert.append_left entries).trans List.perm_middle
    refine (ih ?_).trans hperm
    rw [(hperm.map _).nodup_iff]
    exact List.nodup_cons.mpr h

end FileDataMap

instance : ToJson FileDataMap where
  toJson m := .obj (m.files.foldl (fun members f => Json.insertMember f.1 (toJson f.2) members) [])

instance : FromJson FileDataMap where
  fromJson
    | .obj members => do
      let entries ← members.mapM (fun p => (fun v => (p.1, v)) <$> fromJson p.2)
      pure (entries.foldl FileDataMap.insert .empty)
    | j => .error (j.typeMustBe "object")

/-- The object's members are the entries of the map, whatever order the paths have as strings. -/
theorem members_perm {files : List (FilePath × FileData)} {members : List (String × Json)}
    (h : (members.map Prod.fst ++ files.map Prod.fst).Nodup) :
    (files.foldl (fun members f => Json.insertMember f.1 (toJson f.2) members) members).Perm
      (members ++ files.map (fun f => (f.1, toJson f.2))) := by
  induction files generalizing members with
  | nil => simp
  | cons f files ih =>
    have hnew : f.1 ∉ members.map Prod.fst := fun hmem =>
      (List.nodup_append.mp h).2.2 f.1 hmem f.1 List.mem_cons_self rfl
    have hinsert := Json.insertMember_perm (toJson f.2) hnew
    have hperm : (Json.insertMember f.1 (toJson f.2) members ++ files.map (fun f => (f.1, toJson f.2))).Perm
        (members ++ (f :: files).map (fun f => (f.1, toJson f.2))) :=
      (hinsert.append_right _).trans List.perm_middle.symm
    refine (ih ?_).trans hperm
    refine (List.Perm.nodup_iff ?_).mpr h
    exact ((hinsert.map Prod.fst).append_right _).trans List.perm_middle.symm

instance : LawfulJson FileDataMap where
  Valid _ := True
  fromJson_toJson {m} _ := by
    have hpaths : (m.files.map Prod.fst).Nodup := by
      apply List.Nodup.of_map Clangd.FilePath.elements
      rw [List.map_map]
      exact m.nodup
    have hmembers : (m.files.foldl (fun members f => Json.insertMember f.1 (toJson f.2) members) []).Perm
        (m.files.map (fun f => (f.1, toJson f.2))) := members_perm hpaths
    have hread : List.Forall₂
        (fun p f => (fun v => (p.1, v)) <$> fromJson p.2 = (.ok f : Decode (FilePath × FileData)))
        (m.files.map (fun f => (f.1, toJson f.2))) m.files := by
      rw [List.forall₂_map_left_iff, List.forall₂_same]
      intro f _
      rw [LawfulJson.fromJson_toJson (AlwaysValid.valid f.2)]
      rfl
    obtain ⟨entries, hentries, hperm⟩ := List.perm_comp_forall₂ hmembers hread
    change (do
      let entries ← List.mapM _ _
      pure (entries.foldl FileDataMap.insert .empty)) = Except.ok m
    rw [mapM_ok_iff.mpr hentries]
    refine congrArg Except.ok (FileDataMap.eq_of_perm ?_)
    have hentries : entries ++ FileDataMap.empty.files = entries := List.append_nil entries
    have hinserted : (entries.foldl FileDataMap.insert .empty).files.Perm (entries ++ FileDataMap.empty.files) := by
      apply FileDataMap.files_foldl_insert
      rw [hentries]
      exact (hperm.map _).nodup_iff.mpr m.nodup
    rw [hentries] at hinserted
    exact hinserted.trans hperm

instance : AlwaysValid FileDataMap := ⟨fun _ => trivial⟩
instance : NeverNull FileDataMap := ⟨fun _ => rfl⟩

end Ycmd.Api
