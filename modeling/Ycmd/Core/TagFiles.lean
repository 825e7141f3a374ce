import Ycmd.Lib.LastWriter
import Ycmd.Lib.Lockstep
import Ycmd.Core.IdentifierCompleter
import Ycmd.Core.IdentifierRuns

/-! Tag files that are added to the database one after the other: each takes the place of what is stored for
the source files it mentions. -/
namespace Ycmd.Core
open Lib IdentifierDatabase
namespace TagFiles

section Statement
variable (env : Environment) (weaklyCanonical : Bytes → Bytes) (files : Files)

/-- The tag file lists the identifier for a source file. -/
def Lists (filetype t tagFile path : Bytes) : Prop :=
  t ∈ identifiersOf (extractIdentifiersFromTagsFile weaklyCanonical files tagFile) filetype path

/-- The tag file has some identifier for a source file. -/
def Mentions (filetype tagFile path : Bytes) : Prop :=
  identifiersOf (extractIdentifiersFromTagsFile weaklyCanonical files tagFile) filetype path ≠ []

/-- What the tag files list decodes. -/
def AllDecodable (tagFiles : List Bytes) : Prop :=
  ∀ tagFile ∈ tagFiles, ∀ filetype t path, Lists weaklyCanonical files filetype t tagFile path → Decodable t

/-- The database has stored the identifier for a source file. -/
def Stored (db : IdentifierDatabase) (filetype t path : Bytes) : Prop :=
  ∃ candidate ∈ candidateSet db.1 filetype path, candidate.text = t

/-- A tag file lists the identifier, or it is stored already. -/
def Available (db : IdentifierDatabase) (tagFiles : List Bytes) (filetype t : Bytes) : Prop :=
  t ≠ [] ∧ t.length ≤ 80 ∧
    ((∃ tagFile ∈ tagFiles, ∃ path, Lists weaklyCanonical files filetype t tagFile path) ∨
      ∃ path, Stored db filetype t path)

/-- After the tag files are added the empty query returns the identifier. -/
def Answered (db : IdentifierDatabase) (tagFiles : List Bytes) (filetype t : Bytes) : Prop :=
  ∃ db' answers db'',
    IdentifierCompleter.addIdentifiersToDatabaseFromTagFiles env weaklyCanonical files tagFiles db = .ok () db' ∧
    IdentifierCompleter.candidatesForQueryAndType env [] filetype 0 db' = .ok answers db'' ∧ t ∈ answers

/-- Adding tag files loses nothing, and their order does not matter. -/
structure OnlyAdds (db : IdentifierDatabase) (tagFiles : List Bytes) : Prop where
  adds : ∀ filetype t, Available weaklyCanonical files db tagFiles filetype t →
    Answered env weaklyCanonical files db tagFiles filetype t
  order : ∀ tagFiles', tagFiles'.Perm tagFiles → ∀ filetype t,
    Answered env weaklyCanonical files db tagFiles' filetype t ↔ Answered env weaklyCanonical files db tagFiles filetype t

/-- The identifier is stored for a source file that no tag file mentions, or some of the tag files list it for
source files that no other tag file mentions. -/
def Kept (db : IdentifierDatabase) (tagFiles : List Bytes) (filetype t : Bytes) : Prop :=
  (∃ path, Stored db filetype t path ∧ ∀ tagFile ∈ tagFiles, ¬ Mentions weaklyCanonical files filetype tagFile path) ∨
    ∃ kernel, Kernel (Mentions weaklyCanonical files filetype) (Lists weaklyCanonical files filetype t) tagFiles kernel

end Statement

variable {env : Environment} {weaklyCanonical : Bytes → Bytes} {files : Files} {db : IdentifierDatabase}
  {tagFiles : List Bytes} {filetype t : Bytes}

theorem mentions_of_lists {tagFile path : Bytes} (h : Lists weaklyCanonical files filetype t tagFile path) :
    Mentions weaklyCanonical files filetype tagFile path := List.ne_nil_of_mem h

theorem mentions_iff {tagFile path : Bytes} :
    Mentions weaklyCanonical files filetype tagFile path ↔
      ∃ t, Lists weaklyCanonical files filetype t tagFile path := by
  constructor
  · exact List.exists_mem_of_ne_nil _
  · rintro ⟨t, hlists⟩
    exact mentions_of_lists hlists

/-- A tag file lists what its lines record. -/
theorem lists_iff {tagFile path : Bytes} :
    Lists weaklyCanonical files filetype t tagFile path ↔
      ⟨filetype, path, t⟩ ∈ (readUtf8File files tagFile).filterMap (tagRecord weaklyCanonical tagFile) := by
  have hempty : identifiersOf ∅ filetype path = [] := by simp [identifiersOf_eq]
  rw [Lists, extractIdentifiersFromTagsFile, extractIdentifiers, identifiersOf_foldl, hempty, List.nil_append,
    List.mem_map]
  constructor
  · rintro ⟨record, hrecord, rfl⟩
    obtain ⟨hmem, hkey⟩ := List.mem_filter.mp hrecord
    obtain ⟨rfl, rfl⟩ := of_decide_eq_true hkey
    exact hmem
  · intro hmem
    exact ⟨_, List.mem_filter.mpr ⟨hmem, decide_eq_true ⟨rfl, rfl⟩⟩, rfl⟩

theorem allDecodable_iff :
    AllDecodable weaklyCanonical files tagFiles ↔ ∀ tagFile ∈ tagFiles,
      ∀ record ∈ (readUtf8File files tagFile).filterMap (tagRecord weaklyCanonical tagFile),
        Decodable record.identifier := by
  simp only [AllDecodable, lists_iff]
  constructor
  · intro h tagFile hmem record hrecord
    exact h tagFile hmem record.filetype record.identifier record.path hrecord
  · intro h tagFile hmem filetype t path hrecord
    exact h tagFile hmem _ hrecord

/-- What one tag file leaves for a source file. -/
theorem mem_replaceAll (sets : IdentifierSets) (tagFile path : Bytes) :
    t ∈ sets.replaceAll (extractIdentifiersFromTagsFile weaklyCanonical files tagFile) filetype path ↔
      Lists weaklyCanonical files filetype t tagFile path ∨
        ¬ Mentions weaklyCanonical files filetype tagFile path ∧ t ∈ sets filetype path := by
  unfold Lists Mentions IdentifierSets.replaceAll
  rw [identifiersOf_eq]
  cases hl : ((extractIdentifiersFromTagsFile weaklyCanonical files tagFile).lookup filetype).bind
    (fun paths => paths.lookup path) with
  | none => simp
  | some identifiers => simp [extractIdentifiers_ne_nil hl]

/-- What tag files leave for a source file, one after the other. -/
theorem mem_foldl_replaceAll (sets : IdentifierSets) (tagFiles : List Bytes) (path : Bytes) :
    t ∈ tagFiles.foldl (fun sets tagFile =>
        sets.replaceAll (extractIdentifiersFromTagsFile weaklyCanonical files tagFile)) sets filetype path ↔
      LastGives (Mentions weaklyCanonical files filetype) (Lists weaklyCanonical files filetype t) tagFiles path ∨
        (∀ tagFile ∈ tagFiles, ¬ Mentions weaklyCanonical files filetype tagFile path) ∧ t ∈ sets filetype path := by
  induction tagFiles generalizing sets with
  | nil => simp [not_lastGives_nil]
  | cons tagFile tagFiles ih =>
    rw [List.foldl_cons, ih, mem_replaceAll, lastGives_cons, List.forall_mem_cons]
    tauto

/-- The sets of what is stored. -/
theorem refines_stored (h : Built env db) : Refines env (fun filetype path => {t | Stored db filetype t path}) db where
  sound := h.2
  built filetype path candidate hcandidate := (h.1 filetype path candidate hcandidate).1
  texts filetype path text := by
    have hshort : ∀ t, Stored db filetype t path → shorten t = t := by
      rintro t ⟨candidate, hcandidate, rfl⟩
      exact if_neg (by have := (h.1 filetype path candidate hcandidate).2; omega)
    constructor
    · intro hstored
      exact ⟨text, hstored, hshort text hstored⟩
    · rintro ⟨t, hstored, heq⟩
      rw [hshort t hstored] at heq
      exact heq ▸ hstored

/-- What a tag file lists is what its map has. -/
theorem exists_lists {tagFile : Bytes} (h : t ∈ (Operation.recreateIdentifiersFromMap
    (extractIdentifiersFromTagsFile weaklyCanonical files tagFile)).identifiers) :
    ∃ filetype path, Lists weaklyCanonical files filetype t tagFile path := by
  obtain ⟨entry, hentry, h⟩ := List.mem_flatMap.mp h
  obtain ⟨file, hfile, h⟩ := List.mem_flatMap.mp h
  refine ⟨entry.1, file.1, ?_⟩
  rw [Lists, identifiersOf, AList.mem_lookup_iff.mpr hentry, Option.getD_some, AList.mem_lookup_iff.mpr hfile,
    Option.getD_some]
  exact h

theorem addIdentifiersToDatabaseFromTagFiles_refines {sets : IdentifierSets} (h : Refines env sets db)
    (hdec : AllDecodable weaklyCanonical files tagFiles) :
    ∃ db', IdentifierCompleter.addIdentifiersToDatabaseFromTagFiles env weaklyCanonical files tagFiles db = .ok () db' ∧
      Refines env (tagFiles.foldl (fun sets tagFile =>
        sets.replaceAll (extractIdentifiersFromTagsFile weaklyCanonical files tagFile)) sets) db' := by
  apply forM_refines (h := h)
  intro tagFile hmem sets db h
  apply recreateIdentifiersFromMap_refines h
  intro identifier hidentifier
  obtain ⟨filetype, path, hlists⟩ := exists_lists hidentifier
  exact hdec tagFile hmem filetype identifier path hlists

section Answers
variable (h : Built env db) (hdec : AllDecodable weaklyCanonical files tagFiles)
include h hdec

/-- What the last tag file that mentions a source file lists for it is answered, and what is stored for a source
file that none mentions. -/
theorem answered_iff :
    Answered env weaklyCanonical files db tagFiles filetype t ↔
      t ≠ [] ∧ t.length ≤ 80 ∧
        ((∃ path, LastGives (Mentions weaklyCanonical files filetype) (Lists weaklyCanonical files filetype t)
            tagFiles path) ∨
          ∃ path, Stored db filetype t path ∧
            ∀ tagFile ∈ tagFiles, ¬ Mentions weaklyCanonical files filetype tagFile path) := by
  obtain ⟨db', hadd, hrefines⟩ := addIdentifiersToDatabaseFromTagFiles_refines (refines_stored h) hdec
  obtain ⟨results, db'', hresults, hanswers⟩ := hrefines.answers_nil filetype
  have hquery := (IdentifierCompleter.candidatesForQueryAndType_ok env).mpr ⟨results, hresults, rfl⟩
  have hunique : Answered env weaklyCanonical files db tagFiles filetype t ↔ t ∈ results.map Result.text := by
    constructor
    · rintro ⟨db₁, answers, db₂, hadd', hquery', hmem⟩
      rw [hadd] at hadd'
      obtain ⟨-, rfl⟩ := EStateM.Result.ok.inj hadd'
      rw [hquery] at hquery'
      obtain ⟨rfl, -⟩ := EStateM.Result.ok.inj hquery'
      exact hmem
    · intro hmem
      exact ⟨db', _, db'', hadd, hquery, hmem⟩
  rw [hunique, hanswers t, ← exists_or]
  simp only [mem_foldl_replaceAll, Set.mem_ofPred_eq, and_comm]

variable {order : List Bytes} (hperm : order.Perm tagFiles)
include hperm

/-- What is kept is answered whichever tag file comes last. -/
theorem answered_of_kept (havailable : Available weaklyCanonical files db tagFiles filetype t)
    (hkept : Kept weaklyCanonical files db tagFiles filetype t) :
    Answered env weaklyCanonical files db order filetype t := by
  rw [answered_iff h (fun tagFile hmem => hdec tagFile (hperm.subset hmem))]
  refine ⟨havailable.1, havailable.2.1, ?_⟩
  rcases hkept with ⟨path, hstored, hnone⟩ | ⟨kernel, hkernel⟩
  · exact .inr ⟨path, hstored, fun tagFile hmem => hnone tagFile (hperm.subset hmem)⟩
  · exact .inl (hkernel.lastGives hperm)

theorem available_of_answered (hanswered : Answered env weaklyCanonical files db order filetype t) :
    Available weaklyCanonical files db tagFiles filetype t := by
  rw [answered_iff h (fun tagFile hmem => hdec tagFile (hperm.subset hmem))] at hanswered
  obtain ⟨hne, hle, ⟨path, before, tagFile, after, rfl, hlists, -⟩ | ⟨path, hstored, -⟩⟩ := hanswered
  · exact ⟨hne, hle, .inl ⟨tagFile, hperm.subset (by simp), path, hlists⟩⟩
  · exact ⟨hne, hle, .inr ⟨path, hstored⟩⟩

end Answers

/-- What is answered in every order is kept. -/
theorem kept_of_answered (h : Built env db) (hdec : AllDecodable weaklyCanonical files tagFiles)
    (hanswered : ∀ order, order.Perm tagFiles → Answered env weaklyCanonical files db order filetype t) :
    Kept weaklyCanonical files db tagFiles filetype t := by
  by_cases hstored : ∃ path, Stored db filetype t path ∧
      ∀ tagFile ∈ tagFiles, ¬ Mentions weaklyCanonical files filetype tagFile path
  · exact .inl hstored
  · refine .inr ((lastGives_every_order_iff (fun tagFile path => mentions_of_lists)).mp ?_)
    intro order hperm
    have horder := (answered_iff h (fun tagFile hmem => hdec tagFile (hperm.subset hmem))).mp (hanswered order hperm)
    apply horder.2.2.resolve_right
    rintro ⟨path, hpath, hnone⟩
    exact hstored ⟨path, hpath, fun tagFile hmem => hnone tagFile (hperm.mem_iff.mpr hmem)⟩

/-- Tag files that share no source file, with each other or with what is stored, keep everything. -/
theorem kept_of_disjoint
    (hdisjoint : ∀ tagFile ∈ tagFiles, ∀ tagFile' ∈ tagFiles, ∀ path,
      Mentions weaklyCanonical files filetype tagFile path → Mentions weaklyCanonical files filetype tagFile' path →
        tagFile' = tagFile)
    (hfresh : ∀ tagFile ∈ tagFiles, ∀ path, Stored db filetype t path →
      ¬ Mentions weaklyCanonical files filetype tagFile path)
    (havailable : Available weaklyCanonical files db tagFiles filetype t) :
    Kept weaklyCanonical files db tagFiles filetype t := by
  rcases havailable.2.2 with ⟨tagFile, hmem, path, hlists⟩ | ⟨path, hstored⟩
  · refine .inr ⟨{tagFile}, ⟨tagFile, hmem, rfl⟩, ?_⟩
    rintro _ - rfl
    refine ⟨path, hlists, ?_⟩
    intro tagFile' hmem' hmentions
    exact hdisjoint _ hmem tagFile' hmem' path (mentions_of_lists hlists) hmentions
  · exact .inl ⟨path, hstored, fun tagFile hmem => hfresh tagFile hmem path hstored⟩

/-- After any run, adding tag files loses nothing and does not depend on their order exactly when every identifier
is stored for a source file that none of them mentions, or listed by some of them for source files of their
own. -/
theorem only_adds_iff (weaklyCanonical : Bytes → Bytes) (files : Files) (tagFiles : List Bytes)
    (h : Reachable env db) (hdec : AllDecodable weaklyCanonical files tagFiles) :
    OnlyAdds env weaklyCanonical files db tagFiles ↔
      ∀ filetype t, Available weaklyCanonical files db tagFiles filetype t →
        Kept weaklyCanonical files db tagFiles filetype t := by
  constructor
  · rintro ⟨hadds, horder⟩ filetype t havailable
    apply kept_of_answered h.built hdec
    intro order hperm
    exact (horder order hperm filetype t).mpr (hadds filetype t havailable)
  · intro hkept
    refine ⟨?_, ?_⟩
    · intro filetype t havailable
      exact answered_of_kept h.built hdec (.refl tagFiles) havailable (hkept filetype t havailable)
    · intro order hperm filetype t
      constructor
      · intro hanswered
        have havailable := available_of_answered h.built hdec hperm hanswered
        exact answered_of_kept h.built hdec (.refl tagFiles) havailable (hkept filetype t havailable)
      · intro hanswered
        have havailable := available_of_answered h.built hdec (.refl tagFiles) hanswered
        exact answered_of_kept h.built hdec hperm havailable (hkept filetype t havailable)

/-- A tag file of one line. -/
def tagsOf (name file : Bytes) : Bytes := name ++ TAB :: (file ++ ascii "\t0;\"\tlanguage:C++\n")

/-- Two tag files with a name each. -/
def twoTagFiles (file file' : Bytes) : Files := fun path =>
  if path = ascii "/t" then some (tagsOf (ascii "Ab") file)
  else if path = ascii "/u" then some (tagsOf (ascii "Ac") file')
  else none

theorem only_adds_iff_disjoint :
    OnlyAdds letterEnvironment id (twoTagFiles (ascii "f") (ascii "g")) .empty [ascii "/t", ascii "/u"] ∧
    (OnlyAdds letterEnvironment id (twoTagFiles (ascii "f") (ascii "g")) .empty [ascii "/t", ascii "/u"] ↔
      ∀ filetype t, Available id (twoTagFiles (ascii "f") (ascii "g")) .empty [ascii "/t", ascii "/u"] filetype t →
        Kept id (twoTagFiles (ascii "f") (ascii "g")) .empty [ascii "/t", ascii "/u"] filetype t) := by
  have hdec : AllDecodable id (twoTagFiles (ascii "f") (ascii "g")) [ascii "/t", ascii "/u"] :=
    allDecodable_iff.mpr (by decide +kernel)
  have hiff := only_adds_iff id (twoTagFiles (ascii "f") (ascii "g")) [ascii "/t", ascii "/u"]
    (Reachable.empty : Reachable letterEnvironment .empty) hdec
  refine ⟨hiff.mpr (fun filetype t => kept_of_disjoint ?_ ?_), hiff⟩
  · have hpaths : ∀ tagFile ∈ [ascii "/t", ascii "/u"], ∀ tagFile' ∈ [ascii "/t", ascii "/u"],
        ∀ record ∈ (readUtf8File (twoTagFiles (ascii "f") (ascii "g")) tagFile).filterMap (tagRecord id tagFile),
        ∀ record' ∈ (readUtf8File (twoTagFiles (ascii "f") (ascii "g")) tagFile').filterMap (tagRecord id tagFile'),
          record.path = record'.path → tagFile' = tagFile := by
      decide +kernel
    intro tagFile hmem tagFile' hmem' path hmentions hmentions'
    obtain ⟨t, hlists⟩ := mentions_iff.mp hmentions
    obtain ⟨t', hlists'⟩ := mentions_iff.mp hmentions'
    exact hpaths tagFile hmem tagFile' hmem' _ (lists_iff.mp hlists) _ (lists_iff.mp hlists') rfl
  · rintro tagFile - path ⟨candidate, hcandidate, -⟩
    simp [empty, candidateSet] at hcandidate

/-- The answers to the empty query once tag files are added to nothing. -/
def answersAfter (files : Files) (tagFiles : List Bytes) : Except Failure (List Bytes) :=
  (outcome ((do
    IdentifierCompleter.addIdentifiersToDatabaseFromTagFiles letterEnvironment id files tagFiles
    IdentifierCompleter.candidatesForQueryAndType letterEnvironment [] (ascii "cpp") 0 : DatabaseM (List Bytes))
      .empty)).1

theorem answersAfter_of_answered {tagFiles : List Bytes}
    (h : Answered letterEnvironment id files .empty tagFiles (ascii "cpp") t) :
    ∃ answers, answersAfter files tagFiles = .ok answers ∧ t ∈ answers := by
  obtain ⟨db', answers, db'', hadd, hquery, hmem⟩ := h
  refine ⟨answers, ?_, hmem⟩
  simp only [answersAfter, bind, EStateM.bind, hadd, hquery, outcome]

/-- Of two tag files that name the same source file only the later one is left. -/
theorem first_tag_file_lost :
    AllDecodable id (twoTagFiles (ascii "f") (ascii "f")) [ascii "/t", ascii "/u"] ∧
    Lists id (twoTagFiles (ascii "f") (ascii "f")) (ascii "cpp") (ascii "Ab") (ascii "/t") (ascii "/f") ∧
    answersAfter (twoTagFiles (ascii "f") (ascii "f")) [ascii "/t", ascii "/u"] = .ok [ascii "Ac"] ∧
    answersAfter (twoTagFiles (ascii "f") (ascii "f")) [ascii "/u", ascii "/t"] = .ok [ascii "Ab"] ∧
    ¬ OnlyAdds letterEnvironment id (twoTagFiles (ascii "f") (ascii "f")) .empty [ascii "/t", ascii "/u"] := by
  have hlists : Lists id (twoTagFiles (ascii "f") (ascii "f")) (ascii "cpp") (ascii "Ab") (ascii "/t") (ascii "/f") :=
    lists_iff.mpr (by decide +kernel)
  have hanswers : answersAfter (twoTagFiles (ascii "f") (ascii "f")) [ascii "/t", ascii "/u"] = .ok [ascii "Ac"] := by
    decide +kernel
  refine ⟨allDecodable_iff.mpr (by decide +kernel), hlists, hanswers, by decide +kernel, ?_⟩
  intro h
  have hanswered := h.adds (ascii "cpp") (ascii "Ab")
    ⟨by decide, by decide, .inl ⟨_, List.mem_cons_self, _, hlists⟩⟩
  obtain ⟨answers, hafter, hmem⟩ := answersAfter_of_answered hanswered
  rw [hanswers] at hafter
  obtain rfl := Except.ok.inj hafter
  exact absurd hmem (by decide)

end TagFiles
end Ycmd.Core
