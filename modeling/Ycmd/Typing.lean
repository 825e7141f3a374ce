import Ycmd.RequestWrap

/-! What typing at the cursor does to the query and to where it starts. -/
namespace Ycmd.RequestWrapper
open Lib Clangd

variable {text : TextLibrary} {classes : CharacterClasses} {req req' : SimpleRequest} {file file' : FileData}
  {before typed after after' : List Char}

/-- The character can begin an identifier. -/
abbrev Begins (classes : CharacterClasses) (c : Char) : Prop := (defaultIdentifierRegex classes).first c = true

theorem queryText_append (h : ∀ c ∈ typed, Begins classes c) :
    queryText classes (before ++ typed) = queryText classes before ++ typed :=
  Pattern.rtakeWhile_append_of_pos h

theorem prefixText_append (h : ∀ c ∈ typed, Begins classes c) :
    prefixText classes (before ++ typed) = prefixText classes before := by
  have hsplit := prefixText_append_queryText classes (before ++ typed)
  rw [queryText_append h, ← List.append_assoc] at hsplit
  have hbefore := List.append_cancel_right hsplit
  exact List.append_cancel_right (hbefore.trans (prefixText_append_queryText classes before).symm)

/-- The last character that begins no identifier ends what is before the query. -/
theorem queryText_append_of_not (h : ∃ c ∈ typed, ¬ Begins classes c) :
    queryText classes (before ++ typed) = queryText classes typed := by
  induction typed using List.reverseRecOn with
  | nil => simp at h
  | append_singleton typed c ih =>
    by_cases hc : Begins classes c
    · obtain ⟨b, hb, hnot⟩ := h
      have hmem : b ∈ typed := by
        rcases List.mem_append.mp hb with hb | hb
        · exact hb
        · rw [List.mem_singleton.mp hb] at hnot
          exact absurd hc hnot
      have hsingle : ∀ a ∈ [c], Begins classes a := by simpa using hc
      rw [← List.append_assoc, queryText_append hsingle, queryText_append hsingle, ih ⟨b, hmem, hnot⟩]
    · rw [← List.append_assoc, queryText, queryText, List.rtakeWhile_concat_neg _ _ _ hc,
        List.rtakeWhile_concat_neg _ _ _ hc]

theorem length_queryText_lt (h : ∃ c ∈ typed, ¬ Begins classes c) :
    (queryText classes typed).length < typed.length := by
  have hsuffix : queryText classes typed <:+ typed := List.rtakeWhile_suffix _ _
  refine lt_of_le_of_ne hsuffix.length_le (fun hlength => ?_)
  obtain ⟨c, hc, hnot⟩ := h
  rw [← hsuffix.eq_of_length hlength] at hc
  exact hnot (List.mem_rtakeWhile_imp hc)

/-- The query starts where it did and ends with what has been typed. -/
structure Grows (text : TextLibrary) (classes : CharacterClasses) (req req' : SimpleRequest) (typed : List Char) :
    Prop where
  startCodepoint : ∃ start, startCodepoint text classes req = .ok start ∧ startCodepoint text classes req' = .ok start
  query : ∃ part part', query text classes req = .ok part ∧ query text classes req' = .ok part' ∧
    part'.elems = part.elems ++ typed
  startColumn : (∃ part, RequestWrapper.query text classes req = .ok part ∧ part.elems ≠ []) →
    ∃ column, startColumn text classes req = .ok column ∧ startColumn text classes req' = .ok column

/-- The query starts behind the place where it ended, in what has been typed. -/
structure Restarts (text : TextLibrary) (classes : CharacterClasses) (req req' : SimpleRequest) (typed : List Char) :
    Prop where
  startCodepoint : ∃ column start, columnCodepoint text req = .ok column ∧
    startCodepoint text classes req' = .ok start ∧ column < start
  query : ∃ part, query text classes req' = .ok part ∧ part.elems <:+ typed ∧ part.elems.length < typed.length

theorem CursorAt.grows (h : CursorAt req file before after) (h' : CursorAt req' file' (before ++ typed) after')
    (hfiletypes : file.filetypes ≠ []) (hfiletypes' : file'.filetypes ≠ []) (hbegins : ∀ c ∈ typed, Begins classes c) :
    Grows text classes req req' typed := by
  obtain ⟨part, hpart, helems⟩ := h.query_eq text classes hfiletypes
  obtain ⟨part', hpart', helems'⟩ := h'.query_eq text classes hfiletypes'
  refine ⟨⟨_, h.startCodepoint_eq text classes hfiletypes, ?_⟩, ⟨part, part', hpart, hpart', ?_⟩, ?_⟩
  · rw [h'.startCodepoint_eq text classes hfiletypes', prefixText_append hbegins]
  · rw [helems', helems, queryText_append hbegins]
  · rintro ⟨found, hfound, hne⟩
    obtain rfl := Except.ok.inj (hpart.symm.trans hfound)
    rw [helems] at hne
    obtain ⟨c, rest, hcons⟩ := List.exists_cons_of_ne_nil hne
    refine ⟨_, h.startColumn_of_cons text hfiletypes (by rw [hcons, List.cons_append]), ?_⟩
    have hcons' : queryText classes (before ++ typed) = c :: (rest ++ typed) := by
      rw [queryText_append hbegins, hcons, List.cons_append]
    rw [h'.startColumn_of_cons text hfiletypes' (by rw [hcons', List.cons_append]), prefixText_append hbegins]

theorem CursorAt.restarts (h : CursorAt req file before after) (h' : CursorAt req' file' (before ++ typed) after')
    (hfiletypes' : file'.filetypes ≠ []) (hnot : ∃ c ∈ typed, ¬ Begins classes c) :
    Restarts text classes req req' typed := by
  obtain ⟨part, hpart, helems⟩ := h'.query_eq text classes hfiletypes'
  rw [queryText_append_of_not hnot] at helems
  have hlt := length_queryText_lt hnot
  refine ⟨⟨_, _, h.columnCodepoint_eq text, h'.startCodepoint_eq text classes hfiletypes', ?_⟩, part, hpart, ?_, ?_⟩
  · have hsum := length_prefixText_add classes (before ++ typed)
    rw [queryText_append_of_not hnot, List.length_append] at hsum
    omega
  · rw [helems]
    exact List.rtakeWhile_suffix _ _
  · rw [helems]
    exact hlt

/-- Typing characters that can begin an identifier lets the query grow; typing any other, a digit
too, lets it start anew behind that one. -/
theorem typing_grows_or_restarts (text : TextLibrary) (classes : CharacterClasses) (req req' : SimpleRequest)
    (file file' : FileData) (before typed after after' : List Char) (h : CursorAt req file before after)
    (h' : CursorAt req' file' (before ++ typed) after') (hfiletypes : file.filetypes ≠ [])
    (hfiletypes' : file'.filetypes ≠ []) :
    (Grows text classes req req' typed ↔ ∀ c ∈ typed, Begins classes c) ∧
      (Restarts text classes req req' typed ↔ ∃ c ∈ typed, ¬ Begins classes c) := by
  have hexclusive : Grows text classes req req' typed → ¬ Restarts text classes req req' typed := by
    intro hgrows hrestarts
    obtain ⟨part, part', -, hpart', helems⟩ := hgrows.query
    obtain ⟨found, hfound, -, hlt⟩ := hrestarts.query
    obtain rfl := Except.ok.inj (hpart'.symm.trans hfound)
    rw [helems, List.length_append] at hlt
    omega
  constructor
  · constructor
    · intro hgrows
      by_contra hall
      simp only [not_forall] at hall
      obtain ⟨c, hc, hnot⟩ := hall
      exact hexclusive hgrows (h.restarts h' hfiletypes' ⟨c, hc, hnot⟩)
    · exact h.grows h' hfiletypes hfiletypes'
  · constructor
    · intro hrestarts
      by_contra hnone
      simp only [not_exists, not_and, not_not] at hnone
      exact hexclusive (h.grows h' hfiletypes hfiletypes' hnone) hrestarts
    · exact h.restarts h' hfiletypes'

/-- A letter typed after a word goes into the query. -/
theorem typing_grows_or_restarts_letter :
    (Grows .leading asciiClasses (requestIn "x.a" 4) (requestIn "x.ab" 5) ['b'] ↔
      ∀ c ∈ ['b'], Begins asciiClasses c) ∧
    (Restarts .leading asciiClasses (requestIn "x.a" 4) (requestIn "x.ab" 5) ['b'] ↔
      ∃ c ∈ ['b'], ¬ Begins asciiClasses c) :=
  typing_grows_or_restarts .leading asciiClasses _ _ _ _ "x.a".toList ['b'] [] []
    (cursorAt_requestIn "x.a" "x.a".toList [] (by decide) (by decide) (by decide))
    (cursorAt_requestIn "x.ab" "x.ab".toList [] (by decide) (by decide) (by decide)) (by decide) (by decide)

end Ycmd.RequestWrapper
