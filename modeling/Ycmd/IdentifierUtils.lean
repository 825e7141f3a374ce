import Ycmd.Lib.Pattern
import Ycmd.Lib.Utf8
import Ycmd.Lib.View
import Ycmd.Requests

/-! Identifiers in a buffer: those a regular expression finds, those around the cursor, and the one
that is being typed. -/
namespace Ycmd
open Lib Clangd

/-- The terminator of a `std::u32string`. -/
abbrev NUL : Char := Char.ofNat 0

/-- What the regular expression library takes for `\w` and for `\d`. -/
structure CharacterClasses where
  isWord : Char → Bool
  isDigit : Char → Bool

/-- `[^\W\d]\w*`. -/
def defaultIdentifierRegex (classes : CharacterClasses) : Pattern Char where
  first c := classes.isWord c && !classes.isDigit c
  rest := classes.isWord

/-- The regular expressions of particular filetypes; there are none yet. -/
def filetypeToIdentifierRegex : List (String × Pattern Char) := []

def identifierRegexForFiletype (classes : CharacterClasses) (filetype : String) : Pattern Char :=
  (filetypeToIdentifierRegex.lookup filetype).getD (defaultIdentifierRegex classes)

theorem length_firstLine_le (contents : Bytes) :
    (contents.takeWhile (· ≠ LF)).length ≤ (contents ++ [0]).length := by
  rw [List.length_append]
  exact Nat.le_add_right_of_le (List.takeWhile_prefix _).length_le

theorem length_otherLines_lt (b : UInt8) (contents : Bytes) :
    (((b :: contents).dropWhile (· ≠ LF)).drop 1).length < (b :: contents).length := by
  have := (List.dropWhile_suffix (· ≠ LF) (l := b :: contents)).length_le
  rw [List.length_drop, List.length_cons] at *
  omega

/-- The views between the line feeds of a text: none after the last when nothing follows it. -/
def splitLines : Bytes → List (View UInt8)
  | [] => []
  | b :: contents =>
    { memory := b :: contents ++ [0]
      size := ((b :: contents).takeWhile (· ≠ LF)).length
      bound := length_firstLine_le (b :: contents) } ::
        splitLines (((b :: contents).dropWhile (· ≠ LF)).drop 1)
termination_by contents => contents.length
decreasing_by exact length_otherLines_lt b contents

/-- Behind a line comes a line feed, or the terminator of the contents. -/
theorem memory_splitLines (contents : Bytes) :
    ∀ line ∈ splitLines contents, ∃ b memory, line.memory = line.elems ++ b :: memory ∧ (b = LF ∨ b = 0) := by
  induction contents using splitLines.induct with
  | case1 => simp [splitLines]
  | case2 b contents ih =>
    have hmemory : b :: contents ++ [0] =
        (b :: contents).takeWhile (· ≠ LF) ++ ((b :: contents).dropWhile (· ≠ LF) ++ [0]) := by
      rw [← List.append_assoc, List.takeWhile_append_dropWhile]
    rw [splitLines, List.forall_mem_cons]
    refine ⟨?_, ih⟩
    change ∃ b' memory, b :: contents ++ [0] =
      (b :: contents ++ [0]).take ((b :: contents).takeWhile (· ≠ LF)).length ++ b' :: memory ∧ _
    rw [hmemory, List.take_left]
    cases hrest : (b :: contents).dropWhile (· ≠ LF) with
    | nil => exact ⟨0, [], rfl, .inr rfl⟩
    | cons b' rest =>
      have hfeed := List.head?_dropWhile_not (· ≠ LF) (b :: contents)
      rw [hrest] at hfeed
      exact ⟨b', rest ++ [0], rfl, .inl (by simpa using hfeed)⟩

theorem splitLines_of_no_feed {contents : Bytes} (hne : contents ≠ []) (h : LF ∉ contents) :
    (splitLines contents).map View.elems = [contents] := by
  cases contents with
  | nil => exact absurd rfl hne
  | cons b contents =>
    have hall : ∀ a ∈ b :: contents, decide (a ≠ LF) = true := fun a ha => decide_eq_true (fun heq => h (heq ▸ ha))
    have htake := List.takeWhile_eq_self_iff.mpr hall
    rw [splitLines, List.dropWhile_eq_nil_iff.mpr hall, List.drop_nil, splitLines, List.map_singleton]
    refine congrArg (fun line => [line]) ?_
    change (b :: contents ++ [0]).take ((b :: contents).takeWhile (· ≠ LF)).length = _
    rw [htake, List.take_left]

theorem LF_mem_utf8EncodeChar {c : Char} (h : LF ∈ String.utf8EncodeChar c) : c = Char.ofNat 10 := by
  have hc : c.toNat = 10 := toNat_of_mem_utf8EncodeChar (by decide) h
  rw [← hc]
  exact c.ofNat_toNat.symm

theorem takeWhile_utf8 (text : List Char) :
    (utf8 text).takeWhile (· ≠ LF) = utf8 (text.takeWhile (· ≠ Char.ofNat 10)) ∧
      ((utf8 text).dropWhile (· ≠ LF)).drop 1 = utf8 ((text.dropWhile (· ≠ Char.ofNat 10)).drop 1) := by
  induction text with
  | nil => exact ⟨rfl, rfl⟩
  | cons c text ih =>
    by_cases hc : c = Char.ofNat 10
    · subst hc
      have hfeed : String.utf8EncodeChar (Char.ofNat 10) = [LF] := by decide
      rw [utf8_cons, hfeed]
      simp
    · have hno : ∀ b ∈ String.utf8EncodeChar c, decide (b ≠ LF) = true :=
        fun b hb => decide_eq_true (fun heq => hc (LF_mem_utf8EncodeChar (heq ▸ hb)))
      have hpos : decide (c ≠ Char.ofNat 10) = true := decide_eq_true hc
      rw [utf8_cons, List.takeWhile_append_of_pos hno, List.dropWhile_append_of_pos hno, List.takeWhile_cons,
        List.dropWhile_cons, if_pos hpos, if_pos hpos, utf8_cons, ih.1, ih.2]
      exact ⟨rfl, rfl⟩

/-- The lines of valid UTF-8 are valid UTF-8. -/
theorem splitLines_utf8 (text : List Char) :
    ∀ line ∈ splitLines (utf8 text), ∃ lineText, line.elems = utf8 lineText := by
  induction hn : text.length using Nat.strong_induction_on generalizing text with
  | _ n ih =>
    cases hbytes : utf8 text with
    | nil => simp [splitLines]
    | cons b bytes =>
      obtain ⟨htake, hdrop⟩ := takeWhile_utf8 text
      rw [hbytes] at htake hdrop
      rw [splitLines, List.forall_mem_cons]
      refine ⟨⟨text.takeWhile (· ≠ Char.ofNat 10), ?_⟩, ?_⟩
      · have hprefix := List.takeWhile_prefix (· ≠ LF) (l := b :: bytes)
        change (b :: bytes ++ [0]).take ((b :: bytes).takeWhile (· ≠ LF)).length = _
        rw [List.take_append_of_le_length hprefix.length_le, ← List.prefix_iff_eq_take.mp hprefix, htake]
      · rw [hdrop]
        refine ih _ ?_ _ rfl
        have hshort := (List.dropWhile_suffix (· ≠ Char.ofNat 10) (l := text)).length_le
        have hne : 0 < text.length := List.length_pos_iff.mpr (fun h => by simp [h] at hbytes)
        rw [List.length_drop]
        omega

/-- The bytes of a file; what has been decoded is valid UTF-8. -/
def contentsOfFile (file : FileData) : Bytes := utf8 file.contents.toList

def frontFiletype (file : FileData) : Except Interrupt String :=
  match file.filetypes with
  | filetype :: _ => .ok filetype
  | [] => .error .undefined

def identifiersFromBuffer (classes : CharacterClasses) (file : FileData) : Except Interrupt (List Bytes) := do
  let identifierRegex := identifierRegexForFiletype classes (← frontFiletype file)
  return (identifierRegex.search 0 file.contents.toList).map (fun found => utf8 found.2)

/-- The line of a request. The vector is not asked how many it has. -/
def lineOf (req : SimpleRequest) (file : FileData) : Except Interrupt (View UInt8) :=
  let lines := splitLines (contentsOfFile file)
  if h : 1 ≤ req.lineNum ∧ req.lineNum.toNat ≤ lines.length then .ok lines[req.lineNum.toNat - 1]
  else .error .undefined

/-- The identifiers in a line, each with its offset in bytes. -/
def identifiersInLine (regex : Pattern Char) (line : View UInt8) : Except Interrupt (List (Nat × Bytes)) := do
  let text ← (decodeUtf8 line.elems).getDM (.error .thrown)
  return (regex.search 0 text).map (fun found => ((utf8 (text.take found.1)).length, utf8 found.2))

def identifierUnderCursor (classes : CharacterClasses) (req : SimpleRequest) : Except Interrupt Bytes := do
  let file ← req.file
  let line ← lineOf req file
  let index := toSize (req.columnNum - 1)
  if line.size < index then return []
  let identifierRegex := identifierRegexForFiletype classes (← frontFiletype file)
  let found ← identifiersInLine identifierRegex line
  return ((found.find? (fun identifier => index < identifier.1 + identifier.2.length)).map Prod.snd).getD []

def identifierBeforeCursor (classes : CharacterClasses) (req : SimpleRequest) : Except Interrupt Bytes := do
  let file ← req.file
  let line ← lineOf req file
  let index := toSize (req.columnNum - 1)
  if line.size < index then return []
  let identifierRegex := identifierRegexForFiletype classes (← frontFiletype file)
  let found ← identifiersInLine identifierRegex line
  let before := found.takeWhile (fun identifier => identifier.1 + identifier.2.length ≤ index)
  return (before.getLast?.map Prod.snd).getD []

theorem frontFiletype_of_ne_nil {file : FileData} (h : file.filetypes ≠ []) :
    ∃ filetype, frontFiletype file = .ok filetype := by
  obtain ⟨filetype, filetypes, hfiletypes⟩ := List.exists_cons_of_ne_nil h
  exact ⟨filetype, by rw [frontFiletype, hfiletypes]⟩

theorem identifiersFromBuffer_of_filetype {classes : CharacterClasses} {file : FileData} {filetype : String}
    (h : frontFiletype file = .ok filetype) :
    ∃ identifiers, identifiersFromBuffer classes file = .ok identifiers ∧
      ∀ t ∈ identifiers, ∃ text, t = utf8 text := by
  refine ⟨_, by rw [identifiersFromBuffer, h]; rfl, ?_⟩
  intro t ht
  obtain ⟨found, -, rfl⟩ := List.mem_map.mp ht
  exact ⟨found.2, rfl⟩

theorem exists_lineOf {req : SimpleRequest} {file : FileData} (hpos : 1 ≤ req.lineNum)
    (hle : req.lineNum.toNat ≤ (splitLines (contentsOfFile file)).length) :
    ∃ line ∈ splitLines (contentsOfFile file), lineOf req file = .ok line :=
  ⟨_, List.getElem_mem (by omega), dif_pos ⟨hpos, hle⟩⟩

theorem exists_identifiersInLine {file : FileData} {line : View UInt8}
    (hline : line ∈ splitLines (contentsOfFile file)) (regex : Pattern Char) :
    ∃ found, identifiersInLine regex line = .ok found ∧ ∀ identifier ∈ found, ∃ text, identifier.2 = utf8 text := by
  obtain ⟨lineText, helems⟩ := splitLines_utf8 file.contents.toList line hline
  refine ⟨_, by rw [identifiersInLine, helems, decodeUtf8_utf8]; rfl, ?_⟩
  intro identifier hmem
  obtain ⟨found, -, rfl⟩ := List.mem_map.mp hmem
  exact ⟨found.2, rfl⟩

section AtCursor
variable {classes : CharacterClasses} {req : SimpleRequest} {file : FileData} {filetype : String}

/-- Inside the file there is an identifier at the cursor, if only the empty text. -/
theorem exists_identifierUnderCursor (hfile : req.file = .ok file) (hfiletype : frontFiletype file = .ok filetype)
    (hpos : 1 ≤ req.lineNum) (hle : req.lineNum.toNat ≤ (splitLines (contentsOfFile file)).length) :
    ∃ text, identifierUnderCursor classes req = .ok (utf8 text) := by
  obtain ⟨line, hmem, hline⟩ := exists_lineOf hpos hle
  obtain ⟨found, hfound, hutf8⟩ := exists_identifiersInLine hmem (identifierRegexForFiletype classes filetype)
  simp only [identifierUnderCursor, hfile, hline, hfiletype, hfound, bind, Except.bind, pure, Except.pure]
  split
  · exact ⟨[], rfl⟩
  · cases hfind : found.find? (fun identifier => toSize (req.columnNum - 1) < identifier.1 + identifier.2.length) with
    | none => exact ⟨[], rfl⟩
    | some identifier =>
      obtain ⟨text, htext⟩ := hutf8 identifier (List.mem_of_find?_eq_some hfind)
      exact ⟨text, congrArg Except.ok htext⟩

theorem exists_identifierBeforeCursor (hfile : req.file = .ok file) (hfiletype : frontFiletype file = .ok filetype)
    (hpos : 1 ≤ req.lineNum) (hle : req.lineNum.toNat ≤ (splitLines (contentsOfFile file)).length) :
    ∃ text, identifierBeforeCursor classes req = .ok (utf8 text) := by
  obtain ⟨line, hmem, hline⟩ := exists_lineOf hpos hle
  obtain ⟨found, hfound, hutf8⟩ := exists_identifiersInLine hmem (identifierRegexForFiletype classes filetype)
  simp only [identifierBeforeCursor, hfile, hline, hfiletype, hfound, bind, Except.bind, pure, Except.pure]
  split
  · exact ⟨[], rfl⟩
  · generalize hlast : (found.takeWhile _).getLast? = last
    cases last with
    | none => exact ⟨[], rfl⟩
    | some identifier =>
      obtain ⟨text, htext⟩ := hutf8 identifier ((List.takeWhile_prefix _).subset (List.mem_of_getLast? hlast))
      exact ⟨text, congrArg Except.ok htext⟩

end AtCursor

/-- The loop: `start` goes down as long as what begins there and ends at `end` is an identifier. -/
def longestLoop (regex : Pattern Char) (line : List Char) («end» : Nat) : Nat → Nat
  | 0 => if !regex.isMatch (line.take «end») then 2 else 1
  | start+1 =>
    if !regex.isMatch ((line.drop (start+1)).take («end» - (start+1))) then start + 1 + 2
    else longestLoop regex line «end» start

def startOfLongestIdentifierEndingAt (columnCodepoint : Nat) (regex : Pattern Char) (lineValue : View Char) :
    Except Interrupt Nat :=
  let «end» := sizeSub columnCodepoint 1
  if «end» ≤ 0 then .ok 1
  else if lineValue.memory.length < «end» then .error .undefined
  else .ok (longestLoop regex lineValue.memory «end» («end» - 1))

/-- One round of the loop: `post` is what it has accepted. -/
theorem longestLoop_step {regex : Pattern Char} (hsub : ∀ c, regex.first c = true → regex.rest c = true)
    {line pre post : List Char} {c : Char} {«end» : Nat} (hline : line.take «end» = pre ++ c :: post)
    (hpost : ∀ b ∈ post, regex.first b = true) :
    longestLoop regex line «end» pre.length =
      if regex.first c then (if pre = [] then 1 else longestLoop regex line «end» (pre.length - 1))
      else pre.length + 2 := by
  have hmatch : regex.isMatch (c :: post) = regex.first c := by
    rw [Bool.eq_iff_iff, Pattern.isMatch_cons, and_iff_left (fun b hb => hsub b (hpost b hb))]
  have hpart : (line.drop pre.length).take («end» - pre.length) = c :: post := by
    rw [← List.drop_take, hline, List.drop_left]
  cases hlen : pre.length with
  | zero =>
    rw [List.length_eq_zero_iff] at hlen
    subst hlen
    rw [longestLoop, hline, List.nil_append, hmatch]
    cases regex.first c <;> simp
  | succ n =>
    have hne : pre ≠ [] := by
      rintro rfl
      cases hlen
    rw [hlen] at hpart
    rw [longestLoop, hpart, hmatch]
    cases regex.first c <;> simp [hne]

/-- The loop comes to the start of the last run of characters an identifier can begin with. -/
theorem longestLoop_eq {regex : Pattern Char} (hsub : ∀ c, regex.first c = true → regex.rest c = true)
    {line pre post : List Char} {c : Char} {«end» : Nat} (hline : line.take «end» = pre ++ c :: post)
    (hpost : ∀ b ∈ post, regex.first b = true) :
    longestLoop regex line «end» pre.length + ((line.take «end»).rtakeWhile regex.first).length =
      (line.take «end»).length + 1 := by
  induction pre using List.reverseRecOn generalizing c post with
  | nil =>
    rw [longestLoop_step hsub hline hpost, hline, List.nil_append, ← List.singleton_append,
      Pattern.rtakeWhile_append_of_pos hpost, ← List.nil_append [c], List.rtakeWhile_concat]
    cases regex.first c <;> simp <;> omega
  | append_singleton pre b ih =>
    rw [longestLoop_step hsub hline hpost]
    by_cases hc : regex.first c = true
    · rw [if_pos hc, if_neg (by simp), List.length_append, List.length_singleton, Nat.add_sub_cancel]
      exact ih (by simpa using hline) (List.forall_mem_cons.mpr ⟨hc, hpost⟩)
    · have hrun : (line.take «end»).rtakeWhile regex.first = post := by
        have := Pattern.rtakeWhile_append_of_pos (l := pre ++ [b] ++ [c]) hpost
        rw [List.rtakeWhile_concat_neg _ _ _ hc] at this
        simpa [hline] using this
      rw [if_neg hc, hrun, hline]
      simp
      omega

theorem startOfLongest_eq {regex : Pattern Char} (hsub : ∀ c, regex.first c = true → regex.rest c = true)
    (line : View Char) {c : Nat} (hpos : 1 ≤ c) (hle : c ≤ line.size + 1) :
    startOfLongestIdentifierEndingAt c regex line =
      .ok (c - ((line.elems.take (c-1)).rtakeWhile regex.first).length) := by
  have hbound := line.bound
  have htake : line.elems.take (c-1) = line.memory.take (c-1) := by
    rw [View.elems, List.take_take, Nat.min_eq_left (by omega)]
  have hlen : (line.memory.take (c-1)).length = c - 1 := by
    rw [List.length_take]
    omega
  rw [startOfLongestIdentifierEndingAt, sizeSub_of_le hpos, htake]
  by_cases h0 : c - 1 = 0
  · rw [if_pos (by omega), h0, List.take_zero, List.rtakeWhile_nil, List.length_nil, Nat.sub_zero]
    exact congrArg Except.ok (by omega)
  · rw [if_neg (by omega), if_neg (by omega)]
    have hne : line.memory.take (c-1) ≠ [] := by
      rw [← List.length_pos_iff, hlen]
      omega
    obtain ⟨pre, b, hpre⟩ : ∃ pre b, line.memory.take (c-1) = pre ++ [b] :=
      ⟨_, _, (List.dropLast_concat_getLast hne).symm⟩
    have hstart : pre.length = c - 1 - 1 := by
      rw [hpre, List.length_append, List.length_singleton] at hlen
      omega
    have := longestLoop_eq hsub hpre (by simp)
    rw [hstart, hlen] at this
    exact congrArg Except.ok (by omega)

/-- The identifier regular expression accepts the part from `r` to just before `c`; both count from 1. -/
def IdentifierBetween (regex : Pattern Char) (line : List Char) (r c : Nat) : Prop :=
  regex.isMatch ((line.drop (r-1)).take (c-r)) = true

/-- What the function is for: the start of the longest identifier that ends just before `c`. -/
def IsLongestStart (regex : Pattern Char) (line : List Char) (c r : Nat) : Prop :=
  1 ≤ r ∧ r ≤ c ∧
    (r = c ∧ (∀ r', 1 ≤ r' → r' < c → ¬ IdentifierBetween regex line r' c) ∨
      IdentifierBetween regex line r c ∧ ∀ r', 1 ≤ r' → r' < r → ¬ IdentifierBetween regex line r' c)

theorem identifierBetween_iff {regex : Pattern Char} {line : List Char} {c r : Nat} (hr : 1 ≤ r) :
    IdentifierBetween regex line r c ↔ regex.isMatch ((line.take (c-1)).drop (r-1)) = true := by
  rw [IdentifierBetween, List.drop_take, show c - 1 - (r-1) = c - r by omega]

section LongestStart
variable {regex : Pattern Char} {line : List Char} {c r : Nat}

theorem not_identifierBetween_of_lt (hsub : ∀ c, regex.first c = true → regex.rest c = true)
    (hle : c ≤ line.length + 1) (hr : 1 ≤ r) (hlt : r + (regex.longestSuffix (line.take (c-1))).length < c) :
    ¬ IdentifierBetween regex line r c := by
  intro h
  have hshort := (Pattern.suffix_longestSuffix hsub (List.drop_suffix _ _) ((identifierBetween_iff hr).mp h)).length_le
  rw [List.length_drop, List.length_take] at hshort
  omega

theorem identifierBetween_longest (hle : c ≤ line.length + 1)
    (heq : r + (regex.longestSuffix (line.take (c-1))).length = c) (hlt : r < c) :
    IdentifierBetween regex line r c := by
  have hsuffix := regex.longestSuffix_suffix (line.take (c-1))
  have hshort := hsuffix.length_le
  have hdrop := List.suffix_iff_eq_drop.mp hsuffix
  have hlen : (line.take (c-1)).length = c - 1 := by
    rw [List.length_take]
    omega
  rw [hlen] at hdrop hshort
  rw [identifierBetween_iff (by omega), show r - 1 = c - 1 - (regex.longestSuffix (line.take (c-1))).length by omega,
    ← hdrop]
  exact Pattern.isMatch_longestSuffix (List.length_pos_iff.mp (by omega))

/-- The longest identifier is the longest match that ends the text before the cursor. -/
theorem isLongestStart_iff (hsub : ∀ c, regex.first c = true → regex.rest c = true) (hpos : 1 ≤ c)
    (hle : c ≤ line.length + 1) :
    IsLongestStart regex line c r ↔ r + (regex.longestSuffix (line.take (c-1))).length = c := by
  have hshort := (regex.longestSuffix_suffix (line.take (c-1))).length_le
  rw [List.length_take] at hshort
  constructor
  · rintro ⟨h1, h2, ⟨rfl, hnone⟩ | ⟨hmatch, hnone⟩⟩
    · by_contra hne
      exact hnone (r - (regex.longestSuffix (line.take (r-1))).length) (by omega) (by omega)
        (identifierBetween_longest hle (by omega) (by omega))
    · have hge : ¬ r + (regex.longestSuffix (line.take (c-1))).length < c :=
        fun hlt => not_identifierBetween_of_lt hsub hle h1 hlt hmatch
      by_contra hne
      exact hnone (c - (regex.longestSuffix (line.take (c-1))).length) (by omega) (by omega)
        (identifierBetween_longest hle (by omega) (by omega))
  · intro heq
    refine ⟨by omega, by omega, ?_⟩
    by_cases hr : r = c
    · exact .inl ⟨hr, fun r' h1 h2 => not_identifierBetween_of_lt hsub hle h1 (by omega)⟩
    · exact .inr ⟨identifierBetween_longest hle heq (by omega),
        fun r' h1 h2 => not_identifierBetween_of_lt hsub hle h1 (by omega)⟩

end LongestStart

theorem first_imp_rest (classes : CharacterClasses) (c : Char)
    (h : (defaultIdentifierRegex classes).first c = true) : (defaultIdentifierRegex classes).rest c = true :=
  ((Bool.and_eq_true _ _).mp h).1

/-- The characters of the word before the cursor, those digits left out that begin it. -/
def wordBefore (classes : CharacterClasses) (before : List Char) : List Char :=
  (before.rtakeWhile classes.isWord).dropWhile classes.isDigit

theorem longestSuffix_eq_wordBefore (classes : CharacterClasses) (before : List Char) :
    (defaultIdentifierRegex classes).longestSuffix before = wordBefore classes before := by
  unfold Pattern.longestSuffix wordBefore
  have hword : ∀ c ∈ before.rtakeWhile classes.isWord, classes.isWord c = true :=
    fun c hc => List.mem_rtakeWhile_imp hc
  change (before.rtakeWhile classes.isWord).dropWhile _ = _
  generalize before.rtakeWhile classes.isWord = word at hword ⊢
  induction word with
  | nil => rfl
  | cons c word ih =>
    rw [List.forall_mem_cons] at hword
    simp only [List.dropWhile_cons, defaultIdentifierRegex, hword.1, Bool.true_and, Bool.not_not]
    split
    · exact ih hword.2
    · rfl

/-- For every line and cursor the function finds the start of the longest identifier exactly when the word
before the cursor has no digit after a character that is none. -/
theorem start_is_longest_iff (classes : CharacterClasses) (line : View Char) (c : Nat) (hpos : 1 ≤ c)
    (hle : c ≤ line.size + 1) :
    (∃ r, startOfLongestIdentifierEndingAt c (defaultIdentifierRegex classes) line = .ok r ∧
      IsLongestStart (defaultIdentifierRegex classes) line.elems c r) ↔
    ∀ ch ∈ wordBefore classes (line.elems.take (c-1)), classes.isDigit ch = false := by
  have hsub := first_imp_rest classes
  have hrun := (List.rtakeWhile_suffix (defaultIdentifierRegex classes).first (line.elems.take (c-1))).length_le
  have hlongest := ((defaultIdentifierRegex classes).longestSuffix_suffix (line.elems.take (c-1))).length_le
  rw [List.length_take, View.length_elems] at hrun hlongest
  simp only [startOfLongest_eq hsub line hpos hle, Except.ok.injEq, exists_eq_left']
  rw [isLongestStart_iff hsub hpos (by simpa using hle)]
  have hlen : c - ((line.elems.take (c-1)).rtakeWhile (defaultIdentifierRegex classes).first).length +
        ((defaultIdentifierRegex classes).longestSuffix (line.elems.take (c-1))).length = c ↔
      ((line.elems.take (c-1)).rtakeWhile (defaultIdentifierRegex classes).first).length =
        ((defaultIdentifierRegex classes).longestSuffix (line.elems.take (c-1))).length := by
    omega
  rw [hlen, Pattern.length_rtakeWhile_first hsub, longestSuffix_eq_wordBefore]
  apply forall₂_congr
  intro ch hch
  have hword : classes.isWord ch = true := List.mem_rtakeWhile_imp ((List.dropWhile_suffix _).subset hch)
  simp [defaultIdentifierRegex, hword]

/-- Letters and digits of the lowest block. -/
def asciiClasses : CharacterClasses where
  isWord c := c.isAlphanum || c == '_'
  isDigit c := c.isDigit

theorem start_is_longest_iff_letters :
    (∃ r, startOfLongestIdentifierEndingAt 5 (defaultIdentifierRegex asciiClasses)
        (.ofString "x.ab".toList NUL) = .ok r ∧
      IsLongestStart (defaultIdentifierRegex asciiClasses)
        (View.ofString "x.ab".toList NUL).elems 5 r) ↔
    ∀ ch ∈ wordBefore asciiClasses ((View.ofString "x.ab".toList NUL).elems.take 4),
      asciiClasses.isDigit ch = false :=
  start_is_longest_iff asciiClasses _ 5 (by decide) (by decide)

/-- With the cursor after a digit it finds nothing, though the digit ends an identifier. -/
theorem digit_hides_identifier :
    startOfLongestIdentifierEndingAt 3 (defaultIdentifierRegex asciiClasses) (.ofString "a1".toList NUL) = .ok 3 ∧
    IdentifierBetween (defaultIdentifierRegex asciiClasses) "a1".toList 1 3 ∧
    ¬ IsLongestStart (defaultIdentifierRegex asciiClasses) "a1".toList 3 3 := by
  have hmatch : IdentifierBetween (defaultIdentifierRegex asciiClasses) "a1".toList 1 3 := by
    unfold IdentifierBetween
    decide
  refine ⟨by decide, hmatch, ?_⟩
  rintro ⟨-, -, ⟨-, hnone⟩ | ⟨-, hnone⟩⟩
  · exact hnone 1 (by decide) (by decide) hmatch
  · exact hnone 1 (by decide) (by decide) hmatch

end Ycmd
