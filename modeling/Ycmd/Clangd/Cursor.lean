import Ycmd.Handlers
import Ycmd.RequestWrap

/-! The position a completion request names to clangd, which counts UTF-16 code units, against the
cursor of the editor. -/
namespace Ycmd.Clangd
open Lib Lsp RequestWrapper

/-- The texts of requests. Where reading them has no meaning, nothing is said of the column. -/
def requestText (text : TextLibrary) (classes : CharacterClasses) : LineText where
  queryLength req := (query text classes req).toOption.map View.size
  columnCodepoint req := (columnCodepoint text req).toOption.getD 0

/-- The position in a message. -/
def sentPosition (message : Json) : Decode Position := do
  let params ← message.atKey "params"
  fromMember params "position"

theorem sentPosition_requestFor (r : Rpc) (text : LineText) (req : SimpleRequest) :
    sentPosition (requestFor r "textDocument/completion" (completionParams text req)) =
      .ok ⟨((req.lineNum - 1) % 2^64).toNat, (((text.columnCodepoint req : Int) - 1) % 2^64).toNat⟩ := by
  have hnat (n : Int) : (fromJson (Json.int (n % 2^64).toNat) : Decode Nat) = .ok (n % 2^64).toNat := by
    apply congrArg Except.ok
    omega
  change (do
    let line : Nat ← fromJson (Json.int ((req.lineNum - 1) % 2^64).toNat)
    let character : Nat ← fromJson (Json.int (((text.columnCodepoint req : Int) - 1) % 2^64).toNat)
    pure (Position.mk line character) : Decode Position) = _
  rw [hnat, hnat]
  rfl

theorem columnCodepoint_requestText {text : TextLibrary} {classes : CharacterClasses} {req : SimpleRequest}
    {file : FileData} {before after : List Char} (h : CursorAt req file before after) :
    (requestText text classes).columnCodepoint req = before.length + 1 := by
  change (columnCodepoint text req).toOption.getD 0 = _
  rw [h.columnCodepoint_eq text]
  rfl

/-- For every cursor the position `compute_candiatdes` sends is the one of the editor exactly when all
that is before it is in the basic plane: the position counts code points. -/
theorem position_is_cursor_iff (text : TextLibrary) (classes : CharacterClasses) (s : Server)
    (c : ClangdCompleter) (req : SimpleRequest) (file : FileData) (before after : List Char)
    (h : CursorAt req file before after) (hline : req.lineNum < 2^31) (hcolumn : req.columnNum < 2^31) :
    ∃ message,
      (call s c "textDocument/completion" (completionParams (requestText text classes) req)
        .computeCandidates).traffic = s.traffic ++ [.request message] ∧
      (sentPosition message = .ok ⟨req.lineNum.toNat - 1, utf16Length before⟩ ↔
        ∀ ch ∈ before, ch.toNat < 0x10000) := by
  refine ⟨_, rfl, ?_⟩
  have hpos := h.line_pos
  have hlen := length_le_length_utf8 before
  rw [h.column_eq] at hcolumn
  have hline' : ((req.lineNum - 1) % 2^64).toNat = req.lineNum.toNat - 1 := by omega
  have hcharacter : (((before.length + 1 : Nat) : Int) - 1) % 2^64 = before.length := by omega
  rw [sentPosition_requestFor, columnCodepoint_requestText h, hline', hcharacter, Int.toNat_natCast,
    ← utf16Length_eq_length]
  constructor
  · intro heq
    exact (Position.mk.inj (Except.ok.inj heq)).2.symm
  · intro heq
    rw [heq]

theorem position_is_cursor_iff_letters :
    ∃ message,
      (call {} {} "textDocument/completion"
        (completionParams (requestText .leading asciiClasses) (requestIn "x.ab" 5)) .computeCandidates).traffic =
          [.request message] ∧
      (sentPosition message = .ok ⟨0, utf16Length "x.ab".toList⟩ ↔
        ∀ ch ∈ "x.ab".toList, ch.toNat < 0x10000) :=
  position_is_cursor_iff .leading asciiClasses {} {} _ _ _ _
    (cursorAt_requestIn "x.ab" "x.ab".toList [] (by decide) (by decide) (by decide)) (by decide) (by decide)

/-- Behind a code point of two units the position is one short. -/
theorem position_before_cursor :
    CursorAt (requestIn "😀" 5) ⟨["cpp"], "😀"⟩ "😀".toList [] ∧
    ∃ message,
      (call {} {} "textDocument/completion"
        (completionParams (requestText .leading asciiClasses) (requestIn "😀" 5)) .computeCandidates).traffic =
          [.request message] ∧
      sentPosition message = .ok ⟨0, 1⟩ ∧ utf16Length "😀".toList = 2 := by
  have hcursor : CursorAt (requestIn "😀" 5) ⟨["cpp"], "😀"⟩ "😀".toList [] :=
    cursorAt_requestIn "😀" "😀".toList [] (by decide) (by decide) (by decide)
  refine ⟨hcursor, _, rfl, ?_, by decide⟩
  rw [sentPosition_requestFor, columnCodepoint_requestText hcursor]
  rfl

end Ycmd.Clangd
