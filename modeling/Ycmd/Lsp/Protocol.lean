import Ycmd.Lsp.Types

/-! What the LSP 3.16 specification allows a server to send, as far as a client can be surprised
by it: the message shapes, and the parameters of the notifications the pump decodes. -/
namespace Ycmd.Lsp.Protocol
open Lib

def has (j : Json) (key : String) (valid : Json → Bool) : Bool := (j.find? key).any valid

def mayHave (j : Json) (key : String) (valid : Json → Bool) : Bool := (j.find? key).all valid

theorem has_iff {j : Json} {key : String} {valid : Json → Bool} :
    has j key valid = true ↔ ∃ v, j.find? key = some v ∧ valid v = true :=
  Option.any_eq_true _ _

theorem has_imp {j : Json} {key : String} {valid accepts : Json → Bool} (h : has j key valid = true)
    (himp : ∀ v, valid v = true → accepts v = true) : has j key accepts = true := by
  obtain ⟨v, hfind, hv⟩ := has_iff.mp h
  exact has_iff.mpr ⟨v, hfind, himp v hv⟩

theorem mayHave_imp {j : Json} {key : String} {valid accepts : Json → Bool} (h : mayHave j key valid = true)
    (himp : ∀ v, valid v = true → accepts v = true) : mayHave j key accepts = true := by
  unfold mayHave at h ⊢
  cases hfind : j.find? key with
  | none => rfl
  | some v =>
    rw [hfind, Option.all_some] at h
    exact himp v h

def isObject : Json → Bool
  | .obj _ => true
  | _ => false

def isString : Json → Bool
  | .str _ => true
  | _ => false

theorem isString_iff {v : Json} : isString v = true ↔ ∃ s, v = .str s := by
  cases v <;> simp [isString]

def isArrayOf (valid : Json → Bool) : Json → Bool
  | .arr elems => elems.all valid
  | _ => false

theorem isArrayOf_iff {valid : Json → Bool} {v : Json} :
    isArrayOf valid v = true ↔ ∃ elems, v = .arr elems ∧ ∀ elem ∈ elems, valid elem = true := by
  cases v <;> simp [isArrayOf]

/-- A number with an integral value in the range, also one written with a fraction of zero. -/
def isIntegerIn (low high : Int) : Json → Bool
  | .int n => low ≤ n && n ≤ high
  | .float x => x.den == 1 && low ≤ x.num && x.num ≤ high
  | _ => false

def isInteger : Json → Bool := isIntegerIn (-2^31) (2^31-1)

def isUInteger : Json → Bool := isIntegerIn 0 (2^31-1)

def position (j : Json) : Bool := has j "line" isUInteger && has j "character" isUInteger

def range (j : Json) : Bool := has j "start" position && has j "end" position

def location (j : Json) : Bool := has j "uri" isString && has j "range" range

def codeDescription (j : Json) : Bool := has j "href" isString

def relatedInformation (j : Json) : Bool := has j "location" location && has j "message" isString

def diagnostic (j : Json) : Bool :=
  has j "range" range && mayHave j "severity" (isIntegerIn 1 4) &&
  mayHave j "code" (fun v => isInteger v || isString v) && mayHave j "codeDescription" codeDescription &&
  mayHave j "source" isString && has j "message" isString && mayHave j "tags" (isArrayOf (isIntegerIn 1 2)) &&
  mayHave j "relatedInformation" (isArrayOf relatedInformation)

def publishDiagnosticsParams (j : Json) : Bool :=
  has j "uri" isString && mayHave j "version" isInteger && has j "diagnostics" (isArrayOf diagnostic)

def structured (j : Json) : Bool := isObject j || isArrayOf (fun _ => true) j

def responseError (j : Json) : Bool := has j "code" isInteger && has j "message" isString

def response (j : Json) : Bool :=
  !j.contains "method" && has j "id" (fun v => isInteger v || isString v || v.isNull) &&
  (j.contains "result" ^^ j.contains "error") && mayHave j "error" responseError

def request (j : Json) : Bool :=
  has j "method" isString && has j "id" (fun v => isInteger v || isString v) && mayHave j "params" structured

def publishDiagnostics (v : Json) : Bool :=
  match v with
  | .str s => s == "textDocument/publishDiagnostics"
  | _ => false

def notification (j : Json) : Bool :=
  has j "method" isString && !j.contains "id" && mayHave j "params" structured &&
  (!has j "method" publishDiagnostics || has j "params" publishDiagnosticsParams)

/-- Any message a conforming server may send. -/
def serverMessage (j : Json) : Bool :=
  has j "jsonrpc" (fun v => match v with | .str s => s == "2.0" | _ => false) &&
  (response j || request j || notification j)

/-- A diagnostic whose code is given as a string. -/
def hasStringCode (j : Json) : Bool := has j "code" isString

def someArray (p : Json → Bool) : Json → Bool
  | .arr elems => elems.any p
  | _ => false

/-- A `textDocument/publishDiagnostics` notification that carries such a diagnostic. -/
def publishesStringCode (j : Json) : Bool :=
  has j "method" publishDiagnostics && !j.contains "id" &&
  has j "params" (fun params => has params "diagnostics" (someArray hasStringCode))

def isBool : Json → Bool
  | .bool _ => true
  | _ => false

def textEdit (j : Json) : Bool := has j "newText" isString && has j "range" range

def command (j : Json) : Bool :=
  has j "title" isString && has j "command" isString && mayHave j "arguments" (isArrayOf (fun _ => true))

def markupKind : Json → Bool
  | .str s => s == "plaintext" || s == "markdown"
  | _ => false

def markupContent (j : Json) : Bool := has j "kind" markupKind && has j "value" isString

/-- A completion item as it may be sent to a client that announces no support for snippets, tags, or edits
that insert and replace. -/
def completionItem (j : Json) : Bool :=
  has j "label" isString && mayHave j "kind" (isIntegerIn 1 25) && mayHave j "detail" isString &&
  mayHave j "documentation" (fun v => isString v || markupContent v) && mayHave j "deprecated" isBool &&
  mayHave j "preselect" isBool && mayHave j "sortText" isString && mayHave j "filterText" isString &&
  mayHave j "insertText" isString && mayHave j "insertTextFormat" (isIntegerIn 1 2) &&
  mayHave j "textEdit" textEdit && mayHave j "additionalTextEdits" (isArrayOf textEdit) &&
  mayHave j "commitCharacters" (isArrayOf isString) && mayHave j "command" command

def completionList (j : Json) : Bool := has j "isIncomplete" isBool && has j "items" (isArrayOf completionItem)

def completionResult (j : Json) : Bool := isArrayOf completionItem j || completionList j

/-- The items of a result, in their order. -/
def items : Json → List Json
  | .arr elems => elems
  | j => match j.find? "items" with
    | some (.arr elems) => elems
    | _ => []

def text? : Json → Option String
  | .str s => some s
  | _ => none

def textAt (j : Json) (key : String) : Option String := (j.find? key).bind text?

/-- What accepting an item inserts. -/
def insertionText (item : Json) : String :=
  (((item.find? "textEdit").bind (textAt · "newText")).or
    ((textAt item "insertText").or (textAt item "label"))).getD ""

/-- The documentation of an item, given as a string or as marked up. -/
def documentationText (item : Json) : Option String :=
  (item.find? "documentation").bind fun v => (text? v).or (textAt v "value")

/-- What an item says of itself beside its label. -/
def detailText (item : Json) : String := ((documentationText item).or (textAt item "detail")).getD ""

def serverInfo (j : Json) : Bool := has j "name" isString && mayHave j "version" isString

def initializeResult (j : Json) : Bool := has j "capabilities" isObject && mayHave j "serverInfo" serverInfo

/-- An integer of any size. -/
def isIntegral : Json → Bool
  | .int _ => true
  | .float x => x.den == 1
  | _ => false

/-- An error as JSON-RPC has it: anything or nothing may be said with its `data`. -/
def errorObject (j : Json) : Bool := has j "code" isIntegral && has j "message" isString

def isVersion : Json → Bool
  | .str s => s == "2.0"
  | _ => false

/-- The response to a call, which brings a result that the call may have or an error. -/
def answer (result : Json → Bool) (j : Json) : Bool :=
  has j "jsonrpc" isVersion && has j "id" (fun v => isString v || v.number?.isSome) &&
  (has j "result" result && !j.contains "error" || has j "error" errorObject && !j.contains "result")

end Ycmd.Lsp.Protocol
