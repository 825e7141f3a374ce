import Ycmd.Lib.Enumeration
import Ycmd.Lsp.Records

/-! What a client and a server say of text documents: their synchronisation, completions and
diagnostics. -/
namespace Ycmd.Lsp
open Lib

structure TextDocumentItem where
  uri : String := ""
  languageId : String := ""
  version : Int := 0
  text : String := ""

def TextDocumentItem.fields : List (Field TextDocumentItem) := [
  .defaulted "uri" uri (fun v t => { t with uri := v }) {},
  .defaulted "languageId" languageId (fun v t => { t with languageId := v }) {},
  .defaulted "version" version (fun v t => { t with version := v }) {},
  .defaulted "text" text (fun v t => { t with text := v }) {}]

instance : ToJson TextDocumentItem := ⟨writeFields TextDocumentItem.fields⟩
instance : FromJson TextDocumentItem := ⟨fun j => readFields TextDocumentItem.fields j {}⟩

instance : Record TextDocumentItem where
  fields := TextDocumentItem.fields
  initial := {}

structure TextDocumentIdentifier where
  uri : String := ""

def TextDocumentIdentifier.fields : List (Field TextDocumentIdentifier) := [
  .defaulted "uri" uri (fun v t => { t with uri := v }) {}]

instance : ToJson TextDocumentIdentifier := ⟨writeFields TextDocumentIdentifier.fields⟩
instance : FromJson TextDocumentIdentifier := ⟨fun j => readFields TextDocumentIdentifier.fields j {}⟩

instance : Record TextDocumentIdentifier where
  fields := TextDocumentIdentifier.fields
  initial := {}

structure VersionedTextDocumentIdentifier extends TextDocumentIdentifier where
  version : Int := 0

def VersionedTextDocumentIdentifier.fields : List (Field VersionedTextDocumentIdentifier) :=
  TextDocumentIdentifier.fields.map
      (.inBase toTextDocumentIdentifier (fun b t => { t with toTextDocumentIdentifier := b })) ++ [
    .defaulted "version" version (fun v t => { t with version := v }) {}]

instance : ToJson VersionedTextDocumentIdentifier := ⟨writeFields VersionedTextDocumentIdentifier.fields⟩
instance : FromJson VersionedTextDocumentIdentifier :=
  ⟨fun j => readFields VersionedTextDocumentIdentifier.fields j {}⟩

instance : Record VersionedTextDocumentIdentifier where
  fields := VersionedTextDocumentIdentifier.fields
  initial := {}

structure OptionalVersionedTextDocumentIdentifier extends TextDocumentIdentifier where
  version : Option Int := none

def OptionalVersionedTextDocumentIdentifier.fields : List (Field OptionalVersionedTextDocumentIdentifier) :=
  TextDocumentIdentifier.fields.map
      (.inBase toTextDocumentIdentifier (fun b t => { t with toTextDocumentIdentifier := b })) ++ [
    .optionalDefaulted "version" version (fun v t => { t with version := v }) {}]

instance : ToJson OptionalVersionedTextDocumentIdentifier :=
  ⟨writeFields OptionalVersionedTextDocumentIdentifier.fields⟩
instance : FromJson OptionalVersionedTextDocumentIdentifier :=
  ⟨fun j => readFields OptionalVersionedTextDocumentIdentifier.fields j {}⟩

instance : Record OptionalVersionedTextDocumentIdentifier where
  fields := OptionalVersionedTextDocumentIdentifier.fields
  initial := {}

structure DidOpenTextDocumentParams where
  textDocument : TextDocumentItem := {}

def DidOpenTextDocumentParams.fields : List (Field DidOpenTextDocumentParams) := [
  .value "textDocument" textDocument (fun v t => { t with textDocument := v })]

instance : ToJson DidOpenTextDocumentParams := ⟨writeFields DidOpenTextDocumentParams.fields⟩
instance : FromJson DidOpenTextDocumentParams := ⟨fun j => readFields DidOpenTextDocumentParams.fields j {}⟩

instance : Record DidOpenTextDocumentParams where
  fields := DidOpenTextDocumentParams.fields
  initial := {}

structure TextDocumentChangeEvent where
  text : String := ""

def TextDocumentChangeEvent.fields : List (Field TextDocumentChangeEvent) := [
  .value "text" text (fun v t => { t with text := v })]

instance : ToJson TextDocumentChangeEvent := ⟨writeFields TextDocumentChangeEvent.fields⟩
instance : FromJson TextDocumentChangeEvent := ⟨fun j => readFields TextDocumentChangeEvent.fields j {}⟩

instance : Record TextDocumentChangeEvent where
  fields := TextDocumentChangeEvent.fields
  initial := {}

structure DidChangeTextDocumentParams where
  textDocument : VersionedTextDocumentIdentifier := {}
  contentChanges : List TextDocumentChangeEvent := []

def DidChangeTextDocumentParams.fields : List (Field DidChangeTextDocumentParams) := [
  .value "textDocument" textDocument (fun v t => { t with textDocument := v }),
  .value "contentChanges" contentChanges (fun v t => { t with contentChanges := v })]

instance : ToJson DidChangeTextDocumentParams := ⟨writeFields DidChangeTextDocumentParams.fields⟩
instance : FromJson DidChangeTextDocumentParams := ⟨fun j => readFields DidChangeTextDocumentParams.fields j {}⟩

instance : Record DidChangeTextDocumentParams where
  fields := DidChangeTextDocumentParams.fields
  initial := {}

structure DidCloseTextDocumentParams where
  textDocument : TextDocumentIdentifier := {}

def DidCloseTextDocumentParams.fields : List (Field DidCloseTextDocumentParams) := [
  .value "textDocument" textDocument (fun v t => { t with textDocument := v })]

instance : ToJson DidCloseTextDocumentParams := ⟨writeFields DidCloseTextDocumentParams.fields⟩
instance : FromJson DidCloseTextDocumentParams := ⟨fun j => readFields DidCloseTextDocumentParams.fields j {}⟩

instance : Record DidCloseTextDocumentParams where
  fields := DidCloseTextDocumentParams.fields
  initial := {}

structure TextDocumentPositionParams where
  textDocument : TextDocumentIdentifier := {}
  position : Position := ⟨0, 0⟩

def TextDocumentPositionParams.fields : List (Field TextDocumentPositionParams) := [
  .value "textDocument" textDocument (fun v t => { t with textDocument := v }),
  .value "position" position (fun v t => { t with position := v })]

instance : ToJson TextDocumentPositionParams := ⟨writeFields TextDocumentPositionParams.fields⟩
instance : FromJson TextDocumentPositionParams := ⟨fun j => readFields TextDocumentPositionParams.fields j {}⟩

instance : Record TextDocumentPositionParams where
  fields := TextDocumentPositionParams.fields
  initial := {}

inductive TriggerKind where
  | invoked
  | triggerCharacter
  | triggerForIncompleteCompletions
  deriving DecidableEq, Repr

instance : Enumerators TriggerKind where
  all := [.invoked, .triggerCharacter, .triggerForIncompleteCompletions]
  code
    | .invoked => 1
    | .triggerCharacter => 2
    | .triggerForIncompleteCompletions => 3
  mem_all e := by cases e <;> decide
  nodup := by decide

structure CompletionContext where
  triggerKind : Enumeration TriggerKind := .ofUnderlying 0
  triggerCharacter : Option String := none

def CompletionContext.fields : List (Field CompletionContext) := [
  .value "triggerKind" triggerKind (fun v t => { t with triggerKind := v }),
  .optional "triggerCharacter" triggerCharacter (fun v t => { t with triggerCharacter := v })]

instance : ToJson CompletionContext := ⟨writeFields CompletionContext.fields⟩
instance : FromJson CompletionContext := ⟨fun j => readFields CompletionContext.fields j {}⟩

instance : Record CompletionContext where
  fields := CompletionContext.fields
  initial := {}

structure CompletionParams extends TextDocumentPositionParams where
  context : Option CompletionContext := none

def CompletionParams.fields : List (Field CompletionParams) :=
  TextDocumentPositionParams.fields.map
      (.inBase toTextDocumentPositionParams (fun b t => { t with toTextDocumentPositionParams := b })) ++ [
    .optionalDefaulted "context" context (fun v t => { t with context := v }) {}]

instance : ToJson CompletionParams := ⟨writeFields CompletionParams.fields⟩
instance : FromJson CompletionParams := ⟨fun j => readFields CompletionParams.fields j {}⟩

instance : Record CompletionParams where
  fields := CompletionParams.fields
  initial := {}

structure TextEdit where
  newText : String := ""
  range : Range := ⟨⟨0, 0⟩, ⟨0, 0⟩⟩

def TextEdit.fields : List (Field TextEdit) := [
  .value "newText" newText (fun v t => { t with newText := v }),
  .value "range" range (fun v t => { t with range := v })]

instance : ToJson TextEdit := ⟨writeFields TextEdit.fields⟩
instance : FromJson TextEdit := ⟨fun j => readFields TextEdit.fields j {}⟩

instance : Record TextEdit where
  fields := TextEdit.fields
  initial := {}

structure Command where
  title : String := ""
  command : String := ""
  arguments : Option (List Json) := none

def Command.fields : List (Field Command) := [
  .value "title" title (fun v t => { t with title := v }),
  .value "command" command (fun v t => { t with command := v }),
  .optional "arguments" arguments (fun v t => { t with arguments := v })]

instance : ToJson Command := ⟨writeFields Command.fields⟩
instance : FromJson Command := ⟨fun j => readFields Command.fields j {}⟩

instance : Record Command where
  fields := Command.fields
  initial := {}

inductive MarkupKind where
  | plainText
  | markdown
  deriving DecidableEq, Repr

instance : Enumerators MarkupKind where
  all := [.plainText, .markdown]
  code
    | .plainText => 1
    | .markdown => 2
  mem_all e := by cases e <;> decide
  nodup := by decide

structure MarkupContent where
  kind : Enumeration MarkupKind := .ofUnderlying 0
  value : String := ""

def MarkupContent.fields : List (Field MarkupContent) := [
  .value "kind" kind (fun v t => { t with kind := v }),
  .value "value" value (fun v t => { t with value := v })]

instance : ToJson MarkupContent := ⟨writeFields MarkupContent.fields⟩
instance : FromJson MarkupContent := ⟨fun j => readFields MarkupContent.fields j {}⟩

instance : Record MarkupContent where
  fields := MarkupContent.fields
  initial := {}

instance : Rejects String MarkupContent := ⟨fun _ => ⟨_, rfl⟩⟩

inductive CompletionItemKind where
  | text
  | method
  | function
  | constructor
  | field
  | «variable»
  | «class»
  | interface
  | module
  | property
  | unit
  | value
  | enum
  | keyword
  | snippet
  | color
  | file
  | reference
  | folder
  | enumMember
  | constant
  | struct
  | event
  | operator
  | typeParameter
  deriving DecidableEq, Repr

instance : Enumerators CompletionItemKind where
  all := [.text, .method, .function, .constructor, .field, .«variable», .«class», .interface, .module,
    .property, .unit, .value, .enum, .keyword, .snippet, .color, .file, .reference, .folder, .enumMember,
    .constant, .struct, .event, .operator, .typeParameter]
  code
    | .text => 1
    | .method => 2
    | .function => 3
    | .constructor => 4
    | .field => 5
    | .«variable» => 6
    | .«class» => 7
    | .interface => 8
    | .module => 9
    | .property => 10
    | .unit => 11
    | .value => 12
    | .enum => 13
    | .keyword => 14
    | .snippet => 15
    | .color => 16
    | .file => 17
    | .reference => 18
    | .folder => 19
    | .enumMember => 20
    | .constant => 21
    | .struct => 22
    | .event => 23
    | .operator => 24
    | .typeParameter => 25
  mem_all e := by cases e <;> decide
  nodup := by decide

inductive InsertTextFormat where
  | plainText
  | snippet
  deriving DecidableEq, Repr

instance : Enumerators InsertTextFormat where
  all := [.plainText, .snippet]
  code
    | .plainText => 1
    | .snippet => 2
  mem_all e := by cases e <;> decide
  nodup := by decide

structure CompletionItem extends TextDocumentIdentifier where
  label : String := ""
  kind : Option (Enumeration CompletionItemKind) := none
  detail : Option String := none
  documentation : Option (String ⊕ MarkupContent) := none
  deprecated : Option Bool := none
  preselect : Option Bool := none
  sortText : Option String := none
  filterText : Option String := none
  insertText : Option String := none
  insertTextFormat : Option (Enumeration InsertTextFormat) := none
  textEdit : Option TextEdit := none
  additionalTextEdits : Option (List TextEdit) := none
  commitCharacters : Option String := none
  command : Option Command := none
  data : Option Json := none

def CompletionItem.fields : List (Field CompletionItem) :=
  TextDocumentIdentifier.fields.map
      (.inBase toTextDocumentIdentifier (fun b t => { t with toTextDocumentIdentifier := b })) ++ [
    .defaulted "label" label (fun v t => { t with label := v }) {},
    .optionalDefaulted "kind" kind (fun v t => { t with kind := v }) {},
    .optionalDefaulted "detail" detail (fun v t => { t with detail := v }) {},
    .optionalDefaulted "documentation" documentation (fun v t => { t with documentation := v }) {},
    .optionalDefaulted "deprecated" deprecated (fun v t => { t with deprecated := v }) {},
    .optionalDefaulted "preselect" preselect (fun v t => { t with preselect := v }) {},
    .optionalDefaulted "sortText" sortText (fun v t => { t with sortText := v }) {},
    .optionalDefaulted "filterText" filterText (fun v t => { t with filterText := v }) {},
    .optionalDefaulted "insertText" insertText (fun v t => { t with insertText := v }) {},
    .optionalDefaulted "insertTextFormat" insertTextFormat (fun v t => { t with insertTextFormat := v }) {},
    .optionalDefaulted "textEdit" textEdit (fun v t => { t with textEdit := v }) {},
    .optionalDefaulted "additionalTextEdits" additionalTextEdits (fun v t => { t with additionalTextEdits := v }) {},
    .optionalDefaulted "commitCharacters" commitCharacters (fun v t => { t with commitCharacters := v }) {},
    .optionalDefaulted "command" command (fun v t => { t with command := v }) {},
    .optionalDefaulted "data" data (fun v t => { t with data := v }) {}]

instance : ToJson CompletionItem := ⟨writeFields CompletionItem.fields⟩
instance : FromJson CompletionItem := ⟨fun j => readFields CompletionItem.fields j {}⟩

instance : Record CompletionItem where
  fields := CompletionItem.fields
  initial := {}
  complete t u := by
    cases t
    cases u
    simp only [copyFields, CompletionItem.fields, TextDocumentIdentifier.fields, Field.inBase, Field.defaulted,
      Field.optionalDefaulted, List.map_cons, List.map_nil, List.cons_append, List.nil_append, List.foldl_cons,
      List.foldl_nil]

structure CompletionList where
  items : List CompletionItem := []
  isIncomplete : Bool := false

def CompletionList.fields : List (Field CompletionList) := [
  .value "items" items (fun v t => { t with items := v }),
  .value "isIncomplete" isIncomplete (fun v t => { t with isIncomplete := v })]

instance : ToJson CompletionList := ⟨writeFields CompletionList.fields⟩
instance : FromJson CompletionList := ⟨fun j => readFields CompletionList.fields j {}⟩

instance : Record CompletionList where
  fields := CompletionList.fields
  initial := {}

instance : Rejects (List CompletionItem) CompletionList := ⟨fun _ => ⟨_, rfl⟩⟩

abbrev CompletionsResponse := List CompletionItem ⊕ CompletionList

def Diagnostic.fields : List (Field Diagnostic) := [
  .value "range" range (fun v t => { t with range := v }),
  .optional "severity" severity (fun v t => { t with severity := v }),
  .optional "code" code (fun v t => { t with code := v }),
  .optional "source" source (fun v t => { t with source := v }),
  .value "message" message (fun v t => { t with message := v })]

instance : ToJson Diagnostic := ⟨writeFields Diagnostic.fields⟩

instance : Record Diagnostic where
  fields := Diagnostic.fields
  initial := ⟨⟨⟨0, 0⟩, ⟨0, 0⟩⟩, none, none, none, ""⟩
  fromJson_eq j := by simp [fromJson, Diagnostic.fields]

def PublishDiagnosticsParams.fields : List (Field PublishDiagnosticsParams) := [
  .value "uri" uri (fun v t => { t with uri := v }),
  .optional "version" version (fun v t => { t with version := v }),
  .value "diagnostics" diagnostics (fun v t => { t with diagnostics := v })]

instance : ToJson PublishDiagnosticsParams := ⟨writeFields PublishDiagnosticsParams.fields⟩

instance : Record PublishDiagnosticsParams where
  fields := PublishDiagnosticsParams.fields
  initial := ⟨"", none, []⟩
  fromJson_eq j := by simp [fromJson, PublishDiagnosticsParams.fields]

end Ycmd.Lsp
