import Ycmd.Lsp.TextDocuments

/-! Every type a message can be made of, messages within messages included, and that what is sent is what
arrives. -/
namespace Ycmd.Lsp
open Lib

mutual

/-- The structures of the protocol, as far as they are written as objects. -/
inductive RecordType where
  | message
  | requestMessage (payload : PayloadType)
  | responseError (data : PayloadType)
  | responseMessage (resultType errorType : PayloadType)
  | notificationMessage (params : PayloadType)
  | position
  | range
  | location
  | workspaceFolder
  | workspace
  | completionClientCapabilities
  | textDocumentClientCapabilities
  | clientCapabilities
  | initializeParams
  | serverInfo
  | initializeResult
  | textDocumentItem
  | textDocumentIdentifier
  | versionedTextDocumentIdentifier
  | optionalVersionedTextDocumentIdentifier
  | didOpenTextDocumentParams
  | textDocumentChangeEvent
  | didChangeTextDocumentParams
  | didCloseTextDocumentParams
  | textDocumentPositionParams
  | completionContext
  | completionParams
  | textEdit
  | command
  | markupContent
  | completionItem
  | completionList
  | diagnostic
  | publishDiagnosticsParams

/-- What the parameters, the result or the data of a message can be. -/
inductive PayloadType where
  | any
  | object
  | string
  | boolean
  | integer
  | uinteger
  | number
  | id
  | triggerKind
  | markupKind
  | completionItemKind
  | insertTextFormat
  | documentation
  | completionsResponse
  | array (elements : PayloadType)
  | record (R : RecordType)

end

/-- A record type with its encoder and decoder. -/
structure RecordCodec where
  Value : Type
  [toJson : ToJson Value]
  [fromJson : FromJson Value]
  [record : Record Value]

structure PayloadCodec where
  Value : Type
  [toJson : ToJson Value]
  [fromJson : FromJson Value]
  [lawful : LawfulJson Value]
  [optional : LawfulJson (Option Value)]
  [inhabited : Inhabited Value]

attribute [instance] RecordCodec.toJson RecordCodec.fromJson RecordCodec.record
attribute [instance] PayloadCodec.toJson PayloadCodec.fromJson PayloadCodec.lawful PayloadCodec.optional
  PayloadCodec.inhabited

mutual

def RecordType.codec : RecordType → RecordCodec
  | .message => ⟨Message⟩
  | .requestMessage payload => ⟨RequestMessage payload.codec.Value⟩
  | .responseError data => ⟨ResponseError data.codec.Value⟩
  | .responseMessage resultType errorType => ⟨ResponseMessage resultType.codec.Value errorType.codec.Value⟩
  | .notificationMessage params => ⟨NotificationMessage params.codec.Value⟩
  | .position => ⟨Position⟩
  | .range => ⟨Range⟩
  | .location => ⟨Location⟩
  | .workspaceFolder => ⟨WorkspaceFolder⟩
  | .workspace => ⟨Workspace⟩
  | .completionClientCapabilities => ⟨CompletionClientCapabilities⟩
  | .textDocumentClientCapabilities => ⟨TextDocumentClientCapabilities⟩
  | .clientCapabilities => ⟨ClientCapabilities⟩
  | .initializeParams => ⟨InitializeParams⟩
  | .serverInfo => ⟨ServerInfo⟩
  | .initializeResult => ⟨InitializeResult⟩
  | .textDocumentItem => ⟨TextDocumentItem⟩
  | .textDocumentIdentifier => ⟨TextDocumentIdentifier⟩
  | .versionedTextDocumentIdentifier => ⟨VersionedTextDocumentIdentifier⟩
  | .optionalVersionedTextDocumentIdentifier => ⟨OptionalVersionedTextDocumentIdentifier⟩
  | .didOpenTextDocumentParams => ⟨DidOpenTextDocumentParams⟩
  | .textDocumentChangeEvent => ⟨TextDocumentChangeEvent⟩
  | .didChangeTextDocumentParams => ⟨DidChangeTextDocumentParams⟩
  | .didCloseTextDocumentParams => ⟨DidCloseTextDocumentParams⟩
  | .textDocumentPositionParams => ⟨TextDocumentPositionParams⟩
  | .completionContext => ⟨CompletionContext⟩
  | .completionParams => ⟨CompletionParams⟩
  | .textEdit => ⟨TextEdit⟩
  | .command => ⟨Command⟩
  | .markupContent => ⟨MarkupContent⟩
  | .completionItem => ⟨CompletionItem⟩
  | .completionList => ⟨CompletionList⟩
  | .diagnostic => ⟨Diagnostic⟩
  | .publishDiagnosticsParams => ⟨PublishDiagnosticsParams⟩

def PayloadType.codec : PayloadType → PayloadCodec
  | .any => ⟨Json⟩
  | .object => { Value := Object, inhabited := ⟨{}⟩ }
  | .string => ⟨String⟩
  | .boolean => ⟨Bool⟩
  | .integer => ⟨Int⟩
  | .uinteger => ⟨Nat⟩
  | .number => ⟨Double⟩
  | .id => { Value := ID, inhabited := ⟨.inl default⟩ }
  | .triggerKind => ⟨Enumeration TriggerKind⟩
  | .markupKind => ⟨Enumeration MarkupKind⟩
  | .completionItemKind => ⟨Enumeration CompletionItemKind⟩
  | .insertTextFormat => ⟨Enumeration InsertTextFormat⟩
  | .documentation => { Value := String ⊕ MarkupContent, inhabited := ⟨.inl default⟩ }
  | .completionsResponse => { Value := CompletionsResponse, inhabited := ⟨.inl default⟩ }
  | .array elements => ⟨List elements.codec.Value⟩
  | .record R => { Value := R.codec.Value, inhabited := ⟨Record.initial⟩ }

end

abbrev RecordType.Value (R : RecordType) : Type := R.codec.Value

/-- For every value of every message type and of every structure in one: an object is written, with a key
for an optional member exactly when it is set and one for every `Nullable` member, and it is read as the
same value. -/
theorem messages_round_trip (R : RecordType) (t : R.Value) (h : LawfulJson.Valid t) :
    (toJson t).isObject = true ∧
    (∀ fieldName v, .optional fieldName v ∈ Record.members t → (toJson t).contains fieldName = v.isSome) ∧
    (∀ fieldName v, .nullable fieldName v ∈ Record.members t →
      (toJson t).find? fieldName = some (v.getD .null)) ∧
    fromJson (toJson t) = .ok t := by
  have hholds := Record.holds t
  refine ⟨hholds.isObject, ?_, ?_, LawfulJson.fromJson_toJson h⟩
  · intro fieldName v hmem
    have hfind : (toJson t).find? fieldName = v := hholds.find? _ hmem
    rw [Json.contains, hfind]
  · intro fieldName v hmem
    exact hholds.find? _ hmem

/-- A snippet with its documentation, in an answer that carries no error. -/
def snippetAnswer : ResponseMessage CompletionsResponse := {
  id := .inr 7
  result := some (.inr {
    items := [{
      label := "for"
      kind := some (.listed .snippet)
      documentation := some (.inr { kind := .listed .markdown, value := "a loop" })
      data := some (.int 3) }]
    isIncomplete := true })
  error := none }

theorem snippetAnswer_valid : LawfulJson.Valid snippetAnswer := by
  simp [snippetAnswer, LawfulJson.Valid, Record.fields, ResponseMessage.fields, Message.fields, CompletionList.fields,
    CompletionItem.fields, TextDocumentIdentifier.fields, MarkupContent.fields, Field.inBase, Field.value,
    Field.defaulted, Field.optionalDefaulted, Json.isNull]

theorem messages_round_trip_snippet :
    (toJson snippetAnswer).isObject = true ∧ (toJson snippetAnswer).contains "error" = false ∧
    fromJson (toJson snippetAnswer) = .ok snippetAnswer := by
  obtain ⟨hobject, hoptional, _, hread⟩ :=
    messages_round_trip (.responseMessage .completionsResponse .any) snippetAnswer snippetAnswer_valid
  refine ⟨hobject, hoptional "error" none ?_, hread⟩
  exact .tail _ (.tail _ (.tail _ (.head _)))

end Ycmd.Lsp
