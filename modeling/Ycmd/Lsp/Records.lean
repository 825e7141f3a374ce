import Ycmd.JsonRecords
import Ycmd.Lsp.Types

/-! The messages and the structures they are made of as records, with the encoders and decoders that are
not needed to talk to the server. -/
namespace Ycmd.Lsp
open Lib

instance : ToJson Message := ⟨fun t => toMember .null "jsonrpc" t.jsonrpc⟩

def Message.fields : List (Field Message) := [
  .value "jsonrpc" jsonrpc (fun v t => { t with jsonrpc := v })]

instance : Record Message where
  fields := Message.fields
  initial := {}
  fromJson_eq j := by simp [fromJson, Message.fields]

instance : Rejects String Double := ⟨fun _ => ⟨_, rfl⟩⟩

section RequestMessage
variable {Payload : Type} [ToJson Payload] [FromJson Payload] [LawfulJson (Option Payload)]

def RequestMessage.initial : RequestMessage Payload := { id := .inl "", method := "", params := none }

def RequestMessage.fields : List (Field (RequestMessage Payload)) :=
  Message.fields.map (.inBase toMessage (fun b t => { t with toMessage := b })) ++ [
    .defaulted "id" id (fun v t => { t with id := v }) initial,
    .defaulted "method" method (fun v t => { t with method := v }) initial,
    .optionalDefaulted "params" params (fun v t => { t with params := v }) initial]

instance : FromJson (RequestMessage Payload) := ⟨fun j => readFields RequestMessage.fields j .initial⟩

instance : Record (RequestMessage Payload) where
  fields := RequestMessage.fields
  initial := .initial
  toJson_eq t := (Member.write_ofOptional _ "params" t.params).symm
  nodup := by
    change ["jsonrpc", "id", "method", "params"].Nodup
    decide

end RequestMessage
section ResponseError
variable {Data : Type} [ToJson Data] [FromJson Data] [LawfulJson Data]

def ResponseError.fields : List (Field (ResponseError Data)) := [
  .value "code" code (fun v t => { t with code := v }),
  .value "message" message (fun v t => { t with message := v }),
  .value "data" data (fun v t => { t with data := v })]

instance : ToJson (ResponseError Data) := ⟨writeFields ResponseError.fields⟩

instance [Inhabited Data] : Record (ResponseError Data) where
  fields := ResponseError.fields
  initial := ⟨0, "", default⟩
  fromJson_eq j := by simp [fromJson, ResponseError.fields]
  nodup := by
    change ["code", "message", "data"].Nodup
    decide

end ResponseError

section ResponseMessage
variable {ResultType ErrorType : Type} [ToJson ResultType] [FromJson ResultType] [LawfulJson (Option ResultType)]
  [ToJson ErrorType] [FromJson ErrorType] [LawfulJson ErrorType] [Inhabited ErrorType]

def ResponseMessage.initial : ResponseMessage ResultType ErrorType := { id := .inl "", result := none, error := none }

def ResponseMessage.fields : List (Field (ResponseMessage ResultType ErrorType)) :=
  Message.fields.map (.inBase toMessage (fun b t => { t with toMessage := b })) ++ [
    .defaulted "id" id (fun v t => { t with id := v }) initial,
    .optionalDefaulted "result" result (fun v t => { t with result := v }) initial,
    .optionalDefaulted "error" error (fun v t => { t with error := v }) initial]

instance : ToJson (ResponseMessage ResultType ErrorType) := ⟨writeFields ResponseMessage.fields⟩

instance : Record (ResponseMessage ResultType ErrorType) where
  fields := ResponseMessage.fields
  initial := .initial
  fromJson_eq j := by simp [fromJson, ResponseMessage.fields, ResponseMessage.initial, Message.fields]
  nodup := by
    change ["jsonrpc", "id", "result", "error"].Nodup
    decide

end ResponseMessage

section NotificationMessage
variable {Params : Type} [ToJson Params] [FromJson Params] [LawfulJson (Option Params)]

def NotificationMessage.initial : NotificationMessage Params := { method := "", params := none }

def NotificationMessage.fields : List (Field (NotificationMessage Params)) :=
  Message.fields.map (.inBase toMessage (fun b t => { t with toMessage := b })) ++ [
    .defaulted "method" method (fun v t => { t with method := v }) initial,
    .optionalDefaulted "params" params (fun v t => { t with params := v }) initial]

instance : ToJson (NotificationMessage Params) := ⟨writeFields NotificationMessage.fields⟩

instance : Record (NotificationMessage Params) where
  fields := NotificationMessage.fields
  initial := .initial
  fromJson_eq j := by simp [fromJson, NotificationMessage.fields, NotificationMessage.initial, Message.fields]
  nodup := by
    change ["jsonrpc", "method", "params"].Nodup
    decide

end NotificationMessage

def Position.fields : List (Field Position) := [
  .value "line" line (fun v t => { t with line := v }),
  .value "character" character (fun v t => { t with character := v })]

instance : Record Position where
  fields := Position.fields
  initial := ⟨0, 0⟩
  fromJson_eq j := by simp [fromJson, Position.fields]

def Range.fields : List (Field Range) := [
  .value "start" start (fun v t => { t with start := v }),
  .value "end" «end» (fun v t => { t with «end» := v })]

instance : ToJson Range := ⟨writeFields Range.fields⟩

instance : Record Range where
  fields := Range.fields
  initial := ⟨⟨0, 0⟩, ⟨0, 0⟩⟩
  fromJson_eq j := by simp [fromJson, Range.fields]

structure Location where
  uri : String := ""
  range : Range := ⟨⟨0, 0⟩, ⟨0, 0⟩⟩

def Location.fields : List (Field Location) := [
  .value "uri" uri (fun v t => { t with uri := v }),
  .value "range" range (fun v t => { t with range := v })]

instance : ToJson Location := ⟨writeFields Location.fields⟩
instance : FromJson Location := ⟨fun j => readFields Location.fields j {}⟩

instance : Record Location where
  fields := Location.fields
  initial := {}

structure WorkspaceFolder where
  uri : String := ""
  name : String := ""

def WorkspaceFolder.fields : List (Field WorkspaceFolder) := [
  .value "uri" uri (fun v t => { t with uri := v }),
  .value "name" name (fun v t => { t with name := v })]

instance : ToJson WorkspaceFolder := ⟨writeFields WorkspaceFolder.fields⟩
instance : FromJson WorkspaceFolder := ⟨fun j => readFields WorkspaceFolder.fields j {}⟩

instance : Record WorkspaceFolder where
  fields := WorkspaceFolder.fields
  initial := {}

/-- `ClientCapabilities::Workspace`. -/
structure Workspace where
  applyEdit : Bool := false

def Workspace.fields : List (Field Workspace) := [
  .defaulted "applyEdit" applyEdit (fun v t => { t with applyEdit := v }) {}]

instance : ToJson Workspace := ⟨writeFields Workspace.fields⟩
instance : FromJson Workspace := ⟨fun j => readFields Workspace.fields j {}⟩

instance : Record Workspace where
  fields := Workspace.fields
  initial := {}

structure CompletionClientCapabilities where
  snippetSupport : Bool := false

def CompletionClientCapabilities.fields : List (Field CompletionClientCapabilities) := [
  .defaulted "snippetSupport" snippetSupport (fun v t => { t with snippetSupport := v }) {}]

instance : ToJson CompletionClientCapabilities := ⟨writeFields CompletionClientCapabilities.fields⟩
instance : FromJson CompletionClientCapabilities := ⟨fun j => readFields CompletionClientCapabilities.fields j {}⟩

instance : Record CompletionClientCapabilities where
  fields := CompletionClientCapabilities.fields
  initial := {}

structure TextDocumentClientCapabilities where
  completion : CompletionClientCapabilities := {}

def TextDocumentClientCapabilities.fields : List (Field TextDocumentClientCapabilities) := [
  .defaulted "completion" completion (fun v t => { t with completion := v }) {}]

instance : ToJson TextDocumentClientCapabilities := ⟨writeFields TextDocumentClientCapabilities.fields⟩
instance : FromJson TextDocumentClientCapabilities := ⟨fun j => readFields TextDocumentClientCapabilities.fields j {}⟩

instance : Record TextDocumentClientCapabilities where
  fields := TextDocumentClientCapabilities.fields
  initial := {}

structure ClientCapabilities where
  workspace : Workspace := {}
  textDocument : TextDocumentClientCapabilities := {}

def ClientCapabilities.fields : List (Field ClientCapabilities) := [
  .defaulted "workspace" workspace (fun v t => { t with workspace := v }) {},
  .defaulted "textDocument" textDocument (fun v t => { t with textDocument := v }) {}]

instance : ToJson ClientCapabilities := ⟨writeFields ClientCapabilities.fields⟩
instance : FromJson ClientCapabilities := ⟨fun j => readFields ClientCapabilities.fields j {}⟩

instance : Record ClientCapabilities where
  fields := ClientCapabilities.fields
  initial := {}

/-- The process and the folders are `Nullable`. -/
structure InitializeParams where
  processId : Option Int := none
  rootUri : String := ""
  initializationOptions : Json := .null
  workspaceFolders : Option (List WorkspaceFolder) := none
  capabilities : ClientCapabilities := {}

def InitializeParams.fields : List (Field InitializeParams) := [
  .nullable "processId" processId (fun v t => { t with processId := v }),
  .value "rootUri" rootUri (fun v t => { t with rootUri := v }),
  .value "initializationOptions" initializationOptions (fun v t => { t with initializationOptions := v }),
  .nullable "workspaceFolders" workspaceFolders (fun v t => { t with workspaceFolders := v }),
  .value "capabilities" capabilities (fun v t => { t with capabilities := v })]

instance : ToJson InitializeParams := ⟨writeFields InitializeParams.fields⟩
instance : FromJson InitializeParams := ⟨fun j => readFields InitializeParams.fields j {}⟩

instance : Record InitializeParams where
  fields := InitializeParams.fields
  initial := {}

def ServerInfo.fields : List (Field ServerInfo) := [
  .value "name" name (fun v t => { t with name := v }),
  .value "version" version (fun v t => { t with version := v })]

instance : ToJson ServerInfo := ⟨writeFields ServerInfo.fields⟩

instance : Record ServerInfo where
  fields := ServerInfo.fields
  initial := ⟨"", ""⟩
  fromJson_eq j := by simp [fromJson, ServerInfo.fields]

def InitializeResult.fields : List (Field InitializeResult) := [
  .value "capabilities" capabilities (fun v t => { t with capabilities := v }),
  .optional "serverInfo" serverInfo (fun v t => { t with serverInfo := v })]

instance : ToJson InitializeResult := ⟨writeFields InitializeResult.fields⟩

instance : Record InitializeResult where
  fields := InitializeResult.fields
  initial := ⟨.null, none⟩
  fromJson_eq j := by simp [fromJson, InitializeResult.fields]

end Ycmd.Lsp
