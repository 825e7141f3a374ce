import Ycmd.JsonSerialisation

/-! The LSP 3.16 message types and their decoders, member by member in the order of the source. -/
namespace Ycmd.Lsp
open Lib

abbrev ID := String ⊕ Double

structure Message where
  jsonrpc : String := "2.0"
  deriving DecidableEq

instance : FromJson Message where
  fromJson j := do
    let jsonrpc ← fromMember j "jsonrpc"
    pure { jsonrpc }

structure RequestMessage (Payload : Type) extends Message where
  id : ID
  method : String
  params : Option Payload

instance {Payload : Type} [ToJson Payload] : ToJson (RequestMessage Payload) where
  toJson t :=
    let j := toMember .null "jsonrpc" t.jsonrpc
    let j := toMember j "id" t.id
    let j := toMember j "method" t.method
    toOptionalMember j "params" t.params

structure ResponseError (Data : Type) where
  code : Int
  message : String
  data : Data

instance {Data : Type} [FromJson Data] : FromJson (ResponseError Data) where
  fromJson j := do
    let code ← fromMember j "code"
    let message ← fromMember j "message"
    let data ← fromMember j "data"
    pure { code, message, data }

structure ResponseMessage (ResultType : Type) (ErrorType : Type := Json) extends Message where
  id : ID
  result : Option ResultType
  error : Option (ResponseError ErrorType)

instance {ResultType ErrorType : Type} [FromJson ResultType] [FromJson ErrorType] :
    FromJson (ResponseMessage ResultType ErrorType) where
  fromJson j := do
    let base : Message ← fromJson j
    let id ← j.valueOr "id" (Sum.inl "")
    let result ← j.valueOr "result" none
    let error ← j.valueOr "error" none
    pure { toMessage := base, id, result, error }

structure NotificationMessage (Params : Type) extends Message where
  method : String
  params : Option Params

instance {Params : Type} [FromJson Params] : FromJson (NotificationMessage Params) where
  fromJson j := do
    let base : Message ← fromJson j
    let method ← j.valueOr "method" ""
    let params ← j.valueOr "params" none
    pure { toMessage := base, method, params }

structure Position where
  line : Nat
  character : Nat
  deriving DecidableEq, Repr

instance : FromJson Position where
  fromJson j := do
    let line ← fromMember j "line"
    let character ← fromMember j "character"
    pure { line, character }

instance : ToJson Position where
  toJson t := toMember (toMember .null "line" t.line) "character" t.character

structure Range where
  start : Position
  «end» : Position
  deriving DecidableEq, Repr

instance : FromJson Range where
  fromJson j := do
    let start ← fromMember j "start"
    let «end» ← fromMember j "end"
    pure { start, «end» }

structure ServerInfo where
  name : String
  version : String

instance : FromJson ServerInfo where
  fromJson j := do
    let name ← fromMember j "name"
    let version ← fromMember j "version"
    pure { name, version }

structure InitializeResult where
  capabilities : Json
  serverInfo : Option ServerInfo

instance : FromJson InitializeResult where
  fromJson j := do
    let capabilities ← fromMember j "capabilities"
    let serverInfo ← fromOptionalMember j "serverInfo"
    pure { capabilities, serverInfo }

structure Diagnostic where
  range : Range
  severity : Option Int
  code : Option Int
  source : Option String
  message : String

instance : FromJson Diagnostic where
  fromJson j := do
    let range ← fromMember j "range"
    let severity ← fromOptionalMember j "severity"
    let code ← fromOptionalMember j "code"
    let source ← fromOptionalMember j "source"
    let message ← fromMember j "message"
    pure { range, severity, code, source, message }

structure PublishDiagnosticsParams where
  uri : String
  version : Option Int
  diagnostics : List Diagnostic

instance : FromJson PublishDiagnosticsParams where
  fromJson j := do
    let uri ← fromMember j "uri"
    let version ← fromOptionalMember j "version"
    let diagnostics ← fromMember j "diagnostics"
    pure { uri, version, diagnostics }

end Ycmd.Lsp
