import Ycmd.Lsp.Documents
import Ycmd.Lsp.Protocol
import Ycmd.Lsp.TextDocuments

/-! The notifications about documents as they are sent, and what a server reads in them. -/
namespace Ycmd.Lsp
open Lib Protocol

/-- The message that `lsp::send_notification` sends. -/
def notificationMessage {Payload : Type} [ToJson Payload] [FromJson Payload] [LawfulJson (Option Payload)]
    (method : String) (params : Payload) : Json :=
  let message : NotificationMessage Payload := { method, params := some params }
  toJson message

namespace Notification

/-- What `sync_files` sends. -/
def message : Notification → Json
  | .didOpen uri languageId version text =>
    let params : DidOpenTextDocumentParams := { textDocument := { uri, languageId, version, text } }
    notificationMessage "textDocument/didOpen" params
  | .didChange uri version text =>
    let params : DidChangeTextDocumentParams := { textDocument := { uri, version }, contentChanges := [{ text }] }
    notificationMessage "textDocument/didChange" params
  | .didClose uri =>
    let params : DidCloseTextDocumentParams := { textDocument := { uri } }
    notificationMessage "textDocument/didClose" params

def integerAt (j : Json) (key : String) : Option Int :=
  match j.find? key with
  | some (.int n) => some n
  | _ => none

/-- The notification that a message is to a server that synchronises whole documents, if it is one. -/
def ofMessage (j : Json) : Option Notification :=
  if j.contains "id" then none
  else do
    let method ← textAt j "method"
    let params ← j.find? "params"
    let textDocument ← params.find? "textDocument"
    let uri ← textAt textDocument "uri"
    if method = "textDocument/didOpen" then
      let languageId ← textAt textDocument "languageId"
      let version ← integerAt textDocument "version"
      let text ← textAt textDocument "text"
      some (.didOpen uri languageId version text)
    else if method = "textDocument/didChange" then
      let version ← integerAt textDocument "version"
      match params.find? "contentChanges" with
      | some (.arr [change]) => (textAt change "text").map (.didChange uri version)
      | _ => none
    else if method = "textDocument/didClose" then some (.didClose uri)
    else none

/-- What is sent is read as it was meant. -/
theorem ofMessage_message (n : Notification) : ofMessage n.message = some n := by
  cases n <;> rfl

theorem ofMessage_of_contains {j : Json} (h : j.contains "id" = true) : ofMessage j = none := if_pos h

end Notification
end Ycmd.Lsp
