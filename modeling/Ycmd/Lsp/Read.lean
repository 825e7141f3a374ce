import Ycmd.Lib.Json
import Ycmd.Lib.Chunks
import Ycmd.Lsp.Send

/-! `lsp::read_message`: the header loop, the body read and the buffer they share. The pipe is
the list of chunks its reads will return, and `json::parse` is a parameter. -/
namespace Ycmd.Lsp
open Lib Chunks

/-- How an iteration of the header loop ends: `continue` with, or `break` with, this
`content_length`. -/
inductive HeaderFlow where
  | next (contentLength : Nat)
  | leave (contentLength : Nat)
  deriving DecidableEq, Repr

def contentLengthName : Bytes := ascii "content-length"

/-- `while ( line ends in '\r' ) line.resize( line.length() - 1 )`. -/
def stripCR (line : Bytes) : Bytes := (line.reverse.dropWhile (· == CR)).reverse

/-- One iteration of the header loop, after the line has been stripped. -/
def headerLine (line : Bytes) (contentLength : Nat) : HeaderFlow :=
  if line = [] then .leave contentLength
  else if colon ∈ line then
    let header := (line.take (line.idxOf colon)).map toLower
    if header ≠ contentLengthName then .next contentLength
    else
      let value := (line.drop (line.idxOf colon + 1)).dropWhile isSpace
      if value = [] then .leave contentLength
      else match fromChars value with
        | .error _ => .leave contentLength
        | .ok n => .next n
  else .next contentLength

/-- Where the coroutine stands between two reads; `failed` once `json::parse` has thrown. -/
inductive Phase where
  | header (contentLength : Nat)
  | body (contentLength : Nat)
  | failed (e : JsonError)

/-- `handed` lists the arguments of `json::parse`, `yielded` the values given to the pump. -/
structure Reader where
  source : List Bytes
  phase : Phase := .header 0
  buf : Bytes := []
  handed : List Bytes := []
  yielded : List Json := []

variable (parse : Bytes → Decode Json)

/-- After the header loop: a zero length means there is no body to read. -/
def afterHeaders (contentLength : Nat) : Phase :=
  if contentLength = 0 then .header 0 else .body contentLength

/-- Read one header line, or one body and parse it. `none` while a read is waiting for data and
after an exception has left the coroutine. -/
def readStep (r : Reader) : Option Reader :=
  match r.phase with
  | .header contentLength => match readUntil LF r.source r.buf with
    | none => none
    | some (bytesRead, buf, source) =>
      let line := stripCR (buf.take (bytesRead-1))
      let r := { r with buf := buf.drop bytesRead, source := source }
      match headerLine line contentLength with
      | .next n => some { r with phase := .header n }
      | .leave n => some { r with phase := afterHeaders n }
  | .body contentLength => match transferExactly r.source (contentLength - r.buf.length) r.buf with
    | none => none
    | some (buf, source) =>
      let message := buf.take contentLength
      let r := { r with buf := buf.drop contentLength, source := source, handed := r.handed ++ [message] }
      match parse message with
      | .ok j => some { r with phase := .header 0, yielded := r.yielded ++ [j] }
      | .error e => some { r with phase := .failed e }
  | .failed _ => none

/-- Run until the coroutine waits or has ended. -/
def settle : Nat → Reader → Reader
  | 0, r => r
  | fuel+1, r => match readStep parse r with
    | none => r
    | some r' => settle fuel r'

/-- Every step but the last consumes a byte, so this is enough fuel. -/
def readMessage (source : List Bytes) : Reader :=
  settle parse (source.flatten.length + 1) { source := source }

/-- The bytes the reader has not consumed. -/
def Reader.ahead (r : Reader) : Bytes := r.buf ++ r.source.flatten

/-- `json::parse` on a lone closing brace and on an empty object. -/
def parseBraces (text : Bytes) : Decode Json :=
  if text = ascii "\x7b\x7d" then .ok (.obj [])
  else .error ⟨.parseError, 101, "parse error at line 1, column 1: syntax error while parsing value - " ++
    "unexpected '\x7d'; expected '[', '\x7b', or a literal"⟩

end Ycmd.Lsp
