import Ycmd.JsonSerialisation
import Ycmd.Clangd.Sync

/-! The decoded requests that are about a place in a file. -/
namespace Ycmd
open Lib Clangd

inductive Event where
  | fileReadyToParse
  | fileSave
  | bufferVisit
  | bufferUnload
  | insertLeave
  | currentIdentifierFinished
  deriving DecidableEq, Repr

structure SimpleRequest where
  lineNum : Int
  columnNum : Int
  filepath : FilePath
  fileData : FileDataMap

structure EventNotification extends SimpleRequest where
  eventName : Event

/-- `force_semantic` is read from the raw request. -/
structure CompletionRequest extends SimpleRequest where
  forceSemantic : Option Json

/-- How a handler can stop short: an exception, or a read past the end of a vector or a view. -/
inductive Interrupt where
  | thrown
  | undefined
  deriving DecidableEq, Repr

/-- `req.file_data.at( req.filepath )`. -/
def SimpleRequest.file (req : SimpleRequest) : Except Interrupt FileData :=
  match req.fileData.files.find? (fun f => f.1.elements = req.filepath.elements) with
  | none => .error .thrown
  | some (_, filedata) => .ok filedata

/-- `RequestWrapper::first_filetype`. -/
def firstFiletype (req : SimpleRequest) : Except Interrupt String :=
  match req.fileData.files.find? (fun f => f.1.elements = req.filepath.elements) with
  | none => .error .thrown
  | some (_, filedata) => match filedata.filetypes with
    | filetype :: _ => .ok filetype
    | [] => .error .undefined

theorem firstFiletype_of_file {req : SimpleRequest} {filedata : FileData} (h : req.file = .ok filedata) :
    firstFiletype req = filedata.filetypes.head?.elim (.error .undefined) .ok := by
  unfold SimpleRequest.file at h
  unfold firstFiletype
  split at h
  · cases h
  · obtain rfl := Except.ok.inj h
    split <;> rename_i hfiletypes <;> rw [hfiletypes] <;> rfl

end Ycmd
