import Ycmd.Api.FileDataMap
import Ycmd.Requests

/-! The records of the ycmd protocol: what requests and responses are built from. -/
namespace Ycmd
open Lib

/-- `responses::Error`. -/
structure ErrorResponse where
  exception : String
  message : String
  traceback : String

instance : ToJson ErrorResponse where
  toJson t :=
    let j := toMember .null "exception" t.exception
    let j := toMember j "message" t.message
    toMember j "traceback" t.traceback

def ErrorResponse.fields : List (Field ErrorResponse) := [
  .defaulted "exception" exception (fun v t => { t with exception := v }) ⟨"", "", ""⟩,
  .defaulted "message" message (fun v t => { t with message := v }) ⟨"", "", ""⟩,
  .defaulted "traceback" traceback (fun v t => { t with traceback := v }) ⟨"", "", ""⟩]

instance : FromJson ErrorResponse := ⟨fun j => readFields ErrorResponse.fields j ⟨"", "", ""⟩⟩

instance : Record ErrorResponse where
  fields := ErrorResponse.fields
  initial := ⟨"", "", ""⟩

instance : AlwaysValid ErrorResponse :=
  ⟨fun _ => Record.valid_iff.mpr (by simp [Record.fields, ErrorResponse.fields])⟩

namespace Api
open Clangd (FilePath FileData)

structure Location where
  lineNum : Int32 := 0
  columnNumber : Int32 := 0
  filepath : FilePath := ""

def Location.fields : List (Field Location) := [
  .defaulted "line_num" lineNum (fun v t => { t with lineNum := v }) {},
  .defaulted "column_number" columnNumber (fun v t => { t with columnNumber := v }) {},
  .defaulted "filepath" filepath (fun v t => { t with filepath := v }) {}]

instance : ToJson Location := ⟨writeFields Location.fields⟩
instance : FromJson Location := ⟨fun j => readFields Location.fields j {}⟩

instance : Record Location where
  fields := Location.fields
  initial := {}

instance : AlwaysValid Location := ⟨fun _ => Record.valid_iff.mpr (by simp [Record.fields, Location.fields])⟩

structure Range where
  start : Location := {}
  «end» : Location := {}

def Range.fields : List (Field Range) := [
  .defaulted "start" start (fun v t => { t with start := v }) {},
  .defaulted "end" «end» (fun v t => { t with «end» := v }) {}]

instance : ToJson Range := ⟨writeFields Range.fields⟩
instance : FromJson Range := ⟨fun j => readFields Range.fields j {}⟩

instance : Record Range where
  fields := Range.fields
  initial := {}

instance : AlwaysValid Range := ⟨fun _ => Record.valid_iff.mpr (by simp [Record.fields, Range.fields])⟩

/-- `FixIt::Chunk`. -/
structure Chunk where
  replacementText : String := ""
  range : Range := {}

def Chunk.fields : List (Field Chunk) := [
  .defaulted "replacement_text" replacementText (fun v t => { t with replacementText := v }) {},
  .defaulted "range" range (fun v t => { t with range := v }) {}]

instance : ToJson Chunk := ⟨writeFields Chunk.fields⟩
instance : FromJson Chunk := ⟨fun j => readFields Chunk.fields j {}⟩

instance : Record Chunk where
  fields := Chunk.fields
  initial := {}

instance : AlwaysValid Chunk := ⟨fun _ => Record.valid_iff.mpr (by simp [Record.fields, Chunk.fields])⟩

structure FixIt where
  text : String := ""
  location : Location := {}
  resolve : Option Bool := none
  kind : String := ""
  chunks : List Chunk := []

def FixIt.fields : List (Field FixIt) := [
  .defaulted "text" text (fun v t => { t with text := v }) {},
  .defaulted "location" location (fun v t => { t with location := v }) {},
  .optionalDefaulted "resolve" resolve (fun v t => { t with resolve := v }) {},
  .defaulted "kind" kind (fun v t => { t with kind := v }) {},
  .defaulted "chunks" chunks (fun v t => { t with chunks := v }) {}]

instance : ToJson FixIt := ⟨writeFields FixIt.fields⟩
instance : FromJson FixIt := ⟨fun j => readFields FixIt.fields j {}⟩

instance : Record FixIt where
  fields := FixIt.fields
  initial := {}

instance : AlwaysValid FixIt := ⟨fun _ => Record.valid_iff.mpr (by simp [Record.fields, FixIt.fields])⟩

structure Candidate where
  insertionText : String := ""
  menuText : Option String := none
  extraMenuInfo : Option String := none
  detailedInfo : Option String := none
  kind : Option String := none
  extraData : Option String := none
  docString : Option String := none
  fixits : Option (List FixIt) := none

def Candidate.fields : List (Field Candidate) := [
  .defaulted "insertion_text" insertionText (fun v t => { t with insertionText := v }) {},
  .optionalDefaulted "extra_menu_info" extraMenuInfo (fun v t => { t with extraMenuInfo := v }) {},
  .optionalDefaulted "detailed_info" detailedInfo (fun v t => { t with detailedInfo := v }) {},
  .optionalDefaulted "kind" kind (fun v t => { t with kind := v }) {},
  .optionalDefaulted "extra_data" extraData (fun v t => { t with extraData := v }) {},
  .optionalDefaulted "doc_string" docString (fun v t => { t with docString := v }) {},
  .optionalDefaulted "fixits" fixits (fun v t => { t with fixits := v }) {}]

instance : ToJson Candidate := ⟨writeFields Candidate.fields⟩
instance : FromJson Candidate := ⟨fun j => readFields Candidate.fields j {}⟩

theorem Candidate.fields_nodup : (Candidate.fields.map Field.fieldName).Nodup := by decide

def Candidate.withoutMenuText (t : Candidate) : Candidate := { t with menuText := none }

theorem Candidate.withoutMenuText_eq_self {t : Candidate} : t.withoutMenuText = t ↔ t.menuText = none := by
  constructor
  · intro h
    exact (congrArg Candidate.menuText h).symm
  · intro h
    cases t
    cases h
    rfl

theorem Candidate.map_withoutMenuText_eq_self {l : List Candidate} (h : ∀ c ∈ l, c.menuText = none) :
    l.map Candidate.withoutMenuText = l := by
  calc l.map Candidate.withoutMenuText
    _ = l.map id := List.map_congr_left (fun c hc => Candidate.withoutMenuText_eq_self.mpr (h c hc))
    _ = l := List.map_id _

/-- The menu text is not listed among the members. -/
theorem Candidate.fromJson_toJson (t : Candidate) : fromJson (toJson t) = .ok t.withoutMenuText :=
  readFields_writeFields (List.cons_ne_nil _ _) Candidate.fields_nodup (by simp) {}

instance : LawfulJson Candidate where
  Valid t := t.menuText = none
  fromJson_toJson ht := by rw [Candidate.fromJson_toJson, Candidate.withoutMenuText_eq_self.mpr ht]

structure SimpleRequest where
  lineNum : Int32 := 0
  columnNum : Int32 := 0
  filepath : FilePath := ""
  fileData : FileDataMap := .empty
  completerTarget : String := ""
  workingDir : String := ""
  extraConfData : Object := {}

def SimpleRequest.fields : List (Field SimpleRequest) := [
  .defaulted "line_num" lineNum (fun v t => { t with lineNum := v }) {},
  .defaulted "column_num" columnNum (fun v t => { t with columnNum := v }) {},
  .defaulted "filepath" filepath (fun v t => { t with filepath := v }) {},
  .defaulted "file_data" fileData (fun v t => { t with fileData := v }) {},
  .defaulted "completer_target" completerTarget (fun v t => { t with completerTarget := v }) {},
  .defaulted "working_dir" workingDir (fun v t => { t with workingDir := v }) {},
  .defaulted "extra_conf_data" extraConfData (fun v t => { t with extraConfData := v }) {}]

instance : ToJson SimpleRequest := ⟨writeFields SimpleRequest.fields⟩
instance : FromJson SimpleRequest := ⟨fun j => readFields SimpleRequest.fields j {}⟩

instance : Record SimpleRequest where
  fields := SimpleRequest.fields
  initial := {}

instance : AlwaysValid SimpleRequest :=
  ⟨fun _ => Record.valid_iff.mpr (by simp [Record.fields, SimpleRequest.fields])⟩

/-- What of a request the handlers ask for. -/
def SimpleRequest.request (t : SimpleRequest) : Ycmd.SimpleRequest where
  lineNum := t.lineNum.toInt
  columnNum := t.columnNum.toInt
  filepath := t.filepath
  fileData := t.fileData.toFileDataMap

structure CompletionsResponse where
  completions : List Candidate := []
  completionStartColumn : Int32 := 0
  errors : List ErrorResponse := []

def CompletionsResponse.fields : List (Field CompletionsResponse) := [
  .defaulted "completions" completions (fun v t => { t with completions := v }) {},
  .defaulted "completion_start_column" completionStartColumn (fun v t => { t with completionStartColumn := v }) {},
  .defaulted "errors" errors (fun v t => { t with errors := v }) {}]

instance : ToJson CompletionsResponse := ⟨writeFields CompletionsResponse.fields⟩
instance : FromJson CompletionsResponse := ⟨fun j => readFields CompletionsResponse.fields j {}⟩

instance : Record CompletionsResponse where
  fields := CompletionsResponse.fields
  initial := {}

/-- `SemanticTokensResponse::Tokens`. -/
structure Tokens where
  tokens : List Int32 := []

def Tokens.fields : List (Field Tokens) := [
  .defaulted "tokens" tokens (fun v t => { t with tokens := v }) {}]

instance : ToJson Tokens := ⟨writeFields Tokens.fields⟩
instance : FromJson Tokens := ⟨fun j => readFields Tokens.fields j {}⟩

instance : Record Tokens where
  fields := Tokens.fields
  initial := {}

instance : AlwaysValid Tokens := ⟨fun _ => Record.valid_iff.mpr (by simp [Record.fields, Tokens.fields])⟩

structure SemanticTokensResponse where
  semanticTokens : Tokens := {}
  errors : List ErrorResponse := []

def SemanticTokensResponse.fields : List (Field SemanticTokensResponse) := [
  .defaulted "semantic_tokens" semanticTokens (fun v t => { t with semanticTokens := v }) {},
  .defaulted "errors" errors (fun v t => { t with errors := v }) {}]

instance : ToJson SemanticTokensResponse := ⟨writeFields SemanticTokensResponse.fields⟩
instance : FromJson SemanticTokensResponse := ⟨fun j => readFields SemanticTokensResponse.fields j {}⟩

instance : Record SemanticTokensResponse where
  fields := SemanticTokensResponse.fields
  initial := {}

instance : AlwaysValid SemanticTokensResponse :=
  ⟨fun _ => Record.valid_iff.mpr (by simp [Record.fields, SemanticTokensResponse.fields])⟩

/-- `InlayHintsResponse::InlayHint`. -/
structure InlayHint where
  hint : String := ""

def InlayHint.fields : List (Field InlayHint) := [
  .defaulted "hint" hint (fun v t => { t with hint := v }) {}]

instance : ToJson InlayHint := ⟨writeFields InlayHint.fields⟩
instance : FromJson InlayHint := ⟨fun j => readFields InlayHint.fields j {}⟩

instance : Record InlayHint where
  fields := InlayHint.fields
  initial := {}

instance : AlwaysValid InlayHint := ⟨fun _ => Record.valid_iff.mpr (by simp [Record.fields, InlayHint.fields])⟩

structure InlayHintsResponse where
  inlayHints : List InlayHint := []
  errors : List ErrorResponse := []

def InlayHintsResponse.fields : List (Field InlayHintsResponse) := [
  .defaulted "inlay_hints" inlayHints (fun v t => { t with inlayHints := v }) {},
  .defaulted "errors" errors (fun v t => { t with errors := v }) {}]

instance : ToJson InlayHintsResponse := ⟨writeFields InlayHintsResponse.fields⟩
instance : FromJson InlayHintsResponse := ⟨fun j => readFields InlayHintsResponse.fields j {}⟩

instance : Record InlayHintsResponse where
  fields := InlayHintsResponse.fields
  initial := {}

instance : AlwaysValid InlayHintsResponse :=
  ⟨fun _ => Record.valid_iff.mpr (by simp [Record.fields, InlayHintsResponse.fields])⟩

/-- `DebugInfoResponse::Python`. -/
structure Python where
  executable : String := ""
  version : Option String := none

def Python.fields : List (Field Python) := [
  .value "executable" executable (fun v t => { t with executable := v }),
  .nullable "version" version (fun v t => { t with version := v })]

instance : ToJson Python := ⟨writeFields Python.fields⟩
instance : FromJson Python := ⟨fun j => readFields Python.fields j {}⟩

instance : Record Python where
  fields := Python.fields
  initial := {}

instance : AlwaysValid Python := ⟨fun _ => Record.valid_iff.mpr (by simp [Record.fields, Python.fields])⟩

/-- `DebugInfoResponse::Clang`. -/
structure Clang where
  hasSupport : Bool := false
  version : Option String := none

def Clang.fields : List (Field Clang) := [
  .value "has_support" hasSupport (fun v t => { t with hasSupport := v }),
  .nullable "version" version (fun v t => { t with version := v })]

instance : ToJson Clang := ⟨writeFields Clang.fields⟩
instance : FromJson Clang := ⟨fun j => readFields Clang.fields j {}⟩

instance : Record Clang where
  fields := Clang.fields
  initial := {}

instance : AlwaysValid Clang := ⟨fun _ => Record.valid_iff.mpr (by simp [Record.fields, Clang.fields])⟩

/-- `DebugInfoResponse::ExtraConf`. -/
structure ExtraConf where
  path : String := ""
  isLoaded : Bool := false

def ExtraConf.fields : List (Field ExtraConf) := [
  .value "path" path (fun v t => { t with path := v }),
  .value "is_loaded" isLoaded (fun v t => { t with isLoaded := v })]

instance : ToJson ExtraConf := ⟨writeFields ExtraConf.fields⟩
instance : FromJson ExtraConf := ⟨fun j => readFields ExtraConf.fields j {}⟩

instance : Record ExtraConf where
  fields := ExtraConf.fields
  initial := {}

instance : AlwaysValid ExtraConf := ⟨fun _ => Record.valid_iff.mpr (by simp [Record.fields, ExtraConf.fields])⟩

structure DebugInfoResponse where
  python : Python := {}
  clang : Clang := {}
  extraConf : ExtraConf := {}
  completer : Json := .null

def DebugInfoResponse.fields : List (Field DebugInfoResponse) := [
  .value "python" python (fun v t => { t with python := v }),
  .value "clang" clang (fun v t => { t with clang := v }),
  .value "extra_conf" extraConf (fun v t => { t with extraConf := v }),
  .value "completer" completer (fun v t => { t with completer := v })]

instance : ToJson DebugInfoResponse := ⟨writeFields DebugInfoResponse.fields⟩
instance : FromJson DebugInfoResponse := ⟨fun j => readFields DebugInfoResponse.fields j {}⟩

instance : Record DebugInfoResponse where
  fields := DebugInfoResponse.fields
  initial := {}

instance : AlwaysValid DebugInfoResponse :=
  ⟨fun _ => Record.valid_iff.mpr (by simp [Record.fields, DebugInfoResponse.fields])⟩

def CompletionsResponse.withoutMenuTexts (t : CompletionsResponse) : CompletionsResponse :=
  { t with completions := t.completions.map Candidate.withoutMenuText }

theorem CompletionsResponse.toJson_withoutMenuTexts (t : CompletionsResponse) :
    toJson t.withoutMenuTexts = toJson t := by
  have hcompletions : toJson (t.completions.map Candidate.withoutMenuText) = toJson t.completions :=
    congrArg Json.arr (List.map_map ..)
  have hmember : Member.ofValue "completions" (t.completions.map Candidate.withoutMenuText) =
      Member.ofValue "completions" t.completions := congrArg (Member.required "completions") hcompletions
  change writeMembers .null (_ :: _) = writeMembers .null (_ :: _)
  exact congrArg (fun member => writeMembers .null (member :: _)) hmember

theorem CompletionsResponse.fromJson_toJson (t : CompletionsResponse) :
    fromJson (toJson t) = .ok t.withoutMenuTexts := by
  rw [← t.toJson_withoutMenuTexts]
  apply LawfulJson.fromJson_toJson
  rw [Record.valid_iff]
  simp only [Record.fields, CompletionsResponse.fields, List.forall_mem_cons, Field.valid_defaulted, true_and]
  refine ⟨?_, List.forall_mem_nil _⟩
  intro c hc
  obtain ⟨c', _, rfl⟩ := List.mem_map.mp hc
  rfl

/-- A value of one of the types that requests and responses are built from. -/
inductive WireValue where
  | location (t : Location)
  | range (t : Range)
  | fixIt (t : FixIt)
  | candidate (t : Candidate)
  | simpleRequest (t : SimpleRequest)
  | completionsResponse (t : CompletionsResponse)
  | semanticTokensResponse (t : SemanticTokensResponse)
  | inlayHintsResponse (t : InlayHintsResponse)
  | debugInfoResponse (t : DebugInfoResponse)

namespace WireValue

/-- The candidates in the value. -/
def candidates : WireValue → List Candidate
  | candidate t => [t]
  | completionsResponse t => t.completions
  | _ => []

/-- Decoding what `to_json` produces yields the same value. -/
def RoundTrips : WireValue → Prop
  | location t => fromJson (toJson t) = .ok t
  | range t => fromJson (toJson t) = .ok t
  | fixIt t => fromJson (toJson t) = .ok t
  | candidate t => fromJson (toJson t) = .ok t
  | simpleRequest t => fromJson (toJson t) = .ok t
  | completionsResponse t => fromJson (toJson t) = .ok t
  | semanticTokensResponse t => fromJson (toJson t) = .ok t
  | inlayHintsResponse t => fromJson (toJson t) = .ok t
  | debugInfoResponse t => fromJson (toJson t) = .ok t

theorem menu_text_lost :
    ¬ (candidate { insertionText := "main", menuText := some "main()" }).RoundTrips := by
  intro h
  cases (Candidate.fromJson_toJson _).symm.trans h

end WireValue

theorem roundTrip {α : Type} [ToJson α] [FromJson α] [LawfulJson α] [AlwaysValid α] (t : α) :
    fromJson (toJson t) = .ok t := LawfulJson.fromJson_toJson (AlwaysValid.valid t)

/-- The handlers are asked what the client has sent. -/
theorem SimpleRequest.request_received (t : SimpleRequest) :
    (fromJson (toJson t) : Decode SimpleRequest).map request = .ok t.request := by
  rw [roundTrip]
  rfl

theorem Candidate.roundTrips_iff (t : Candidate) : fromJson (toJson t) = .ok t ↔ t.menuText = none := by
  rw [Candidate.fromJson_toJson, Except.ok.injEq, Candidate.withoutMenuText_eq_self]

theorem CompletionsResponse.roundTrips_iff (t : CompletionsResponse) :
    fromJson (toJson t) = .ok t ↔ ∀ c ∈ t.completions, c.menuText = none := by
  rw [CompletionsResponse.fromJson_toJson, Except.ok.injEq]
  constructor
  · intro h c hc
    have hcompletions : t.completions.map Candidate.withoutMenuText = t.completions :=
      congrArg CompletionsResponse.completions h
    rw [← hcompletions] at hc
    obtain ⟨c', _, rfl⟩ := List.mem_map.mp hc
    rfl
  · intro h
    rw [withoutMenuTexts, Candidate.map_withoutMenuText_eq_self h]

/-- A value comes back unless it has a candidate with a menu text in it. -/
theorem wire_values_round_trip_iff (v : WireValue) : v.RoundTrips ↔ ∀ c ∈ v.candidates, c.menuText = none := by
  cases v with
  | candidate t =>
    rw [WireValue.candidates, List.forall_mem_singleton]
    exact t.roundTrips_iff
  | completionsResponse t => exact t.roundTrips_iff
  | location t => exact iff_of_true (roundTrip t) (List.forall_mem_nil _)
  | range t => exact iff_of_true (roundTrip t) (List.forall_mem_nil _)
  | fixIt t => exact iff_of_true (roundTrip t) (List.forall_mem_nil _)
  | simpleRequest t => exact iff_of_true (roundTrip t) (List.forall_mem_nil _)
  | semanticTokensResponse t => exact iff_of_true (roundTrip t) (List.forall_mem_nil _)
  | inlayHintsResponse t => exact iff_of_true (roundTrip t) (List.forall_mem_nil _)
  | debugInfoResponse t => exact iff_of_true (roundTrip t) (List.forall_mem_nil _)

end Api
end Ycmd
