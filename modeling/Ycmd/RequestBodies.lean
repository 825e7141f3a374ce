import Ycmd.FilterAndSort
import Ycmd.Session

/-! The bodies of requests: what the handlers read of them, and what clients post. -/
namespace Ycmd
open Lib

/-- The pairs of `NLOHMANN_JSON_SERIALIZE_ENUM`. -/
def Event.name : Event → String
  | .fileReadyToParse => "FileReadyToParse"
  | .fileSave => "FileSave"
  | .bufferVisit => "BufferVisit"
  | .bufferUnload => "BufferUnload"
  | .insertLeave => "InsertLeave"
  | .currentIdentifierFinished => "CurrentIdentifierFinished"

def Event.all : List Event := [.fileReadyToParse, .fileSave, .bufferVisit, .bufferUnload, .insertLeave,
  .currentIdentifierFinished]

instance : ToJson Event := ⟨fun e => .str e.name⟩

/-- What is no name of an event is taken for the first of them. -/
instance : FromJson Event where
  fromJson
    | .str s => .ok ((Event.all.find? (fun e => e.name = s)).getD .fileReadyToParse)
    | _ => .ok .fileReadyToParse

instance : LawfulJson Event where
  Valid _ := True
  fromJson_toJson {e} _ := by cases e <;> rfl

/-- The event is what the server takes a name for. -/
inductive Event.Named : Event → String → Prop where
  | known (e : Event) : Named e e.name
  | unknown {s : String} (h : ∀ e : Event, e.name ≠ s) : Named .fileReadyToParse s

theorem Event.fromJson_named {s : String} {e : Event} (h : e.Named s) : fromJson (Json.str s) = .ok e := by
  cases h with
  | known => exact LawfulJson.fromJson_toJson trivial
  | unknown h =>
    have hnone : Event.all.find? (fun e => e.name = s) = none :=
      List.find?_eq_none.mpr (fun e _ => by simpa using h e)
    change Except.ok ((Event.all.find? (fun e => e.name = s)).getD .fileReadyToParse) = _
    rw [hnone]
    rfl

theorem Event.exists_named (s : String) : ∃ e : Event, e.Named s := by
  by_cases h : ∃ e : Event, e.name = s
  · obtain ⟨e, rfl⟩ := h
    exact ⟨e, .known e⟩
  · exact ⟨_, .unknown (fun e he => h ⟨e, he⟩)⟩

namespace Api

/-- The event of the default object is not set; its handler never goes on without the member. -/
structure EventNotification extends SimpleRequest where
  eventName : Event := .fileReadyToParse

def EventNotification.baseFields : List (Field EventNotification) :=
  SimpleRequest.fields.map (.inBase toSimpleRequest (fun b t => { t with toSimpleRequest := b }))

def EventNotification.fields : List (Field EventNotification) :=
  baseFields ++ [.defaulted "event_name" eventName (fun v t => { t with eventName := v }) {}]

instance : ToJson EventNotification := ⟨writeFields EventNotification.fields⟩
instance : FromJson EventNotification := ⟨fun j => readFields EventNotification.fields j {}⟩

instance : Record EventNotification where
  fields := EventNotification.fields
  initial := {}

theorem EventNotification.fromJson_of_find? {req : SimpleRequest} {j v : Json} {e : Event}
    (hbase : ∀ f ∈ SimpleRequest.fields, j.find? f.fieldName = (toJson req).find? f.fieldName)
    (hname : j.find? "event_name" = some v) (he : fromJson v = .ok e) :
    fromJson j = .ok ({ req with eventName := e } : EventNotification) := by
  let t : EventNotification := { req with eventName := e }
  have hfields : ∀ f ∈ baseFields, f.Valid t ∧ j.find? f.fieldName = (f.write t).value := by
    intro f hf
    obtain ⟨g, hg, rfl⟩ := List.mem_map.mp hf
    have hfind := (Record.holds req).find? _ (List.mem_map_of_mem hg)
    rw [g.fieldName_write] at hfind
    exact ⟨Record.valid_iff.mp (AlwaysValid.valid req) g hg, (hbase g hg).trans hfind⟩
  have hread : readFields baseFields j {} = .ok ({ toSimpleRequest := req } : EventNotification) :=
    readFields_of_find? (Json.isObject_of_find? hname) hfields {}
  change readFields (baseFields ++ _) j _ = _
  rw [readFields_append, hread]
  change readFields [_] j _ = _
  rw [readFields_cons, Field.read_defaulted, Json.valueOr_of_find? _ hname, he]
  rfl

def EventNotification.request (t : EventNotification) : Ycmd.EventNotification where
  toSimpleRequest := t.toSimpleRequest.request
  eventName := t.eventName

end Api

def FilterAndSortCandidatesRequest.fields : List (Field FilterAndSortCandidatesRequest) := [
  .value "candidates" candidates (fun v t => { t with candidates := v }),
  .optional "sort_property" sortProperty (fun v t => { t with sortProperty := v }),
  .value "query" query (fun v t => { t with query := v })]

instance : ToJson FilterAndSortCandidatesRequest := ⟨writeFields FilterAndSortCandidatesRequest.fields⟩
instance : FromJson FilterAndSortCandidatesRequest :=
  ⟨fun j => readFields FilterAndSortCandidatesRequest.fields j ⟨[], none, ""⟩⟩

instance : Record FilterAndSortCandidatesRequest where
  fields := FilterAndSortCandidatesRequest.fields
  initial := ⟨[], none, ""⟩

instance : AlwaysValid FilterAndSortCandidatesRequest :=
  ⟨fun _ => Record.valid_iff.mpr (by simp [Record.fields, FilterAndSortCandidatesRequest.fields])⟩

def InitializeRequest.fields : List (Field InitializeRequest) := [
  .value "user_options" userOptions (fun v t => { t with userOptions := v })]

instance : ToJson InitializeRequest := ⟨writeFields InitializeRequest.fields⟩

instance : Record InitializeRequest where
  fields := InitializeRequest.fields
  initial := ⟨.null⟩
  fromJson_eq _ := by simp [fromJson, InitializeRequest.fields]

instance : AlwaysValid InitializeRequest :=
  ⟨fun _ => Record.valid_iff.mpr (by simp [Record.fields, InitializeRequest.fields])⟩

/-- What a handler has read of a body when it goes on. -/
inductive Received where
  | initializeOptions (userOptions : Json)
  | completions (req : CompletionRequest)
  | eventNotification (req : EventNotification)
  | filterAndSortCandidates (req : FilterAndSortCandidatesRequest)
  | debugInfo (req : SimpleRequest)
  | nothing

section Handlers
variable (parse : Bytes → Decode Json)

/-- What the handlers read first: the others look at no body. -/
def received (req : Request) : Handler → Except Exn Received
  | .initializeOptions => do
    let (requestData, _) ← (jsonRequest parse req : Except Exn (InitializeRequest × Json))
    return .initializeOptions requestData.userOptions
  | .completions => do
    let (requestData, rawReq) ← (jsonRequest parse req : Except Exn (Api.SimpleRequest × Json))
    return .completions { requestData.request with forceSemantic := rawReq.find? "force_semantic" }
  | .eventNotification => do
    let (requestData, rawReq) ← (jsonRequest parse req : Except Exn (Api.EventNotification × Json))
    -- the event is logged as it is in the raw request
    let _ ← (rawReq.atKey "event_name").mapError .ofJson
    return .eventNotification requestData.request
  | .filterAndSortCandidates => do
    let (requestData, _) ← (jsonRequest parse req : Except Exn (FilterAndSortCandidatesRequest × Json))
    return .filterAndSortCandidates requestData
  | .debugInfo => do
    let (requestData, _) ← (jsonRequest parse req : Except Exn (Api.SimpleRequest × Json))
    return .debugInfo requestData.request
  | _ => return .nothing

end Handlers

theorem jsonRequest_ok {α : Type} [FromJson α] {parse : Bytes → Decode Json} {req : Request} {j : Json} {t : α}
    (hbody : parse req.body = .ok j) (ht : fromJson j = .ok t) :
    (jsonRequest parse req : Except Exn (α × Json)) = .ok (t, j) := by
  simp only [jsonRequest, hbody, Except.bind, ht, Except.map]

/-- Whatever else is in the body. -/
theorem jsonRequest_of_find? {R : Type} [ToJson R] [FromJson R] [Record R] [AlwaysValid R]
    {parse : Bytes → Decode Json} {req : Request} {j : Json} (t : R) (hbody : parse req.body = .ok j)
    (hobject : j.isObject = true)
    (h : ∀ name ∈ (Record.fields (R := R)).map Field.fieldName, j.find? name = (toJson t).find? name) :
    (jsonRequest parse req : Except Exn (R × Json)) = .ok (t, j) :=
  jsonRequest_ok hbody (Record.fromJson_of_find? (AlwaysValid.valid t) hobject
    (fun _ hf => h _ (List.mem_map_of_mem hf)))

/-- What a client posts. The event can be called anything. -/
inductive Posted where
  | initializeOptions (userOptions : Json)
  | completions (req : Api.SimpleRequest) (forceSemantic : Option Json)
  | eventNotification (req : Api.SimpleRequest) (eventName : String)
  | filterAndSortCandidates (req : FilterAndSortCandidatesRequest)
  | debugInfo (req : Api.SimpleRequest)

namespace Posted

def handler : Posted → Handler
  | initializeOptions _ => .initializeOptions
  | completions _ _ => .completions
  | eventNotification _ _ => .eventNotification
  | filterAndSortCandidates _ => .filterAndSortCandidates
  | debugInfo _ => .debugInfo

/-- The path it is posted to. -/
def path : Posted → String
  | initializeOptions _ => "/initialize"
  | completions _ _ => "/completions"
  | eventNotification _ _ => "/event_notification"
  | filterAndSortCandidates _ => "/filter_and_sort_candidates"
  | debugInfo _ => "/debug_info"

theorem lookup_path (posted : Posted) : handlers.lookup (.post, posted.path) = some posted.handler := by
  cases posted <;> rfl

/-- The members that mean something to the handler. -/
def names : Posted → List String
  | initializeOptions _ => InitializeRequest.fields.map Field.fieldName
  | completions _ _ => Api.SimpleRequest.fields.map Field.fieldName ++ ["force_semantic"]
  | eventNotification _ _ => Api.SimpleRequest.fields.map Field.fieldName ++ ["event_name"]
  | filterAndSortCandidates _ => FilterAndSortCandidatesRequest.fields.map Field.fieldName
  | debugInfo _ => Api.SimpleRequest.fields.map Field.fieldName

/-- The body with these members and no others. -/
def json : Posted → Json
  | initializeOptions userOptions => toJson (⟨userOptions⟩ : InitializeRequest)
  | completions req none => toJson req
  | completions req (some forceSemantic) => (toJson req).set "force_semantic" forceSemantic
  | eventNotification req eventName => (toJson req).set "event_name" (.str eventName)
  | filterAndSortCandidates req => toJson req
  | debugInfo req => toJson req

/-- What it asks of the handler. -/
inductive Asks : Posted → Received → Prop where
  | initializeOptions (userOptions : Json) :
      Asks (.initializeOptions userOptions) (.initializeOptions userOptions)
  | completions (req : Api.SimpleRequest) (forceSemantic : Option Json) :
      Asks (.completions req forceSemantic) (.completions { req.request with forceSemantic })
  | eventNotification (req : Api.SimpleRequest) {eventName : String} {e : Event} (h : e.Named eventName) :
      Asks (.eventNotification req eventName) (.eventNotification { req.request with eventName := e })
  | filterAndSortCandidates (req : FilterAndSortCandidatesRequest) :
      Asks (.filterAndSortCandidates req) (.filterAndSortCandidates req)
  | debugInfo (req : Api.SimpleRequest) : Asks (.debugInfo req) (.debugInfo req.request)

variable {parse : Bytes → Decode Json} {req : Request} {j : Json}

/-- A member beside those of the base leaves them as they are. -/
theorem find?_set_of_mem (simpleRequest : Api.SimpleRequest) {key name : String}
    (hkey : key ∉ Api.SimpleRequest.fields.map Field.fieldName) (v : Json)
    (hname : name ∈ Api.SimpleRequest.fields.map Field.fieldName) :
    ((toJson simpleRequest).set key v).find? name = (toJson simpleRequest).find? name := by
  rw [Json.find?_set, if_neg]
  rintro rfl
  exact hkey hname

/-- Whatever else a client puts into a body, the handler reads what is meant. -/
theorem received_of_find? {posted : Posted} (hbody : parse req.body = .ok j) (hobject : j.isObject = true)
    (hj : ∀ name ∈ posted.names, j.find? name = posted.json.find? name) :
    ∃ r, received parse req posted.handler = .ok r ∧ posted.Asks r := by
  cases posted with
  | initializeOptions userOptions =>
    have hread := jsonRequest_of_find? (⟨userOptions⟩ : InitializeRequest) hbody hobject hj
    refine ⟨_, ?_, .initializeOptions userOptions⟩
    rw [handler, received, hread]
    rfl
  | completions simpleRequest forceSemantic =>
    have hnames : ∀ name ∈ Api.SimpleRequest.fields.map Field.fieldName,
        j.find? name = (toJson simpleRequest).find? name := by
      intro name hname
      rw [hj name (List.mem_append_left _ hname)]
      cases forceSemantic with
      | none => rfl
      | some force => exact find?_set_of_mem simpleRequest (by decide) force hname
    have hforce : j.find? "force_semantic" = forceSemantic := by
      rw [hj _ (List.mem_append_right _ List.mem_cons_self)]
      cases forceSemantic with
      | none => exact Record.find?_absent simpleRequest (by decide)
      | some force => rw [json, Json.find?_set, if_pos rfl]
    have hread := jsonRequest_of_find? simpleRequest hbody hobject hnames
    refine ⟨_, ?_, .completions simpleRequest forceSemantic⟩
    rw [handler, received, hread, ← hforce]
    rfl
  | eventNotification simpleRequest eventName =>
    obtain ⟨e, he⟩ := Event.exists_named eventName
    have hbase : ∀ f ∈ Api.SimpleRequest.fields, j.find? f.fieldName = (toJson simpleRequest).find? f.fieldName := by
      intro f hf
      have hname : f.fieldName ∈ Api.SimpleRequest.fields.map Field.fieldName := List.mem_map_of_mem hf
      rw [hj _ (List.mem_append_left _ hname)]
      exact find?_set_of_mem simpleRequest (by decide) (.str eventName) hname
    have hevent : j.find? "event_name" = some (.str eventName) := by
      rw [hj _ (List.mem_append_right _ List.mem_cons_self), json, Json.find?_set, if_pos rfl]
    have hread := jsonRequest_ok hbody
      (Api.EventNotification.fromJson_of_find? hbase hevent (Event.fromJson_named he))
    refine ⟨_, ?_, .eventNotification simpleRequest he⟩
    rw [handler, received, hread]
    change (j.atKey "event_name").mapError Exn.ofJson >>= _ = _
    rw [Json.atKey_of_find? hevent]
    rfl
  | filterAndSortCandidates filterRequest =>
    have hread := jsonRequest_of_find? filterRequest hbody hobject hj
    refine ⟨_, ?_, .filterAndSortCandidates filterRequest⟩
    rw [handler, received, hread]
    rfl
  | debugInfo simpleRequest =>
    have hread := jsonRequest_of_find? simpleRequest hbody hobject hj
    refine ⟨_, ?_, .debugInfo simpleRequest⟩
    rw [handler, received, hread]
    rfl

/-- A request gets to its handler, which reads of the body what is meant. -/
theorem received_as_posted (urlPath : String → Except SystemError String) (parse : Bytes → Decode Json)
    {posted : Posted} {req : Request} {j : Json} (hmethod : req.method = .post)
    (hpath : urlPath req.target = .ok posted.path) (hbody : parse req.body = .ok j) (hobject : j.isObject = true)
    (hj : ∀ name ∈ posted.names, j.find? name = posted.json.find? name) :
    ∃ path handler r, urlPath req.target = .ok path ∧ handlers.lookup (req.method, path) = some handler ∧
      received parse req handler = .ok r ∧ posted.Asks r := by
  obtain ⟨r, hr, hasks⟩ := received_of_find? hbody hobject hj
  exact ⟨_, _, r, hpath, hmethod ▸ posted.lookup_path, hr, hasks⟩

end Posted

/-- An event that the server does not know, with a member that it does not know either. -/
def enterEvent : Request where
  method := .post
  target := "/event_notification"
  body := ascii "\x7b\"column_num\":1,\"completer_target\":\"\",\"event_name\":\"BufferEnter\"," ++
    ascii "\"extra_conf_data\":\x7b\x7d,\"file_data\":\x7b\x7d,\"filepath\":\"/a.cpp\",\"line_num\":1," ++
    ascii "\"tag_files\":[],\"working_dir\":\"\"\x7d"

def enterPosted : Posted := .eventNotification { lineNum := 1, columnNum := 1, filepath := "/a.cpp" } "BufferEnter"

/-- `json::parse` on that body. -/
def parseEnter (text : Bytes) : Decode Json :=
  if text = enterEvent.body then .ok (enterPosted.json.set "tag_files" (.arr []))
  else .error ⟨.parseError, 101, "syntax error"⟩

theorem received_as_posted_unknown : ∃ path handler r, plainPath enterEvent.target = .ok path ∧
    handlers.lookup (enterEvent.method, path) = some handler ∧ received parseEnter enterEvent handler = .ok r ∧
    enterPosted.Asks r := by
  refine Posted.received_as_posted plainPath parseEnter rfl rfl (if_pos rfl) (Json.isObject_set _ _ _) ?_
  intro name hname
  have hother : name ≠ "tag_files" := by rintro rfl; revert hname; decide
  rw [Json.find?_set, if_neg hother]

end Ycmd
