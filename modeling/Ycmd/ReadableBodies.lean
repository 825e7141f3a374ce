import Ycmd.Lsp.Accepted
import Ycmd.RequestBodies

/-! Which bodies the handlers can read, and that the server outlives those and no others. -/
namespace Ycmd
open Lib Lsp.Protocol Lsp.Accepted

namespace Readable

/-- An `int` is also read from a boolean. -/
def isInt (j : Json) : Bool := isNumber j || isBool j

def isObjectOf (readable : Json → Bool) : Json → Bool
  | .obj members => members.all (fun m => readable m.2)
  | _ => false

def fileData (j : Json) : Bool :=
  j.isObject && mayHave j "filetypes" (isArrayOf isString) && mayHave j "contents" isString

/-- Every member can be left out, but none can be null. -/
def simpleRequest (j : Json) : Bool :=
  j.isObject && mayHave j "line_num" isInt && mayHave j "column_num" isInt && mayHave j "filepath" isString &&
  mayHave j "file_data" (isObjectOf fileData) && mayHave j "completer_target" isString &&
  mayHave j "working_dir" isString && mayHave j "extra_conf_data" Json.isObject

def filterAndSortCandidatesRequest (j : Json) : Bool :=
  has j "candidates" (isArrayOf anything) && mayHave j "sort_property" (orNull isString) && has j "query" isString

theorem int32_isOk (j : Json) : (fromJson j : Decode Int32).isOk = isInt j := by
  cases j <;> rfl

theorem object_isOk (j : Json) : (fromJson j : Decode Object).isOk = j.isObject := by
  cases j <;> rfl

theorem event_isOk (j : Json) : (fromJson j : Decode Event).isOk = anything j := by
  cases j <;> rfl

theorem fileData_isOk (j : Json) : (fromJson j : Decode Clangd.FileData).isOk = fileData j := by
  rw [Record.fromJson_eq]
  refine (readFields_isOk (.cons (defaulted_isOk (fromJson_list_isOk string_isOk))
    (.cons (defaulted_isOk string_isOk) .nil)) _).trans ?_
  rw [fileData]
  cases j.isObject <;> simp

theorem fileDataMap_isOk (j : Json) : (fromJson j : Decode Api.FileDataMap).isOk = isObjectOf fileData j := by
  cases j with
  | obj members =>
    change ((members.mapM _ : Decode (List (Clangd.FilePath × Clangd.FileData))) >>= _).isOk = _
    rw [isOk_bind (c := true) (fun _ => rfl), Bool.and_true, mapM_isOk, isObjectOf]
    congr 1
    funext m
    exact (isOk_map _ _).trans (fileData_isOk m.2)
  | _ => rfl

theorem simpleRequest_isOk (j : Json) : (fromJson j : Decode Api.SimpleRequest).isOk = simpleRequest j := by
  rw [Record.fromJson_eq]
  refine (readFields_isOk (.cons (defaulted_isOk int32_isOk) (.cons (defaulted_isOk int32_isOk)
    (.cons (defaulted_isOk string_isOk) (.cons (defaulted_isOk fileDataMap_isOk) (.cons (defaulted_isOk string_isOk)
    (.cons (defaulted_isOk string_isOk) (.cons (defaulted_isOk object_isOk) .nil))))))) _).trans ?_
  rw [simpleRequest]
  cases j.isObject <;> simp [Bool.and_assoc]

theorem eventNotification_isOk (j : Json) :
    (fromJson j : Decode Api.EventNotification).isOk = simpleRequest j := by
  rw [Record.fromJson_eq]
  refine (readFields_isOk (.cons (inBase_isOk (defaulted_isOk int32_isOk))
    (.cons (inBase_isOk (defaulted_isOk int32_isOk)) (.cons (inBase_isOk (defaulted_isOk string_isOk))
    (.cons (inBase_isOk (defaulted_isOk fileDataMap_isOk)) (.cons (inBase_isOk (defaulted_isOk string_isOk))
    (.cons (inBase_isOk (defaulted_isOk string_isOk)) (.cons (inBase_isOk (defaulted_isOk object_isOk))
    (.cons (defaulted_isOk event_isOk) .nil)))))))) _).trans ?_
  have hevent : mayHave j "event_name" anything = true := by
    cases hfind : j.find? "event_name" <;> simp [mayHave, hfind, anything]
  rw [simpleRequest]
  cases j.isObject <;> simp [hevent, Bool.and_assoc]

theorem filterAndSortCandidatesRequest_isOk (j : Json) :
    (fromJson j : Decode FilterAndSortCandidatesRequest).isOk = filterAndSortCandidatesRequest j := by
  rw [Record.fromJson_eq]
  refine (readFields_isOk (.cons (value_isOk (fromJson_list_isOk anything_isOk)) (.cons (optional_isOk string_isOk)
    (.cons (value_isOk string_isOk) .nil))) _).trans ?_
  simp [filterAndSortCandidatesRequest, Bool.and_assoc]

theorem initializeRequest_isOk (j : Json) :
    (fromJson j : Decode InitializeRequest).isOk = j.contains "user_options" := by
  rw [Record.fromJson_eq]
  refine (readFields_isOk (.cons (value_isOk anything_isOk) .nil) _).trans ?_
  rw [Json.contains]
  cases hfind : j.find? "user_options" <;> simp [has, hfind, anything]

/-- What the handler needs of a body. -/
def body : Handler → Json → Bool
  | .initializeOptions, j => j.contains "user_options"
  | .completions, j => simpleRequest j
  | .eventNotification, j => simpleRequest j && j.contains "event_name"
  | .filterAndSortCandidates, j => filterAndSortCandidatesRequest j
  | .debugInfo, j => simpleRequest j
  | _, _ => true

end Readable

/-- Handlers that look at the body of a request. -/
def Handler.reads : Handler → Bool
  | .initializeOptions | .completions | .eventNotification | .filterAndSortCandidates | .debugInfo => true
  | _ => false

section Sessions
variable {urlPath : String → Except SystemError String} (parse : Bytes → Decode Json)

/-- The handler looks at no body, or can read this one. -/
def Readable (req : Request) (handler : Handler) : Prop :=
  handler.reads = true → ∃ j, parse req.body = .ok j ∧ Readable.body handler j = true

/-- A body is read, or the exception of the JSON library leaves the handler. -/
theorem jsonRequest_cases {α : Type} [FromJson α] {accepts : Json → Bool}
    (h : ∀ v, (fromJson v : Decode α).isOk = accepts v) (req : Request) :
    (∃ j t, parse req.body = .ok j ∧ accepts j = true ∧ (jsonRequest parse req : Except Exn (α × Json)) = .ok (t, j)) ∨
      (¬ ∃ j, parse req.body = .ok j ∧ accepts j = true) ∧
        ∃ e, (jsonRequest parse req : Except Exn (α × Json)) = .error (.ofJson e) := by
  unfold jsonRequest
  cases hbody : parse req.body with
  | error e => exact .inr ⟨by simp, e, rfl⟩
  | ok j =>
    have hj := h j
    cases hread : (fromJson j : Decode α) with
    | ok t =>
      rw [hread] at hj
      exact .inl ⟨j, t, rfl, hj.symm, by simp [Except.bind, hread, Except.map]⟩
    | error e =>
      rw [hread] at hj
      refine .inr ⟨?_, e, by simp [Except.bind, hread, Except.map]⟩
      rintro ⟨_, hsame, haccepts⟩
      obtain rfl := Except.ok.inj hsame
      exact Bool.false_ne_true (hj.trans haccepts)

/-- What becomes of a body. -/
inductive Outcome (req : Request) (handler : Handler) : Prop where
  | read (r : Received) (hreadable : Readable parse req handler) (h : received parse req handler = .ok r)
  | throws (e : JsonError) (hunreadable : ¬ Readable parse req handler)
      (h : received parse req handler = .error (.ofJson e))

theorem outcome_of_jsonRequest {α : Type} [FromJson α] {req : Request} {handler : Handler}
    (hreads : handler.reads = true) (h : ∀ v, (fromJson v : Decode α).isOk = Readable.body handler v)
    {make : α × Json → Received}
    (hreceived : received parse req handler = (do
      let r ← (jsonRequest parse req : Except Exn (α × Json))
      return make r)) : Outcome parse req handler := by
  obtain ⟨j, t, hbody, hj, hread⟩ | ⟨hunreadable, e, hread⟩ := jsonRequest_cases parse h req
  · exact .read (make (t, j)) (fun _ => ⟨j, hbody, hj⟩) (by rw [hreceived, hread]; rfl)
  · exact .throws e (fun hreadable => hunreadable (hreadable hreads)) (by rw [hreceived, hread]; rfl)

/-- A handler goes on exactly when it can read the body. -/
theorem received_outcome (req : Request) (handler : Handler) : Outcome parse req handler := by
  cases handler with
  | initializeOptions => exact outcome_of_jsonRequest parse rfl Readable.initializeRequest_isOk rfl
  | completions => exact outcome_of_jsonRequest parse rfl Readable.simpleRequest_isOk rfl
  | filterAndSortCandidates =>
    exact outcome_of_jsonRequest parse rfl Readable.filterAndSortCandidatesRequest_isOk rfl
  | debugInfo => exact outcome_of_jsonRequest parse rfl Readable.simpleRequest_isOk rfl
  | eventNotification =>
    obtain ⟨j, t, hbody, hj, hread⟩ | ⟨hunreadable, e, hread⟩ :=
      jsonRequest_cases parse Readable.eventNotification_isOk req
    · have hbase : Readable.body .eventNotification j = j.contains "event_name" := by
        rw [Readable.body, hj, Bool.true_and]
      cases hevent : j.find? "event_name" with
      | some v =>
        refine .read (.eventNotification t.request) (fun _ => ⟨j, hbody, ?_⟩) ?_
        · rw [hbase, Json.contains, hevent, Option.isSome_some]
        · rw [received, hread]
          change (j.atKey "event_name").mapError Exn.ofJson >>= _ = _
          rw [Json.atKey_of_find? hevent]
          rfl
      | none =>
        obtain ⟨e, he⟩ := Json.atKey_of_absent hevent
        refine .throws e ?_ ?_
        · intro hreadable
          obtain ⟨_, hsame, hcontains⟩ := hreadable rfl
          obtain rfl := Except.ok.inj (hbody.symm.trans hsame)
          rw [hbase, Json.contains, hevent] at hcontains
          cases hcontains
        · rw [received, hread]
          change (j.atKey "event_name").mapError Exn.ofJson >>= _ = _
          rw [he]
          rfl
    · refine .throws e ?_ (by rw [received, hread]; rfl)
      intro hreadable
      obtain ⟨j, hbody, hj⟩ := hreadable rfl
      exact hunreadable ⟨j, hbody, (Bool.and_eq_true _ _ ▸ hj).1⟩
  | _ => exact .read .nothing (by intro h; cases h) rfl

/-- The session that ends here ends as its handler goes on once it has read the body, which is with something
there is a response for. -/
def GoesOn (urlPath : String → Except SystemError String) (l : Listener) : ListenStep → Prop
  | .accept _ => True
  | .finish i outcome _ => ∀ req path handler, l.inProgress[i]? = some req → urlPath req.target = .ok path →
      handlers.lookup (req.method, path) = some handler →
      ∃ rest : Received → Except Exn Response, (∀ r, Ends (rest r)) ∧ outcome = received parse req handler >>= rest

/-- The target of the session that ends here is a URL, and its handler, if it has one, can read the body. -/
def HasReadable (urlPath : String → Except SystemError String) (l : Listener) : ListenStep → Prop
  | .accept _ => True
  | .finish i _ _ => ∀ req, l.inProgress[i]? = some req →
      ∃ path, urlPath req.target = .ok path ∧
        ∀ handler, handlers.lookup (req.method, path) = some handler → Readable parse req handler

variable {parse}

theorem endsWell_iff_hasReadable {l : Listener} {a : ListenStep} (h : GoesOn parse urlPath l a) :
    EndsWell urlPath l a ↔ HasReadable parse urlPath l a := by
  cases a with
  | accept req => exact Iff.rfl
  | finish i outcome traceback =>
    refine forall₂_congr (fun req hreq => exists_congr (fun path => and_congr_right (fun hpath => ?_)))
    cases hlookup : handlers.lookup (req.method, path) with
    | none => simp
    | some handler =>
      obtain ⟨rest, hrest, rfl⟩ := h req path handler hreq hpath hlookup
      simp only [reduceCtorEq, false_or, Option.some.injEq, forall_eq']
      cases received_outcome parse req handler with
      | read r hreadable hread =>
        rw [hread]
        exact iff_of_true (hrest r) hreadable
      | throws e hunreadable hthrown =>
        rw [hthrown]
        exact iff_of_false not_false hunreadable

/-- In every run the server outlives the bodies that its handlers can read, and no others. -/
theorem bodies_survived_iff (urlPath : String → Except SystemError String) (parse : Bytes → Decode Json)
    (schedule : List ListenStep) (h : ∀ p ∈ (listen urlPath).steps {} schedule, GoesOn parse urlPath p.1 p.2) :
    (∀ l ∈ (listen urlPath).states {} schedule, Serves l) ↔
      ∀ p ∈ (listen urlPath).steps {} schedule, HasReadable parse urlPath p.1 p.2 := by
  rw [(listen urlPath).states_iff_steps (fun _ _ _ hl hs => serves_step hl hs) serves_empty]
  exact forall₂_congr (fun p hp => endsWell_iff_hasReadable (h p hp))

end Sessions

def emptyCompletions : Request := { method := .post, target := "/completions", body := ascii "\x7b\x7d" }

/-- An empty object will do for the one handler, a lone brace for no other. -/
def emptyAndMalformed : List ListenStep := [.accept emptyCompletions, .accept badInitialize,
  .finish 0 (received Lsp.parseBraces emptyCompletions .completions >>= fun _ => .ok {}) "",
  .finish 0 (received Lsp.parseBraces badInitialize .initializeOptions >>= fun _ => .ok {}) ""]

theorem emptyAndMalformed_goesOn :
    ∀ p ∈ (listen plainPath).steps {} emptyAndMalformed, GoesOn Lsp.parseBraces plainPath p.1 p.2 := by
  change ∀ p ∈ [_, _, _, _], _
  simp only [List.forall_mem_cons, List.not_mem_nil, false_imp_iff, implies_true, and_true]
  refine ⟨trivial, trivial, ?_, ?_⟩ <;> rintro req path handler ⟨⟩ ⟨⟩ ⟨⟩ <;>
    exact ⟨fun _ => .ok {}, fun _ => trivial, rfl⟩

theorem bodies_survived_iff_malformed :
    (∀ l ∈ (listen plainPath).states {} emptyAndMalformed, Serves l) ↔
      ∀ p ∈ (listen plainPath).steps {} emptyAndMalformed, HasReadable Lsp.parseBraces plainPath p.1 p.2 :=
  bodies_survived_iff plainPath Lsp.parseBraces emptyAndMalformed emptyAndMalformed_goesOn

end Ycmd
