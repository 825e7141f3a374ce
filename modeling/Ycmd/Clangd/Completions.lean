import Ycmd.Api
import Ycmd.Lsp.Responses

/-! `compute_candiatdes` from where its request is answered: the items of the result and the candidates
made of them. -/
namespace Ycmd.Clangd
open Lib Lsp Protocol

def completionItems : CompletionsResponse → List CompletionItem
  | .inl items => items
  | .inr list => list.items

def kindName : Option (Enumeration CompletionItemKind) → String
  | some (.listed .text) => "text"
  | some (.listed .method) => "method"
  | some (.listed .function) => "function"
  | some (.listed .constructor) => "constructor"
  | some (.listed .field) => "field"
  | some (.listed .«variable») => "variable"
  | some (.listed .«class») => "class"
  | some (.listed .interface) => "interface"
  | some (.listed .module) => "module"
  | some (.listed .property) => "property"
  | some (.listed .unit) => "unit"
  | some (.listed .value) => "value"
  | some (.listed .enum) => "enum"
  | some (.listed .keyword) => "keyword"
  | some (.listed .snippet) => "snippet"
  | some (.listed .color) => "color"
  | some (.listed .file) => "file"
  | some (.listed .reference) => "reference"
  | some (.listed .folder) => "folder"
  | some (.listed .enumMember) => "enum-member"
  | some (.listed .constant) => "constant"
  | some (.listed .struct) => "struct"
  | some (.listed .event) => "event"
  | some (.listed .operator) => "operator"
  | some (.listed .typeParameter) => "type-parameter"
  | _ => "unknown"

/-- The detail of an item stands only while there is no documentation. -/
def candidateOf (item : CompletionItem) : Api.Candidate where
  menuText := some item.label
  kind := some (kindName item.kind)
  detailedInfo := match item.documentation with
    | some (.inl str) => some str
    | some (.inr markup) => some markup.value
    | none => some (item.detail.getD "")
  insertionText := match item.textEdit, item.insertText with
    | some textEdit, _ => textEdit.newText
    | none, some insertText => insertText
    | none, none => item.label

/-- The rest of `compute_candiatdes`; an exception of the decoding leaves it. -/
def resumeComputeCandidates (responseMessage : Json) : Decode (List Api.Candidate) := do
  let response : ResponseMessage CompletionsResponse ← fromJson responseMessage
  match response.error, response.result with
  | none, some result => return (completionItems result).map candidateOf
  | _, _ => return []

/-- A response that carries a result of the request. -/
structure CompletionAnswer (message result : Json) : Prop where
  jsonrpc : has message "jsonrpc" isString = true
  error : message.find? "error" = none
  find_result : message.find? "result" = some result
  valid : completionResult result = true

/-- There is a candidate for each item, with its insertion text and what it says of itself. -/
def Converted (message result : Json) : Prop :=
  ∃ candidates, resumeComputeCandidates message = .ok candidates ∧
    candidates.map (fun candidate => (candidate.insertionText, candidate.detailedInfo)) =
      (items result).map (fun item => (insertionText item, some (detailText item)))

theorem orNull_of {accepts : Json → Bool} {v : Json} (h : accepts v = true) : Accepted.orNull accepts v = true := by
  rw [Accepted.orNull, h, Bool.or_true]

theorem isArrayOf_imp {valid accepts : Json → Bool} (himp : ∀ v, valid v = true → accepts v = true) {v : Json}
    (h : isArrayOf valid v = true) : isArrayOf accepts v = true := by
  obtain ⟨elems, rfl, hall⟩ := isArrayOf_iff.mp h
  exact isArrayOf_iff.mpr ⟨elems, rfl, fun elem helem => himp elem (hall elem helem)⟩

theorem isNumber_of_isIntegerIn {low high : Int} {v : Json} (h : isIntegerIn low high v = true) :
    Accepted.isNumber v = true := by
  cases v with
  | int n => rfl
  | float x => rfl
  | _ => cases h

theorem accepted_position {v : Json} (h : position v = true) : Accepted.position v = true := by
  simp only [position, Accepted.position, Bool.and_eq_true] at h ⊢
  exact h.imp (has_imp · fun _ => isNumber_of_isIntegerIn) (has_imp · fun _ => isNumber_of_isIntegerIn)

theorem accepted_range {v : Json} (h : range v = true) : Accepted.range v = true := by
  simp only [range, Accepted.range, Bool.and_eq_true] at h ⊢
  exact h.imp (has_imp · fun _ => accepted_position) (has_imp · fun _ => accepted_position)

theorem accepted_textEdit {v : Json} (h : textEdit v = true) : Accepted.textEdit v = true := by
  simp only [textEdit, Accepted.textEdit, Bool.and_eq_true] at h ⊢
  exact h.imp_right (has_imp · fun _ => accepted_range)

theorem accepted_command {v : Json} (h : command v = true) : Accepted.command v = true := by
  simp only [command, Accepted.command, Bool.and_eq_true] at h ⊢
  exact h.imp_right (mayHave_imp · fun _ => orNull_of)

theorem isArrayOf_not_string {valid : Json → Bool} {v : Json} (h : isArrayOf valid v = true) :
    Accepted.orNull isString v = false := by
  obtain ⟨elems, rfl, -⟩ := isArrayOf_iff.mp h
  rfl

/-- What an item has that its candidate is made of. -/
theorem completionItem_valid {item : Json} (h : completionItem item = true) :
    has item "label" isString = true ∧ mayHave item "detail" isString = true ∧
    mayHave item "documentation" (fun v => isString v || markupContent v) = true ∧
    mayHave item "insertText" isString = true ∧ mayHave item "textEdit" textEdit = true := by
  simp only [completionItem, Bool.and_eq_true] at h
  obtain ⟨⟨⟨⟨⟨⟨⟨⟨⟨⟨⟨⟨⟨hlabel, -⟩, hdetail⟩, hdocumentation⟩, -⟩, -⟩, -⟩, -⟩, hinsertText⟩, -⟩, htextEdit⟩, -⟩, -⟩, -⟩ := h
  exact ⟨hlabel, hdetail, hdocumentation, hinsertText, htextEdit⟩

/-- Of the members of an item only the commit characters are of a type that the decoder does not take. -/
theorem accepted_completionItem_iff {item : Json} (h : completionItem item = true) :
    Accepted.completionItem item = true ↔
      item.find? "commitCharacters" = none ∧ mayHave item "uri" isString = true := by
  simp only [completionItem, Bool.and_eq_true] at h
  obtain ⟨⟨⟨⟨⟨⟨⟨⟨⟨⟨⟨⟨⟨hlabel, hkind⟩, hdetail⟩, -⟩, hdeprecated⟩, hpreselect⟩, hsortText⟩, hfilterText⟩, hinsertText⟩,
    hformat⟩, htextEdit⟩, hedits⟩, hcommit⟩, hcommand⟩ := h
  have hcommit' : mayHave item "commitCharacters" (Accepted.orNull isString) = true ↔
      item.find? "commitCharacters" = none := by
    unfold mayHave at hcommit ⊢
    cases hfind : item.find? "commitCharacters" with
    | none => simp
    | some v =>
      rw [hfind, Option.all_some] at hcommit
      simp [isArrayOf_not_string hcommit]
  obtain ⟨label, hfind, hstring⟩ := has_iff.mp hlabel
  have hobject := Json.isObject_of_find? hfind
  have hlabel' : mayHave item "label" isString = true := by rw [mayHave, hfind, Option.all_some, hstring]
  simp only [Accepted.completionItem, Bool.and_eq_true, hcommit', hobject, hlabel',
    mayHave_imp hkind (fun _ h => orNull_of (isNumber_of_isIntegerIn h)),
    mayHave_imp hdetail (fun _ => orNull_of), mayHave_imp hdeprecated (fun _ => orNull_of),
    mayHave_imp hpreselect (fun _ => orNull_of), mayHave_imp hsortText (fun _ => orNull_of),
    mayHave_imp hfilterText (fun _ => orNull_of), mayHave_imp hinsertText (fun _ => orNull_of),
    mayHave_imp hformat (fun _ h => orNull_of (isNumber_of_isIntegerIn h)),
    mayHave_imp htextEdit (fun _ h => orNull_of (accepted_textEdit h)),
    mayHave_imp hedits (fun _ h => orNull_of (isArrayOf_imp (fun _ => accepted_textEdit) h)),
    mayHave_imp hcommand (fun _ h => orNull_of (accepted_command h)), true_and, and_true]
  exact and_comm

/-- The members of a decoded item that its candidate is made of. -/
theorem completionItem_members {j : Json} {item : CompletionItem} (h : (fromJson j : Decode CompletionItem) = .ok item) :
    j.valueOr "label" "" = .ok item.label ∧ j.valueOr "detail" none = .ok item.detail ∧
    j.valueOr "documentation" none = .ok item.documentation ∧ j.valueOr "insertText" none = .ok item.insertText ∧
    j.valueOr "textEdit" none = .ok item.textEdit := by
  change readFields CompletionItem.fields j {} = .ok item at h
  simp only [CompletionItem.fields, TextDocumentIdentifier.fields, List.map_cons, List.map_nil, List.cons_append,
    List.nil_append, readFields_cons, readFields_nil, Field.read_inBase, Field.read_defaulted,
    Field.read_optionalDefaulted, bind_assoc, pure_bind] at h
  obtain ⟨uri, -, h⟩ := bind_ok h
  obtain ⟨label, hlabel, h⟩ := bind_ok h
  obtain ⟨kind, -, h⟩ := bind_ok h
  obtain ⟨detail, hdetail, h⟩ := bind_ok h
  obtain ⟨documentation, hdocumentation, h⟩ := bind_ok h
  obtain ⟨deprecated, -, h⟩ := bind_ok h
  obtain ⟨preselect, -, h⟩ := bind_ok h
  obtain ⟨sortText, -, h⟩ := bind_ok h
  obtain ⟨filterText, -, h⟩ := bind_ok h
  obtain ⟨insertText, hinsertText, h⟩ := bind_ok h
  obtain ⟨insertTextFormat, -, h⟩ := bind_ok h
  obtain ⟨textEdit, htextEdit, h⟩ := bind_ok h
  obtain ⟨additionalTextEdits, -, h⟩ := bind_ok h
  obtain ⟨commitCharacters, -, h⟩ := bind_ok h
  obtain ⟨command, -, h⟩ := bind_ok h
  obtain ⟨data, -, h⟩ := bind_ok h
  obtain rfl := Except.ok.inj h
  exact ⟨hlabel, hdetail, hdocumentation, hinsertText, htextEdit⟩

theorem optionalMember_of_find? {α : Type} [FromJson α] {j v : Json} {key : String} (hfind : j.find? key = some v)
    (hnull : v.isNull = false) {member : Option α} (h : j.valueOr key none = .ok member) :
    ∃ a, (fromJson v : Decode α) = .ok a ∧ member = some a := by
  rw [Json.valueOr_of_find? none hfind] at h
  change (if v.isNull then .ok none else (fromJson v : Decode α).map some) = .ok member at h
  rw [hnull] at h
  cases hv : (fromJson v : Decode α) with
  | error e =>
    rw [hv] at h
    cases h
  | ok a =>
    rw [hv] at h
    exact ⟨a, rfl, (Except.ok.inj h).symm⟩

/-- What is read from an optional member, seen through `f`, is what `read?` finds in the JSON. -/
theorem optionalMember_map {α β : Type} [FromJson α] {j : Json} (hobject : j.isObject = true) {key : String}
    {valid : Json → Bool} (hvalid : mayHave j key valid = true) {f : α → β} {read? : Json → Option β}
    (hread : ∀ v, valid v = true → v.isNull = false ∧ ∀ a, (fromJson v : Decode α) = .ok a → read? v = some (f a))
    {member : Option α} (h : j.valueOr key none = .ok member) : member.map f = (j.find? key).bind read? := by
  unfold mayHave at hvalid
  cases hfind : j.find? key with
  | none =>
    rw [Json.valueOr_of_isObject hobject, hfind] at h
    obtain rfl := Except.ok.inj h
    rfl
  | some v =>
    rw [hfind] at hvalid
    obtain ⟨hnull, hread⟩ := hread v hvalid
    obtain ⟨a, ha, rfl⟩ := optionalMember_of_find? hfind hnull h
    exact (hread a ha).symm

theorem read_string {v : Json} (h : isString v = true) :
    v.isNull = false ∧ ∀ s, (fromJson v : Decode String) = .ok s → text? v = some s := by
  obtain ⟨s, rfl⟩ := isString_iff.mp h
  refine ⟨rfl, fun s' hs => ?_⟩
  obtain rfl := Except.ok.inj hs
  rfl

theorem read_textEdit {v : Json} (h : textEdit v = true) :
    v.isNull = false ∧ ∀ edit, (fromJson v : Decode TextEdit) = .ok edit → textAt v "newText" = some edit.newText := by
  rw [textEdit, Bool.and_eq_true] at h
  obtain ⟨newText, hfind, hstring⟩ := has_iff.mp h.1
  refine ⟨Json.isNull_of_find? hfind, fun edit hedit => ?_⟩
  change readFields TextEdit.fields v {} = .ok edit at hedit
  simp only [TextEdit.fields, readFields_cons, readFields_nil, Field.read_value, bind_assoc, pure_bind] at hedit
  obtain ⟨text, htext, hedit⟩ := bind_ok hedit
  obtain ⟨range, -, hedit⟩ := bind_ok hedit
  obtain rfl := Except.ok.inj hedit
  rw [fromMember_of_find? hfind] at htext
  rw [textAt, hfind]
  exact (read_string hstring).2 text htext

/-- The kind of a markup content is a string, which its decoder does not take for an enumerator. -/
theorem fromJson_markupContent {v : Json} (h : markupContent v = true) :
    (fromJson v : Decode (String ⊕ MarkupContent)) = .ok (.inl "") := by
  have hkind : has v "kind" Accepted.isNumber = false := by
    rw [markupContent, Bool.and_eq_true] at h
    obtain ⟨kind, hfind, hkind⟩ := has_iff.mp h.1
    rw [has, hfind, Option.any_some]
    cases kind with
    | str s => rfl
    | _ => cases hkind
  have hmarkup : (fromJson v : Decode MarkupContent).isOk = false := by
    rw [Accepted.markupContent_isOk, Accepted.markupContent, hkind, Bool.false_and]
  have hstring : (fromJson v : Decode String).isOk = false := by
    rw [Accepted.string_isOk]
    cases v with
    | str s => cases h
    | _ => rfl
  cases hs : (fromJson v : Decode String) with
  | ok s => simp [hs] at hstring
  | error e =>
    cases hm : (fromJson v : Decode MarkupContent) with
    | ok markup => simp [hm] at hmarkup
    | error e => simp only [fromJson_variant, variantFromJson, hs, hm]; rfl

/-- What an item must not have for its candidate to say what the item says. -/
structure Convertible (item : Json) : Prop where
  noCommitCharacters : item.find? "commitCharacters" = none
  /-- Of a base that the specification does not give an item. -/
  uri : mayHave item "uri" isString = true
  documentation : ∀ markup, item.find? "documentation" = some markup → markupContent markup = true →
    textAt markup "value" = some ""

theorem insertionText_candidateOf {j : Json} (h : completionItem j = true) {item : CompletionItem}
    (hitem : (fromJson j : Decode CompletionItem) = .ok item) : (candidateOf item).insertionText = insertionText j := by
  obtain ⟨hlabel, -, -, hinsertText, htextEdit⟩ := completionItem_members hitem
  obtain ⟨hvalid, -, -, hinsertValid, hedit⟩ := completionItem_valid h
  obtain ⟨label, hfind, hstring⟩ := has_iff.mp hvalid
  have hobject := Json.isObject_of_find? hfind
  have htextEdit := optionalMember_map hobject hedit (fun _ => read_textEdit) htextEdit
  have hinsertText := optionalMember_map hobject hinsertValid (f := id) (fun _ => read_string) hinsertText
  have hlabel : textAt j "label" = some item.label := by
    rw [Json.valueOr_of_find? _ hfind] at hlabel
    rw [textAt, hfind]
    exact (read_string hstring).2 _ hlabel
  rw [insertionText, ← htextEdit, textAt, ← hinsertText, hlabel, Option.map_id]
  unfold candidateOf
  cases item.textEdit with
  | some textEdit => rfl
  | none => cases item.insertText <;> rfl

/-- Marked up documentation is lost to an empty string, so it may only be empty itself. -/
theorem detailedInfo_candidateOf_iff {j : Json} (h : completionItem j = true) {item : CompletionItem}
    (hitem : (fromJson j : Decode CompletionItem) = .ok item) :
    (candidateOf item).detailedInfo = some (detailText j) ↔
      ∀ markup, j.find? "documentation" = some markup → markupContent markup = true →
        textAt markup "value" = some "" := by
  obtain ⟨-, hdetail, hdocumentation, -, -⟩ := completionItem_members hitem
  obtain ⟨hlabel, hdetailValid, hvalid, -, -⟩ := completionItem_valid h
  obtain ⟨label, hfind, -⟩ := has_iff.mp hlabel
  have hobject := Json.isObject_of_find? hfind
  unfold candidateOf detailText documentationText
  cases hfind : j.find? "documentation" with
  | none =>
    have hdetail := optionalMember_map hobject hdetailValid (f := id) (fun _ => read_string) hdetail
    rw [Json.valueOr_of_isObject hobject, hfind] at hdocumentation
    rw [← Except.ok.inj hdocumentation, textAt, ← hdetail]
    simp
  | some v =>
    rw [mayHave, hfind, Option.all_some, Bool.or_eq_true] at hvalid
    rcases hvalid with hstring | hmarkup
    · obtain ⟨s, rfl⟩ := isString_iff.mp hstring
      obtain ⟨documentation, hread, hsome⟩ := optionalMember_of_find? hfind rfl hdocumentation
      obtain rfl := Except.ok.inj hread
      rw [hsome]
      apply iff_of_true rfl
      rintro markup ⟨⟩ ⟨⟩
    · have hparts := hmarkup
      rw [markupContent, Bool.and_eq_true] at hparts
      obtain ⟨value, hfindValue, hvalue⟩ := has_iff.mp hparts.2
      obtain ⟨s, rfl⟩ := isString_iff.mp hvalue
      have htext : textAt v "value" = some s := by rw [textAt, hfindValue]; rfl
      have hnone : text? v = none := by
        cases v with
        | obj members => rfl
        | _ => cases hfindValue
      obtain ⟨documentation, hread, hsome⟩ :=
        optionalMember_of_find? hfind (Json.isNull_of_find? hfindValue) hdocumentation
      obtain rfl := Except.ok.inj ((fromJson_markupContent hmarkup).symm.trans hread)
      rw [hsome, Option.bind_some, hnone, Option.none_or, htext]
      constructor
      · intro heq markup hmarkup' _
        rw [← Option.some.inj hmarkup', htext]
        exact heq.symm
      · intro hempty
        exact (htext.symm.trans (hempty v rfl hmarkup)).symm

/-- The two forms of a result: its items, or an object that has them. -/
theorem completionResult_cases {result : Json} (h : completionResult result = true) :
    (∃ elems, result = .arr elems ∧ ∀ item ∈ elems, completionItem item = true) ∨
    ∃ elems incomplete, result.find? "items" = some (.arr elems) ∧
      result.find? "isIncomplete" = some (.bool incomplete) ∧ ∀ item ∈ elems, completionItem item = true := by
  rw [completionResult, Bool.or_eq_true] at h
  rcases h with harray | hlist
  · exact .inl (isArrayOf_iff.mp harray)
  · rw [completionList, Bool.and_eq_true] at hlist
    obtain ⟨incomplete, hfindIncomplete, hbool⟩ := has_iff.mp hlist.1
    obtain ⟨_, hfind, harray⟩ := has_iff.mp hlist.2
    obtain ⟨elems, rfl, hall⟩ := isArrayOf_iff.mp harray
    cases incomplete with
    | bool b => exact .inr ⟨elems, b, hfind, hfindIncomplete, hall⟩
    | _ => cases hbool

/-- A single item that is not taken leaves no items at all. -/
theorem completionItems_fromJson {result : Json} (h : completionResult result = true) :
    result.isNull = false ∧ ∃ r, (fromJson result : Decode CompletionsResponse) = .ok r ∧
      completionItems r = ((items result).mapM fromJson : Decode (List CompletionItem)).toOption.getD [] := by
  rcases completionResult_cases h with ⟨elems, rfl, -⟩ | ⟨elems, incomplete, hfind, hfindIncomplete, -⟩
  · refine ⟨rfl, _, fromJson_variant _, ?_⟩
    have hlist : (fromJson (Json.arr elems) : Decode CompletionList) =
      .error ⟨.typeError, 304, "cannot use at() with array"⟩ := rfl
    have helems : (fromJson (Json.arr elems) : Decode (List CompletionItem)) = elems.mapM fromJson := rfl
    simp only [variantFromJson, hlist, helems, items]
    cases (elems.mapM fromJson : Decode (List CompletionItem)) <;> rfl
  · refine ⟨Json.isNull_of_find? hfind, _, fromJson_variant _, ?_⟩
    cases result with
    | obj members =>
      have harray : (fromJson (Json.obj members) : Decode (List CompletionItem)) =
        .error ⟨.typeError, 302, "type must be array, but is object"⟩ := rfl
      have hread : (fromJson (Json.obj members) : Decode CompletionList) =
          (fun items => { items, isIncomplete := incomplete }) <$>
            (elems.mapM fromJson : Decode (List CompletionItem)) := by
        change readFields CompletionList.fields (.obj members) {} = _
        simp only [CompletionList.fields, readFields_cons, readFields_nil, Field.read_value,
          fromMember_of_find? hfind, fromMember_of_find? hfindIncomplete, bind_assoc, pure_bind, map_eq_pure_bind]
        rfl
      simp only [variantFromJson, harray, hread, items, hfind]
      cases (elems.mapM fromJson : Decode (List CompletionItem)) <;> rfl
    | _ => cases hfind

theorem CompletionAnswer.resumeComputeCandidates {message result : Json} (h : CompletionAnswer message result) :
    resumeComputeCandidates message =
      .ok ((((items result).mapM fromJson : Decode (List CompletionItem)).toOption.getD []).map candidateOf) := by
  obtain ⟨hnull, r, hr, hitems⟩ := completionItems_fromJson h.valid
  obtain ⟨base, id, hmessage⟩ := fromJson_result (R := CompletionsResponse) h.jsonrpc h.find_result h.error
  have hresult : (fromJson result : Decode (Option CompletionsResponse)) = .ok (some r) := by
    change (if result.isNull then .ok none else (fromJson result : Decode CompletionsResponse).map some) = _
    rw [hnull, hr]
    rfl
  rw [Clangd.resumeComputeCandidates, hmessage, hresult, ← hitems]
  rfl

theorem completionItem_of_mem {result : Json} (h : completionResult result = true) :
    ∀ item ∈ items result, completionItem item = true := by
  rcases completionResult_cases h with ⟨elems, rfl, hall⟩ | ⟨elems, incomplete, hfind, -, hall⟩
  · exact hall
  · cases result with
    | obj members =>
      simp only [items, hfind]
      exact hall
    | _ => cases hfind

theorem converted_items_iff {l : List Json} {decoded : List CompletionItem}
    (h : List.Forall₂ (fun j item => (fromJson j : Decode CompletionItem) = .ok item) l decoded)
    (hvalid : ∀ j ∈ l, completionItem j = true) :
    (decoded.map candidateOf).map (fun candidate => (candidate.insertionText, candidate.detailedInfo)) =
      l.map (fun item => (insertionText item, some (detailText item))) ↔ ∀ item ∈ l, Convertible item := by
  induction h with
  | nil => simp
  | @cons j item l decoded hitem hrest ih =>
    rw [List.forall_mem_cons] at hvalid
    have haccepted : Accepted.completionItem j = true := by
      rw [← Accepted.completionItem_isOk, hitem]
      rfl
    obtain ⟨hcommit, huri⟩ := (accepted_completionItem_iff hvalid.1).mp haccepted
    rw [List.map_cons, List.map_cons, List.map_cons, List.cons.injEq, Prod.mk.injEq, ih hvalid.2,
      List.forall_mem_cons, detailedInfo_candidateOf_iff hvalid.1 hitem]
    refine and_congr_left fun _ => ⟨fun hj => ⟨hcommit, huri, hj.2⟩, fun hj => ?_⟩
    exact ⟨insertionText_candidateOf hvalid.1 hitem, hj.documentation⟩

/-- Every completion is converted exactly when the decoder takes all that the items have. -/
theorem completions_converted_iff {message result : Json} (h : CompletionAnswer message result) :
    Converted message result ↔ ∀ item ∈ items result, Convertible item := by
  have hvalid := completionItem_of_mem h.valid
  rw [Converted, h.resumeComputeCandidates]
  cases hdecoded : ((items result).mapM fromJson : Decode (List CompletionItem)) with
  | ok decoded =>
    refine Iff.trans ?_ (converted_items_iff (mapM_ok_iff.mp hdecoded) hvalid)
    exact ⟨fun ⟨candidates, heq, hmap⟩ => Except.ok.inj heq ▸ hmap, fun hmap => ⟨_, rfl, hmap⟩⟩
  | error e =>
    have hsome : ((items result).all fun item => (fromJson item : Decode CompletionItem).isOk) = false := by
      rw [← mapM_isOk, hdecoded]
      rfl
    obtain ⟨item, hmem, hitem⟩ := List.all_eq_false.mp hsome
    rw [Accepted.completionItem_isOk, accepted_completionItem_iff (hvalid item hmem)] at hitem
    refine iff_of_false ?_ (fun hconvertible => hitem ⟨(hconvertible item hmem).1, (hconvertible item hmem).2⟩)
    rintro ⟨candidates, heq, hmap⟩
    obtain rfl := Except.ok.inj heq
    exact List.ne_nil_of_mem hmem (List.map_eq_nil_iff.mp hmap.symm)

/-- A result with these items, in the response to a call. -/
def completionAnswer (items : List Json) : Json :=
  .obj [("id", .str "1"), ("jsonrpc", .str "2.0"), ("result", .arr items)]

theorem completions_converted_documented :
    Converted (completionAnswer [.obj [("documentation", .str "grows"), ("label", .str "push")]])
      (.arr [.obj [("documentation", .str "grows"), ("label", .str "push")]]) := by
  refine (completions_converted_iff ⟨rfl, rfl, rfl, rfl⟩).mpr ?_
  intro item hitem
  obtain rfl := List.mem_singleton.mp hitem
  refine ⟨rfl, rfl, fun markup hmarkup hcontent => ?_⟩
  rw [← Option.some.inj hmarkup] at hcontent
  cases hcontent

/-- The documentation of one item is lost, and a second item for its commit characters with the first. -/
theorem completions_lost :
    let documentation := Json.obj [("kind", .str "markdown"), ("value", .str "grows")]
    let documented := Json.obj [("documentation", documentation), ("label", .str "push")]
    let committed := Json.obj [("commitCharacters", .arr [.str ";"]), ("label", .str "pop")]
    CompletionAnswer (completionAnswer [documented]) (.arr [documented]) ∧
      ¬ Converted (completionAnswer [documented]) (.arr [documented]) ∧
    CompletionAnswer (completionAnswer [documented, committed]) (.arr [documented, committed]) ∧
      resumeComputeCandidates (completionAnswer [documented, committed]) = .ok [] ∧
      ¬ Converted (completionAnswer [documented, committed]) (.arr [documented, committed]) := by
  refine ⟨⟨rfl, rfl, rfl, rfl⟩, ?_, ⟨rfl, rfl, rfl, rfl⟩, rfl, ?_⟩
  · rintro ⟨candidates, heq, hmap⟩
    obtain rfl := Except.ok.inj heq
    revert hmap
    decide
  · rintro ⟨candidates, heq, hmap⟩
    obtain rfl := Except.ok.inj heq
    revert hmap
    decide

end Ycmd.Clangd
