import Ycmd.Lsp.Protocol
import Ycmd.Lsp.TextDocuments

/-! Which values the decoders of completions take, whatever the protocol says of them. -/
namespace Ycmd.Lsp.Accepted
open Lib Protocol

def isNumber (j : Json) : Bool := j.number?.isSome

def anything (_ : Json) : Bool := true

/-- Null leaves an optional member unset. -/
def orNull (accepts : Json → Bool) (j : Json) : Bool := j.isNull || accepts j

def position (j : Json) : Bool := has j "line" isNumber && has j "character" isNumber

def range (j : Json) : Bool := has j "start" position && has j "end" position

def textEdit (j : Json) : Bool := has j "newText" isString && has j "range" range

def command (j : Json) : Bool :=
  has j "title" isString && has j "command" isString && mayHave j "arguments" (orNull (isArrayOf anything))

def markupContent (j : Json) : Bool := has j "kind" isNumber && has j "value" isString

/-- Of the documentation anything is taken. -/
def completionItem (j : Json) : Bool :=
  j.isObject && mayHave j "uri" isString && mayHave j "label" isString && mayHave j "kind" (orNull isNumber) &&
  mayHave j "detail" (orNull isString) && mayHave j "deprecated" (orNull isBool) &&
  mayHave j "preselect" (orNull isBool) && mayHave j "sortText" (orNull isString) &&
  mayHave j "filterText" (orNull isString) && mayHave j "insertText" (orNull isString) &&
  mayHave j "insertTextFormat" (orNull isNumber) && mayHave j "textEdit" (orNull textEdit) &&
  mayHave j "additionalTextEdits" (orNull (isArrayOf textEdit)) && mayHave j "commitCharacters" (orNull isString) &&
  mayHave j "command" (orNull command)

def completionList (j : Json) : Bool := has j "items" (isArrayOf completionItem) && has j "isIncomplete" isBool

def responseError (j : Json) : Bool := has j "code" isNumber && has j "message" isString && has j "data" anything

def serverInfo (j : Json) : Bool := has j "name" isString && has j "version" isString

def initializeResult (j : Json) : Bool :=
  has j "capabilities" anything && mayHave j "serverInfo" (orNull serverInfo)

section Members
variable {α : Type} [FromJson α] {accepts : Json → Bool} (h : ∀ v, (fromJson v : Decode α).isOk = accepts v)
include h

theorem fromJson_option_isOk (v : Json) : (fromJson v : Decode (Option α)).isOk = orNull accepts v := by
  change (if v.isNull then .ok none else (fromJson v : Decode α).map some).isOk = _
  rw [orNull]
  cases v.isNull with
  | true => rfl
  | false => exact (isOk_map _ _).trans (h v)

theorem fromJson_list_isOk (v : Json) : (fromJson v : Decode (List α)).isOk = isArrayOf accepts v := by
  cases v with
  | arr elems =>
    apply (mapM_isOk _ elems).trans
    rw [isArrayOf]
    congr 1
    funext v
    exact h v
  | _ => rfl

theorem fromMember_isOk_eq (j : Json) (key : String) : (fromMember j key : Decode α).isOk = has j key accepts := by
  rw [fromMember_isOk, has]
  congr 1
  funext v
  exact h v

theorem fromOptionalMember_isOk_eq (j : Json) (key : String) :
    (fromOptionalMember j key : Decode (Option α)).isOk = mayHave j key (orNull accepts) := by
  rw [fromOptionalMember_isOk, mayHave]
  congr 1
  funext v
  rw [orNull, h v]

theorem valueOr_isOk_eq (j : Json) (key : String) (default : α) :
    (j.valueOr key default : Decode α).isOk = (j.isObject && mayHave j key accepts) := by
  cases hj : j.isObject with
  | true =>
    rw [Json.valueOr_of_isObject hj, mayHave]
    cases j.find? key with
    | none => rfl
    | some v => exact h v
  | false =>
    cases j with
    | obj members => cases hj
    | _ => rfl

end Members

/-- A record is taken when all of its members are. -/
theorem readFields_isOk {R : Type} {j : Json} {fields : List (Field R)} {checks : List Bool}
    (h : List.Forall₂ (fun f check => ∀ u, (f.read j u).isOk = check) fields checks) (t : R) :
    (readFields fields j t).isOk = checks.all id := by
  induction h generalizing t with
  | nil => rfl
  | @cons f check fields checks hf _ ih =>
    rw [readFields_cons, isOk_bind (fun u => ih u), hf, List.all_cons]
    rfl

theorem string_isOk (j : Json) : (fromJson j : Decode String).isOk = isString j := by
  cases j <;> rfl

theorem bool_isOk (j : Json) : (fromJson j : Decode Bool).isOk = isBool j := by
  cases j <;> rfl

theorem nat_isOk (j : Json) : (fromJson j : Decode Nat).isOk = isNumber j := by
  cases j <;> rfl

theorem double_isOk (j : Json) : (fromJson j : Decode Double).isOk = isNumber j := by
  cases j <;> rfl

theorem enumeration_isOk {ε : Type} [Enumerators ε] (j : Json) :
    (fromJson j : Decode (Enumeration ε)).isOk = isNumber j := by
  change (Enumeration.ofUnderlying <$> getArithmeticValue j).isOk = _
  cases j <;> rfl

section Fields
variable {R α : Type} [ToJson α] [FromJson α] {accepts : Json → Bool} {j : Json} {key : String}
  (h : ∀ v, (fromJson v : Decode α).isOk = accepts v)
include h

theorem value_isOk [LawfulJson α] {get : R → α} {set : α → R → R} (u : R) :
    ((Field.value key get set).read j u).isOk = has j key accepts :=
  (isOk_map _ _).trans (fromMember_isOk_eq h j key)

theorem defaulted_isOk [LawfulJson α] {get : R → α} {set : α → R → R} {defaultObj : R} (u : R) :
    ((Field.defaulted key get set defaultObj).read j u).isOk = (j.isObject && mayHave j key accepts) :=
  (isOk_map _ _).trans (valueOr_isOk_eq h j key (get defaultObj))

variable [LawfulJson (Option α)] {get : R → Option α} {set : Option α → R → R}

theorem optional_isOk (u : R) :
    ((Field.optional key get set).read j u).isOk = mayHave j key (orNull accepts) :=
  (isOk_map _ _).trans (fromOptionalMember_isOk_eq h j key)

theorem optionalDefaulted_isOk {defaultObj : R} {hunset : get defaultObj = none} (u : R) :
    ((Field.optionalDefaulted key get set defaultObj hunset).read j u).isOk =
      (j.isObject && mayHave j key (orNull accepts)) :=
  (isOk_map _ _).trans (valueOr_isOk_eq (fromJson_option_isOk h) j key (get defaultObj))

end Fields

theorem inBase_isOk {R B : Type} {toBase : R → B} {setBase : B → R → R} {f : Field B} {j : Json} {check : Bool}
    (h : ∀ b, (f.read j b).isOk = check) (u : R) : ((f.inBase toBase setBase).read j u).isOk = check :=
  (isOk_map _ _).trans (h (toBase u))

theorem position_isOk (j : Json) : (fromJson j : Decode Position).isOk = position j := by
  rw [Record.fromJson_eq]
  apply (readFields_isOk (.cons (value_isOk nat_isOk) (.cons (value_isOk nat_isOk) .nil)) _).trans
  simp [position]

theorem range_isOk (j : Json) : (fromJson j : Decode Range).isOk = range j := by
  rw [Record.fromJson_eq]
  apply (readFields_isOk (.cons (value_isOk position_isOk) (.cons (value_isOk position_isOk) .nil)) _).trans
  simp [range]

theorem textEdit_isOk (j : Json) : (fromJson j : Decode TextEdit).isOk = textEdit j := by
  rw [Record.fromJson_eq]
  apply (readFields_isOk (.cons (value_isOk string_isOk) (.cons (value_isOk range_isOk) .nil)) _).trans
  simp [textEdit]

theorem anything_isOk (j : Json) : (fromJson j : Decode Json).isOk = anything j := rfl

theorem command_isOk (j : Json) : (fromJson j : Decode Command).isOk = command j := by
  rw [Record.fromJson_eq]
  refine (readFields_isOk (.cons (value_isOk string_isOk) (.cons (value_isOk string_isOk)
    (.cons (optional_isOk (fromJson_list_isOk anything_isOk)) .nil))) _).trans ?_
  simp [command, Bool.and_assoc]

theorem markupContent_isOk (j : Json) : (fromJson j : Decode MarkupContent).isOk = markupContent j := by
  rw [Record.fromJson_eq]
  apply (readFields_isOk (.cons (value_isOk enumeration_isOk) (.cons (value_isOk string_isOk) .nil)) _).trans
  simp [markupContent]

theorem completionItem_isOk (j : Json) : (fromJson j : Decode CompletionItem).isOk = completionItem j := by
  have hdocumentation (v : Json) : (fromJson v : Decode (String ⊕ MarkupContent)).isOk = anything v := rfl
  have hdata : ∀ v : Json, (fromJson v : Decode Json).isOk = anything v := anything_isOk
  rw [Record.fromJson_eq]
  refine (readFields_isOk (.cons (inBase_isOk (defaulted_isOk string_isOk))
    (.cons (defaulted_isOk string_isOk) (.cons (optionalDefaulted_isOk enumeration_isOk)
    (.cons (optionalDefaulted_isOk string_isOk) (.cons (optionalDefaulted_isOk hdocumentation)
    (.cons (optionalDefaulted_isOk bool_isOk) (.cons (optionalDefaulted_isOk bool_isOk)
    (.cons (optionalDefaulted_isOk string_isOk) (.cons (optionalDefaulted_isOk string_isOk)
    (.cons (optionalDefaulted_isOk string_isOk) (.cons (optionalDefaulted_isOk enumeration_isOk)
    (.cons (optionalDefaulted_isOk textEdit_isOk)
    (.cons (optionalDefaulted_isOk (fromJson_list_isOk textEdit_isOk))
    (.cons (optionalDefaulted_isOk string_isOk) (.cons (optionalDefaulted_isOk command_isOk)
    (.cons (optionalDefaulted_isOk hdata) .nil)))))))))))))))) _).trans ?_
  have hanything (key : String) : mayHave j key (orNull anything) = true := by
    cases hfind : j.find? key <;> simp [mayHave, hfind, orNull, anything]
  rw [completionItem, List.all_cons]
  cases j.isObject with
  | false => simp
  | true => simp [hanything, Bool.and_assoc]

theorem completionList_isOk (j : Json) : (fromJson j : Decode CompletionList).isOk = completionList j := by
  rw [Record.fromJson_eq]
  refine (readFields_isOk (.cons (value_isOk (fromJson_list_isOk completionItem_isOk))
    (.cons (value_isOk bool_isOk) .nil)) _).trans ?_
  simp [completionList]

theorem int_isOk (j : Json) : (fromJson j : Decode Int).isOk = isNumber j := by
  cases j <;> rfl

theorem responseError_isOk (j : Json) : (fromJson j : Decode (ResponseError Json)).isOk = responseError j := by
  rw [Record.fromJson_eq]
  refine (readFields_isOk (.cons (value_isOk int_isOk) (.cons (value_isOk string_isOk)
    (.cons (value_isOk anything_isOk) .nil))) _).trans ?_
  simp [responseError, Bool.and_assoc]

theorem serverInfo_isOk (j : Json) : (fromJson j : Decode ServerInfo).isOk = serverInfo j := by
  rw [Record.fromJson_eq]
  apply (readFields_isOk (.cons (value_isOk string_isOk) (.cons (value_isOk string_isOk) .nil)) _).trans
  simp [serverInfo]

theorem initializeResult_isOk (j : Json) : (fromJson j : Decode InitializeResult).isOk = initializeResult j := by
  rw [Record.fromJson_eq]
  apply (readFields_isOk (.cons (value_isOk anything_isOk) (.cons (optional_isOk serverInfo_isOk) .nil)) _).trans
  simp [initializeResult]

end Ycmd.Lsp.Accepted
