import Ycmd.Lsp.Variants

/-! What becomes of a response when the caller it is for decodes it. -/
namespace Ycmd.Lsp
open Lib Protocol

variable {R : Type} [FromJson R]

/-- The version and the id are always taken: the outcome is left to the other two members. -/
theorem fromJson_responseMessage {message : Json} (h : has message "jsonrpc" isString = true) :
    ∃ (base : Message) (id : ID), (fromJson message : Decode (ResponseMessage R)) = (do
      let result ← message.valueOr "result" none
      let error ← message.valueOr "error" none
      pure { toMessage := base, id, result, error }) := by
  obtain ⟨_, hfind, hversion⟩ := has_iff.mp h
  obtain ⟨version, rfl⟩ := isString_iff.mp hversion
  obtain ⟨id, hid⟩ : ∃ id : ID, message.valueOr "id" (Sum.inl "") = .ok id := by
    rw [Json.valueOr_of_isObject (Json.isObject_of_find? hfind)]
    cases message.find? "id" with
    | none => exact ⟨_, rfl⟩
    | some v => exact ⟨_, fromJson_variant v⟩
  have hbase : (fromJson message : Decode Message) = .ok ⟨version⟩ := by
    simp only [fromJson, fromMember, Json.atKey_of_find? hfind]
    rfl
  refine ⟨⟨version⟩, id, ?_⟩
  conv_lhs => unfold fromJson
  simp only [instFromJsonResponseMessage, hbase, hid]
  rfl

section Answers
variable {message v : Json} (hjsonrpc : has message "jsonrpc" isString = true)
include hjsonrpc

theorem fromJson_result (hresult : message.find? "result" = some v) (herror : message.find? "error" = none) :
    ∃ (base : Message) (id : ID), (fromJson message : Decode (ResponseMessage R)) =
      (fun result => { toMessage := base, id, result, error := none }) <$> (fromJson v : Decode (Option R)) := by
  obtain ⟨base, id, h⟩ := fromJson_responseMessage (R := R) hjsonrpc
  have hobject := Json.isObject_of_find? hresult
  refine ⟨base, id, ?_⟩
  rw [h, map_eq_pure_bind, Json.valueOr_of_isObject hobject, Json.valueOr_of_isObject hobject, hresult, herror]
  rfl

theorem fromJson_error (hresult : message.find? "result" = none) (herror : message.find? "error" = some v)
    (hnull : v.isNull = false) :
    ∃ (base : Message) (id : ID), (fromJson message : Decode (ResponseMessage R)) =
      (fun error => { toMessage := base, id, result := none, error := some error }) <$>
        (fromJson v : Decode (ResponseError Json)) := by
  obtain ⟨base, id, h⟩ := fromJson_responseMessage (R := R) hjsonrpc
  have hobject := Json.isObject_of_find? herror
  refine ⟨base, id, ?_⟩
  rw [h, map_eq_pure_bind, Json.valueOr_of_isObject hobject, Json.valueOr_of_isObject hobject, hresult, herror]
  change ((if v.isNull then .ok none else (fromJson v : Decode (ResponseError Json)).map some) >>= _) = _
  rw [hnull]
  cases (fromJson v : Decode (ResponseError Json)) <;> rfl

/-- The response is taken, with a result where the message has one and with an error where it has one. -/
def Preserves (R : Type) [FromJson R] (message : Json) : Prop :=
  ∃ response : ResponseMessage R, fromJson message = .ok response ∧
    response.result.isSome = message.contains "result" ∧ response.error.isSome = message.contains "error"

theorem preserves_result_iff (hresult : message.find? "result" = some v) (herror : message.find? "error" = none) :
    Preserves R message ↔ v.isNull = false ∧ (fromJson v : Decode R).isOk = true := by
  obtain ⟨base, id, h⟩ := fromJson_result (R := R) hjsonrpc hresult herror
  have hoption : (fromJson v : Decode (Option R)) = if v.isNull then .ok none else (fromJson v : Decode R).map some := rfl
  rw [Preserves, h, hoption, Json.contains, Json.contains, hresult, herror]
  cases v.isNull with
  | true =>
    refine iff_of_false ?_ (by simp)
    rintro ⟨response, hresponse, hsome, -⟩
    obtain rfl := Except.ok.inj hresponse
    cases hsome
  | false =>
    cases (fromJson v : Decode R) with
    | error e =>
      refine iff_of_false ?_ (by simp)
      rintro ⟨response, hresponse, -⟩
      cases hresponse
    | ok r => exact iff_of_true ⟨_, rfl, rfl, rfl⟩ ⟨rfl, rfl⟩

/-- An error is decoded with its data, or not at all. -/
theorem preserves_error_iff (hresult : message.find? "result" = none) (herror : message.find? "error" = some v)
    (hvalid : errorObject v = true) : Preserves R message ↔ v.contains "data" = true := by
  rw [errorObject, Bool.and_eq_true] at hvalid
  obtain ⟨code, hcode, hintegral⟩ := has_iff.mp hvalid.1
  have hnumber : Accepted.isNumber code = true := by
    cases code with
    | int n => rfl
    | float x => rfl
    | _ => cases hintegral
  have haccepted : (fromJson v : Decode (ResponseError Json)).isOk = v.contains "data" := by
    rw [Accepted.responseError_isOk, Accepted.responseError, hvalid.2, has, hcode, Option.any_some, hnumber, has,
      Json.contains]
    cases v.find? "data" <;> rfl
  obtain ⟨base, id, h⟩ := fromJson_error (R := R) hjsonrpc hresult herror (Json.isNull_of_find? hcode)
  rw [Preserves, h, ← haccepted, Json.contains, Json.contains, hresult, herror]
  cases (fromJson v : Decode (ResponseError Json)) with
  | error e =>
    refine iff_of_false ?_ (by simp)
    rintro ⟨response, hresponse, -⟩
    cases hresponse
  | ok error => exact iff_of_true ⟨_, rfl, rfl, rfl⟩ rfl

end Answers

end Ycmd.Lsp
