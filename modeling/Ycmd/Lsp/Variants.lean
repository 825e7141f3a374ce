import Ycmd.Lsp.Accepted

/-! What the decoder of a variant makes of values that no alternative is written as. -/
namespace Ycmd.Lsp
open Lib Protocol

/-- The decoder raises where neither alternative takes the value, or returns what one of them reads from it. -/
inductive DecodesSoundly (α β : Type) [Inhabited α] [FromJson α] [FromJson β] (j : Json) : Prop where
  | raises (e : JsonError) (h : (fromJson j : Decode (α ⊕ β)) = .error e)
    (hfirst : (fromJson j : Decode α).isOk = false) (hsecond : (fromJson j : Decode β).isOk = false)
  | first (a : α) (h : (fromJson j : Decode (α ⊕ β)) = .ok (.inl a)) (ha : (fromJson j : Decode α) = .ok a)
  | second (b : β) (h : (fromJson j : Decode (α ⊕ β)) = .ok (.inr b)) (hb : (fromJson j : Decode β) = .ok b)

section Variant
variable {α β : Type} [Inhabited α] [FromJson α] [FromJson β]

/-- The alternatives in the order they are tried: the second is left standing when both take the value. -/
theorem fromJson_variant (j : Json) : (fromJson j : Decode (α ⊕ β)) =
    .ok (variantFromJson Sum.inr j (variantFromJson Sum.inl j (.inl default))) := rfl

/-- The decoder never raises, so it is sound exactly where an alternative takes the value. -/
theorem decodesSoundly_iff (j : Json) :
    DecodesSoundly α β j ↔ (fromJson j : Decode α).isOk = true ∨ (fromJson j : Decode β).isOk = true := by
  constructor
  · intro h
    cases h with
    | raises e h => cases h
    | first a _ ha =>
      rw [ha]
      exact .inl rfl
    | second b _ hb =>
      rw [hb]
      exact .inr rfl
  · intro h
    cases hb : (fromJson j : Decode β) with
    | ok b => exact .second b (by simp only [fromJson_variant, variantFromJson, hb]) hb
    | error e =>
      cases ha : (fromJson j : Decode α) with
      | ok a => exact .first a (by simp only [fromJson_variant, variantFromJson, ha, hb]) ha
      | error e' => simp [ha, hb] at h

end Variant

/-- The variants are decoded soundly exactly from what one of their alternatives is read from. For every
other value the default of the first alternative is returned. -/
theorem variants_sound_iff (j : Json) :
    (DecodesSoundly String Double j ↔ isString j = true ∨ Accepted.isNumber j = true) ∧
    (DecodesSoundly String MarkupContent j ↔ isString j = true ∨ Accepted.markupContent j = true) ∧
    (DecodesSoundly (List CompletionItem) CompletionList j ↔
      isArrayOf Accepted.completionItem j = true ∨ Accepted.completionList j = true) := by
  refine ⟨?_, ?_, ?_⟩
  · rw [decodesSoundly_iff, Accepted.string_isOk, Accepted.double_isOk]
  · rw [decodesSoundly_iff, Accepted.string_isOk, Accepted.markupContent_isOk]
  · rw [decodesSoundly_iff, Accepted.fromJson_list_isOk Accepted.completionItem_isOk, Accepted.completionList_isOk]

/-- The null id of a response to a message that could not be read becomes an empty string. -/
theorem null_id_decodes :
    (fromJson Json.null : Decode ID) = .ok (.inl "") ∧ ¬ DecodesSoundly String Double .null := by
  refine ⟨rfl, ?_⟩
  rw [decodesSoundly_iff]
  decide

end Ycmd.Lsp
