import Ycmd.Lib.Bytes
import Mathlib.Data.List.Count

/-! UTF-8 and UTF-16 lengths of texts, and what is promised of a library that counts code points. -/
namespace Lib

def utf8 (text : List Char) : Bytes := text.flatMap String.utf8EncodeChar

/-- The code units of a text in UTF-16: two for a code point outside the basic plane. -/
def utf16Length (text : List Char) : Nat := (text.map (fun c => if c.toNat < 0x10000 then 1 else 2)).sum

@[simp] theorem utf8_nil : utf8 [] = [] := rfl

theorem utf8_cons (c : Char) (text : List Char) : utf8 (c :: text) = String.utf8EncodeChar c ++ utf8 text :=
  List.flatMap_cons

@[simp] theorem utf8_append (text text' : List Char) : utf8 (text ++ text') = utf8 text ++ utf8 text' :=
  List.flatMap_append

/-- The encoding of a code point begins with its leading byte, and has no other. -/
theorem utf8EncodeChar_eq_cons (c : Char) : ∃ leadingByte continuation,
    String.utf8EncodeChar c = leadingByte :: continuation ∧ leadingByte.IsUTF8FirstByte ∧
      ∀ b ∈ continuation, ¬ b.IsUTF8FirstByte := by
  cases h : String.utf8EncodeChar c with
  | nil => exact absurd h String.utf8EncodeChar_ne_nil
  | cons leadingByte continuation =>
    have hfirst (i : Nat) (hi : i < (String.utf8EncodeChar c).length) :
        (String.utf8EncodeChar c)[i].IsUTF8FirstByte ↔ i = 0 :=
      UInt8.isUTF8FirstByte_getElem_utf8EncodeChar
    simp only [h] at hfirst
    refine ⟨leadingByte, continuation, rfl, by simpa using hfirst 0, fun b hb => ?_⟩
    obtain ⟨i, hi, rfl⟩ := List.getElem_of_mem hb
    simpa using hfirst (i+1) (by simpa using hi)

/-- A code point has as many bytes as its leading byte says; those of the lowest block have one. -/
theorem length_utf8EncodeChar_eq_one {c : Char} : (String.utf8EncodeChar c).length = 1 ↔ c.toNat < 0x80 := by
  rw [String.length_utf8EncodeChar, Char.utf8Size_eq_one_iff, UInt32.le_iff_toNat_le]
  exact Nat.lt_succ_iff.symm

/-- A byte of the lowest block stands for itself wherever it is found. -/
theorem toNat_of_mem_utf8EncodeChar {c : Char} {b : UInt8} (hb : b.toNat < 0x80)
    (h : b ∈ String.utf8EncodeChar c) : c.toNat = b.toNat := by
  unfold String.utf8EncodeChar at h
  dsimp only at h
  split at h
  · rename_i hle
    rw [List.mem_singleton.mp h, UInt8.toNat_ofNat', Nat.mod_eq_of_lt (by omega)]
    rfl
  · exfalso
    repeat' split at h
    all_goals
      simp only [List.mem_cons, List.not_mem_nil, or_false] at h
      rcases h with rfl | h
      · rw [UInt8.toNat_ofNat'] at hb
        omega
    · rw [h, UInt8.toNat_ofNat'] at hb
      omega
    · rcases h with rfl | rfl <;> rw [UInt8.toNat_ofNat'] at hb <;> omega
    · rcases h with rfl | rfl | rfl <;> rw [UInt8.toNat_ofNat'] at hb <;> omega

theorem length_utf8EncodeChar_pos (c : Char) : 0 < (String.utf8EncodeChar c).length := by
  rw [String.length_utf8EncodeChar]
  exact c.utf8Size_pos

theorem two_le_length_utf8EncodeChar {c : Char} (hlong : 0x80 ≤ c.toNat) : 2 ≤ (String.utf8EncodeChar c).length := by
  have hpos := length_utf8EncodeChar_pos c
  have hone : (String.utf8EncodeChar c).length ≠ 1 := by
    rw [Ne, length_utf8EncodeChar_eq_one]
    omega
  omega

/-- The last byte of a character of several bytes is not its first. -/
theorem drop_utf8EncodeChar {c : Char} (hlong : 0x80 ≤ c.toNat) :
    ∃ b, (String.utf8EncodeChar c).drop ((String.utf8EncodeChar c).length - 1) = [b] ∧ ¬ b.IsUTF8FirstByte := by
  obtain ⟨leadingByte, continuation, hc, -, hcontinuation⟩ := utf8EncodeChar_eq_cons c
  have hne : continuation ≠ [] := by
    rintro rfl
    have := two_le_length_utf8EncodeChar hlong
    simp [hc] at this
  refine ⟨continuation.getLast hne, ?_, hcontinuation _ (List.getLast_mem hne)⟩
  rw [hc, List.drop_length_sub_one (List.cons_ne_nil _ _), List.getLast_cons hne]

theorem utf8_eq_nil {text : List Char} : utf8 text = [] ↔ text = [] := by
  cases text with
  | nil => simp
  | cons c text => simp [utf8_cons]

theorem length_le_utf16Length (text : List Char) : text.length ≤ utf16Length text := by
  induction text with
  | nil => exact Nat.zero_le _
  | cons c text ih =>
    simp only [utf16Length, List.map_cons, List.sum_cons, List.length_cons] at ih ⊢
    split <;> omega

theorem utf16Length_eq_length {text : List Char} :
    utf16Length text = text.length ↔ ∀ c ∈ text, c.toNat < 0x10000 := by
  induction text with
  | nil => simp [utf16Length]
  | cons c text ih =>
    have hle := length_le_utf16Length text
    rw [List.forall_mem_cons, ← ih]
    simp only [utf16Length, List.map_cons, List.sum_cons, List.length_cons] at hle ⊢
    split <;> omega

/-- Leading bytes count code points. -/
theorem countP_utf8 (text : List Char) : (utf8 text).countP (fun b => b.IsUTF8FirstByte) = text.length := by
  induction text with
  | nil => rfl
  | cons c text ih =>
    obtain ⟨leadingByte, continuation, h, hl, hc⟩ := utf8EncodeChar_eq_cons c
    rw [utf8_cons, List.countP_append, ih, h, List.countP_cons_of_pos (by simpa using hl),
      List.countP_eq_zero.mpr (by simpa using hc), List.length_cons]
    omega

theorem length_le_length_utf8 (text : List Char) : text.length ≤ (utf8 text).length := by
  rw [← countP_utf8]
  exact List.countP_le_length

/-- The code points of valid UTF-8. -/
def decodeUtf8 (bytes : Bytes) : Option (List Char) := bytes.toByteArray.utf8Decode?.map Array.toList

@[simp] theorem decodeUtf8_utf8 (text : List Char) : decodeUtf8 (utf8 text) = some text := by
  have : (utf8 text).toByteArray.utf8Decode? = some text.toArray := List.utf8Decode?_utf8Encode
  simp [decodeUtf8, this]

/-- What decodes is the encoding of what it decodes to. -/
theorem utf8_of_decodeUtf8 {bytes : Bytes} {text : List Char} (h : decodeUtf8 bytes = some text) :
    utf8 text = bytes := by
  obtain ⟨decoded, hdecoded, rfl⟩ := Option.map_eq_some_iff.mp h
  have hsome : bytes.toByteArray.utf8Decode?.isSome = true := by rw [hdecoded]; rfl
  have hencoded : (utf8 decoded.toList).toByteArray = bytes.toByteArray := by
    have := ByteArray.utf8Encode_get_utf8Decode? (h := hsome)
    simpa only [hdecoded, Option.get_some, List.utf8Encode, utf8] using this
  have hdata := congrArg ByteArray.data hencoded
  rw [List.data_toByteArray, List.data_toByteArray] at hdata
  exact List.toArray_inj hdata

/-- What is relied on of a library that decodes UTF-8, encodes it and counts: it does so exactly for
valid text, and counts a sequence that is cut short at the end as one code point. -/
structure TextLibrary where
  decode : Bytes → List Char
  countAsEncoded : List Char → Nat
  countAsDecoded : Bytes → Nat
  decode_utf8 : ∀ text, decode (utf8 text) = text
  countAsEncoded_eq : ∀ text, countAsEncoded text = (utf8 text).length
  countAsDecoded_utf8 : ∀ text, countAsDecoded (utf8 text) = text.length
  countAsDecoded_cut : ∀ text c bytes, bytes ≠ [] → bytes <+: String.utf8EncodeChar c →
    countAsDecoded (utf8 text ++ bytes) = text.length + 1

/-- A library that counts leading bytes. -/
def TextLibrary.leading : TextLibrary where
  decode bytes := (decodeUtf8 bytes).getD []
  countAsEncoded text := (utf8 text).length
  countAsDecoded bytes := bytes.countP (fun b => b.IsUTF8FirstByte)
  decode_utf8 text := by rw [decodeUtf8_utf8, Option.getD_some]
  countAsEncoded_eq _ := rfl
  countAsDecoded_utf8 := countP_utf8
  countAsDecoded_cut text c bytes hne hprefix := by
    obtain ⟨leadingByte, continuation, h, hl, hc⟩ := utf8EncodeChar_eq_cons c
    rw [h] at hprefix
    cases bytes with
    | nil => exact absurd rfl hne
    | cons b bytes =>
      obtain ⟨rfl, hrest⟩ := List.cons_prefix_cons.mp hprefix
      have hnone : bytes.countP (fun b => b.IsUTF8FirstByte) = 0 :=
        List.countP_eq_zero.mpr (fun x hx => by simpa using hc x (hrest.subset hx))
      rw [List.countP_append, countP_utf8, List.countP_cons_of_pos (by simpa using hl), hnone]

end Lib
