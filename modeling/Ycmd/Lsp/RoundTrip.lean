import Ycmd.Lsp.Read
import Mathlib.Logic.Relation

/-! The streams `read_message` recovers messages from, and the round trip through them. -/
namespace Ycmd.Lsp
open Lib Chunks Relation

/-- A header line: its text, then any number of '\r' and one '\n'. A blank line has no text. -/
structure Line where
  text : Bytes
  crs : Nat
  noLF : LF ∉ text
  noCR : ∀ b ∈ text.getLast?, b ≠ CR

def Line.bytes (l : Line) : Bytes := l.text ++ List.replicate l.crs CR ++ [LF]

def blank (crs : Nat) : Line := ⟨[], crs, by simp, by simp⟩

/-- The name before the first colon, in lower case. -/
def headerName (text : Bytes) : Option Bytes :=
  if colon ∈ text then some ((text.take (text.idxOf colon)).map toLower) else none

/-- What follows the first colon and the spaces after it. -/
def headerValue (text : Bytes) : Bytes := (text.drop (text.idxOf colon + 1)).dropWhile isSpace

structure OtherLine extends Line where
  nonblank : text ≠ []
  other : headerName text ≠ some contentLengthName

/-- A Content-Length line in any case, with any spaces, carrying `n`. -/
structure LengthLine (n : Nat) where
  name : Bytes
  spaces : Bytes
  digits : Bytes
  tail : Bytes := []
  crs : Nat := 1
  name_eq : name.map toLower = contentLengthName
  spaces_eq : ∀ b ∈ spaces, isSpace b = true ∧ b ≠ LF
  digits_eq : digits ≠ [] ∧ (∀ b ∈ digits, isDigit b = true) ∧ digitsValue 0 digits = n
  tail_eq : (∀ b ∈ tail.head?, isDigit b = false) ∧ LF ∉ tail ∧ ∀ b ∈ tail.getLast?, b ≠ CR

structure JunkLine extends Line where
  nonblank : text ≠ []
  noLength : headerName text = some contentLengthName → ∀ n, fromChars (headerValue text) = .ok n → n = 0

/-- A framed message. A body is a C++ string, so its length is a `size_t`. -/
structure FramedMessage where
  before : List OtherLine
  body : Bytes
  length : LengthLine body.length
  after : List OtherLine
  crs : Nat
  nonempty : body ≠ []
  fits : body.length < 2^64

structure Junk where
  lines : List JunkLine
  crs : Nat

inductive Item where
  | message (m : FramedMessage)
  | junk (j : Junk)

private theorem toLower_special {b : UInt8} (h : b = LF ∨ b = colon) : toLower b ∉ contentLengthName := by
  rcases h with rfl | rfl <;> decide

private theorem digit_special {b : UInt8} (h : isDigit b = true) : b ≠ LF ∧ b ≠ CR ∧ isSpace b = false := by
  refine ⟨?_, ?_, ?_⟩
  · rintro rfl
    exact absurd h (by decide)
  · rintro rfl
    exact absurd h (by decide)
  · have hlo : 48 ≤ b.toNat := by
      simp only [isDigit, Bool.and_eq_true, decide_eq_true_eq, UInt8.le_iff_toNat_le] at h
      exact h.1
    have h32 : b ≠ 32 := by
      rintro rfl
      exact absurd hlo (by decide)
    have h13 : ¬ b ≤ 13 := fun hle => absurd (hlo.trans (UInt8.le_iff_toNat_le.mp hle)) (by decide)
    simp [isSpace, h32, h13]

namespace LengthLine
variable {n : Nat} (l : LengthLine n)

def text : Bytes := l.name ++ colon :: (l.spaces ++ l.digits ++ l.tail)

theorem name_special {b : UInt8} (h : b = LF ∨ b = colon) : b ∉ l.name := by
  intro hm
  have := List.mem_map_of_mem (f := toLower) hm
  rw [l.name_eq] at this
  exact toLower_special h this

theorem text_noLF : LF ∉ l.text := by
  have hn := l.name_special (.inl rfl)
  have hs : LF ∉ l.spaces := fun h => (l.spaces_eq _ h).2 rfl
  have hd : LF ∉ l.digits := fun h => (digit_special (l.digits_eq.2.1 _ h)).1 rfl
  have ht := l.tail_eq.2.1
  simp only [text, List.mem_append, List.mem_cons, not_or]
  exact ⟨hn, by decide, ⟨hs, hd⟩, ht⟩

theorem text_noCR : ∀ b ∈ l.text.getLast?, b ≠ CR := by
  intro b hb
  by_cases ht : l.tail = []
  · have hd := l.digits_eq
    have hlast : l.text.getLast? = l.digits.getLast? := by
      rw [text, ht, List.append_nil, ← List.cons_append, ← List.append_assoc, List.getLast?_append_of_ne_nil _ hd.1]
    rw [hlast] at hb
    exact (digit_special (hd.2.1 b (List.mem_of_getLast? hb))).2.1
  · have hlast : l.text.getLast? = l.tail.getLast? := by
      rw [text, ← List.cons_append, ← List.append_assoc, List.getLast?_append_of_ne_nil _ ht]
    rw [hlast] at hb
    exact l.tail_eq.2.2 b hb

def toLine : Line := ⟨l.text, l.crs, l.text_noLF, l.text_noCR⟩

end LengthLine

def FramedMessage.bytes (m : FramedMessage) : Bytes :=
  m.before.flatMap (fun l => l.bytes) ++ (m.length.toLine.bytes ++
    (m.after.flatMap (fun l => l.bytes) ++ ((blank m.crs).bytes ++ m.body)))

def Junk.bytes (j : Junk) : Bytes := j.lines.flatMap (fun l => l.bytes) ++ (blank j.crs).bytes

namespace Item

def bytes : Item → Bytes
  | .message m => m.bytes
  | .junk j => j.bytes

def bodies : Item → List Bytes
  | .message m => [m.body]
  | .junk _ => []

end Item

theorem stripCR_line (l : Line) : stripCR (l.text ++ List.replicate l.crs CR) = l.text := by
  rw [stripCR, List.reverse_append, List.reverse_replicate,
    List.dropWhile_append_of_pos (by simp)]
  cases h : l.text.reverse with
  | nil => simpa using h.symm
  | cons b rest =>
    have hlast : l.text.getLast? = some b := by
      rw [← List.head?_reverse, h, List.head?_cons]
    have hb := l.noCR b (by simp [hlast])
    rw [List.dropWhile_cons_of_neg (by simpa using hb), ← h, List.reverse_reverse]

theorem headerLine_blank (n : Nat) : headerLine [] n = .leave n := by
  simp [headerLine]

theorem headerLine_other (l : OtherLine) (n : Nat) : headerLine l.text n = .next n := by
  have h := l.other
  simp only [headerName] at h
  simp only [headerLine, if_neg l.nonblank]
  split
  · next hc => simp_all
  · rfl

theorem headerLine_length {n : Nat} (l : LengthLine n) (hn : n < 2^64) (old : Nat) :
    headerLine l.text old = .next n := by
  have hc : colon ∉ l.name := l.name_special (.inr rfl)
  have hne : l.text ≠ [] := by simp [LengthLine.text]
  have hmem : colon ∈ l.text := by simp [LengthLine.text]
  have hidx : l.text.idxOf colon = l.name.length := by
    rw [LengthLine.text, List.idxOf_append_of_notMem hc, List.idxOf_cons_self, Nat.add_zero]
  have htake : l.text.take l.name.length = l.name := by simp [LengthLine.text]
  have hdrop : l.text.drop (l.name.length+1) = l.spaces ++ (l.digits ++ l.tail) := by
    simp [LengthLine.text, List.drop_append]
  obtain ⟨hd, hdigits, hval⟩ := l.digits_eq
  have hvalue : (l.spaces ++ (l.digits ++ l.tail)).dropWhile isSpace = l.digits ++ l.tail := by
    rw [List.dropWhile_append_of_pos (fun b hb => (l.spaces_eq b hb).1)]
    obtain ⟨d, ds, he⟩ := List.exists_cons_of_ne_nil hd
    have hsp := (digit_special (hdigits d (by simp [he]))).2.2
    rw [he, List.cons_append, List.dropWhile_cons_of_neg (by simp [hsp])]
  simp only [headerLine, if_neg hne, if_pos hmem, hidx, htake, l.name_eq, hdrop, hvalue]
  rw [fromChars_digits hd hdigits l.tail_eq.1 (by omega)]
  simp [hd, hval]

theorem headerLine_junk (l : JunkLine) : headerLine l.text 0 = .next 0 ∨ headerLine l.text 0 = .leave 0 := by
  have h := l.noLength
  simp only [headerName, headerValue] at h
  simp only [headerLine, if_neg l.nonblank]
  split
  · next hc =>
    split
    · exact .inl rfl
    · next hname =>
      split
      · exact .inr rfl
      · cases hv : fromChars ((l.text.drop (l.text.idxOf colon + 1)).dropWhile isSpace) with
        | error e => exact .inr rfl
        | ok n =>
          have := h (by simpa [hc] using hname) n hv
          exact .inl (by rw [this])
  · exact .inl rfl

variable (parse : Bytes → Decode Json)

/-- The bodies handed to `json::parse`: it ends the coroutine when it first throws. -/
def untilRejected : List Bytes → List Bytes
  | [] => []
  | b :: bs => b :: match parse b with
    | .ok _ => untilRejected bs
    | .error _ => []

abbrev Steps := ReflTransGen (fun r r' : Reader => readStep parse r = some r')

/-- Where a reader stands, whatever chunks its bytes came in. -/
structure Reader.At (r : Reader) (phase : Phase) (ahead : Bytes) (handed : List Bytes) : Prop where
  phase_eq : r.phase = phase
  ahead_eq : r.ahead = ahead
  handed_eq : r.handed = handed

/-- One turn of the header loop consumes one line. -/
theorem line_step {r : Reader} {n : Nat} {rest : Bytes} {handed : List Bytes} (l : Line)
    (h : r.At (.header n) (l.bytes ++ rest) handed) :
    ∃ r', readStep parse r = some r' ∧ r'.At (match headerLine l.text n with
      | .next m => .header m
      | .leave m => afterHeaders m) rest handed := by
  have hlf : LF ∉ l.text ++ List.replicate l.crs CR := by
    simp only [List.mem_append, not_or]
    refine ⟨l.noLF, fun hm => ?_⟩
    exact absurd (List.eq_of_mem_replicate hm) (by decide)
  have hahead : r.buf ++ r.source.flatten = (l.text ++ List.replicate l.crs CR) ++ LF :: rest := by
    simpa [Reader.ahead, Line.bytes] using h.ahead_eq
  obtain ⟨buf, source, hread, he, hlen⟩ := readUntil_line hlf r.source r.buf hahead
  have hline : buf.take (l.text ++ List.replicate l.crs CR).length = l.text ++ List.replicate l.crs CR := by
    have := congrArg (List.take (l.text ++ List.replicate l.crs CR).length) he
    rwa [List.take_append_of_le_length hlen.le, List.take_left] at this
  have hrest : buf.drop ((l.text ++ List.replicate l.crs CR).length + 1) ++ source.flatten = rest := by
    have := congrArg (List.drop ((l.text ++ List.replicate l.crs CR).length + 1)) he
    rw [List.drop_append_of_le_length hlen] at this
    rw [this, List.drop_append]
    simp
  simp only [readStep, h.phase_eq, hread, Nat.add_sub_cancel, hline, stripCR_line]
  cases headerLine l.text n with
  | next m => exact ⟨_, rfl, rfl, hrest, h.handed_eq⟩
  | leave m => exact ⟨_, rfl, rfl, hrest, h.handed_eq⟩

/-- A body of the announced length is handed over as it is. -/
theorem body_step {r : Reader} {body rest : Bytes} {handed : List Bytes}
    (h : r.At (.body body.length) (body ++ rest) handed) :
    ∃ r', readStep parse r = some r' ∧ match parse body with
      | .ok _ => r'.At (.header 0) rest (handed ++ [body])
      | .error e => r'.At (.failed e) rest (handed ++ [body]) := by
  have hahead : r.buf ++ r.source.flatten = body ++ rest := h.ahead_eq
  have henough : body.length - r.buf.length ≤ r.source.flatten.length := by
    have := congrArg List.length hahead
    simp only [List.length_append] at this
    omega
  obtain ⟨source, hread, -⟩ := transferExactly_spec r.source _ r.buf henough
  obtain ⟨he, hlen⟩ := transferExactly_ahead hread
  rw [hahead] at he
  generalize r.buf ++ r.source.flatten.take (body.length - r.buf.length) = buf at hread he hlen
  have hle : body.length ≤ buf.length := by omega
  have hbody : buf.take body.length = body := by
    have := congrArg (List.take body.length) he
    rwa [List.take_append_of_le_length hle, List.take_left] at this
  have hrest : buf.drop body.length ++ source.flatten = rest := by
    have := congrArg (List.drop body.length) he
    rwa [List.drop_append_of_le_length hle, List.drop_left] at this
  simp only [readStep, h.phase_eq, hread, hbody]
  cases parse body with
  | ok j => exact ⟨_, rfl, rfl, hrest, by simp [h.handed_eq]⟩
  | error e => exact ⟨_, rfl, rfl, hrest, by simp [h.handed_eq]⟩

theorem other_lines {n : Nat} {rest : Bytes} {handed : List Bytes} (ls : List OtherLine) {r : Reader}
    (h : r.At (.header n) (ls.flatMap (fun l => l.bytes) ++ rest) handed) :
    ∃ r', Steps parse r r' ∧ r'.At (.header n) rest handed := by
  induction ls generalizing r with
  | nil => exact ⟨r, .refl, by simpa using h⟩
  | cons l ls ih =>
    rw [List.flatMap_cons, List.append_assoc] at h
    obtain ⟨r1, hs, h1⟩ := line_step parse l.toLine h
    rw [headerLine_other l] at h1
    obtain ⟨r2, hr, h2⟩ := ih h1
    exact ⟨r2, .head hs hr, h2⟩

theorem junk_lines {rest : Bytes} {handed : List Bytes} (ls : List JunkLine) {r : Reader}
    (h : r.At (.header 0) (ls.flatMap (fun l => l.bytes) ++ rest) handed) :
    ∃ r', Steps parse r r' ∧ r'.At (.header 0) rest handed := by
  induction ls generalizing r with
  | nil => exact ⟨r, .refl, by simpa using h⟩
  | cons l ls ih =>
    rw [List.flatMap_cons, List.append_assoc] at h
    obtain ⟨r1, hs, h1⟩ := line_step parse l.toLine h
    -- a break with length zero starts the next message's headers, like the junk it is in
    have h1' : r1.At (.header 0) (ls.flatMap (fun l => l.bytes) ++ rest) handed := by
      rcases headerLine_junk l with hj | hj
      · simpa only [hj] using h1
      · simpa only [hj, afterHeaders, if_true] using h1
    obtain ⟨r2, hr, h2⟩ := ih h1'
    exact ⟨r2, .head hs hr, h2⟩

/-- The header block of a framed message announces the length of its body. -/
theorem message_headers {rest : Bytes} {handed : List Bytes} (m : FramedMessage) {r : Reader}
    (h : r.At (.header 0) (m.bytes ++ rest) handed) :
    ∃ r', Steps parse r r' ∧ r'.At (.body m.body.length) (m.body ++ rest) handed := by
  simp only [FramedMessage.bytes, List.append_assoc] at h
  obtain ⟨r1, hr1, h1⟩ := other_lines parse m.before h
  obtain ⟨r2, hs2, h2⟩ := line_step parse m.length.toLine h1
  have hlen : headerLine m.length.toLine.text 0 = .next m.body.length := headerLine_length m.length m.fits 0
  rw [hlen] at h2
  obtain ⟨r3, hr3, h3⟩ := other_lines parse m.after h2
  obtain ⟨r4, hs4, h4⟩ := line_step parse (blank m.crs) h3
  have hpos : m.body.length ≠ 0 := by simpa using m.nonempty
  simp only [blank, headerLine_blank, afterHeaders, if_neg hpos] at h4
  exact ⟨r4, (hr1.tail hs2).trans (hr3.tail hs4), h4⟩

theorem junk_item {rest : Bytes} {handed : List Bytes} (j : Junk) {r : Reader}
    (h : r.At (.header 0) (j.bytes ++ rest) handed) :
    ∃ r', Steps parse r r' ∧ r'.At (.header 0) rest handed := by
  rw [Junk.bytes, List.append_assoc] at h
  obtain ⟨r1, hr1, h1⟩ := junk_lines parse j.lines h
  obtain ⟨r2, hs2, h2⟩ := line_step parse (blank j.crs) h1
  simp only [blank, headerLine_blank, afterHeaders, if_true] at h2
  exact ⟨r2, hr1.tail hs2, h2⟩

/-- With nothing ahead the header loop waits. -/
theorem waiting {r : Reader} {n : Nat} {handed : List Bytes} (h : r.At (.header n) [] handed) :
    readStep parse r = none := by
  have hnone : readUntil LF r.source r.buf = none := by
    apply readUntil_none
    have := h.ahead_eq
    rw [Reader.ahead] at this
    simp [this]
  simp only [readStep, h.phase_eq, hnone]

/-- The run lemma: item by item, until the stream ends or a body is rejected. -/
theorem items_run {handed : List Bytes} (items : List Item) {r : Reader}
    (h : r.At (.header 0) (items.flatMap Item.bytes) handed) :
    ∃ r', Steps parse r r' ∧ readStep parse r' = none ∧
      r'.handed = handed ++ untilRejected parse (items.flatMap Item.bodies) := by
  induction items generalizing r handed with
  | nil =>
    simp only [List.flatMap_nil] at h
    exact ⟨r, .refl, waiting parse h, by simp [untilRejected, h.handed_eq]⟩
  | cons item items ih =>
    rw [List.flatMap_cons] at h
    cases item with
    | junk j =>
      obtain ⟨r1, hr1, h1⟩ := junk_item parse j h
      obtain ⟨r2, hr2, hw, hh⟩ := ih h1
      exact ⟨r2, hr1.trans hr2, hw, by simpa [Item.bodies] using hh⟩
    | message m =>
      obtain ⟨r1, hr1, h1⟩ := message_headers parse m h
      obtain ⟨r2, hs2, h2⟩ := body_step parse h1
      cases hp : parse m.body with
      | ok j =>
        rw [hp] at h2
        obtain ⟨r3, hr3, hw, hh⟩ := ih h2
        refine ⟨r3, (hr1.tail hs2).trans hr3, hw, ?_⟩
        simp [Item.bodies, untilRejected, hp, hh]
      | error e =>
        rw [hp] at h2
        refine ⟨r2, hr1.tail hs2, ?_, ?_⟩
        · simp only [readStep, h2.phase_eq]
        · simp [Item.bodies, untilRejected, hp, h2.handed_eq]

/-- A body is only read for a positive length, so every step consumes something. -/
def Reader.Positive (r : Reader) : Prop := ∀ n, r.phase = .body n → 0 < n

theorem afterHeaders_positive {n m : Nat} (h : afterHeaders n = .body m) : 0 < m := by
  by_cases hn : n = 0
  · simp [afterHeaders, hn] at h
  · simp only [afterHeaders, if_neg hn, Phase.body.injEq] at h
    omega

theorem readStep_consumes {r r' : Reader} (hpos : r.Positive) (h : readStep parse r = some r') :
    r'.Positive ∧ r'.ahead.length < r.ahead.length := by
  have consumed {buf : Bytes} {source : List Bytes} {n : Nat}
      (he : buf ++ source.flatten = r.buf ++ r.source.flatten) (hn : 0 < n) (hle : n ≤ buf.length) :
      (buf.drop n ++ source.flatten).length < r.ahead.length := by
    have := congrArg List.length he
    simp only [Reader.ahead, List.length_append, List.length_drop] at this ⊢
    omega
  unfold readStep at h
  split at h
  · next n hp =>
    split at h
    · cases h
    · next bytesRead buf source hread =>
      obtain ⟨he, hn, hle⟩ := readUntil_ahead hread
      cases hf : headerLine (stripCR (buf.take (bytesRead-1))) n with
      | next m =>
        simp only [hf, Option.some.injEq] at h
        subst h
        exact ⟨nofun, consumed he hn hle⟩
      | leave m =>
        simp only [hf, Option.some.injEq] at h
        subst h
        exact ⟨fun k hk => afterHeaders_positive hk, consumed he hn hle⟩
  · next n hp =>
    split at h
    · cases h
    · next buf source hread =>
      obtain ⟨he, hlen⟩ := transferExactly_ahead hread
      have hc := consumed he (hpos n hp) (by omega)
      cases hj : parse (buf.take n) with
      | ok j =>
        simp only [hj, Option.some.injEq] at h
        subst h
        exact ⟨nofun, hc⟩
      | error e =>
        simp only [hj, Option.some.injEq] at h
        subst h
        exact ⟨nofun, hc⟩
  · cases h

/-- Enough fuel takes the reader to wherever its steps lead. -/
theorem settle_eq {r t : Reader} (hr : Steps parse r t) (ht : readStep parse t = none)
    (hpos : r.Positive) (fuel : Nat) (hf : r.ahead.length < fuel) : settle parse fuel r = t := by
  induction hr using ReflTransGen.head_induction_on generalizing fuel with
  | refl =>
    cases fuel with
    | zero => omega
    | succ fuel => simp only [settle, ht]
  | head hs _ ih =>
    obtain ⟨hpos', hlt⟩ := readStep_consumes parse hpos hs
    cases fuel with
    | zero => omega
    | succ fuel =>
      simp only [settle, hs]
      exact ih hpos' fuel (by omega)

theorem readMessage_items (items : List Item) (chunks : List Bytes)
    (h : chunks.flatten = items.flatMap Item.bytes) :
    readStep parse (readMessage parse chunks) = none ∧
    (readMessage parse chunks).handed = untilRejected parse (items.flatMap Item.bodies) := by
  have h0 : Reader.At { source := chunks } (.header 0) (items.flatMap Item.bytes) [] :=
    ⟨rfl, by simp [Reader.ahead, h], rfl⟩
  obtain ⟨t, hr, hw, hh⟩ := items_run parse items h0
  have ht : readMessage parse chunks = t := by
    apply settle_eq parse hr hw
    · intro n hn
      cases hn
    · simp [Reader.ahead]
  rw [ht]
  exact ⟨hw, by simpa using hh⟩

theorem untilRejected_eq {bodies : List Bytes} (h : ∀ b ∈ bodies.dropLast, (parse b).isOk) :
    untilRejected parse bodies = bodies := by
  induction bodies with
  | nil => rfl
  | cons b bs ih =>
    cases bs with
    | nil => cases hp : parse b <;> simp [untilRejected, hp]
    | cons c bs =>
      rw [List.dropLast_cons_cons, List.forall_mem_cons] at h
      cases hp : parse b with
      | ok j => rw [untilRejected, hp, ih h.2]
      | error e => simp [hp, Except.isOk, Except.toBool] at h

/-- The item that one `send_message` call writes. -/
def sent (data : Bytes) (hne : data ≠ []) (hfits : data.length < 2^64) : FramedMessage where
  before := []
  body := data
  length := {
    name := ascii "Content-Length"
    spaces := [32]
    digits := decimal data.length
    name_eq := by decide
    spaces_eq := by simp [isSpace, LF]
    digits_eq := ⟨decimal_ne_nil _, decimal_digits _, decimal_value _⟩
    tail_eq := by simp }
  after := []
  crs := 1
  nonempty := hne
  fits := hfits

theorem sent_bytes (data : Bytes) (hne : data ≠ []) (hfits : data.length < 2^64) :
    (sent data hne hfits).bytes = frame data := by
  have hprefix : ascii "Content-Length: " = ascii "Content-Length" ++ [colon, 32] := by decide
  simp [sent, FramedMessage.bytes, LengthLine.toLine, LengthLine.text, Line.bytes, blank, frame, hprefix]

theorem sent_items {messages : List Bytes} (h : ∀ m ∈ messages, m ≠ [] ∧ m.length < 2^64) :
    ∃ items : List Item, items.flatMap Item.bytes = messages.flatMap frame ∧
      items.flatMap Item.bodies = messages := by
  induction messages with
  | nil => exact ⟨[], rfl, rfl⟩
  | cons m ms ih =>
    rw [List.forall_mem_cons] at h
    obtain ⟨items, hb, hm⟩ := ih h.2
    refine ⟨.message (sent m h.1.1 h.1.2) :: items, ?_, ?_⟩
    · rw [List.flatMap_cons, List.flatMap_cons, hb, Item.bytes, sent_bytes]
    · rw [List.flatMap_cons, hm]
      rfl

/-- For every stream of framed messages and junk blocks and every cut into chunks, the reader
runs until it waits, having handed to `json::parse` the bodies in order and unaltered, up to the
first one `json::parse` rejects; all of them when only the last can be rejected. In particular
it recovers the messages of `send_message` calls that do not overlap. -/
theorem read_message_recovers :
    (∀ (items : List Item) (chunks : List Bytes), chunks.flatten = items.flatMap Item.bytes →
      readStep parse (readMessage parse chunks) = none ∧
      (readMessage parse chunks).handed = untilRejected parse (items.flatMap Item.bodies) ∧
      ((∀ b ∈ (items.flatMap Item.bodies).dropLast, (parse b).isOk) →
        (readMessage parse chunks).handed = items.flatMap Item.bodies)) ∧
    ∀ (schedule : List SendStep) (o : Out) (chunks : List Bytes),
      sender.run {} schedule = some o → o.writes = [] →
      (∀ p ∈ sender.steps {} schedule, Alone p.1 p.2) →
      (∀ m ∈ o.messages, m ≠ [] ∧ m.length < 2^64 ∧ (parse m).isOk) → chunks.flatten = o.stream →
      (readMessage parse chunks).handed = o.messages := by
  constructor
  · intro items chunks h
    obtain ⟨hw, hh⟩ := readMessage_items parse items chunks h
    exact ⟨hw, hh, fun hp => hh.trans (untilRejected_eq parse hp)⟩
  · intro schedule o chunks hrun hw hok hm hc
    have hclean := sender.states_of_guarded Clean Alone clean_step (.inl ⟨rfl, rfl, rfl⟩) hok o
      (sender.mem_states_of_run hrun)
    have hsent : ∀ m ∈ o.messages, m ≠ [] ∧ m.length < 2^64 := fun m h => ⟨(hm m h).1, (hm m h).2.1⟩
    obtain ⟨items, hb, hi⟩ := sent_items hsent
    have hh := (readMessage_items parse items chunks (by rw [hc, hb, hclean.stream hw])).2
    rw [hi] at hh
    rw [hh, untilRejected_eq parse (fun b hb => (hm b (List.dropLast_subset _ hb)).2.2)]

def rejectedFirst : List Item :=
  [.message (sent (ascii "\x7d") (by decide) (by decide)), .message (sent (ascii "\x7b\x7d") (by decide) (by decide))]

/-- A body that is not JSON ends the coroutine: the message after it is never handed over. -/
theorem rejected_body_ends_reader : ∃ chunks : List Bytes,
    chunks.flatten = rejectedFirst.flatMap Item.bytes ∧
    (readMessage parseBraces chunks).handed = [ascii "\x7d"] ∧
    rejectedFirst.flatMap Item.bodies = [ascii "\x7d", ascii "\x7b\x7d"] :=
  ⟨[rejectedFirst.flatMap Item.bytes], by simp, by decide, by decide⟩

end Ycmd.Lsp
