import Mathlib.Data.List.Basic
import Mathlib.Data.List.TakeDrop

/-! Reading a stream that arrives in chunks of any size. A read returns `none` when the chunks
run out before it can complete: its caller stays suspended. -/
namespace Lib.Chunks
variable {α : Type*}

/-- Read until the delimiter is buffered. The count ends with the first delimiter; the buffer may
hold more. Nothing is read when the buffer already contains one. -/
def readUntil [DecidableEq α] (d : α) : List (List α) → List α → Option (Nat × List α × List (List α))
  | [], buf => if d ∈ buf then some (buf.idxOf d + 1, buf, []) else none
  | c :: source, buf =>
    if d ∈ buf then some (buf.idxOf d + 1, buf, c :: source) else readUntil d source (buf ++ c)

/-- Append exactly `n` further elements to the buffer, leaving the rest of the last chunk unread. -/
def transferExactly : List (List α) → Nat → List α → Option (List α × List (List α))
  | [], n, buf => if n = 0 then some (buf, []) else none
  | c :: source, n, buf =>
    if n = 0 then some (buf, c :: source)
    else if n < c.length then some (buf ++ c.take n, c.drop n :: source)
    else transferExactly source (n - c.length) (buf ++ c)

private theorem line_buffered [DecidableEq α] {d : α} {line rest buf more : List α} (hd : d ∉ line)
    (hmem : d ∈ buf) (h : buf ++ more = line ++ d :: rest) :
    buf.idxOf d = line.length ∧ line.length < buf.length := by
  have h1 : (buf ++ more).idxOf d = buf.idxOf d := List.idxOf_append_of_mem hmem
  have h2 : (line ++ d :: rest).idxOf d = line.length := by
    rw [List.idxOf_append_of_notMem hd, List.idxOf_cons_self, Nat.add_zero]
  have hi : buf.idxOf d = line.length := by rw [← h1, h, h2]
  exact ⟨hi, hi ▸ List.idxOf_lt_length_of_mem hmem⟩

/-- However the stream is cut, the next line is found at the same place. -/
theorem readUntil_line [DecidableEq α] {d : α} {line rest : List α} (hd : d ∉ line)
    (source : List (List α)) (buf : List α) (h : buf ++ source.flatten = line ++ d :: rest) :
    ∃ buf' source', readUntil d source buf = some (line.length+1, buf', source') ∧
      buf' ++ source'.flatten = line ++ d :: rest ∧ line.length < buf'.length := by
  induction source generalizing buf with
  | nil =>
    have hm : d ∈ buf := by
      rw [List.flatten_nil, List.append_nil] at h
      simp [h]
    obtain ⟨hi, hl⟩ := line_buffered hd hm h
    exact ⟨buf, [], by simp [readUntil, hm, hi], h, hl⟩
  | cons c source ih =>
    by_cases hm : d ∈ buf
    · obtain ⟨hi, hl⟩ := line_buffered hd hm h
      exact ⟨buf, c :: source, by simp [readUntil, hm, hi], h, hl⟩
    · have h' : (buf ++ c) ++ source.flatten = line ++ d :: rest := by
        simpa [List.append_assoc] using h
      obtain ⟨buf', source', hr, he, hl⟩ := ih (buf ++ c) h'
      exact ⟨buf', source', by simpa [readUntil, hm] using hr, he, hl⟩

/-- Without a delimiter ahead the reader waits. -/
theorem readUntil_none [DecidableEq α] {d : α} (source : List (List α)) (buf : List α)
    (h : d ∉ buf ++ source.flatten) : readUntil d source buf = none := by
  induction source generalizing buf with
  | nil => simp_all [readUntil]
  | cons c source ih =>
    have hb : d ∉ buf := fun hm => h (List.mem_append_left _ hm)
    rw [readUntil, if_neg hb]
    exact ih _ (by simpa [List.append_assoc] using h)

theorem transferExactly_spec (source : List (List α)) (n : Nat) (buf : List α)
    (h : n ≤ source.flatten.length) :
    ∃ source', transferExactly source n buf = some (buf ++ source.flatten.take n, source') ∧
      source'.flatten = source.flatten.drop n := by
  induction source generalizing n buf with
  | nil =>
    have hn : n = 0 := by simpa using h
    exact ⟨[], by simp [transferExactly, hn], by simp⟩
  | cons c source ih =>
    by_cases hn : n = 0
    · exact ⟨c :: source, by simp [transferExactly, hn], by simp [hn]⟩
    · by_cases hc : n < c.length
      · refine ⟨c.drop n :: source, ?_, ?_⟩
        · simp [transferExactly, hn, hc, List.take_append_of_le_length (Nat.le_of_lt hc)]
        · simp [List.drop_append_of_le_length (Nat.le_of_lt hc)]
      · have hlen : n - c.length ≤ source.flatten.length := by
          rw [List.flatten_cons, List.length_append] at h
          omega
        obtain ⟨source', hr, he⟩ := ih (n - c.length) (buf ++ c) hlen
        refine ⟨source', ?_, ?_⟩
        · simp [transferExactly, hn, hc, hr, List.take_append, List.take_of_length_le (Nat.not_lt.mp hc)]
        · simp [he, List.drop_append, List.drop_eq_nil_of_le (Nat.not_lt.mp hc)]

theorem transferExactly_none (source : List (List α)) (n : Nat) (buf : List α) (h : source.flatten.length < n) :
    transferExactly source n buf = none := by
  induction source generalizing n buf with
  | nil =>
    have hn : n ≠ 0 := by
      rintro rfl
      simp at h
    simp [transferExactly, hn]
  | cons c source ih =>
    rw [List.flatten_cons, List.length_append] at h
    rw [transferExactly, if_neg (by omega), if_neg (by omega)]
    exact ih _ _ (by omega)

/-- What arrives after a read that completes is left for the next. -/
theorem readUntil_more [DecidableEq α] {d : α} {source source' : List (List α)} {buf buf' : List α} {n : Nat}
    (h : readUntil d source buf = some (n, buf', source')) (more : List (List α)) :
    readUntil d (source ++ more) buf = some (n, buf', source' ++ more) := by
  induction source generalizing buf with
  | nil =>
    by_cases hm : d ∈ buf
    · obtain ⟨rfl, rfl, rfl⟩ : buf.idxOf d + 1 = n ∧ buf = buf' ∧ [] = source' := by
        simpa [readUntil, hm] using h
      cases more <;> simp [readUntil, hm]
    · simp [readUntil, hm] at h
  | cons c source ih =>
    by_cases hm : d ∈ buf
    · obtain ⟨rfl, rfl, rfl⟩ : buf.idxOf d + 1 = n ∧ buf = buf' ∧ c :: source = source' := by
        simpa [readUntil, hm] using h
      simp [readUntil, hm]
    · rw [readUntil, if_neg hm] at h
      rw [List.cons_append, readUntil, if_neg hm]
      exact ih h

theorem transferExactly_more {source source' : List (List α)} {n : Nat} {buf buf' : List α}
    (h : transferExactly source n buf = some (buf', source')) (more : List (List α)) :
    transferExactly (source ++ more) n buf = some (buf', source' ++ more) := by
  induction source generalizing n buf with
  | nil =>
    by_cases hn : n = 0
    · obtain ⟨rfl, rfl⟩ : buf = buf' ∧ [] = source' := by simpa [transferExactly, hn] using h
      cases more <;> simp [transferExactly, hn]
    · simp [transferExactly, hn] at h
  | cons c source ih =>
    by_cases hn : n = 0
    · obtain ⟨rfl, rfl⟩ : buf = buf' ∧ c :: source = source' := by simpa [transferExactly, hn] using h
      simp [transferExactly, hn]
    · by_cases hc : n < c.length
      · obtain ⟨rfl, rfl⟩ : buf ++ c.take n = buf' ∧ c.drop n :: source = source' := by
          simpa [transferExactly, hn, hc] using h
        simp [transferExactly, hn, hc]
      · rw [transferExactly, if_neg hn, if_neg hc] at h
        rw [List.cons_append, transferExactly, if_neg hn, if_neg hc]
        exact ih h

/-- Reading moves elements from the source to the buffer and nothing else. -/
theorem readUntil_ahead [DecidableEq α] {d : α} {source source' : List (List α)} {buf buf' : List α} {n : Nat}
    (h : readUntil d source buf = some (n, buf', source')) :
    buf' ++ source'.flatten = buf ++ source.flatten ∧ 0 < n ∧ n ≤ buf'.length := by
  have here {b : List α} (hm : d ∈ b) : 0 < b.idxOf d + 1 ∧ b.idxOf d + 1 ≤ b.length :=
    ⟨Nat.succ_pos _, List.idxOf_lt_length_of_mem hm⟩
  induction source generalizing buf with
  | nil =>
    by_cases hm : d ∈ buf
    · obtain ⟨rfl, rfl, rfl⟩ : buf.idxOf d + 1 = n ∧ buf = buf' ∧ [] = source' := by
        simpa [readUntil, hm] using h
      exact ⟨rfl, here hm⟩
    · simp [readUntil, hm] at h
  | cons c source ih =>
    by_cases hm : d ∈ buf
    · obtain ⟨rfl, rfl, rfl⟩ : buf.idxOf d + 1 = n ∧ buf = buf' ∧ c :: source = source' := by
        simpa [readUntil, hm] using h
      exact ⟨rfl, here hm⟩
    · rw [readUntil, if_neg hm] at h
      obtain ⟨he, hn⟩ := ih h
      exact ⟨by simpa [List.append_assoc] using he, hn⟩

theorem transferExactly_ahead {source source' : List (List α)} {n : Nat} {buf buf' : List α}
    (h : transferExactly source n buf = some (buf', source')) :
    buf' ++ source'.flatten = buf ++ source.flatten ∧ buf'.length = buf.length + n := by
  induction source generalizing n buf with
  | nil =>
    by_cases hn : n = 0
    · obtain ⟨rfl, rfl⟩ : buf = buf' ∧ [] = source' := by simpa [transferExactly, hn] using h
      exact ⟨rfl, by omega⟩
    · simp [transferExactly, hn] at h
  | cons c source ih =>
    by_cases hn : n = 0
    · obtain ⟨rfl, rfl⟩ : buf = buf' ∧ c :: source = source' := by simpa [transferExactly, hn] using h
      exact ⟨rfl, by omega⟩
    · by_cases hc : n < c.length
      · obtain ⟨rfl, rfl⟩ : buf ++ c.take n = buf' ∧ c.drop n :: source = source' := by
          simpa [transferExactly, hn, hc] using h
        refine ⟨?_, ?_⟩
        · simp only [List.flatten_cons, List.append_assoc]
          rw [← List.append_assoc (c.take n), List.take_append_drop]
        · simp only [List.length_append, List.length_take]
          omega
      · rw [transferExactly, if_neg hn, if_neg hc] at h
        obtain ⟨he, hl⟩ := ih h
        rw [List.length_append] at hl
        exact ⟨by simpa [List.append_assoc] using he, by omega⟩

end Lib.Chunks
