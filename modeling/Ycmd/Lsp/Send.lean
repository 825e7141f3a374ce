import Ycmd.Lib.Machine
import Ycmd.Lib.Bytes
import Mathlib.Algebra.BigOperators.Group.List.Basic

/-! `lsp::send_message` as seen by the pipe. Every call appends its frame to the one stream
buffer the function owns, then starts an `async_write` of that buffer. -/
namespace Ycmd.Lsp
open Lib

/-- The bytes one call formats for a message that dumps to `data`. -/
def frame (data : Bytes) : Bytes :=
  ascii "Content-Length: " ++ decimal data.length ++ [CR, LF, CR, LF] ++ data

/-- An `async_write` in progress: the readable bytes it was started with, and those still to go. -/
structure Write where
  readable : Bytes
  rest : Bytes
  deriving DecidableEq

/-- The static buffer, the writes in progress, what the pipe has received, and the messages that
calls have been made for. -/
structure Out where
  buf : Bytes := []
  writes : List Write := []
  stream : Bytes := []
  messages : List Bytes := []
  deriving DecidableEq

inductive SendStep where
  | sendMessage (data : Bytes)
  | transfer (i n : Nat)
  | complete (i : Nat)
  deriving DecidableEq

/-- A call runs up to its `co_await`; a write in progress moves any positive number of its bytes
at a time and consumes what it was started with when it completes. -/
def sendStep (o : Out) : SendStep → Option Out
  | .sendMessage data =>
    let readable := o.buf ++ frame data
    some { o with
      buf := readable
      writes := o.writes ++ [⟨readable, readable⟩]
      messages := o.messages ++ [data] }
  | .transfer i n => match o.writes[i]? with
    | some w =>
      if 0 < n ∧ n ≤ w.rest.length then
        some { o with
          stream := o.stream ++ w.rest.take n
          writes := o.writes.set i { w with rest := w.rest.drop n } }
      else none
    | none => none
  | .complete i => match o.writes[i]? with
    | some w =>
      if w.rest = [] then
        some { o with
          buf := o.buf.drop w.readable.length
          writes := o.writes.eraseIdx i }
      else none
    | none => none

def sender : Machine Out SendStep := ⟨sendStep⟩

/-- No other write is in progress when a call starts. -/
def Alone (o : Out) : SendStep → Prop
  | .sendMessage _ => o.writes = []
  | _ => True

/-- The pipe has received some order of whole frames, one for each message. -/
def Exact (o : Out) : Prop :=
  ∃ order : List Bytes, order.Perm o.messages ∧ o.stream = order.flatMap frame

/-- The same of a stream whose last frame may still be on its way. -/
def Framed (o : Out) : Prop :=
  ∃ order : List Bytes, order.Perm o.messages ∧ o.stream <+: order.flatMap frame

/-- Bytes received or promised by the writes in progress. -/
def total (o : Out) : Nat := o.stream.length + (o.writes.map (fun w => w.rest.length)).sum

def owed (o : Out) : Nat := (o.messages.map (fun data => (frame data).length)).sum

/-- The state between and during calls that do not overlap. -/
def Clean (o : Out) : Prop :=
  (o.writes = [] ∧ o.buf = [] ∧ o.stream = o.messages.flatMap frame) ∨
  ∃ w data, o.writes = [w] ∧ w.readable = frame data ∧ o.buf = frame data ∧
    o.stream ++ w.rest = o.messages.flatMap frame

theorem frame_length (data : Bytes) : 0 < (frame data).length := by
  simp [frame]

theorem owed_eq (o : Out) : owed o = (o.messages.flatMap frame).length := by
  rw [owed, List.length_flatMap]

private theorem sum_set {l : List Write} {i : Nat} {w : Write} (h : l[i]? = some w) (w' : Write) :
    ((l.set i w').map (fun w => w.rest.length)).sum + w.rest.length =
      (l.map (fun w => w.rest.length)).sum + w'.rest.length := by
  induction l generalizing i with
  | nil => simp at h
  | cons x l ih =>
    cases i with
    | zero =>
      obtain rfl : x = w := by simpa using h
      simp only [List.set_cons_zero, List.map_cons, List.sum_cons]
      omega
    | succ i =>
      have := ih (i := i) (by simpa using h)
      simp only [List.set_cons_succ, List.map_cons, List.sum_cons]
      omega

private theorem sum_eraseIdx {l : List Write} {i : Nat} {w : Write} (h : l[i]? = some w) :
    ((l.eraseIdx i).map (fun w => w.rest.length)).sum + w.rest.length =
      (l.map (fun w => w.rest.length)).sum := by
  induction l generalizing i with
  | nil => simp at h
  | cons x l ih =>
    cases i with
    | zero =>
      obtain rfl : x = w := by simpa using h
      simp only [List.eraseIdx_cons_zero, List.map_cons, List.sum_cons]
      omega
    | succ i =>
      have := ih (i := i) (by simpa using h)
      simp only [List.eraseIdx_cons_succ, List.map_cons, List.sum_cons]
      omega

/-- What each step is and what it leaves behind. -/
theorem sendStep_cases {o o' : Out} {a : SendStep} (h : sendStep o a = some o') :
    (∃ data, a = .sendMessage data ∧ o' = { o with
      buf := o.buf ++ frame data
      writes := o.writes ++ [⟨o.buf ++ frame data, o.buf ++ frame data⟩]
      messages := o.messages ++ [data] }) ∨
    (∃ i n w, a = .transfer i n ∧ o.writes[i]? = some w ∧ n ≤ w.rest.length ∧ o' = { o with
      stream := o.stream ++ w.rest.take n
      writes := o.writes.set i { w with rest := w.rest.drop n } }) ∨
    (∃ i w, a = .complete i ∧ o.writes[i]? = some w ∧ w.rest = [] ∧ o' = { o with
      buf := o.buf.drop w.readable.length
      writes := o.writes.eraseIdx i }) := by
  cases a with
  | sendMessage data => exact .inl ⟨data, rfl, by simpa [sendStep] using h.symm⟩
  | transfer i n =>
    cases hw : o.writes[i]? with
    | none => simp [sendStep, hw] at h
    | some w =>
      simp only [sendStep, hw] at h
      split at h
      · next hn => exact .inr (.inl ⟨i, n, w, rfl, hw, hn.2, by simpa using h.symm⟩)
      · cases h
  | complete i =>
    cases hw : o.writes[i]? with
    | none => simp [sendStep, hw] at h
    | some w =>
      simp only [sendStep, hw] at h
      split at h
      · next hr => exact .inr (.inr ⟨i, w, rfl, hw, hr, by simpa using h.symm⟩)
      · cases h

/-- Calls write at least their frame: the surplus is what the buffer still held. -/
theorem surplus_step {o o' : Out} {a : SendStep} (h : sendStep o a = some o') :
    total o + owed o' ≤ total o' + owed o := by
  obtain ⟨data, -, rfl⟩ | ⟨i, n, w, -, hw, hn, rfl⟩ | ⟨i, w, -, hw, hr, rfl⟩ := sendStep_cases h
  · simp [total, owed]
    omega
  · have := sum_set hw { w with rest := w.rest.drop n }
    simp only [List.length_drop] at this
    simp only [total, owed, List.length_append, List.length_take]
    omega
  · have := sum_eraseIdx hw
    simp only [hr, List.length_nil, Nat.add_zero] at this
    simp only [total, owed, this]
    omega

theorem surplus_run {o t : Out} {steps : List SendStep} (h : sender.run o steps = some t) :
    total o + owed t ≤ total t + owed o := by
  induction steps generalizing o with
  | nil =>
    obtain rfl : o = t := by simpa using h
    omega
  | cons a steps ih =>
    cases hs : sender.step o a with
    | none => simp [Machine.run, hs] at h
    | some o' =>
      rw [sender.run_cons hs] at h
      have h1 := surplus_step hs
      have h2 := ih h
      omega

/-- The step lemma of calls that do not overlap. -/
theorem clean_step (o : Out) (a : SendStep) (o' : Out) (hc : Clean o) (hok : Alone o a)
    (h : sender.step o a = some o') : Clean o' := by
  obtain ⟨data, rfl, rfl⟩ | ⟨i, n, w, rfl, hw, hn, rfl⟩ | ⟨i, w, rfl, hw, hr, rfl⟩ := sendStep_cases h
  · -- the guard leaves only the idle state, whose buffer is empty
    rcases hc with ⟨hw, hb, hs⟩ | ⟨w, d, hw, -⟩
    · exact .inr ⟨⟨frame data, frame data⟩, data, by simp [hw, hb], rfl, by simp [hb], by simp [hs]⟩
    · simp [Alone, hw] at hok
  · rcases hc with ⟨hw', -⟩ | ⟨w', d, hw', hd, hb, hs⟩
    · simp [hw'] at hw
    · cases i with
      | succ i => simp [hw'] at hw
      | zero =>
        obtain rfl : w' = w := by simpa [hw'] using hw
        refine .inr ⟨{ w' with rest := w'.rest.drop n }, d, by simp [hw'], hd, hb, ?_⟩
        simp only [List.append_assoc, List.take_append_drop, hs]
  · rcases hc with ⟨hw', -⟩ | ⟨w', d, hw', hd, hb, hs⟩
    · simp [hw'] at hw
    · cases i with
      | succ i => simp [hw'] at hw
      | zero =>
        obtain rfl : w' = w := by simpa [hw'] using hw
        exact .inl ⟨by simp [hw'], by simp [hb, hd], by simpa [hr] using hs⟩

theorem Clean.total_eq {o : Out} (hc : Clean o) : total o = owed o := by
  rw [owed_eq]
  rcases hc with ⟨hw, -, hs⟩ | ⟨w, d, hw, -, -, hs⟩
  · simp [total, hw, hs]
  · simp [total, hw, ← hs]

theorem Clean.framed {o : Out} (hc : Clean o) : Framed o := by
  refine ⟨o.messages, .refl _, ?_⟩
  rcases hc with ⟨-, -, hs⟩ | ⟨w, d, -, -, -, hs⟩
  · exact hs ▸ List.prefix_refl _
  · exact hs ▸ List.prefix_append _ _

theorem Clean.stream {o : Out} (hc : Clean o) (hw : o.writes = []) : o.stream = o.messages.flatMap frame := by
  rcases hc with ⟨-, -, hs⟩ | ⟨w, d, hw', -⟩
  · exact hs
  · simp [hw] at hw'

theorem Clean.exact {o : Out} (hc : Clean o) (hw : o.writes = []) : Exact o :=
  ⟨o.messages, .refl _, hc.stream hw⟩

/-- One overlapping call puts more bytes on the pipe than its messages amount to. -/
theorem surplus_of_overlap {o t : Out} {steps : List SendStep} (hc : Clean o)
    (h : sender.run o steps = some t) (hov : ¬ ∀ p ∈ sender.steps o steps, Alone p.1 p.2) :
    owed t < total t := by
  induction steps generalizing o with
  | nil => simp at hov
  | cons a steps ih =>
    cases hs : sender.step o a with
    | none => simp [Machine.run, hs] at h
    | some o' =>
      rw [sender.run_cons hs] at h
      rw [sender.steps_cons hs] at hov
      by_cases hok : Alone o a
      · exact ih (clean_step o a o' hc hok hs) h (by simpa [hok] using hov)
      · have hrun := surplus_run h
        have heq := hc.total_eq
        suffices hstep : total o + owed o' < total o' + owed o by omega
        obtain ⟨data, rfl, rfl⟩ | ⟨_, _, _, rfl, -⟩ | ⟨_, _, rfl, -⟩ := sendStep_cases hs
        · rcases hc with ⟨hw, -⟩ | ⟨w, d, hw, -, hb, -⟩
          · exact absurd hw hok
          · have := frame_length d
            simp [total, owed, hb]
            omega
        · exact absurd trivial hok
        · exact absurd trivial hok

theorem Exact.stream_length {o : Out} (he : Exact o) : o.stream.length = owed o := by
  obtain ⟨order, hp, hs⟩ := he
  rw [hs, List.length_flatMap, owed]
  exact (hp.map _).sum_eq

/-- Calls that never overlap deliver every message in one whole frame, and they are the only
ones that do: after any complete schedule the pipe holds each frame once exactly when no call
started while the write of another was in progress. -/
theorem send_message_frames (schedule : List SendStep) :
    ((∀ p ∈ sender.steps {} schedule, Alone p.1 p.2) →
      ∀ o ∈ sender.states {} schedule, Framed o ∧ (o.writes = [] → Exact o)) ∧
    ∀ o, sender.run {} schedule = some o → o.writes = [] →
      (Exact o ↔ ∀ p ∈ sender.steps {} schedule, Alone p.1 p.2) := by
  have h0 : Clean {} := .inl ⟨rfl, rfl, rfl⟩
  have hclean (hok : ∀ p ∈ sender.steps {} schedule, Alone p.1 p.2) :=
    sender.states_of_guarded Clean Alone clean_step h0 hok
  refine ⟨fun hok o ho => ⟨(hclean hok o ho).framed, (hclean hok o ho).exact⟩, ?_⟩
  intro o ho hw
  constructor
  · intro he
    by_contra hov
    have h1 := surplus_of_overlap h0 ho hov
    have h2 := he.stream_length
    simp [total, hw] at h1
    omega
  · intro hok
    exact (hclean hok o (sender.mem_states_of_run ho)).exact hw

/-- Two messages; the second call starts before a byte of the first is written. -/
def overlapping : List SendStep :=
  [.sendMessage (ascii "1"), .sendMessage (ascii "2"), .transfer 0 22, .transfer 1 44, .complete 0, .complete 0]

/-- The first frame then arrives twice: the second write was started with both. -/
theorem overlapping_sends_duplicate : ∃ o, sender.run {} overlapping = some o ∧ o.writes = [] ∧
    o.stream = frame (ascii "1") ++ frame (ascii "1") ++ frame (ascii "2") ∧ ¬ Exact o := by
  refine ⟨⟨[], [], frame (ascii "1") ++ frame (ascii "1") ++ frame (ascii "2"), [ascii "1", ascii "2"]⟩,
    by decide, rfl, rfl, fun he => ?_⟩
  exact absurd he.stream_length (by decide)

end Ycmd.Lsp
