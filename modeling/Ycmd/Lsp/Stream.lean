import Ycmd.Lsp.RoundTrip

/-! `read_message` on the text of a stream alone, any text: the chunks it comes in make no difference to
what is read, only to when. -/
namespace Ycmd.Lsp
open Lib Chunks Relation

/-- A reader whose pipe and buffer are one text. -/
structure TextReader where
  phase : Phase
  ahead : Bytes
  handed : List Bytes
  yielded : List Json

def Reader.onText (r : Reader) : TextReader := ⟨r.phase, r.ahead, r.handed, r.yielded⟩

/-- An exception has left the coroutine. -/
def Reader.failed (r : Reader) : Bool :=
  match r.phase with
  | .failed _ => true
  | _ => false

/-- The reader with more chunks in the pipe. -/
def receive (r : Reader) (chunks : List Bytes) : Reader := { r with source := r.source ++ chunks }

variable (parse : Bytes → Decode Json)

/-- The line up to the first '\n', or as many bytes as were announced. `none` where the text is too short. -/
def textStep (t : TextReader) : Option TextReader :=
  match t.phase with
  | .header contentLength =>
    if LF ∈ t.ahead then
      let line := t.ahead.take (t.ahead.idxOf LF)
      let rest := t.ahead.drop (t.ahead.idxOf LF + 1)
      match headerLine (stripCR line) contentLength with
      | .next n => some { t with phase := .header n, ahead := rest }
      | .leave n => some { t with phase := afterHeaders n, ahead := rest }
    else none
  | .body contentLength =>
    if contentLength ≤ t.ahead.length then
      let message := t.ahead.take contentLength
      let t := { t with ahead := t.ahead.drop contentLength, handed := t.handed ++ [message] }
      match parse message with
      | .ok j => some { t with phase := .header 0, yielded := t.yielded ++ [j] }
      | .error e => some { t with phase := .failed e }
    else none
  | .failed _ => none

private theorem header_onText {r : Reader} {n : Nat} (hphase : r.phase = .header n) :
    (readStep parse r).map Reader.onText = textStep parse r.onText := by
  by_cases hmem : LF ∈ r.ahead
  · obtain ⟨line, rest, hahead, hline⟩ := List.eq_append_cons_of_mem hmem
    have hidx : r.ahead.idxOf LF = line.length := by
      rw [hahead, List.idxOf_append_of_notMem hline, List.idxOf_cons_self, Nat.add_zero]
    have htext : r.ahead.take line.length = line := by rw [hahead, List.take_left]
    have hrest : r.ahead.drop (line.length + 1) = rest := by rw [hahead]; simp [List.drop_append]
    obtain ⟨buf, source, hread, he, hlen⟩ := readUntil_line hline r.source r.buf hahead
    have hbuf : buf.take line.length = line := by
      rw [← List.take_append_of_le_length hlen.le, he, List.take_left]
    have hafter : buf.drop (line.length + 1) ++ source.flatten = rest := by
      rw [← List.drop_append_of_le_length hlen, he]
      simp [List.drop_append]
    simp only [readStep, textStep, hphase, hread, Reader.onText, hmem, hidx, htext, hrest, Nat.add_sub_cancel, hbuf,
      if_true]
    cases headerLine (stripCR line) n with
    | _ m =>
      rw [← hafter]
      rfl
  · simp only [readStep, textStep, hphase, readUntil_none r.source r.buf hmem, Reader.onText, hmem, if_false,
      Option.map_none]

private theorem body_onText {r : Reader} {n : Nat} (hphase : r.phase = .body n) :
    (readStep parse r).map Reader.onText = textStep parse r.onText := by
  have hlength : r.ahead.length = r.buf.length + r.source.flatten.length := List.length_append
  by_cases henough : n ≤ r.ahead.length
  · obtain ⟨source, hread, -⟩ := transferExactly_spec r.source (n - r.buf.length) r.buf (by omega)
    obtain ⟨he, hlen⟩ := transferExactly_ahead hread
    generalize r.buf ++ r.source.flatten.take (n - r.buf.length) = buf at hread he hlen
    have hle : n ≤ buf.length := by omega
    have hbody : r.ahead.take n = buf.take n := by
      rw [Reader.ahead, ← he, List.take_append_of_le_length hle]
    have hrest : r.ahead.drop n = buf.drop n ++ source.flatten := by
      rw [Reader.ahead, ← he, List.drop_append_of_le_length hle]
    simp only [readStep, textStep, hphase, hread, Reader.onText, henough, hbody, hrest, if_true]
    cases parse (buf.take n) with
    | _ j => rfl
  · have hread := transferExactly_none r.source (n - r.buf.length) r.buf (by omega)
    simp only [readStep, textStep, hphase, hread, Reader.onText, henough, if_false, Option.map_none]

/-- The reader on chunks refines the reader on text. -/
theorem readStep_onText (r : Reader) : (readStep parse r).map Reader.onText = textStep parse r.onText := by
  cases hphase : r.phase with
  | header n => exact header_onText parse hphase
  | body n => exact body_onText parse hphase
  | failed e => simp [readStep, textStep, hphase, Reader.onText]

variable {parse} {r r' s : Reader}

/-- What one read does. -/
theorem readStep_cases (h : readStep parse r = some r') :
    (∀ e, r.phase ≠ .failed e) ∧
    ((r'.handed = r.handed ∧ r'.yielded = r.yielded ∧ ∀ e, r'.phase ≠ .failed e) ∨
      (∃ message j, parse message = .ok j ∧ r'.handed = r.handed ++ [message] ∧ r'.yielded = r.yielded ++ [j] ∧
        ∀ e, r'.phase ≠ .failed e) ∨
      (∃ message e, parse message = .error e ∧ r'.handed = r.handed ++ [message] ∧ r'.yielded = r.yielded ∧
        r'.phase = .failed e)) := by
  unfold readStep at h
  split at h
  · next n hphase =>
    refine ⟨by simp [hphase], .inl ?_⟩
    split at h
    · cases h
    · next bytesRead buf source _ =>
      cases hline : headerLine (stripCR (buf.take (bytesRead-1))) n with
      | next m =>
        simp only [hline] at h
        obtain rfl := Option.some.inj h
        exact ⟨rfl, rfl, nofun⟩
      | leave m =>
        simp only [hline] at h
        obtain rfl := Option.some.inj h
        refine ⟨rfl, rfl, fun e he => ?_⟩
        change afterHeaders m = .failed e at he
        unfold afterHeaders at he
        split at he <;> cases he
  · next n hphase =>
    refine ⟨by simp [hphase], .inr ?_⟩
    split at h
    · cases h
    · next buf source _ =>
      cases hparse : parse (buf.take n) with
      | ok j =>
        simp only [hparse] at h
        obtain rfl := Option.some.inj h
        exact .inl ⟨_, j, hparse, rfl, rfl, nofun⟩
      | error e =>
        simp only [hparse] at h
        obtain rfl := Option.some.inj h
        exact .inr ⟨_, e, hparse, rfl, rfl, rfl⟩
  · cases h

/-- A read that completes does the same when more has arrived behind what it reads. -/
theorem readStep_receive (h : readStep parse r = some r') (chunks : List Bytes) :
    readStep parse (receive r chunks) = some (receive r' chunks) := by
  unfold readStep at h
  split at h
  · next n hphase =>
    split at h
    · cases h
    · next bytesRead buf source hread =>
      have hmore : readUntil LF (receive r chunks).source (receive r chunks).buf = some (bytesRead, buf, source ++ chunks) :=
        readUntil_more hread chunks
      have hphase' : (receive r chunks).phase = .header n := hphase
      cases hline : headerLine (stripCR (buf.take (bytesRead-1))) n with
      | _ m =>
        simp only [hline] at h
        obtain rfl := Option.some.inj h
        simp only [readStep, hphase', hmore, hline]
        rfl
  · next n hphase =>
    split at h
    · cases h
    · next buf source hread =>
      have hmore : transferExactly (receive r chunks).source (n - (receive r chunks).buf.length) (receive r chunks).buf =
          some (buf, source ++ chunks) := transferExactly_more hread chunks
      have hphase' : (receive r chunks).phase = .body n := hphase
      cases hparse : parse (buf.take n) with
      | _ j =>
        simp only [hparse] at h
        obtain rfl := Option.some.inj h
        simp only [readStep, hphase', hmore, hparse]
        rfl
  · cases h

theorem steps_receive (h : Steps parse r r') (chunks : List Bytes) :
    Steps parse (receive r chunks) (receive r' chunks) := by
  induction h with
  | refl => exact .refl
  | tail _ hstep ih => exact ih.tail (readStep_receive hstep chunks)

/-- What the parser has made of the bodies handed to it. -/
def outcomes (r : Reader) : List (Decode Json) :=
  r.yielded.map .ok ++ match r.phase with
    | .failed e => [.error e]
    | _ => []

theorem outcomes_of_not_failed (h : ∀ e, r.phase ≠ .failed e) : outcomes r = r.yielded.map .ok := by
  unfold outcomes
  split
  · next e he => exact absurd he (h e)
  · exact List.append_nil _

theorem outcomes_step (h : readStep parse r = some r') (hr : r.handed.map parse = outcomes r) :
    r'.handed.map parse = outcomes r' ∧ r.handed <+: r'.handed ∧ r.yielded <+: r'.yielded := by
  obtain ⟨hbefore, ⟨hhanded, hyielded, hphase⟩ | ⟨message, j, hparse, hhanded, hyielded, hphase⟩ |
    ⟨message, e, hparse, hhanded, hyielded, hphase⟩⟩ := readStep_cases h
  · rw [outcomes_of_not_failed hbefore] at hr
    rw [outcomes_of_not_failed hphase, hhanded, hyielded]
    exact ⟨hr, List.prefix_rfl, List.prefix_rfl⟩
  · rw [outcomes_of_not_failed hbefore] at hr
    rw [outcomes_of_not_failed hphase, hhanded, hyielded, List.map_append, List.map_append, hr, List.map_singleton,
      hparse]
    exact ⟨rfl, List.prefix_append _ _, List.prefix_append _ _⟩
  · rw [outcomes_of_not_failed hbefore] at hr
    rw [hhanded, List.map_append, hr, List.map_singleton, hparse, outcomes, hyielded, hphase]
    exact ⟨rfl, List.prefix_append _ _, List.prefix_rfl⟩

theorem outcomes_steps (h : Steps parse r r') (hr : r.handed.map parse = outcomes r) :
    r'.handed.map parse = outcomes r' ∧ r.handed <+: r'.handed ∧ r.yielded <+: r'.yielded := by
  induction h with
  | refl => exact ⟨hr, List.prefix_rfl, List.prefix_rfl⟩
  | tail _ hstep ih =>
    obtain ⟨houtcomes, hhanded, hyielded⟩ := outcomes_step hstep ih.1
    exact ⟨houtcomes, ih.2.1.trans hhanded, ih.2.2.trans hyielded⟩

/-- Where every body is one that the parser accepts, each has been yielded. -/
theorem yielded_of_accepted (hr : r.handed.map parse = outcomes r) (h : ∀ b ∈ r.handed, (parse b).isOk) :
    (∀ e, r.phase ≠ .failed e) ∧ r.handed.map parse = r.yielded.map .ok := by
  have hphase : ∀ e, r.phase ≠ .failed e := by
    intro e he
    have hmem : Except.error e ∈ r.handed.map parse := by
      rw [hr, outcomes, he]
      exact List.mem_append_right _ List.mem_cons_self
    obtain ⟨b, hb, hparse⟩ := List.mem_map.mp hmem
    have hok := h b hb
    rw [hparse] at hok
    cases hok
  exact ⟨hphase, hr.trans (outcomes_of_not_failed hphase)⟩

theorem failed_eq_false (h : ∀ e, r.phase ≠ .failed e) : r.failed = false := by
  unfold Reader.failed
  split
  · next e he => exact absurd he (h e)
  · rfl

theorem readStep_unique {a b c : Reader} (hb : readStep parse a = some b) (hc : readStep parse a = some c) : b = c :=
  Option.some.inj (hb.symm.trans hc)

/-- A reader that waits is where all others lead. -/
theorem steps_to_waiting {a t : Reader} (ha : Steps parse r a) (ht : Steps parse r t) (hw : readStep parse t = none) :
    Steps parse a t := by
  have hunique : Relator.RightUnique (fun r r' : Reader => readStep parse r = some r') := by
    intro a b c hb hc
    exact readStep_unique hb hc
  rcases ReflTransGen.total_of_right_unique hunique ha ht with h | h
  · exact h
  · rcases ReflTransGen.cases_head h with rfl | ⟨u, hu, -⟩
    · exact .refl
    · rw [hw] at hu
      cases hu

/-- A reader with the same text in any other chunks can follow. -/
theorem steps_of_onText (h : Steps parse r r') (hsame : s.onText = r.onText) :
    ∃ s', Steps parse s s' ∧ s'.onText = r'.onText := by
  induction h with
  | refl => exact ⟨s, .refl, hsame⟩
  | tail _ hstep ih =>
    obtain ⟨s₁, hs₁, heq⟩ := ih
    have hmap := readStep_onText parse s₁
    rw [heq, ← readStep_onText, hstep] at hmap
    obtain ⟨s₂, hs₂, heq₂⟩ := Option.map_eq_some_iff.mp hmap
    exact ⟨s₂, hs₁.tail hs₂, heq₂⟩

theorem waits_of_onText (hsame : s.onText = r.onText) (h : readStep parse r = none) : readStep parse s = none := by
  have hmap := readStep_onText parse s
  rwa [hsame, ← readStep_onText, h, Option.map_none, Option.map_eq_none_iff] at hmap

theorem settle_steps (fuel : Nat) : Steps parse r (settle parse fuel r) := by
  induction fuel generalizing r with
  | zero => exact .refl
  | succ fuel ih =>
    rw [settle]
    cases hstep : readStep parse r with
    | none => exact .refl
    | some r' => exact .head hstep ih

theorem settle_waits {fuel : Nat} (hpos : r.Positive) (hfuel : r.ahead.length < fuel) :
    readStep parse (settle parse fuel r) = none := by
  induction fuel generalizing r with
  | zero => omega
  | succ fuel ih =>
    rw [settle]
    cases hstep : readStep parse r with
    | none => exact hstep
    | some r' =>
      obtain ⟨hpos', hless⟩ := readStep_consumes parse hpos hstep
      exact ih hpos' (by omega)

/-- Reading a text to its end, in whatever chunks it comes. -/
theorem readMessage_settled (parse : Bytes → Decode Json) (source : List Bytes) :
    Steps parse { source := source } (readMessage parse source) ∧ readStep parse (readMessage parse source) = none :=
  ⟨settle_steps _, settle_waits nofun (by simp [Reader.ahead])⟩

/-- Having read part of a stream, the reader of all of it is on the way to where it waits or ends. -/
theorem steps_prefix {chunks whole : List Bytes} (h : chunks.flatten <+: whole.flatten)
    (hr : Steps parse { source := chunks } r) :
    ∃ s, Steps parse { source := whole } s ∧ s.handed = r.handed ∧ s.yielded = r.yielded ∧
      Steps parse s (readMessage parse whole) := by
  obtain ⟨rest, hrest⟩ := h
  obtain ⟨s, hs, hsame⟩ := steps_of_onText (s := { source := whole }) (steps_receive hr [rest])
    (by simp [Reader.onText, Reader.ahead, receive, ← hrest])
  obtain ⟨hwhole, hwaits⟩ := readMessage_settled parse whole
  exact ⟨s, hs, congrArg TextReader.handed hsame, congrArg TextReader.yielded hsame, steps_to_waiting hs hwhole hwaits⟩

theorem yielded_prefix {chunks whole : List Bytes} (h : chunks.flatten <+: whole.flatten) :
    (readMessage parse chunks).yielded <+: (readMessage parse whole).yielded := by
  obtain ⟨s, hs, -, hyielded, hrest⟩ := steps_prefix h (readMessage_settled parse chunks).1
  exact hyielded ▸ (outcomes_steps hrest (outcomes_steps hs rfl).1).2.2

/-- Messages written by calls that do not overlap are read as they are, in their order, as they arrive. -/
theorem yielded_of_sent {dump : Json → Bytes} {messages : List Json} {sends : List SendStep} {o : Out}
    (hrun : sender.run {} sends = some o) (halone : ∀ p ∈ sender.steps {} sends, Alone p.1 p.2)
    (hmessages : o.messages = messages.map dump)
    (hdump : ∀ j ∈ messages, parse (dump j) = .ok j ∧ dump j ≠ [] ∧ (dump j).length < 2^64)
    {chunks : List Bytes} (hchunks : chunks.flatten <+: o.stream) :
    (readMessage parse chunks).yielded <+: messages := by
  have hclean : Clean o := sender.states_of_guarded Clean Alone clean_step (.inl ⟨rfl, rfl, rfl⟩) halone o
    (sender.mem_states_of_run hrun)
  have hstream : o.stream <+: o.messages.flatMap frame := by
    obtain ⟨-, -, hstream⟩ | ⟨w, data, -, -, -, hstream⟩ := hclean
    · exact hstream ▸ List.prefix_rfl
    · exact ⟨w.rest, hstream⟩
  have hsent : ∀ m ∈ o.messages, m ≠ [] ∧ m.length < 2^64 := by
    intro m hm
    obtain ⟨j, hj, rfl⟩ := List.mem_map.mp (hmessages ▸ hm)
    exact (hdump j hj).2
  obtain ⟨items, hbytes, hbodies⟩ := sent_items hsent
  -- had all of it been written, all of it would be read
  have hall : (readMessage parse [items.flatMap Item.bytes]).yielded = messages := by
    obtain ⟨-, hhanded⟩ := readMessage_items parse items [items.flatMap Item.bytes] (by simp)
    have haccepts : ∀ b ∈ o.messages, (parse b).isOk := by
      intro b hb
      obtain ⟨j, hj, rfl⟩ := List.mem_map.mp (hmessages ▸ hb)
      rw [(hdump j hj).1]
      rfl
    rw [hbodies, untilRejected_eq parse (fun b hb => haccepts b (List.dropLast_subset _ hb))] at hhanded
    obtain ⟨-, hyielded⟩ := yielded_of_accepted (outcomes_steps (readMessage_settled parse _).1 rfl).1
      (fun b hb => haccepts b (hhanded ▸ hb))
    have hparse : (messages.map dump).map parse = messages.map .ok := by
      rw [List.map_map]
      exact List.map_congr_left fun j hj => (hdump j hj).1
    rw [hhanded, hmessages, hparse] at hyielded
    exact (List.map_injective_iff.mpr (fun _ _ => Except.ok.inj) hyielded).symm
  rw [← hall]
  apply yielded_prefix
  rw [List.flatten_singleton, hbytes]
  exact hchunks.trans hstream

end Ycmd.Lsp
