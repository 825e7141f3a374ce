import Ycmd.Clangd.Pump
import Ycmd.Lsp.Stream

/-! The message pump on clangd's output as it arrives, in chunks of any size and between the calls,
against the pump that is given whole messages. -/
namespace Ycmd.Clangd
open Lib Lsp Chunks Relation

/-- The pump's generator with its pipe, and the queue it shares with the calls. -/
structure Wire where
  reader : Reader := { source := [] }
  rpc : Rpc := {}

inductive WireStep where
  | getResponse (method : String) (payload : Json)
  | arrive (chunk : Bytes)
  | read

variable (parse : Bytes → Decode Json)

/-- `read` is one read of the generator. When that yields, the pump handles the message before it
resumes the generator; when it throws, the pump ends. -/
def wireStep (w : Wire) : WireStep → Option Wire
  | .getResponse method payload => some { w with rpc := getResponse w.rpc method payload }
  | .arrive chunk => some { w with reader := receive w.reader [chunk] }
  | .read =>
    if w.rpc.pumping then
      (readStep parse w.reader).bind fun reader =>
        match reader.phase with
        | .failed _ => some { reader, rpc := { w.rpc with pumping := false } }
        | _ => match reader.yielded.drop w.reader.yielded.length with
          | [] => some { w with reader }
          | message :: _ => (rpcStep w.rpc (.message message)).map (fun rpc => { reader, rpc })
    else none

def wire : Machine Wire WireStep := ⟨wireStep parse⟩

def WireStep.chunk? : WireStep → Option Bytes
  | .arrive chunk => some chunk
  | _ => none

def WireStep.call? : WireStep → Option (String × Json)
  | .getResponse method payload => some (method, payload)
  | _ => none

def RpcStep.call? : RpcStep → Option (String × Json)
  | .getResponse method payload => some (method, payload)
  | _ => none

def RpcStep.message? : RpcStep → Option Json
  | .message j => some j
  | _ => none

variable {parse} {w w' : Wire}

/-- What each step is. -/
theorem wireStep_cases {a : WireStep} (h : wireStep parse w a = some w') :
    (∃ method payload, a = .getResponse method payload ∧ w' = { w with rpc := getResponse w.rpc method payload }) ∨
    (∃ chunk, a = .arrive chunk ∧ w' = { w with reader := receive w.reader [chunk] }) ∨
    (a = .read ∧ w.rpc.pumping = true ∧ readStep parse w.reader = some w'.reader ∧
      ((∃ e, w'.reader.phase = .failed e ∧ w'.reader.yielded = w.reader.yielded ∧
          w'.rpc = { w.rpc with pumping := false }) ∨
        (∀ e, w'.reader.phase ≠ .failed e) ∧ w'.reader.yielded = w.reader.yielded ∧ w'.rpc = w.rpc ∨
        ∃ message, (∀ e, w'.reader.phase ≠ .failed e) ∧ w'.reader.yielded = w.reader.yielded ++ [message] ∧
          rpcStep w.rpc (.message message) = some w'.rpc)) := by
  cases a with
  | getResponse method payload => exact .inl ⟨method, payload, rfl, (Option.some.inj h).symm⟩
  | arrive chunk => exact .inr (.inl ⟨chunk, rfl, (Option.some.inj h).symm⟩)
  | read =>
    refine .inr (.inr ⟨rfl, ?_⟩)
    simp only [wireStep] at h
    split at h
    · next hpumping =>
      obtain ⟨reader, hread, h⟩ := Option.bind_eq_some_iff.mp h
      obtain ⟨-, ⟨-, hyielded, hphase⟩ | ⟨-, message, -, -, hyielded, hphase⟩ | ⟨-, e, -, -, hyielded, hphase⟩⟩ :=
        readStep_cases hread
      · have hdrop : reader.yielded.drop w.reader.yielded.length = [] := by rw [hyielded, List.drop_length]
        simp only [hdrop] at h
        obtain rfl := Option.some.inj h
        exact ⟨hpumping, hread, .inr (.inl ⟨hphase, hyielded, rfl⟩)⟩
      · have hdrop : reader.yielded.drop w.reader.yielded.length = [message] := by rw [hyielded, List.drop_left]
        simp only [hdrop] at h
        obtain ⟨rpc, hrpc, rfl⟩ := Option.map_eq_some_iff.mp h
        exact ⟨hpumping, hread, .inr (.inr ⟨message, hphase, hyielded, hrpc⟩)⟩
      · simp only [hphase] at h
        obtain rfl := Option.some.inj h
        exact ⟨hpumping, hread, .inl ⟨e, hphase, hyielded, rfl⟩⟩
    · cases h

/-- The reader is where it would be had every chunk been there from the start. -/
theorem steps_of_run {schedule : List WireStep} (h : (wire parse).run w schedule = some w') {arrived : List Bytes}
    (hw : Steps parse { source := arrived } w.reader) :
    Steps parse { source := arrived ++ schedule.filterMap WireStep.chunk? } w'.reader := by
  induction schedule generalizing w arrived with
  | nil =>
    obtain rfl := Option.some.inj h
    simpa using hw
  | cons a schedule ih =>
    obtain ⟨v, hstep, hrun⟩ := Option.bind_eq_some_iff.mp h
    obtain ⟨method, payload, rfl, rfl⟩ | ⟨chunk, rfl, rfl⟩ | ⟨rfl, -, hread, -⟩ := wireStep_cases hstep
    · exact ih hrun hw
    · have := ih hrun (steps_receive hw [chunk])
      rwa [List.append_assoc] at this
    · exact ih hrun (hw.tail hread)

/-- The calls made and the messages yielded, in their order, are a run of the pump on messages, which goes on
for as long as the reader has not ended. -/
def Follows (schedule : List WireStep) (w : Wire) : Prop :=
  ∃ steps s, rpc.run {} steps = some s ∧ steps.filterMap RpcStep.call? = schedule.filterMap WireStep.call? ∧
    steps.filterMap RpcStep.message? = w.reader.yielded ∧
    w.rpc = { s with pumping := s.pumping && !w.reader.failed }

/-- The run lemma. -/
theorem follows_of_run {schedule : List WireStep} (h : (wire parse).run {} schedule = some w) :
    Follows schedule w := by
  refine (wire parse).run_history (P := Follows) ⟨[], {}, rfl, rfl, rfl, rfl⟩ ?_ h
  rintro schedule v a v' - ⟨steps, s, hrun, hcalls, hmessages, hrpc⟩ hstep
  have then_step {b : RpcStep} {s' : Rpc} (hb : rpcStep s b = some s') : rpc.run {} (steps ++ [b]) = some s' := by
    rw [rpc.run_append, hrun, Option.bind_some]
    exact rpc.run_cons hb []
  rw [Follows, List.filterMap_append, ← hcalls]
  obtain ⟨method, payload, rfl, rfl⟩ | ⟨chunk, rfl, rfl⟩ | ⟨rfl, hpumping, hread, hcases⟩ := wireStep_cases hstep
  · refine ⟨steps ++ [.getResponse method payload], getResponse s method payload, then_step rfl, ?_, ?_, ?_⟩
    · rw [List.filterMap_append]
      rfl
    · rw [List.filterMap_append, hmessages]
      exact List.append_nil _
    · rw [hrpc]
      rfl
  · exact ⟨steps, s, hrun, (List.append_nil _).symm, hmessages, hrpc⟩
  · -- a reader that has been read from had not ended
    have hfailed : v.reader.failed = false := failed_eq_false (readStep_cases hread).1
    have hsame : v.rpc = s := by rw [hrpc, hfailed, Bool.not_false, Bool.and_true]
    obtain ⟨e, hphase, hyielded, hended⟩ | ⟨hphase, hyielded, hkept⟩ | ⟨message, hphase, hyielded, hhandled⟩ := hcases
    · have hfailed' : v'.reader.failed = true := by rw [Reader.failed, hphase]
      refine ⟨steps, s, hrun, (List.append_nil _).symm, hyielded ▸ hmessages, ?_⟩
      rw [hended, hsame, hfailed', Bool.not_true, Bool.and_false]
    · refine ⟨steps, s, hrun, (List.append_nil _).symm, hyielded ▸ hmessages, ?_⟩
      rw [hkept, hsame, failed_eq_false hphase, Bool.not_false, Bool.and_true]
    · refine ⟨steps ++ [.message message], v'.rpc, then_step (hsame ▸ hhandled), ?_, ?_, ?_⟩
      · rw [List.filterMap_append]
        rfl
      · rw [List.filterMap_append, hmessages, hyielded]
        rfl
      · rw [failed_eq_false hphase, Bool.not_false, Bool.and_true]

/-- A pump that goes on and has nothing to do has nothing to read. -/
theorem wire_waits (hpumping : w.rpc.pumping = true) (h : (wire parse).step w .read = none) :
    readStep parse w.reader = none := by
  cases hread : readStep parse w.reader with
  | none => rfl
  | some reader =>
    simp only [wire, wireStep, hpumping, hread, if_true, Option.bind_some] at h
    split at h
    · cases h
    · split at h
      · cases h
      · simp only [rpcStep, hpumping, if_true] at h
        split at h <;> cases h

/-- However clangd's output is cut into chunks and whenever they arrive between the calls, the pump
does what it would do given the messages of the stream in their order: it has handled the first of
them, and all of them once everything has arrived and it waits. -/
theorem pump_refines_messages (parse : Bytes → Decode Json) (items : List Item) {schedule : List WireStep} {w : Wire}
    (h : (wire parse).run {} schedule = some w)
    (harrived : (schedule.filterMap WireStep.chunk?).flatten <+: items.flatMap Item.bytes)
    (hparse : ∀ body ∈ items.flatMap Item.bodies, (parse body).isOk) :
    ∃ messages steps, (items.flatMap Item.bodies).map parse = messages.map .ok ∧ rpc.run {} steps = some w.rpc ∧
      steps.filterMap RpcStep.call? = schedule.filterMap WireStep.call? ∧
      steps.filterMap RpcStep.message? <+: messages ∧
      ((schedule.filterMap WireStep.chunk?).flatten = items.flatMap Item.bytes → w.rpc.pumping = true →
        (wire parse).step w .read = none → steps.filterMap RpcStep.message? = messages) := by
  have hstart : Steps parse { source := [] } ({} : Wire).reader := .refl
  have hsteps : Steps parse { source := schedule.filterMap WireStep.chunk? } w.reader := steps_of_run h hstart
  have hbodies : untilRejected parse (items.flatMap Item.bodies) = items.flatMap Item.bodies :=
    untilRejected_eq parse (fun body hbody => hparse body (List.dropLast_subset _ hbody))
  -- with the rest of the stream in the pipe the reader would come to its end
  obtain ⟨rest, hrest⟩ := harrived
  have hat : Reader.At { source := schedule.filterMap WireStep.chunk? ++ [rest] } (.header 0)
      (items.flatMap Item.bytes) [] := ⟨rfl, by simp [Reader.ahead, hrest], rfl⟩
  obtain ⟨t, ht, hwaiting, hhanded⟩ := items_run parse items hat
  rw [List.nil_append, hbodies] at hhanded
  obtain ⟨ hprefix, hfirst⟩ := (outcomes_steps (steps_to_waiting (steps_receive hsteps [rest]) ht hwaiting)
    (outcomes_steps hsteps rfl).1).2
  obtain ⟨-, hmessages⟩ := yielded_of_accepted (outcomes_steps ht rfl).1 (by rwa [hhanded])
  obtain ⟨hphase, hyielded⟩ := yielded_of_accepted (outcomes_steps hsteps rfl).1
    (fun body hbody => hparse body (hhanded ▸ hprefix.subset hbody))
  obtain ⟨steps, s, hrun, hcalls, hsame, hrpc⟩ := follows_of_run h
  rw [failed_eq_false hphase, Bool.not_false, Bool.and_true] at hrpc
  refine ⟨t.yielded, steps, hhanded ▸ hmessages, hrpc ▸ hrun, hcalls, hsame ▸ hfirst, ?_⟩
  intro hall hpumping hnone
  have hat' : Reader.At { source := schedule.filterMap WireStep.chunk? } (.header 0) (items.flatMap Item.bytes) [] :=
    ⟨rfl, by simp [Reader.ahead, hall], rfl⟩
  obtain ⟨t', ht', hwaiting', hhanded'⟩ := items_run parse items hat'
  rw [List.nil_append, hbodies] at hhanded'
  have heq : w.reader = t' := by
    rcases ReflTransGen.cases_head (steps_to_waiting hsteps ht' hwaiting') with heq | ⟨u, hu, -⟩
    · exact heq
    · exact absurd (wire_waits hpumping hnone) (by simp [hu])
  apply List.map_injective_iff.mpr (fun _ _ => Except.ok.inj)
  rw [hsame, ← hyielded, heq, hhanded', ← hhanded, hmessages]

/-- `json::parse` on one answer. -/
def parseAnswer (text : Bytes) : Decode Json :=
  if text = ascii "\x7b\"id\":0\x7d" then .ok (.obj [("id", .int 0)])
  else .error ⟨.parseError, 101, ""⟩

def answerItem : Item := .message (sent (ascii "\x7b\"id\":0\x7d") (by decide) (by decide))

/-- A call is made, its answer arrives in two chunks, and another call is made in between. -/
def answerInChunks : List WireStep := [.getResponse "initialize" .null, .arrive (answerItem.bytes.take 20), .read,
  .getResponse "textDocument/completion" .null, .arrive (answerItem.bytes.drop 20), .read, .read]

theorem pump_refines_messages_answer :
    ∃ w, (wire parseAnswer).run {} answerInChunks = some w ∧ w.rpc.invoked.map Prod.fst = [0] ∧
      w.rpc.pumping = true ∧ (wire parseAnswer).step w .read = none ∧
      ∃ messages steps, [ascii "\x7b\"id\":0\x7d"].map parseAnswer = messages.map .ok ∧
        rpc.run {} steps = some w.rpc ∧
        steps.filterMap RpcStep.call? = answerInChunks.filterMap WireStep.call? ∧
        steps.filterMap RpcStep.message? = messages := by
  have hrun : ((wire parseAnswer).run {} answerInChunks).map (fun w =>
      (w.rpc.invoked.map Prod.fst, w.rpc.pumping, ((wire parseAnswer).step w .read).isNone)) =
      some ([0], true, true) := by decide +kernel
  obtain ⟨w, hrun, hend⟩ := Option.map_eq_some_iff.mp hrun
  simp only [Prod.mk.injEq, Option.isNone_iff_eq_none] at hend
  obtain ⟨hinvoked, hpumping, hnone⟩ := hend
  obtain ⟨messages, steps, hmessages, hsteps, hcalls, -, hall⟩ := pump_refines_messages parseAnswer [answerItem] hrun
    (by decide +kernel) (by decide +kernel)
  exact ⟨w, hrun, hinvoked, hpumping, hnone, messages, steps, hmessages, hsteps, hcalls,
    hall (by decide +kernel) hpumping hnone⟩

/-- Whatever bytes clangd writes, however they are cut into chunks and whenever those arrive between the calls,
nothing is read that reading all of it in one piece would not read, in the same order, and where the reader waits or
has ended it stands where that would. The calls and what has been read are a run of the pump on messages. -/
theorem reads_as_whole (parse : Bytes → Decode Json) {schedule : List WireStep} {w : Wire}
    (h : (wire parse).run {} schedule = some w) :
    let whole := readMessage parse [(schedule.filterMap WireStep.chunk?).flatten]
    w.reader.handed <+: whole.handed ∧ w.reader.yielded <+: whole.yielded ∧
      (readStep parse w.reader = none → w.reader.onText = whole.onText) ∧ Follows schedule w := by
  intro whole
  have hstart : Steps parse { source := [] } ({} : Wire).reader := .refl
  have hsteps : Steps parse { source := schedule.filterMap WireStep.chunk? } w.reader := steps_of_run h hstart
  -- the reader of the one piece passes through the same text, and goes on from there
  obtain ⟨r, hr, hsame⟩ := steps_of_onText (s := { source := [(schedule.filterMap WireStep.chunk?).flatten] }) hsteps
    (by simp [Reader.onText, Reader.ahead])
  obtain ⟨hwhole, hwaits⟩ := readMessage_settled parse [(schedule.filterMap WireStep.chunk?).flatten]
  have hrest : Steps parse r whole := steps_to_waiting hr hwhole hwaits
  obtain ⟨-, hhanded, hyielded⟩ := outcomes_steps hrest (outcomes_steps hr rfl).1
  have hhanded_eq : r.handed = w.reader.handed := congrArg TextReader.handed hsame
  have hyielded_eq : r.yielded = w.reader.yielded := congrArg TextReader.yielded hsame
  refine ⟨hhanded_eq ▸ hhanded, hyielded_eq ▸ hyielded, fun hnone => ?_, follows_of_run h⟩
  rcases ReflTransGen.cases_head hrest with heq | ⟨u, hu, -⟩
  · rw [← hsame, heq]
  · rw [waits_of_onText hsame hnone] at hu
    cases hu

/-- A header line is cut in two, a call comes in between, and the body is not JSON. -/
def malformedInChunks : List WireStep := [.arrive (ascii "Content-Len"), .getResponse "initialize" .null,
  .arrive (ascii "gth: 1\n\n\x7dmore"), .read, .read, .read, .getResponse "textDocument/completion" .null]

theorem reads_as_whole_malformed :
    ∃ w, (wire parseBraces).run {} malformedInChunks = some w ∧ w.reader.handed = [ascii "\x7d"] ∧
      w.reader.handed <+: (readMessage parseBraces [(malformedInChunks.filterMap WireStep.chunk?).flatten]).handed ∧
      w.rpc.pumping = false ∧ Follows malformedInChunks w := by
  have hrun : ((wire parseBraces).run {} malformedInChunks).map (fun w => (w.reader.handed, w.rpc.pumping)) =
      some ([ascii "\x7d"], false) := by decide +kernel
  obtain ⟨w, hrun, hend⟩ := Option.map_eq_some_iff.mp hrun
  obtain ⟨hhanded, hpumping⟩ := Prod.mk.inj hend
  obtain ⟨hfirst, -, -, hfollows⟩ := reads_as_whole parseBraces hrun
  exact ⟨w, hrun, hhanded, hfirst, hpumping, hfollows⟩

end Ycmd.Clangd
