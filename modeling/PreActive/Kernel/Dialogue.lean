/-
Module: PreActive.Kernel.Dialogue
Purpose: The order of a run's transcript: a call and its result for each step, and then at most one
  line more, which ends a completed run.
Trusted boundary: human-reviewed spec of the order
Main exports: AskedAt, ToldAt, EndedAt, Exchanges, LastLine, Ordered, InOrder, transcript_in_order
-/
import PreActive.Kernel.Prompting
import PreActive.Kernel.ReadRetry

namespace PreActive.Kernel

open PreActive.Foundation PreActive.Python
open Program.Obeys

variable {host : Host} {engine : Engine} {log : History} {event : Event} {run : RunRow}
variable {runId key content : String} {now : Time} {call : ToolCall} {registry : ToolRegistry}
variable {db db' : Db} {step steps : Nat} {row : MessageRow} {rows last : List MessageRow}

/-! ### Lines -/

/-- The line of a decided call. -/
structure AskedAt (host : Host) (db : Db) (runId : String) (step : Nat) (call : ToolCall)
    (row : MessageRow) : Prop where
  decided : DecidedCall host db runId step call
  key : row.messageKey = some (stepKey step "assistant-decision")
  role : row.role = .assistant
  content : row.content = assistantContent call

/-- The line of a result of the call. -/
structure ToldAt (step : Nat) (call : ToolCall) (row : MessageRow) : Prop where
  key : row.messageKey = some (stepKey step "tool-result")
  role : row.role = .tool
  content : ∃ output, toolContent call.name output = .ok row.content

/-- The stored decision of a step is the text. -/
def DecidedText (host : Host) (db : Db) (runId : String) (step : Nat) (text : String) : Prop :=
  ∃ decision, db.decision runId step = some decision ∧
    decodeDecision host decision.decisionJson = .ok (.finalText text)

/-- The line of a decided text. -/
structure EndedAt (host : Host) (db : Db) (runId : String) (step : Nat) (row : MessageRow) : Prop where
  decided : DecidedText host db runId step row.content
  key : row.messageKey = some (stepKey step "assistant-final")
  role : row.role = .assistant

/-- A call and its result for each of the first steps, in their order. -/
inductive Exchanges (host : Host) (db : Db) (runId : String) : Nat → List MessageRow → Prop where
  | none : Exchanges host db runId 0 []
  | more {step : Nat} {rows : List MessageRow} {call : ToolCall} {asked told : MessageRow}
      (before : Exchanges host db runId step rows) (asks : AskedAt host db runId step call asked)
      (tells : ToldAt step call told) : Exchanges host db runId (step + 1) (rows ++ [asked, told])

/-- What comes after the exchanges: nothing, a call without a result, or the text that ends the
run. -/
inductive LastLine (host : Host) (db : Db) (runId : String) (step : Nat) :
    List MessageRow → Prop where
  | none : LastLine host db runId step []
  | asked {call : ToolCall} {row : MessageRow} (asks : AskedAt host db runId step call row) :
      LastLine host db runId step [row]
  | ended {row : MessageRow} (ends : EndedAt host db runId step row) :
      LastLine host db runId step [row]

/-- The transcript has an exchange for each of the steps, and then the last line. -/
structure Ordered (host : Host) (db : Db) (runId : String) (steps : Nat) (last : List MessageRow) :
    Prop where
  whole : ∃ rows, Exchanges host db runId steps rows ∧ db.transcript runId = rows ++ last
  ends : LastLine host db runId steps last

/-- The run goes with its transcript: it is never ahead of it while it is running, nor behind it
by more than a result that it has not taken up, and it is completed with the text of the last
line. -/
structure Paced (host : Host) (db : Db) (run : RunRow) (steps : Nat) (last : List MessageRow) :
    Prop where
  within : steps ≤ run.stepCount ∨ steps = run.stepCount + 1 ∧ last = []
  running : run.status = .running → run.stepCount ≤ steps
  completed : run.status = .completed → ∃ row, last = [row] ∧ EndedAt host db run.id steps row ∧
    run.finalText = some row.content

/-- The transcript of the run is in order. -/
def InOrder (host : Host) (db : Db) (run : RunRow) : Prop :=
  ∃ steps last, Ordered host db run.id steps last ∧ Paced host db run steps last

/-! ### What comes before a line -/

/-- A message with the key and the content was stored, or found. -/
def LineKept (log : History) (runId key content : String) : Prop :=
  ∃ row : MessageRow, row.runId = runId ∧ row.messageKey = some key ∧ row.content = content ∧
    MessageKept log row

/-- The call is told before its result, its result before the run moves on, and the text before
the run ends with it. -/
def Tells (log : History) : Op → Prop
  | .sql (.insertMessage row) => ∀ step, row.messageKey = some (stepKey step "tool-result") →
      ∃ content, LineKept log row.runId (stepKey step "assistant-decision") content
  | .sql (.updateRun runId change) => ∀ text, change.status = some .completed →
      change.finalText = some text →
        ∃ step, LineKept log runId (stepKey step "assistant-final") text
  | .transaction (.advanceRunStep runId step _ _) =>
      ∃ content, LineKept log runId (stepKey step "tool-result") content
  | _ => True

theorem MessageKept.later {log' : History} (kept : MessageKept log row) (longer : log <:+ log') :
    MessageKept log' row := by
  rcases kept with saw | ⟨key, found, keyed, saw, same⟩
  · exact .inl (saw.later longer)
  · exact .inr ⟨key, found, keyed, saw.later longer, same⟩

theorem LineKept.later {log' : History} (kept : LineKept log runId key content)
    (longer : log <:+ log') : LineKept log' runId key content := by
  obtain ⟨row, ofRun, keyed, same, stored⟩ := kept
  exact ⟨row, ofRun, keyed, same, stored.later longer⟩

/-- A message that is no result may be added at any time. -/
theorem recordRunMessage_tells {role : Role} {suffix : String} (noResult : suffix ≠ "tool-result") :
    (recordRunMessage runId role content now (some (stepKey step suffix))).proc.Obeys Tells
      (returns fun log' _ => LineKept log' runId (stepKey step suffix) content) log := by
  refine (recordRunMessage_obeys ?_ fun _ _ => trivial).returning
    fun _ _ _ kept => ⟨_, rfl, rfl, rfl, kept⟩
  intro step' keyed
  exact absurd (stepKey_inj (Option.some.inj keyed)).2 noResult

/-- A result may be added once its call was. -/
theorem recordResult_tells {role : Role} {asked : String}
    (kept : LineKept log runId (stepKey step "assistant-decision") asked) :
    (recordRunMessage runId role content now (some (stepKey step "tool-result"))).proc.Obeys Tells
      (returns fun log' _ => LineKept log' runId (stepKey step "tool-result") content) log := by
  refine (recordRunMessage_obeys ?_ fun _ _ => trivial).returning
    fun _ _ _ stored => ⟨_, rfl, rfl, rfl, stored⟩
  intro step' keyed
  obtain ⟨rfl, _⟩ := stepKey_inj (Option.some.inj keyed)
  exact ⟨asked, kept⟩

theorem ack_tells : (engine.ack event now).Obeys Tells (returns fun _ _ => True) log :=
  ackEvent_obeys (fun _ _ => trivial) trivial

/-- A run may be updated at any time if that does not complete it. -/
theorem updateRun_tells {change : RunChange} (unfinished : change.status ≠ some .completed) :
    (updateRun runId change).proc.Obeys Tells (returns fun _ _ => True) log := by
  apply (updateRun_obeys ?_).returning
  · exact fun _ _ _ _ => trivial
  · exact fun _ completes => absurd completes unfinished

/-- Tools tell nothing. -/
theorem tells_of_toolRule {enter : History → ToolCall → List String → Prop} (log : History) (op : Op)
    (rule : ToolRule host registry enter log op) : Tells log op := by
  cases op with
  | sql stmt => cases stmt <;> trivial
  | transaction block => exact rule.elim
  | _ => trivial

/-! ### What a worker tells -/

theorem runTaskRequested_tells :
    (engine.runTaskRequested event now).Obeys Tells (returns fun _ _ => True) log := by
  have rejected : ∀ reason log, (engine.rejectEvent event reason now).Obeys Tells
      (returns fun _ _ => True) log := by
    intro reason log
    apply (appendJournal_obeys fun _ _ => trivial).seq
    intro _ _ _ _
    exact ack_tells.seq fun _ _ _ _ => of_done trivial
  unfold Engine.runTaskRequested
  dsimp only
  split
  · exact rejected _ _
  · split
    · exact rejected _ _
    · split
      · exact rejected _ _
      · apply afterCall trivial
        intro newRun
        exact ack_tells.seq fun _ _ _ _ => of_done trivial

theorem admittedResponse_tells :
    (engine.admittedResponse host runId run now).Obeys Tells (returns fun _ _ => True) log := by
  simp only [Engine.admittedResponse, Program.bind_eq_bind]
  apply (getRunStepDecision_obeys host trivial).seq
  intro log₁ stored _ _
  cases stored with
  | some decision => exact of_ofExcept fun _ _ => trivial
  | none =>
      apply (messagesForRun_obeys (fun _ _ => trivial) fun _ _ => trivial).seq
      intro log₂ messages _ _
      simp only [Op.perform, Program.perform, Program.call_bind]
      apply afterCall trivial
      intro response
      apply (recordRunStepDecision_obeys trivial fun _ _ => trivial).seq
      exact fun _ _ _ _ => of_done trivial

theorem classifyToolError_tells {exc : Exc} :
    (engine.classifyToolError event runId call exc now).Obeys Tells (returns fun _ _ => True) log := by
  simp only [Engine.classifyToolError, effectState, Op.perform, Program.perform,
    Program.bind_eq_bind, Program.call_bind, Program.bind_assoc]
  apply afterCall trivial
  intro row
  simp only [Program.pure_eq_done, Program.done_bind]
  split
  · exact (blockRunOnEffect_obeys (fun _ _ => trivial) trivial).seq fun _ _ _ _ => ack_tells
  · split
    · exact (updateRun_tells (by simp)).seq fun _ _ _ _ => ack_tells
    · exact of_raise

/-- A step tells its call, the result, and then moves the run on. -/
theorem toolStep_tells :
    (engine.toolStep host event runId run call now).Obeys Tells (returns fun _ _ => True) log := by
  apply (recordRunMessage_tells (by decide)).seq
  intro log₁ _ _ asked
  have executed : (engine.tools.execute host call run.capabilities now).Obeys
      (ToolRule host engine.tools fun _ _ _ => True)
      (returns (ExecuteReturns host engine.tools call run.capabilities)) log₁ :=
    execute_obeys trivial
  have tells := executed.mono tells_of_toolRule fun _ _ ends => ends
  apply tells.captured.seq
  intro log₂ outcome longer₂ _
  cases outcome with
  | error exc => exact classifyToolError_tells
  | ok result =>
      apply Program.Obeys.seq (M := fun log' _ => log₂ <:+ log') ?_ ?_
      · exact of_ofExcept fun _ _ => List.suffix_refl _
      · intro log₃ content _ longer₃
        apply (recordResult_tells (asked.later (longer₂.trans longer₃))).seq
        intro log₄ _ _ told
        apply afterCall
        · exact ⟨content, told⟩
        · exact fun next => ack_tells

/-- A final step tells the text, and then completes the run with it. -/
theorem finalStep_tells {text : String} :
    (engine.finalStep event runId run text now).Obeys Tells (returns fun _ _ => True) log := by
  apply (recordRunMessage_tells (by decide)).seq
  intro log₁ _ _ ended
  apply (updateRun_obeys ?_).seq
  · exact fun _ _ _ _ => ack_tells
  · intro text' _ same
    obtain rfl := Option.some.inj same
    exact ⟨run.stepCount, ended⟩

theorem runStep_tells :
    (engine.runStep host event now).Obeys Tells (returns fun _ _ => True) log := by
  unfold Engine.runStep
  split
  · exact of_raise
  · apply (getRun_obeys trivial).seq
    rintro log₁ run _ rfl
    dsimp only
    split
    · exact ack_tells.seq fun _ _ _ _ => of_done trivial
    · split
      · exact ack_tells.seq fun _ _ _ _ => of_done trivial
      · split
        · apply (updateRun_tells (by simp)).seq
          intro _ _ _ _
          exact ack_tells.seq fun _ _ _ _ => of_done trivial
        · have processes : ∀ runId log, (engine.processStep host event runId run now).Obeys Tells
              (returns fun _ _ => True) log := by
            intro runId log
            apply admittedResponse_tells.seq
            intro log' response _ _
            cases response with
            | toolCall call => exact toolStep_tells
            | finalText text => exact finalStep_tells
          apply (processes _ _).captured.seq
          intro log₂ outcome _ _
          cases outcome with
          | ok _ => exact of_done trivial
          | error exc =>
              apply Program.Obeys.seq (M := fun _ _ => True) ?_ fun _ _ _ _ => of_done trivial
              apply (updateRun_tells (by simp)).seq
              intro _ _ _ _
              exact (failEvent_obeys (fun _ _ => trivial) trivial).seq fun _ _ _ _ => of_raise

theorem runOnce_tells :
    (engine.runOnce host now).Obeys Tells (returns fun _ _ => True) [] := by
  have claims : (claimEvent engine.workerId now engine.leaseSeconds).Obeys Tells
      (returns fun _ _ => True) [] := by
    apply afterCall trivial
    intro found
    cases found with
    | none => exact of_done trivial
    | some claim =>
        apply Program.Obeys.seq (M := fun _ _ => True) (of_ofExcept fun _ _ => trivial) ?_
        exact fun _ _ _ _ => of_done trivial
  apply claims.seq
  intro log event _ _
  cases event with
  | none => exact of_done trivial
  | some event =>
      dsimp only
      split
      · exact runTaskRequested_tells
      · split
        · exact runStep_tells
        · exact ack_tells.seq fun _ _ _ _ => of_done trivial

/-- Only workers tell anything. -/
def Call.Tells : Call → History → Op → Prop
  | .runOnce _ _ => Kernel.Tells
  | _ => fun _ _ => True

theorem program_tells (host : Host) (call : Call) :
    (call.program host).Obeys call.Tells Program.anyOutcome [] := by
  cases call with
  | runOnce engine now =>
      have tells : ((Call.runOnce engine now).program host).Obeys Tells (returns fun _ _ => True) [] :=
        discard_obeys runOnce_tells
      exact tells.weaken fun _ _ _ => trivial
  | _ => exact (program_obeys host _).mono (fun _ _ _ => trivial) fun _ _ ends => ends

/-! ### Where the lines of a transcript stand -/

/-- The transcript of the run has a line with the key and the content. -/
def Db.HasLine (db : Db) (runId key content : String) : Prop :=
  ∃ row ∈ db.transcript runId, row.messageKey = some key ∧ row.content = content

theorem Db.mem_transcript : row ∈ db.transcript runId ↔ row ∈ db.messages.rows ∧ row.runId = runId := by
  rw [Db.transcript, List.mem_filter, beq_iff_eq]

section Kept

variable (keeps : ∀ step decision, db.decision runId step = some decision →
  db'.decision runId step = some decision)
include keeps

theorem AskedAt.kept (asks : AskedAt host db runId step call row) :
    AskedAt host db' runId step call row where
  decided := by
    obtain ⟨decision, stored, decoded⟩ := asks.decided
    exact ⟨decision, keeps step decision stored, decoded⟩
  key := asks.key
  role := asks.role
  content := asks.content

theorem EndedAt.kept (ends : EndedAt host db runId step row) : EndedAt host db' runId step row where
  decided := by
    obtain ⟨decision, stored, decoded⟩ := ends.decided
    exact ⟨decision, keeps step decision stored, decoded⟩
  key := ends.key
  role := ends.role

theorem Exchanges.kept (exchanges : Exchanges host db runId steps rows) :
    Exchanges host db' runId steps rows := by
  induction exchanges with
  | none => exact .none
  | more before asks tells ih => exact .more ih (asks.kept keeps) tells

theorem LastLine.kept (ends : LastLine host db runId steps last) :
    LastLine host db' runId steps last := by
  cases ends with
  | none => exact .none
  | asked asks => exact .asked (asks.kept keeps)
  | ended ends => exact .ended (ends.kept keeps)

theorem Ordered.kept (ordered : Ordered host db runId steps last)
    (same : db'.transcript runId = db.transcript runId) : Ordered host db' runId steps last where
  whole := by
    obtain ⟨rows, exchanges, whole⟩ := ordered.whole
    exact ⟨rows, exchanges.kept keeps, same.trans whole⟩
  ends := ordered.ends.kept keeps

end Kept

/-- Where a line stands in an ordered transcript. -/
inductive LineAt (host : Host) (db : Db) (runId : String) (steps : Nat) (last : List MessageRow)
    (row : MessageRow) : Prop where
  | asked {step : Nat} (below : step < steps)
      (key : row.messageKey = some (stepKey step "assistant-decision")) :
      LineAt host db runId steps last row
  | told {step : Nat} (below : step < steps)
      (key : row.messageKey = some (stepKey step "tool-result")) :
      LineAt host db runId steps last row
  | lastAsked {call : ToolCall} (asks : AskedAt host db runId steps call row) (same : last = [row]) :
      LineAt host db runId steps last row
  | lastEnded (ends : EndedAt host db runId steps row) (same : last = [row]) :
      LineAt host db runId steps last row

theorem stepKey_same {step' : Nat} {suffix suffix' : String}
    (keyed : row.messageKey = some (stepKey step suffix))
    (keyed' : row.messageKey = some (stepKey step' suffix')) : step = step' :=
  (stepKey_inj (Option.some.inj (keyed.symm.trans keyed'))).1

theorem stepKey_other {step' : Nat} {suffix suffix' : String}
    (keyed : row.messageKey = some (stepKey step suffix))
    (keyed' : row.messageKey = some (stepKey step' suffix')) : suffix = suffix' :=
  (stepKey_inj (Option.some.inj (keyed.symm.trans keyed'))).2

/-- A line of an exchange has the key of one of the steps. -/
theorem Exchanges.keyed (exchanges : Exchanges host db runId steps rows) (member : row ∈ rows) :
    ∃ step < steps, row.messageKey = some (stepKey step "assistant-decision") ∨
      row.messageKey = some (stepKey step "tool-result") := by
  induction exchanges with
  | none => cases member
  | @more steps rows call asked told before asks tells ih =>
      rcases List.mem_append.1 member with earlier | new
      · obtain ⟨step, below, keyed⟩ := ih earlier
        exact ⟨step, Nat.lt_succ_of_lt below, keyed⟩
      · refine ⟨steps, Nat.lt_succ_self steps, ?_⟩
        rcases List.mem_cons.1 new with rfl | new
        · exact .inl asks.key
        · rw [List.mem_singleton.1 new]
          exact .inr tells.key

/-- Each of the steps has a decided call, whose line and result are in the transcript. -/
theorem Exchanges.complete (exchanges : Exchanges host db runId steps rows) (below : step < steps) :
    ∃ call asked told, AskedAt host db runId step call asked ∧ ToldAt step call told ∧
      asked ∈ rows ∧ told ∈ rows := by
  induction exchanges with
  | none => exact absurd below (Nat.not_lt_zero step)
  | @more steps rows call asked told before asks tells ih =>
      rcases Nat.lt_succ_iff_lt_or_eq.1 below with earlier | rfl
      · obtain ⟨call', asked', told', asks', tells', isAsked, isTold⟩ := ih earlier
        exact ⟨call', asked', told', asks', tells', List.mem_append_left _ isAsked,
          List.mem_append_left _ isTold⟩
      · exact ⟨call, asked, told, asks, tells, by simp, by simp⟩

section Ordered

variable (ordered : Ordered host db runId steps last)
include ordered

/-- The lines of a step that is behind are in the transcript. -/
theorem Ordered.complete (below : step < steps) :
    ∃ call asked told, AskedAt host db runId step call asked ∧ ToldAt step call told ∧
      asked ∈ db.transcript runId ∧ told ∈ db.transcript runId := by
  obtain ⟨rows, exchanges, whole⟩ := ordered.whole
  obtain ⟨call, asked, told, asks, tells, isAsked, isTold⟩ := exchanges.complete below
  rw [whole]
  exact ⟨call, asked, told, asks, tells, List.mem_append_left _ isAsked,
    List.mem_append_left _ isTold⟩

/-- A line is one of an exchange, or the last one. -/
theorem Ordered.line (member : row ∈ db.transcript runId) :
    LineAt host db runId steps last row := by
  obtain ⟨rows, exchanges, whole⟩ := ordered.whole
  rw [whole] at member
  rcases List.mem_append.1 member with earlier | isLast
  · obtain ⟨step, below, key | key⟩ := exchanges.keyed earlier
    · exact .asked below key
    · exact .told below key
  · cases ordered.ends with
    | none => cases isLast
    | asked asks =>
        obtain rfl := List.mem_singleton.1 isLast
        exact .lastAsked asks rfl
    | ended ends =>
        obtain rfl := List.mem_singleton.1 isLast
        exact .lastEnded ends rfl

/-- The result of a step is there only if the step is behind. -/
theorem Ordered.told (has : db.HasLine runId (stepKey step "tool-result") content) :
    step < steps := by
  obtain ⟨row, member, keyed, _⟩ := has
  cases ordered.line member with
  | asked below key => exact absurd (stepKey_other keyed key) (by decide)
  | told below key => exact stepKey_same keyed key ▸ below
  | lastAsked asks same => exact absurd (stepKey_other keyed asks.key) (by decide)
  | lastEnded ends same => exact absurd (stepKey_other keyed ends.key) (by decide)

/-- The call of a step is there only if the step is behind, or the call is the last line. -/
theorem Ordered.asked (has : db.HasLine runId (stepKey step "assistant-decision") content) :
    step < steps ∨
      step = steps ∧ ∃ call row, last = [row] ∧ AskedAt host db runId steps call row := by
  obtain ⟨row, member, keyed, _⟩ := has
  cases ordered.line member with
  | asked below key => exact .inl (stepKey_same keyed key ▸ below)
  | told below key => exact absurd (stepKey_other keyed key) (by decide)
  | lastAsked asks same => exact .inr ⟨stepKey_same keyed asks.key, _, row, same, asks⟩
  | lastEnded ends same => exact absurd (stepKey_other keyed ends.key) (by decide)

/-- A text is there only as the last line. -/
theorem Ordered.ended (has : db.HasLine runId (stepKey step "assistant-final") content) :
    ∃ row, last = [row] ∧ EndedAt host db runId steps row ∧ row.content = content := by
  obtain ⟨row, member, keyed, told⟩ := has
  cases ordered.line member with
  | asked below key => exact absurd (stepKey_other keyed key) (by decide)
  | told below key => exact absurd (stepKey_other keyed key) (by decide)
  | lastAsked asks same => exact absurd (stepKey_other keyed asks.key) (by decide)
  | lastEnded ends same => exact ⟨row, same, ends, told⟩

end Ordered

/-! ### One line more -/

theorem DecidedCall.not_text {text : String} (decided : DecidedCall host db runId step call) :
    ¬ DecidedText host db runId step text := by
  rintro ⟨decision', stored', decoded'⟩
  obtain ⟨decision, stored, decoded⟩ := decided
  obtain rfl := Option.some.inj (stored.symm.trans stored')
  cases Except.ok.inj (decoded.symm.trans decoded')

/-- A line that a worker adds for a step of the run. -/
inductive NewLine (host : Host) (db : Db) (runId : String) (step : Nat) (row : MessageRow) : Prop where
  | asks {call : ToolCall} (asks : AskedAt host db runId step call row) :
      NewLine host db runId step row
  | ends (ends : EndedAt host db runId step row) : NewLine host db runId step row
  | tells {call : ToolCall} {content : String} (decided : DecidedCall host db runId step call)
      (tells : ToldAt step call row)
      (asked : db.HasLine runId (stepKey step "assistant-decision") content) :
      NewLine host db runId step row

/-- What a new line makes of the last one. -/
inductive Follows (host : Host) (db : Db) (runId : String) (step : Nat) :
    List MessageRow → Nat → List MessageRow → Prop where
  | first {row : MessageRow} : Follows host db runId step [] step [row]
  | result {call : ToolCall} {row : MessageRow} (asks : AskedAt host db runId step call row) :
      Follows host db runId step [row] (step + 1) []

section Added

variable {messages : Table MessageRow} (inserted : db.messages.insert row = some messages)
variable (ofRun : row.runId = runId)
include inserted ofRun

/-- The key of a row that can be inserted is not in the transcript. -/
theorem fresh_line {suffix : String} (keyed : row.messageKey = some (stepKey step suffix)) :
    ¬ db.HasLine runId (stepKey step suffix) content := by
  rintro ⟨old, member, keyed', _⟩
  have absent := message_none_of_insert inserted keyed
  obtain ⟨stored, sameRun⟩ := Db.mem_transcript.1 member
  have apart := Table.select_eq_none.1 absent old stored
  simp [sameRun, ofRun, keyed'] at apart

theorem transcript_insert (same : db'.messages = messages) :
    db'.transcript runId = db.transcript runId ++ [row] := by
  rw [Db.transcript, Db.transcript, same, Table.rows_insert inserted, List.filter_append]
  simp [ofRun]

variable (ordered : Ordered host db runId steps last)
include ordered

/-- A line is added for the step that comes next. -/
theorem Ordered.next (line : NewLine host db runId step row)
    (behind : ∀ earlier < step, ∃ content,
      db.HasLine runId (stepKey earlier "tool-result") content) : step = steps := by
  rcases Nat.lt_trichotomy step steps with before | same | after
  · obtain ⟨call, asked, told, asks, tells, isAsked, isTold⟩ := ordered.complete before
    exfalso
    cases line with
    | asks added => exact fresh_line inserted ofRun added.key ⟨asked, isAsked, asks.key, rfl⟩
    | ends added => exact asks.decided.not_text added.decided
    | tells _ added _ => exact fresh_line inserted ofRun added.key ⟨told, isTold, tells.key, rfl⟩
  · exact same
  · obtain ⟨content, has⟩ := behind steps after
    exact absurd (ordered.told has) (Nat.lt_irrefl steps)

/-- A new line keeps the order. -/
theorem Ordered.add (line : NewLine host db runId steps row)
    (keeps : ∀ step decision, db.decision runId step = some decision →
      db'.decision runId step = some decision) (same : db'.messages = messages) :
    ∃ steps' last', Ordered host db' runId steps' last' ∧
      Follows host db runId steps last steps' last' := by
  obtain ⟨rows, exchanges, whole⟩ := ordered.whole
  have longer := transcript_insert inserted ofRun same
  rw [whole] at longer
  cases line with
  | @asks call asks =>
      cases ordered.ends with
      | none =>
          rw [List.append_nil] at longer
          exact ⟨steps, [row], ⟨⟨rows, exchanges.kept keeps, longer⟩, .asked (asks.kept keeps)⟩, .first⟩
      | @asked _ old before =>
          have has : db.HasLine runId (stepKey steps "assistant-decision") old.content :=
            ⟨old, by simp [whole], before.key, rfl⟩
          exact absurd has (fresh_line inserted ofRun asks.key)
      | ended ends => exact absurd ends.decided asks.decided.not_text
  | ends ends =>
      cases ordered.ends with
      | none =>
          rw [List.append_nil] at longer
          exact ⟨steps, [row], ⟨⟨rows, exchanges.kept keeps, longer⟩, .ended (ends.kept keeps)⟩, .first⟩
      | asked asks => exact absurd ends.decided asks.decided.not_text
      | @ended old before =>
          have has : db.HasLine runId (stepKey steps "assistant-final") old.content :=
            ⟨old, by simp [whole], before.key, rfl⟩
          exact absurd has (fresh_line inserted ofRun ends.key)
  | @tells call _ decided tells asked =>
      rcases ordered.asked asked with before | ⟨_, call', old, rfl, asks⟩
      · exact absurd before (Nat.lt_irrefl steps)
      · obtain rfl := decided.unique asks.decided
        rw [List.append_assoc] at longer
        have exchanges' := (exchanges.more asks tells).kept keeps
        refine ⟨steps + 1, [], ⟨⟨_, exchanges', ?_⟩, .none⟩, .result asks⟩
        rw [longer, List.append_nil]
        rfl

end Added

/-! ### The run and its transcript -/

theorem Paced.kept (keeps : ∀ step decision, db.decision run.id step = some decision →
    db'.decision run.id step = some decision) (paced : Paced host db run steps last) :
    Paced host db' run steps last where
  within := paced.within
  running := paced.running
  completed done := by
    obtain ⟨row, same, ends, text⟩ := paced.completed done
    exact ⟨row, same, ends.kept keeps, text⟩

/-- A line for a step that the run has reached keeps the pace. -/
theorem Paced.follows {steps' : Nat} {last' : List MessageRow}
    (paced : Paced host db run steps last) (isReached : steps ≤ run.stepCount)
    (follows : Follows host db run.id steps last steps' last') :
    Paced host db' run steps' last' := by
  cases follows with
  | first =>
      refine ⟨.inl isReached, paced.running, fun done => ?_⟩
      obtain ⟨_, impossible, _⟩ := paced.completed done
      cases impossible
  | @result call row asks =>
      refine ⟨?_, fun running => (paced.running running).trans (Nat.le_succ _), fun done => ?_⟩
      · rcases Nat.lt_or_eq_of_le isReached with before | rfl
        · exact .inl before
        · exact .inr ⟨rfl, rfl⟩
      · obtain ⟨_, same, ends, _⟩ := paced.completed done
        obtain rfl := List.singleton_inj.1 same
        exact absurd (stepKey_other asks.key ends.key) (by decide)

/-- What an operation on the run relies on: the result is told before the run moves on, and the
text before it is completed. -/
structure Prepared (db : Db) (runId : String) (op : Op) : Prop where
  advances : ∀ step priority now, op = .transaction (.advanceRunStep runId step priority now) →
    ∃ content, db.HasLine runId (stepKey step "tool-result") content
  completes : ∀ change text, op = .sql (.updateRun runId change) →
    change.status = some .completed → change.finalText = some text →
      ∃ step, db.HasLine runId (stepKey step "assistant-final") text
  resumes : ∀ now priority, op ≠ .transaction (.resumeRunAfterEffect runId now priority)

/-- What a prepared operation does to a run keeps the pace. -/
theorem Paced.moved {op : Op} {run' : RunRow} (moves : RunStep run.id op (some run) (some run'))
    (prepared : Prepared db run.id op) (ordered : Ordered host db run.id steps last)
    (paced : Paced host db run steps last) : Paced host db run' steps last := by
  cases moves with
  | keep => exact paced
  | @update _ change issued =>
      cases issued with
      | complete now text =>
          obtain ⟨step, has⟩ := prepared.completes _ text rfl rfl rfl
          obtain ⟨row, same, ends, rfl⟩ := ordered.ended has
          refine ⟨?_, ?_, fun _ => ⟨row, same, ends, rfl⟩⟩
          · simp only [RunChange.apply, if_true]
            rcases paced.within with within | ⟨rfl, _⟩
            · exact .inl (within.trans (Nat.le_succ _))
            · exact .inl (Nat.le_refl _)
          · intro running
            cases running
      | fail now error =>
          refine ⟨paced.within, ?_, ?_⟩
          all_goals
            intro status
            cases status
      | note now error =>
          refine ⟨paced.within, paced.running, fun done => ?_⟩
          simpa [RunChange.apply] using paced.completed done
  | block running =>
      refine ⟨paced.within, ?_, ?_⟩
      all_goals
        intro status
        cases status
  | @advance _ priority now running =>
      obtain ⟨content, has⟩ := prepared.advances _ priority now rfl
      have told := ordered.told has
      refine ⟨.inl ?_, fun _ => told, fun done => ?_⟩
      · change steps ≤ run.stepCount + 1
        rcases paced.within with within | ⟨rfl, _⟩
        · exact within.trans (Nat.le_succ _)
        · exact Nat.le_refl _
      · cases running.symm.trans done
  | resume blocked => exact absurd rfl (prepared.resumes _ _)

/-- The transcripts of the store, as far as the run is concerned: it has none before it is created,
and then it is in order. -/
structure Db.Tidy (host : Host) (db : Db) (runId : String) : Prop where
  absent : db.run runId = none → db.transcript runId = []
  inOrder : ∀ run, db.run runId = some run → InOrder host db run

/-- A created run has no transcript. -/
theorem InOrder.created {task : String} {capabilities : List String} {sourceEventId : Option String}
    (none : db.transcript runId = []) :
    InOrder host db (newRunRow task capabilities now sourceEventId runId) :=
  ⟨0, [], ⟨⟨[], .none, none⟩, .none⟩, ⟨.inl (Nat.le_refl _), fun _ => Nat.le_refl _, nofun⟩⟩

/-- An operation that adds no line to the transcript keeps it tidy. -/
theorem Db.Tidy.moved {op : Op} (tidy : db.Tidy host runId)
    (moves : RunStep runId op (db.run runId) (db'.run runId)) (prepared : Prepared db runId op)
    (keeps : ∀ step decision, db.decision runId step = some decision →
      db'.decision runId step = some decision)
    (same : db'.transcript runId = db.transcript runId) : db'.Tidy host runId := by
  cases stored : db.run runId with
  | none =>
      rw [stored] at moves
      have empty := same.trans (tidy.absent stored)
      refine ⟨fun _ => empty, fun run' stored' => ?_⟩
      rw [stored'] at moves
      cases moves with
      | create => exact .created empty
  | some run =>
      rw [stored] at moves
      obtain ⟨steps, last, ordered, paced⟩ := tidy.inOrder run stored
      obtain ⟨_, rfl⟩ := Db.run_eq_some.1 stored
      refine ⟨fun gone => ?_, fun run' stored' => ?_⟩
      · obtain ⟨run', stored', _⟩ := moves.evolves
        cases gone.symm.trans stored'
      · rw [stored'] at moves
        obtain ⟨_, same', evolves⟩ := moves.evolves
        obtain rfl := Option.some.inj same'
        have paced' := paced.moved moves prepared ordered
        rw [← evolves.id] at ordered keeps same
        exact ⟨steps, last, ordered.kept keeps same, paced'.kept keeps⟩

/-- A new line for a step that the run has reached keeps the transcript tidy. -/
theorem Db.Tidy.added {messages : Table MessageRow} (tidy : db.Tidy host runId)
    (inserted : db.messages.insert row = some messages) (ofRun : row.runId = runId)
    (line : NewLine host db runId step row)
    (behind : ∀ earlier < step, ∃ content, db.HasLine runId (stepKey earlier "tool-result") content)
    (isReached : ∃ run, db.run runId = some run ∧ step ≤ run.stepCount)
    (sameRun : db'.run runId = db.run runId)
    (keeps : ∀ step decision, db.decision runId step = some decision →
      db'.decision runId step = some decision) (same : db'.messages = messages) :
    db'.Tidy host runId := by
  obtain ⟨run, stored, within⟩ := isReached
  obtain ⟨steps, last, ordered, paced⟩ := tidy.inOrder run stored
  obtain ⟨_, rfl⟩ := Db.run_eq_some.1 stored
  obtain rfl := ordered.next inserted ofRun line behind
  obtain ⟨steps', last', ordered', follows⟩ := ordered.add inserted ofRun line keeps same
  rw [← sameRun] at stored
  refine ⟨fun gone => ?_, fun run' stored' => ?_⟩
  · cases gone.symm.trans stored
  · obtain rfl := Option.some.inj (stored.symm.trans stored')
    exact ⟨steps', last', ordered', paced.follows within follows⟩

/-! ### What a worker knows of the transcript -/

/-- What an entry of a history says about the lines of a run. -/
structure LinesKnown (runId : String) (entry : Entry kernel Exc) (db : Db) : Prop where
  run : ∀ run, entry = ⟨.sql (.selectRun runId), .ok (some run)⟩ → run.status = .running →
    ∀ step < run.stepCount, ∃ content, db.HasLine runId (stepKey step "tool-result") content
  inserted : ∀ row, entry = ⟨.sql (.insertMessage row), .ok ()⟩ → row ∈ db.messages.rows
  found : ∀ runId key row, entry = ⟨.sql (.selectMessageByKey runId key), .ok (some row)⟩ →
    row ∈ db.messages.rows ∧ row.runId = runId ∧ row.messageKey = some key

variable {world : World} {op : Op}

theorem Db.HasLine.later (has : world.db.HasLine runId key content) (host : Host) (answer : Answer)
    (op : Op) : (op.answer host answer world).2.db.HasLine runId key content := by
  obtain ⟨row, member, rest⟩ := has
  exact ⟨row, (transcript_kept host answer op runId).subset member, rest⟩

theorem LinesKnown.later {entry : Entry kernel Exc} (known : LinesKnown runId entry world.db)
    (host : Host) (answer : Answer) (op : Op) :
    LinesKnown runId entry (op.answer host answer world).2.db where
  run := by
    intro run same running step below
    obtain ⟨content, has⟩ := known.run run same running step below
    exact ⟨content, has.later host answer op⟩
  inserted row same := message_kept host answer op (known.inserted row same)
  found := by
    intro runId key row same
    obtain ⟨stored, rest⟩ := known.found runId key row same
    exact ⟨message_kept host answer op stored, rest⟩

/-- A running run that is read is not ahead of its transcript. -/
theorem LinesKnown.of_answer (tidy : world.db.Tidy host runId) (answer : Answer) (op : Op) :
    LinesKnown runId ⟨op, (op.answer host answer world).1⟩ (op.answer host answer world).2.db where
  run := by
    intro run same running step below
    obtain ⟨rfl, answered⟩ := Entry.mk.inj same
    rw [heq_eq_eq] at answered
    cases faulty : answer.fault with
    | some fault => simp [Op.answer, faulty] at answered
    | none =>
        simp only [Op.answer, faulty, Stmt.exec, Except.ok.injEq] at answered ⊢
        obtain ⟨steps, last, ordered, paced⟩ := tidy.inOrder run answered
        obtain ⟨_, rfl⟩ := Db.run_eq_some.1 answered
        have before := below.trans_le (paced.running running)
        obtain ⟨_, _, told, _, tells, _, isTold⟩ := ordered.complete before
        exact ⟨told.content, told, isTold, tells.key, rfl⟩
  inserted := by
    intro row same
    obtain ⟨rfl, answered⟩ := Entry.mk.inj same
    rw [heq_eq_eq] at answered
    cases faulty : answer.fault with
    | some fault => simp [Op.answer, faulty] at answered
    | none =>
        simp only [Op.answer, faulty, Stmt.exec] at answered ⊢
        split at answered
        · rename_i isRun
          split at answered
          · rename_i messages inserted
            rw [if_pos isRun]
            change row ∈ messages.rows
            rw [Table.rows_insert inserted]
            exact List.mem_append_right _ (List.mem_singleton.2 rfl)
          · cases answered
        · cases answered
  found := by
    intro target key row same
    obtain ⟨rfl, answered⟩ := Entry.mk.inj same
    rw [heq_eq_eq] at answered
    cases faulty : answer.fault with
    | some fault => simp [Op.answer, faulty] at answered
    | none =>
        simp only [Op.answer, faulty, Stmt.exec, Except.ok.injEq] at answered ⊢
        exact Db.message_eq_some.1 answered

/-- A line that was kept is in the transcript. -/
theorem LineKept.stored
    (learned : System.Reachable.Learned (fun _ entry world => LinesKnown runId entry world.db) world
      log) (kept : LineKept log runId key content) : world.db.HasLine runId key content := by
  obtain ⟨row, ofRun, keyed, same, stored⟩ := kept
  rcases stored with saw | ⟨key', found, keyed', saw, _, same'⟩
  · obtain ⟨_, _, known⟩ := learned.of_mem saw
    exact ⟨row, Db.mem_transcript.2 ⟨known.inserted row rfl, ofRun⟩, keyed, same⟩
  · obtain ⟨_, _, known⟩ := learned.of_mem saw
    obtain ⟨member, ofRun', isKey⟩ := known.found _ _ found rfl
    refine ⟨found, Db.mem_transcript.2 ⟨member, ofRun'.trans ofRun⟩, ?_, same'.trans same⟩
    rw [isKey, ← keyed', keyed]

/-! ### Every transcript -/

section Reached

variable {steps : KernelConfig → Label Answer Call → Prop} {config : KernelConfig}
variable (reached : (system host).Reachable steps KernelConfig.initial config)
include reached

/-- What a worker knows to be decided is stored. -/
theorem decided_text {process : Process kernel Exc Call} (member : process ∈ config.procs)
    {text : String} (seen : Decided host process.log runId step (.finalText text)) :
    DecidedText host config.world.db runId step text := by
  obtain ⟨decisionJson, isSeen, decoded⟩ := seen
  obtain ⟨decision, stored, rfl⟩ := isSeen.stored (reachable_known reached process member)
  exact ⟨decision, stored, decoded⟩

variable {started : Time} {pid : Nat}

/-- A worker adds a line for a step that its run has reached, once the results of the steps before
it are told. -/
theorem worker_adds {next : Except Exc Unit → Proc Unit}
    (member : ⟨.runOnce engine started, .call (F := kernel) (.sql (.insertMessage row)) next, log,
      true⟩ ∈ config.procs)
    (learned : System.Reachable.Learned (fun _ entry world => LinesKnown row.runId entry world.db)
      config.world log) :
    ∃ step, NewLine host config.world.db row.runId step row ∧
      (∀ earlier < step, ∃ content,
        config.world.db.HasLine row.runId (stepKey earlier "tool-result") content) ∧
      ∃ run, config.world.db.run row.runId = some run ∧ step ≤ run.stepCount := by
  obtain ⟨claim, event, run, stepping, added⟩ := (reachable_rule reached _ member).head
  have tells := (reached.obeys (program_tells host) rfl _ member).head
  have known := reachable_known reached _ member
  obtain ⟨run', stored, evolves⟩ := Saw.run known stepping.selected
  obtain ⟨_, _, knows⟩ := learned.of_mem stepping.selected
  refine ⟨run.stepCount, ?_, knows.run run rfl stepping.running, run', stored, evolves.stepCount⟩
  rcases added with ⟨call, decided, role, content, key⟩ | ⟨text, decided, role, rfl, key⟩ |
    ⟨call, result, decided, role, _, content, key⟩
  · exact .asks ⟨decided.decidedCall known, key, role, content⟩
  · exact .ends ⟨decided_text reached member decided, key, role⟩
  · obtain ⟨_, kept⟩ := tells run.stepCount key
    exact .tells (decided.decidedCall known) ⟨key, role, _, content⟩ (kept.stored learned)

variable (unresumed : ∀ config registry now,
  ¬ steps config (.spawn (.resumeBlockedEffect registry runId now)))
include unresumed

/-- No process resumes the run. -/
theorem never_resumes {process : Process kernel Exc Call} (member : process ∈ config.procs)
    (now : Time) : process.call ≠ .resumeBlockedEffect registry runId now := by
  have calls := reached.calls
    (P := fun call => ∀ registry now, call ≠ .resumeBlockedEffect registry runId now) ?_ rfl process
    member
  · exact calls registry now
  · rintro config call admitted registry now rfl
    exact unresumed config registry now admitted

/-- The operation that comes next is prepared for the run. -/
theorem next_prepared {call : Call} {op : Op} {next : Except Exc op.Result → Proc Unit}
    (member : ⟨call, .call (F := kernel) op next, log, true⟩ ∈ config.procs)
    (learned : System.Reachable.Learned (fun _ entry world => LinesKnown runId entry world.db)
      config.world log) : Prepared config.world.db runId op where
  advances := by
    rintro step priority now rfl
    have rule := (reachable_rule reached _ member).head
    have tells := (reached.obeys (program_tells host) rfl _ member).head
    cases call with
    | runOnce engine started =>
        obtain ⟨content, kept⟩ := tells
        exact ⟨content, kept.stored learned⟩
    | _ => exact rule.elim
  completes := by
    rintro change text rfl completes ends
    have rule := (reachable_rule reached _ member).head
    have tells := (reached.obeys (program_tells host) rfl _ member).head
    cases call with
    | runOnce engine started =>
        obtain ⟨step, kept⟩ := tells text completes ends
        exact ⟨step, kept.stored learned⟩
    | _ => exact rule.elim
  resumes := by
    rintro now priority rfl
    have rule := (reachable_rule reached _ member).head
    cases call with
    | resumeBlockedEffect registry target started =>
        obtain ⟨rfl, _⟩ := rule
        exact never_resumes reached unresumed member started rfl
    | _ => exact rule.elim

/-- One operation keeps the transcript of the run tidy. -/
theorem tidy_keeps {call : Call} {op : Op} {next : Except Exc op.Result → Proc Unit}
    (member : ⟨call, .call (F := kernel) op next, log, true⟩ ∈ config.procs)
    (learned : System.Reachable.Learned (fun _ entry world => LinesKnown runId entry world.db)
      config.world log) (tidy : config.world.db.Tidy host runId) (answer : Answer) :
    (op.answer host answer config.world).2.db.Tidy host runId := by
  have rule := (reachable_rule reached _ member).head
  have moves := runStep host config.world answer rule.issued runId
  have keeps : ∀ step decision, config.world.db.decision runId step = some decision →
      (op.answer host answer config.world).2.db.decision runId step = some decision :=
    fun _ _ stored => decision_kept host answer op stored
  have prepared := next_prepared reached unresumed member learned
  rcases messages_change host config.world answer op with same | ⟨row, rfl, inserted⟩
  · apply tidy.moved moves prepared keeps
    rw [Db.transcript, Db.transcript, same]
  · have sameRun : (Op.answer host (.sql (.insertMessage row)) answer config.world).2.db.run runId =
        config.world.db.run runId := by
      generalize (Op.answer host _ answer config.world).2.db.run runId = after at moves ⊢
      cases moves
      rfl
    by_cases ofRun : row.runId = runId
    · subst ofRun
      cases call with
      | runOnce engine started =>
          obtain ⟨step, line, behind, isReached⟩ := worker_adds reached member learned
          exact tidy.added inserted rfl line behind isReached sameRun keeps rfl
      | resumeBlockedEffect registry target started =>
          obtain ⟨same, _⟩ := rule
          subst same
          exact absurd rfl (never_resumes reached unresumed member started)
      | _ => exact rule.elim
    · apply tidy.moved moves prepared keeps
      rw [Db.transcript, Db.transcript, Table.rows_insert inserted, List.filter_append]
      simp [ofRun]

/-- In every reachable state the transcript of the run is tidy. -/
theorem reachable_tidy : config.world.db.Tidy host runId := by
  have tidy : KernelConfig.initial.world.db.Tidy host runId := ⟨fun _ => rfl, nofun⟩
  have both := reached.learned_with (I := fun world => world.db.Tidy host runId)
    (fun _ _ entry world => LinesKnown runId entry world.db) tidy ?_ ?_ ?_ rfl
  · exact both.1
  · intro config pid call op next log answer before found _ held learned
    exact tidy_keeps before unresumed (List.mem_of_getElem? found) learned held answer
  · intro config pid call op next log answer _ _ _ held _
    exact .of_answer held answer op
  · intro config pid call op next log answer _ _ _ _ _ older entry known
    exact known.later host answer op

end Reached

/-- Wherever workers die and whoever takes their runs over, the transcript of a run that no host
resumes is a call and its result for each step, in order, and then at most one line more: the call
of the step that is under way, or the text that the run ends with. -/
theorem transcript_in_order (host : Host) (allowed : KernelConfig → Label Answer Call → Prop)
    (runId : String) (config : KernelConfig)
    (unresumed : ∀ config registry now,
      ¬ allowed config (.spawn (.resumeBlockedEffect registry runId now)))
    (reached : (system host).Reachable allowed KernelConfig.initial config) (run : RunRow)
    (stored : config.world.db.run runId = some run) : InOrder host config.world.db run :=
  (reachable_tidy reached unresumed).inOrder run stored

/-- No host resumes the run. -/
def Unresumed (runId : String) : Label Answer Call → Prop
  | .spawn (.resumeBlockedEffect _ target _) => target ≠ runId
  | _ => True

/-- The model replies, and a payment succeeds. -/
def paying (response : ModelResponse) : Answer where
  fault := none
  response := .ok response
  output := .ok (.dict [])

/-- A worker pays, and then ends the run. -/
def paidInFull : List (Label Answer Call) :=
  [.spawn (.submitTask "task" ["money"] 0 none), .act 0 .quiet,
    .spawn (.runOnce (payEngine "a") 0)] ++
  List.replicate 16 (.act 1 (paying (.toolCall (payCall "q")))) ++
  .spawn (.runOnce (payEngine "a") 0) :: List.replicate 10 (.act 2 (paying (.finalText "paid")))

set_option maxRecDepth 10000 in
/-- A payment is told in three lines. -/
theorem transcript_in_order_paid :
    ∃ config run, (system plainHost).Reachable (fun _ label => Unresumed "id-0" label)
        KernelConfig.initial config ∧
      config.world.db.run "id-0" = some run ∧ run.status = .completed ∧
      (config.world.db.transcript "id-0").map MessageRow.content =
        ["tool_call id=q name=pay arguments=\x7b\x7d", "pay => \x7b\x7d", "paid"] ∧
      InOrder plainHost config.world.db run := by
  have free : ∀ label ∈ paidInFull, Unresumed "id-0" label := by
    simp [paidInFull, Unresumed]
  have ran : ((system plainHost).run (fun _ _ => true) KernelConfig.initial paidInFull).any
      (fun config => decide ((config.world.db.run "id-0").map RunRow.status = some .completed ∧
        (config.world.db.transcript "id-0").map MessageRow.content =
          ["tool_call id=q name=pay arguments=\x7b\x7d", "pay => \x7b\x7d", "paid"])) = true := by
    decide +kernel
  obtain ⟨config, guarded, checked⟩ := System.Reachable.exists_of_run_each _ free ran
  obtain ⟨completed, told⟩ := of_decide_eq_true checked
  obtain ⟨run, stored, isCompleted⟩ := Option.map_eq_some_iff.1 completed
  have reached : (system plainHost).Reachable (fun _ label => Unresumed "id-0" label)
      KernelConfig.initial config := guarded.mono fun _ _ both => both.1
  refine ⟨config, run, reached, stored, isCompleted, told, ?_⟩
  apply transcript_in_order plainHost _ "id-0" config _ reached run stored
  exact fun _ _ _ resumed => resumed rfl

end PreActive.Kernel
