/-
Module: PreActive.Kernel.Retries
Purpose: Attempts to resume a blocked run, one after another, each of which may be killed anywhere,
  with reconciliations in between.
Trusted boundary: human-reviewed spec
Main exports: HostSteps, Waits, TakenOn, Kept, resumes_crash_idempotent
-/
import PreActive.Foundation.Sequence
import PreActive.Kernel.Dispatch
import PreActive.Kernel.Recovery

namespace PreActive.Kernel

open PreActive.Foundation PreActive.Python
open Program

variable {host : Host} {registry : ToolRegistry} {world world' : World} {α β : Type}
variable {runId requestId : String} {now : Time}

/-! ### Attempts -/

/-- A handler that returns, returns a JSON object. -/
def JsonOutput (answer : Answer) : Prop :=
  ∀ output, answer.output = .ok output → ∃ object : JsonObject, object.value = output

/-- Nothing that was started has something left to do. -/
def allIdle (config : KernelConfig) : Bool :=
  config.procs.all fun process => process.nextOp.isNone

/-- The host resumes a run or reconciles a request. -/
inductive Recovering (registry : ToolRegistry) : Call → Prop where
  | resume (runId : String) (now : Time) :
      Recovering registry (.resumeBlockedEffect registry runId now)
  | reconcile (requestId : String) (effectOccurred : Bool) (evidenceDigest : String) (now : Time)
      (result : Option PyVal) :
      Recovering registry (.reconcile requestId effectOccurred evidenceDigest now result)

/-- What a host with these tools starts, and what its handlers answer. -/
def HostLabel (registry : ToolRegistry) : Label Answer Call → Prop
  | .spawn started => Recovering registry started
  | .act _ answer => JsonOutput answer
  | .die _ => True

/-- The next attempt starts when the one before it has ended or died. -/
def oneAttempt (config : KernelConfig) : Label Answer Call → Bool
  | .spawn _ => allIdle config
  | _ => true

/-- The steps of one host that resumes runs and reconciles requests, one call at a time. -/
def HostSteps (registry : ToolRegistry) (config : KernelConfig) (label : Label Answer Call) : Prop :=
  HostLabel registry label ∧ oneAttempt config label = true

/-! ### What is counted -/

/-- How often the run was taken on after an effect. -/
def recoveries (world : World) (runId : String) : Nat :=
  world.db.journal.countP fun entry =>
    entry.eventType == .runEffectRecovered && entry.subjectId == some runId

/-- How often a handler was called under the request id. -/
def callsUnder (world : World) (requestId : String) : Nat :=
  world.calls.countP fun made => made.call.requestId == requestId

/-- One if the request may be executed again, else zero. -/
def retriable (row : Option EffectRow) : Nat :=
  if row.any fun row => row.state == .reconciledNoEffect then 1 else 0

/-! ### Before and after -/

/-- The blocked run as it was, and nothing yet of its next step. -/
structure Waits (start : World) (run : RunRow) (world : World) : Prop where
  stored : world.db.run run.id = some run
  unrecovered : recoveries world run.id = recoveries start run.id
  slot : world.db.existing (some (runStepKey run.id (run.stepCount + 1))) =
    start.db.existing (some (runStepKey run.id (run.stepCount + 1)))

/-- The run has left its block once: it runs at the next step, with one journal entry more, one
event of that step and one message under the request. -/
structure TakenOn (start : World) (run : RunRow) (requestId : String) (world : World) : Prop where
  moved : ∃ row, world.db.run run.id = some row ∧ row.status = .running ∧
    row.stepCount = run.stepCount + 1 ∧ row.blockedRequestId = none
  recovered : recoveries world run.id = recoveries start run.id + 1
  event : ∃! row, row ∈ world.db.events.rows ∧ row.IsStep run.id (run.stepCount + 1)
  message : ∃! row, row ∈ world.db.messages.rows ∧ row.runId = run.id ∧
    row.messageKey = some (reconciledKey requestId)

/-- The message reports the committed result of the row. -/
def MessageRow.Reports (message : MessageRow) (ledger : Option EffectRow) : Prop :=
  ∃ row output, ledger = some row ∧ row.state = .committed ∧
    loadsResult row.resultJson = .ok output ∧ message.role = .tool ∧
      reconciledContent row.toolName output = .ok message.content

/-- What every attempt keeps. -/
structure Kept (start : World) (run : RunRow) (requestId : String) (row : EffectRow)
    (world : World) : Prop where
  phase : Waits start run world ∨ TakenOn start run requestId world
  ledger : ∃ row', world.db.effect requestId = some row' ∧ row.SameRequest row'
  calls : callsUnder world requestId + retriable (world.db.effect requestId) ≤
    callsUnder start requestId + noEffectReports world requestId
  message : ∀ message, world.db.message run.id (reconciledKey requestId) = some message →
    start.db.message run.id (reconciledKey requestId) = some message ∨
      message.Reports (world.db.effect requestId)
  sole : ∀ runId other, world.db.run runId = some other → other.status = .blockedEffect →
    other.blockedRequestId = some requestId → runId = run.id

section Keeping

variable {start : World} {run : RunRow} {row old new : EffectRow}

/-- The step or the part leaves alone what concerns the request. -/
structure Untouched (requestId : String) (world world' : World) : Prop where
  runs : world'.db.runs = world.db.runs
  messages : world'.db.messages = world.db.messages
  events : world'.db.events = world.db.events
  journal : world'.db.journal = world.db.journal
  ledger : world'.db.effect requestId = world.db.effect requestId
  calls : callsUnder world' requestId = callsUnder world requestId
  reports : noEffectReports world' requestId = noEffectReports world requestId

/-- What a step that leaves the runs, the events and the journal alone keeps of the phase. -/
theorem phase_kept (phase : Waits start run world ∨ TakenOn start run requestId world)
    (runs : world'.db.runs = world.db.runs) (messages : world'.db.messages = world.db.messages)
    (events : world'.db.events = world.db.events) (journal : world'.db.journal = world.db.journal) :
    Waits start run world' ∨ TakenOn start run requestId world' := by
  have sameRun : world'.db.run run.id = world.db.run run.id := by rw [Db.run, runs, Db.run]
  have sameCount : recoveries world' run.id = recoveries world run.id := by
    rw [recoveries, journal, recoveries]
  rcases phase with waits | taken
  · refine .inl ⟨sameRun.trans waits.stored, sameCount.trans waits.unrecovered, ?_⟩
    simpa only [Db.existing, Db.eventByKey, events] using waits.slot
  · refine .inr ⟨sameRun ▸ taken.moved, sameCount.trans taken.recovered, ?_, ?_⟩
    · rw [events]
      exact taken.event
    · rw [messages]
      exact taken.message

theorem Kept.untouched (kept : Kept start run requestId row world)
    (same : Untouched requestId world world') : Kept start run requestId row world' where
  phase := phase_kept kept.phase same.runs same.messages same.events same.journal
  ledger := same.ledger ▸ kept.ledger
  calls := by
    rw [same.calls, same.ledger, same.reports]
    exact kept.calls
  message := by
    rw [same.ledger, Db.message, same.messages]
    exact kept.message
  sole := by
    intro runId other stored
    rw [Db.run, same.runs] at stored
    exact kept.sole runId other stored

/-- A step on the row of the request, which had no committed result to report. -/
theorem Kept.ledgerStep (kept : Kept start run requestId row world)
    (runs : world'.db.runs = world.db.runs) (messages : world'.db.messages = world.db.messages)
    (events : world'.db.events = world.db.events) (journal : world'.db.journal = world.db.journal)
    (before : world.db.effect requestId = some old) (uncommitted : old.state ≠ .committed)
    (after : world'.db.effect requestId = some new) (same : old.SameRequest new)
    (calls : callsUnder world' requestId + retriable (some new) ≤
      callsUnder start requestId + noEffectReports world' requestId) :
    Kept start run requestId row world' where
  phase := phase_kept kept.phase runs messages events journal
  ledger := by
    obtain ⟨stored, there, first⟩ := kept.ledger
    obtain rfl := Option.some.inj (before.symm.trans there)
    exact ⟨new, after, first.trans same⟩
  calls := after ▸ calls
  message := by
    intro message there
    rw [Db.message, messages] at there
    refine (kept.message message there).imp_right ?_
    rintro ⟨stored, _, isOld, committed, _⟩
    obtain rfl := Option.some.inj (before.symm.trans isOld)
    exact absurd committed uncommitted
  sole := by
    intro runId other stored
    rw [Db.run, runs] at stored
    exact kept.sole runId other stored

/-! ### Ledger statements -/

theorem untouched_updateEffects {other : String} (apart : other ≠ requestId)
    {f : EffectRow → EffectRow} (keeps : ∀ row, UniqueKeys.key (f row) = UniqueKeys.key row) :
    Untouched requestId world (updateEffects world other f keeps) where
  runs := rfl
  messages := rfl
  events := rfl
  journal := rfl
  ledger := by
    rw [effect_updateEffects]
    cases stored : world.db.effect requestId with
    | none => rfl
    | some row =>
        have named := (Db.effect_eq_some.1 stored).2
        rw [Option.map_some, if_neg fun same => apart (same.symm.trans named)]
  calls := rfl
  reports := rfl

theorem callsUnder_handled (handled : HandlerCall) (output : Except Exc PyVal) :
    callsUnder { world with calls := world.calls ++ [⟨handled, output⟩] } requestId =
      callsUnder world requestId + if handled.requestId = requestId then 1 else 0 := by
  simp [callsUnder, List.countP_append, List.countP_singleton]

theorem untouched_handled {handled : HandlerCall} (apart : handled.requestId ≠ requestId)
    (output : Except Exc PyVal) :
    Untouched requestId world { world with calls := world.calls ++ [⟨handled, output⟩] } where
  runs := rfl
  messages := rfl
  events := rfl
  journal := rfl
  ledger := rfl
  calls := by rw [callsUnder_handled, if_neg apart, Nat.add_zero]
  reports := rfl

theorem untouched_insertEffect {fresh : EffectRow} {effects : Table EffectRow}
    (inserted : world.db.effects.insert fresh = some effects) (apart : fresh.requestId ≠ requestId) :
    Untouched requestId world { world with db := { world.db with effects := effects } } where
  runs := rfl
  messages := rfl
  events := rfl
  journal := rfl
  ledger := by
    have selected := Table.select_insert (fun row => row.requestId == requestId) inserted
    rw [if_neg (by simpa using apart), Option.or_none] at selected
    exact selected
  calls := rfl
  reports := rfl

end Keeping

/-! ### Programs -/

/-- Whatever its handlers answer, as long as it is JSON, the program keeps the invariant wherever
it is killed, and a value it returns is as described. -/
def Keeps (host : Host) (I : World → Prop) (P : α → World → Prop) (program : Proc α)
    (world : World) : Prop :=
  program.Secures (kernelMachine host) JsonOutput I (Returning P) world

section Rules

variable {I : World → Prop}

theorem Keeps.done {P : α → World → Prop} {value : α} (holds : I world) (ends : P value world) :
    Keeps host I P (.done value) world := ⟨holds, ends⟩

theorem Keeps.raise {P : α → World → Prop} (holds : I world) (exc : Exc) :
    Keeps host I P (.raise exc) world := ⟨holds, trivial⟩

theorem Keeps.seq {M : α → World → Prop} {P : β → World → Prop} {first : Proc α}
    {next : α → Proc β} (keeps : Keeps host I M first world)
    (rest : ∀ value world', I world' → M value world' → Keeps host I P (next value) world') :
    Keeps host I P (first.bind next) world :=
  Secures.seq keeps rest

theorem Keeps.weaken {P P' : α → World → Prop} {program : Proc α}
    (keeps : Keeps host I P program world) (ends : ∀ value world', P value world' → P' value world') :
    Keeps host I P' program world := by
  refine Secures.weaken keeps fun outcome world' _ returned => ?_
  cases outcome with
  | ok value => exact ends value world' returned
  | error exc => trivial

theorem Keeps.ofExcept {outcome : Except Exc α} {next : α → Proc β}
    {P : β → World → Prop}
    (holds : I world) (rest : ∀ value, outcome = .ok value → Keeps host I P (next value) world) :
    Keeps host I P ((Program.ofExcept outcome).bind next) world := by
  cases outcome with
  | error exc => exact .raise holds exc
  | ok value => exact rest value rfl

theorem Keeps.op (op : Op) {P : op.Result → World → Prop} (before : I world)
    (after : ∀ answer, JsonOutput answer → I (op.answer host answer world).2 ∧
      ∀ value, (op.answer host answer world).1 = .ok value →
        P value (op.answer host answer world).2) : Keeps host I P op.perform world := by
  refine ⟨before, fun answer json => ?_⟩
  obtain ⟨holds, ends⟩ := after answer json
  change (Program.ofExcept (op.answer host answer world).1).Secures (F := kernel) _ _ _ _
    (op.answer host answer world).2
  refine .ofExcept holds ?_
  cases result : (op.answer host answer world).1 with
  | error exc => trivial
  | ok value => exact ends value result

/-- One statement, which may also fail and then changes nothing. -/
theorem Keeps.sql (stmt : Stmt) {P : (Op.sql stmt).Result → World → Prop} (before : I world)
    (after : I (stmt.exec host world).2)
    (ends : ∀ value, (stmt.exec host world).1 = .ok value → P value (stmt.exec host world).2) :
    Keeps host I P (Op.sql stmt).perform world := by
  refine .op (.sql stmt) before fun answer _ => ?_
  cases fault : answer.fault with
  | some fault' =>
      simp only [Op.answer, fault]
      exact ⟨before, fun _ impossible => by cases impossible⟩
  | none =>
      simp only [Op.answer, fault]
      exact ⟨after, ends⟩

/-- One statement of a method that the store runs, with whatever the method does with its answer. -/
theorem Keeps.statement (stmt : Stmt) {P : α → World → Prop} {next : Except Exc stmt.Result → Proc α}
    (before : I world) (failed : ∀ exc, Keeps host I P (next (.error exc)) world)
    (rest : Keeps host I P (next (stmt.exec host world).1) (stmt.exec host world).2) :
    Keeps host I P (.call (F := kernel) (.sql stmt) next) world := by
  refine ⟨before, fun answer _ => ?_⟩
  change Keeps host I P (next (Op.answer host (.sql stmt) answer world).1)
    (Op.answer host (.sql stmt) answer world).2
  cases fault : answer.fault with
  | some fault' =>
      simp only [Op.answer, fault]
      exact failed _
  | none =>
      simp only [Op.answer, fault]
      exact rest

/-- A statement that is refused and changes nothing fails like a faulty one. -/
theorem Keeps.attempted (stmt : Stmt) {P : α → World → Prop} {next : Except Exc stmt.Result → Proc α}
    (before : I world) (failed : ∀ exc, Keeps host I P (next (.error exc)) world)
    (rest : (∃ exc, stmt.exec host world = (.error exc, world)) ∨
      Keeps host I P (next (stmt.exec host world).1) (stmt.exec host world).2) :
    Keeps host I P (.call (F := kernel) (.sql stmt) next) world := by
  refine .statement stmt before failed ?_
  rcases rest with ⟨exc, executed⟩ | rest
  · rw [executed]
    exact failed exc
  · exact rest

/-- A handler call whose outcome is looked at. -/
theorem Keeps.handled {handled : HandlerCall} {P : α → World → Prop}
    {next : Except Exc PyVal → Proc α} (before : I world)
    (failed : ∀ exc, Keeps host I P (next (.error exc))
      { world with calls := world.calls ++ [⟨handled, .error exc⟩] })
    (returned : ∀ object : JsonObject, Keeps host I P (next (.ok object.value))
      { world with calls := world.calls ++ [⟨handled, .ok object.value⟩] }) :
    Keeps host I P ((Op.handler handled).perform.attempt.bind next) world := by
  refine ⟨before, fun answer json => ?_⟩
  change Keeps host I P ((Program.ofExcept answer.output : Proc PyVal).attempt.bind next)
    { world with calls := world.calls ++ [⟨handled, answer.output⟩] }
  rw [Program.ofExcept_attempt, Program.done_bind]
  cases result : answer.output with
  | error exc => exact failed exc
  | ok value =>
      obtain ⟨object, rfl⟩ := json value result
      exact returned object

/-- A query, and what is done with its answer. -/
theorem Keeps.lookup (stmt : Stmt) {value : stmt.Result} {P : α → World → Prop}
    {next : stmt.Result → Proc α} (answers : stmt.exec host world = (.ok value, world))
    (before : I world) (rest : Keeps host I P (next value) world) :
    Keeps host I P ((Op.sql stmt).perform.bind next) world := by
  refine Keeps.seq (M := fun value' world' => value' = value ∧ world' = world) ?_ ?_
  · refine .sql stmt before (by rw [answers]; exact before) fun value' same => ?_
    rw [answers] at same ⊢
    exact ⟨(Except.ok.inj same).symm, rfl⟩
  · rintro _ _ _ ⟨rfl, rfl⟩
    exact rest

end Rules

section Attempts

variable {start : World} {run : RunRow} {row : EffectRow}

/-- The request is recovered: the row holds the returned result. -/
def RecoveredAs (requestId : String) (result : ToolExecution) (world : World) : Prop :=
  ∃ row, world.db.effect requestId = some row ∧ row.state = .committed ∧
    row.toolName = result.toolName ∧ loadsResult row.resultJson = .ok result.output

/-- The call was just admitted: its row waits for an outcome, and one handler call more is accounted
for. -/
structure Admitted (start : World) (requestId : String) (call : ToolCall) (world : World) : Prop where
  executing : ∃ old, world.db.effect requestId = some old ∧ old.state = .executing ∧
    old.toolName = call.name
  spare : callsUnder world requestId + 1 ≤ callsUnder start requestId + noEffectReports world requestId

/-- A handler call and the write of its outcome. -/
theorem dispatchMutation_keeps {call : ToolCall} {spec : ToolSpec}
    (kept : Kept start run requestId row world)
    (admitted : call.requestId = requestId → Admitted start requestId call world) :
    Keeps host (Kept start run requestId row)
      (fun result world' => call.requestId = requestId → RecoveredAs requestId result world')
      (dispatchMutation host spec call now) world := by
  let handled : HandlerCall := ⟨spec, call.arguments, call.requestId⟩
  -- the handler call, which uses up what was accounted for
  have invoked : ∀ output, Kept start run requestId row
      { world with calls := world.calls ++ [⟨handled, output⟩] } := by
    intro output
    by_cases named : call.requestId = requestId
    · obtain ⟨⟨old, stored, executing, _⟩, spare⟩ := admitted named
      refine kept.ledgerStep rfl rfl rfl rfl stored (by rw [executing]; decide) stored (.refl _) ?_
      rw [callsUnder_handled, if_pos named, retriable, Option.any_some, executing]
      exact spare
    · exact kept.untouched (untouched_handled named output)
  -- the write of the outcome
  have settled : ∀ output (f : EffectRow → EffectRow)
      (keeps : ∀ row, UniqueKeys.key (f row) = UniqueKeys.key row),
      (∀ old : EffectRow, old.SameRequest (f old)) →
      (∀ old : EffectRow, (f old).state ≠ .reconciledNoEffect) →
        Kept start run requestId row (updateEffects
          { world with calls := world.calls ++ [⟨handled, output⟩] } call.requestId f keeps) := by
    intro output f keeps same uncleared
    by_cases named : call.requestId = requestId
    · obtain ⟨⟨old, stored, executing, _⟩, _⟩ := admitted named
      have accounted := (invoked output).calls
      refine (invoked output).ledgerStep rfl rfl rfl rfl stored (by rw [executing]; decide)
        (named ▸ effect_updateEffects_self (named ▸ stored) keeps) (same old) ?_
      have unclearedNow : retriable (some (f old)) = 0 := by simp [retriable, uncleared old]
      rw [unclearedNow]
      exact (Nat.le_add_right _ _).trans accounted
    · exact (invoked output).untouched (untouched_updateEffects named keeps)
  refine .handled kept ?_ ?_
  · intro exc
    refine Keeps.seq (M := fun _ _ => True) ?_ fun _ _ kept' _ => .raise kept' exc
    refine .sql (.attemptUnknown call.requestId now) (invoked _) ?_ fun _ _ => trivial
    exact settled _ (EffectRow.attempted now) (fun _ => rfl)
      (fun _ => ⟨rfl, rfl, rfl, rfl, rfl⟩) fun _ => by simp [EffectRow.attempted]
  · intro object
    simp only [canonicalJson, object.dumps_eq, Program.ofExcept_ok, Program.bind_eq_bind,
      Program.done_bind]
    refine Keeps.seq (M := fun _ world' => call.requestId = requestId → RecoveredAs requestId
      ⟨call.requestId, call.name, object.value, false, ""⟩ world') ?_ ?_
    · refine .sql (.commitEffect call.requestId _ _ now) (invoked _) ?_ ?_
      · exact settled _ (EffectRow.committed (object.text canonicalStyle) _ now) (fun _ => rfl)
          (fun _ => ⟨rfl, rfl, rfl, rfl, rfl⟩) fun _ => by simp [EffectRow.committed]
      · intro _ _ named
        subst named
        obtain ⟨⟨old, stored, executing, tool⟩, _⟩ := admitted rfl
        have written := @effect_updateEffects_self
          { world with calls := world.calls ++ [⟨handled, .ok object.value⟩] } call.requestId old stored
          (EffectRow.committed (object.text canonicalStyle)
            (host.sha256 (object.text canonicalStyle)) now) fun _ => rfl
        exact ⟨_, written, rfl, tool, object.loads_text canonicalStyle⟩
    · intro _ _ kept' recovered
      exact .done kept' recovered

/-- A committed row is replayed. -/
theorem replay_keeps {I : World → Prop} {stored : EffectRow} {target : String} (holds : I world)
    (found : world.db.effect target = some stored) (committed : stored.state = .committed) :
    Keeps host I (fun result world' => target = requestId → RecoveredAs requestId result world')
      (replay target stored.toolName stored) world := by
  refine .ofExcept holds fun output read => .done holds ?_
  rintro rfl
  exact ⟨stored, found, committed, rfl, read⟩

/-- A re-admission uses up what a reconciliation allowed. -/
theorem readmit_keeps {call : ToolCall} {stored : EffectRow}
    (kept : Kept start run requestId row world)
    (found : world.db.effect call.requestId = some stored) (tool : stored.toolName = call.name)
    (cleared : stored.state = .reconciledNoEffect) :
    Keeps host (Kept start run requestId row)
      (fun _ world' => call.requestId = requestId → Admitted start requestId call world')
      (Op.sql (.readmitEffect call.requestId now)).perform world := by
  have accounted := kept.calls
  by_cases named : call.requestId = requestId
  · subst named
    have readmitted := effect_updateEffects_self found (f := EffectRow.readmitted now) fun _ => rfl
    rw [found, retriable, Option.any_some, cleared] at accounted
    refine .sql (.readmitEffect call.requestId now) kept ?_ ?_
    · refine kept.ledgerStep rfl rfl rfl rfl found (by rw [cleared]; decide) readmitted
        ⟨rfl, rfl, rfl, rfl, rfl⟩ ?_
      exact (Nat.le_succ _).trans accounted
    · intro _ _ _
      exact ⟨⟨_, readmitted, rfl, tool⟩, accounted⟩
  · refine .sql (.readmitEffect call.requestId now) kept ?_ fun _ _ same => absurd same named
    exact kept.untouched (untouched_updateEffects named _)

theorem executeMutation_keeps {call : ToolCall} {spec : ToolSpec}
    (kept : Kept start run requestId row world) :
    Keeps host (Kept start run requestId row)
      (fun result world' => call.requestId = requestId → RecoveredAs requestId result world')
      (executeMutation host spec call now) world := by
  refine .lookup (.selectEffect call.requestId) rfl kept ?_
  cases found : world.db.effect call.requestId with
  | none =>
      have apart : call.requestId ≠ requestId := by
        rintro rfl
        obtain ⟨stored, there, _⟩ := kept.ledger
        rw [found] at there
        cases there
      refine Keeps.seq (M := fun _ _ => True) (.sql (.insertEffect (freshEffect host call now)) kept
        ?_ fun _ _ => trivial) fun _ _ kept' _ => dispatchMutation_keeps kept' fun same => absurd same apart
      simp only [Stmt.exec]
      split
      · rename_i effects inserted
        exact kept.untouched (untouched_insertEffect inserted apart)
      · exact kept
  | some stored =>
      simp only
      split
      · exact .raise kept _
      · rename_i agrees
        have tool : stored.toolName = call.name := by
          by_contra differs
          exact agrees (.inr differs)
        split
        · rename_i committed
          rw [← tool]
          exact replay_keeps kept found committed
        · rename_i cleared
          exact .seq (readmit_keeps kept found tool cleared) fun _ _ kept' admitted =>
            dispatchMutation_keeps kept' admitted
        · exact .raise kept _

theorem executeReadOnly_keeps {call : ToolCall} {spec : ToolSpec}
    (kept : Kept start run requestId row world) (apart : call.requestId ≠ requestId) :
    Keeps host (Kept start run requestId row)
      (fun result world' => call.requestId = requestId → RecoveredAs requestId result world')
      (executeReadOnly host spec call) world := by
  refine Keeps.seq (M := fun _ _ => True) ?_ ?_
  · refine .op (.handler ⟨spec, call.arguments, call.requestId⟩) kept fun answer _ => ?_
    exact ⟨kept.untouched (untouched_handled apart _), fun _ _ => trivial⟩
  · intro output world' kept' _
    exact .ofExcept kept' fun _ _ => .done kept' fun same => absurd same apart

/-- `execute`, when the tool of the request in question is a mutation. -/
theorem execute_keeps {call : ToolCall} {allowed : List String}
    (kept : Kept start run requestId row world)
    (mutation : call.requestId = requestId →
      ∀ spec, registry.find call.name = some spec → spec.mutation = true) :
    Keeps host (Kept start run requestId row)
      (fun result world' => call.requestId = requestId → RecoveredAs requestId result world')
      (registry.execute host call allowed now) world := by
  refine Keeps.seq (M := fun _ world' => world' = world) ?_ ?_
  · exact .op (.enterExecute call allowed) kept fun _ _ => ⟨kept, fun _ _ => rfl⟩
  rintro _ _ _ rfl
  split
  · exact .raise kept _
  · rename_i spec found
    split
    · exact .raise kept _
    · split
      · exact .raise kept _
      · split
        · exact executeMutation_keeps kept
        · rename_i readOnly
          exact executeReadOnly_keeps kept fun named => readOnly (mutation named spec found)

/-- A stored request is a call of a mutation, as it was admitted. -/
structure StoredMutation (registry : ToolRegistry) (row : EffectRow) (call : ToolCall) : Prop where
  requestJson : row.requestJson = some (requestText call.name call.arguments)
  mutation : ∀ spec, registry.find call.name = some spec → spec.mutation = true

theorem EffectRow.AdmittedFor.storedMutation {db : Db} {call : ToolCall}
    (admitted : row.AdmittedFor host registry db runId call) : StoredMutation registry row call where
  requestJson := admitted.requestJson
  mutation := by
    intro spec found
    obtain ⟨_, _, admissible⟩ := admitted.admissible
    obtain ⟨spec', granted, mutation⟩ := ToolRegistry.admissible_granted admissible
    obtain rfl := Option.some.inj (found.symm.trans granted.found)
    exact mutation

/-- What `recover_reconciled` returns for the request is the committed result of its row. -/
theorem recoverReconciled_keeps {target : String} {allowed : List String} {call : ToolCall}
    (kept : Kept start run requestId row world) (stored : StoredMutation registry row call) :
    Keeps host (Kept start run requestId row)
      (fun result world' => target = requestId → RecoveredAs requestId result world')
      (registry.recoverReconciled host target allowed now) world := by
  refine .lookup (.selectEffect target) rfl kept ?_
  cases found : world.db.effect target with
  | none => exact .raise kept _
  | some there =>
      simp only
      split
      · rename_i committed
        exact replay_keeps kept found committed
      · split
        · exact .raise kept _
        · exact .raise kept _
        · rename_i json _ isJson
          refine .ofExcept kept fun payload read => .ofExcept kept fun call' decoded => ?_
          obtain rfl := storedCall_requestId decoded
          refine execute_keeps kept fun named spec found' => ?_
          -- the row of the request in question decodes to the call it was admitted for
          subst named
          obtain ⟨there', isThere, same⟩ := kept.ledger
          obtain rfl := Option.some.inj (found.symm.trans isThere)
          have sameJson := Option.some.inj
            (isJson.symm.trans (same.requestJson.trans stored.requestJson))
          rw [sameJson, requestText, JsonObject.loads_text, Except.ok.injEq] at read
          rw [← read, storedCall_requestPayload ⟨call'.requestId, call.name, call.arguments⟩,
            Except.ok.injEq] at decoded
          rw [← decoded] at found'
          exact stored.mutation spec found'
      · exact .raise kept _

/-! ### The message -/

theorem Db.message_unique {db : Db} {messageKey : String} {message : MessageRow}
    (stored : db.message runId messageKey = some message) :
    ∃! row, row ∈ db.messages.rows ∧ row.runId = runId ∧ row.messageKey = some messageKey := by
  refine ⟨message, Db.message_eq_some.1 stored, fun other there => ?_⟩
  exact Option.some.inj ((Db.message_eq_some.2 there).symm.trans stored)

/-- A message that is added. -/
theorem Kept.insertMessage (kept : Kept start run requestId row world) {message : MessageRow}
    {messages : Table MessageRow} (inserted : world.db.messages.insert message = some messages)
    (reports : message.runId = run.id → message.messageKey = some (reconciledKey requestId) →
      message.Reports (world.db.effect requestId)) :
    Kept start run requestId row { world with db := { world.db with messages := messages } } where
  phase := by
    rcases kept.phase with waits | taken
    · exact .inl ⟨waits.stored, waits.unrecovered, waits.slot⟩
    · refine .inr ⟨taken.moved, taken.recovered, taken.event, ?_⟩
      obtain ⟨old, there, _⟩ := taken.message
      have added : old ∈ messages.rows := by
        rw [Table.rows_insert inserted]
        exact List.mem_append_left _ there.1
      have stored : Db.message { world.db with messages := messages } run.id
          (reconciledKey requestId) = some old := Db.message_eq_some.2 ⟨added, there.2⟩
      exact Db.message_unique stored
  ledger := kept.ledger
  calls := kept.calls
  message := by
    intro found there
    obtain ⟨member, named, keyed⟩ := Db.message_eq_some.1 there
    change found ∈ messages.rows at member
    rw [Table.rows_insert inserted, List.mem_append, List.mem_singleton] at member
    rcases member with old | rfl
    · exact kept.message found (Db.message_eq_some.2 ⟨old, named, keyed⟩)
    · exact .inr (reports named keyed)
  sole := kept.sole

/-- After the record of a keyed message there is a message under its key. -/
theorem recordRunMessage_keeps {target key content : String}
    (kept : Kept start run requestId row world)
    (reports : target = run.id → key = reconciledKey requestId → ∃ stored output,
      world.db.effect requestId = some stored ∧ stored.state = .committed ∧
        loadsResult stored.resultJson = .ok output ∧
          reconciledContent stored.toolName output = .ok content) :
    Keeps host (Kept start run requestId row)
      (fun _ world' => ∃ message, world'.db.message target key = some message)
      (recordRunMessage target .tool content now (some key)).proc world := by
  simp only [recordRunMessage, Stmt.perform, Program.perform, Program.bind_eq_bind,
    Program.call_attempt, Program.call_bind, Sql.proc_call, Program.ofExcept_attempt,
    Program.done_bind]
  let message : MessageRow := ⟨target, .tool, content, some key, now⟩
  refine .attempted (.insertMessage message) kept (fun exc => ?_) ?_
  · -- a refused insertion looks for the message that is there
    simp only
    split
    · rw [Sql.proc_call]
      refine .statement (.selectMessageByKey target key) kept (fun exc' => .raise kept exc') ?_
      simp only [Stmt.exec, Program.ofExcept_ok, Program.done_bind]
      split
      · exact .raise kept exc
      · rename_i stored found
        split
        · exact .raise kept _
        · exact .done kept ⟨stored, found⟩
    · exact .raise kept exc
  by_cases known : (world.db.runs.rows.any fun other => other.id == target) = true
  · cases inserted : world.db.messages.insert message with
    | some messages =>
        have executed : (Stmt.insertMessage message).exec host world =
            (.ok (), { world with db := { world.db with messages := messages } }) := by
          simp only [Stmt.exec, known, inserted, if_true, message]
        rw [executed]
        refine .inr (.done (kept.insertMessage inserted fun named keyed => ?_) ⟨message, ?_⟩)
        · obtain ⟨stored, output, there, committed, read, printed⟩ :=
            reports named (Option.some.inj keyed)
          exact ⟨stored, output, there, committed, read, rfl, printed⟩
        · refine Db.message_eq_some.2 ⟨?_, rfl, rfl⟩
          change message ∈ messages.rows
          rw [Table.rows_insert inserted]
          exact List.mem_append_right _ (List.mem_singleton.2 rfl)
    | none =>
        have executed : (Stmt.insertMessage message).exec host world =
            (.error (uniqueFailed "run_messages.run_id, run_messages.message_key"), world) := by
          simp only [Stmt.exec, known, inserted, if_true, message]
        exact .inl ⟨_, executed⟩
  · have executed : (Stmt.insertMessage message).exec host world =
        (.error foreignKeyFailed, world) := by
      simp only [Stmt.exec, known, message]
      rfl
    exact .inl ⟨_, executed⟩

/-! ### The transition -/

theorem Enqueues.recoveries {request : EventRequest} {eventId : String}
    (enqueued : Enqueues host request world eventId world') :
    recoveries world' runId = recoveries world runId := by
  cases enqueued with
  | reused row found same => rfl
  | fresh events absent inserted =>
      simp [Kernel.recoveries, EventRequest.journalRow, List.countP_append]

theorem Enqueues.events_kept {request : EventRequest} {eventId : String} {event : EventRow}
    (enqueued : Enqueues host request world eventId world') (member : event ∈ world.db.events.rows) :
    event ∈ world'.db.events.rows := by
  cases enqueued with
  | reused row found same => exact member
  | fresh events absent inserted =>
      change event ∈ events.rows
      rw [Table.rows_insert inserted]
      exact List.mem_append_left _ member

/-- Only the event under its own key is added. -/
theorem Enqueues.existing_kept {request : EventRequest} {eventId key : String}
    (enqueued : Enqueues host request world eventId world') (other : request.dedupKey ≠ some key) :
    world'.db.existing (some key) = world.db.existing (some key) := by
  cases enqueued with
  | reused row found same => rfl
  | fresh events absent inserted =>
      have selected := Table.select_insert (fun row : EventRow => row.dedupKey == some key) inserted
      have apart : (request.row (host.uuid4 world.drawn)).dedupKey ≠ some key := other
      rw [if_neg (by simpa using apart), Option.or_none] at selected
      simp only [Db.existing, Option.bind_some, Db.eventByKey, selected]

/-- The step event of a generation is the only one. -/
theorem Db.step_unique {db : Db} {step : Nat}
    (there : ∃ row ∈ db.events.rows, row.IsStep runId step) :
    ∃! row, row ∈ db.events.rows ∧ row.IsStep runId step := by
  obtain ⟨row, member, isStep⟩ := there
  refine ⟨row, ⟨member, isStep⟩, fun other both => ?_⟩
  have first := Db.eventByKey_eq_some.2 ⟨member, isStep.key⟩
  have second := Db.eventByKey_eq_some.2 ⟨both.1, both.2.key⟩
  exact Option.some.inj (second.symm.trans first)

/-- The transition of the blocked run takes it on, once its message is recorded. -/
theorem Kept.resumed {eventId : String} (kept : Kept start run requestId row world)
    (stored : world.db.run run.id = some run) (blocked : run.status = .blockedEffect)
    (recorded : ∃ message, world.db.message run.id (reconciledKey requestId) = some message)
    (enqueued : Enqueues host (runStepRequest run.id (run.stepCount + 1) 0 now)
      (resumedWorld world run.id run.stepCount now) eventId world') :
    TakenOn start run requestId world' := by
  have waits : Waits start run world := by
    rcases kept.phase with waits | taken
    · exact waits
    · obtain ⟨other, there, running, _⟩ := taken.moved
      obtain rfl := Option.some.inj (stored.symm.trans there)
      rw [blocked] at running
      cases running
  obtain ⟨events, journal, drawn, same⟩ := enqueued.touches
  constructor
  · exact (enqueued.resumed stored blocked).1
  · rw [enqueued.recoveries, ← waits.unrecovered]
    simp [recoveries, resumedWorld, updateRuns, List.countP_append]
  · obtain ⟨event, member, isStep, _⟩ := enqueued.hasStep
    exact Db.step_unique ⟨event, member, isStep⟩
  · obtain ⟨message, there⟩ := recorded
    have kept' : world'.db.message run.id (reconciledKey requestId) = some message := by
      rw [same]
      exact there
    exact Db.message_unique kept'

/-- The transition of another run. -/
theorem phase_resumedOther {other : RunRow} {eventId : String}
    (phase : Waits start run world ∨ TakenOn start run requestId world)
    (stored : world.db.run other.id = some other) (blocked : other.status = .blockedEffect)
    (apart : other.id ≠ run.id)
    (enqueued : Enqueues host (runStepRequest other.id (other.stepCount + 1) 0 now)
      (resumedWorld world other.id other.stepCount now) eventId world') :
    Waits start run world' ∨ TakenOn start run requestId world' := by
  obtain ⟨events, journal, drawn, same⟩ := enqueued.touches
  have sameRun : world'.db.run run.id = world.db.run run.id := by
    rw [same]
    exact (run_resumedWorld now stored blocked).2 run.id apart.symm
  have sameCount : recoveries world' run.id = recoveries world run.id := by
    rw [enqueued.recoveries]
    simp [recoveries, resumedWorld, updateRuns, List.countP_append, apart]
  rcases phase with waits | taken
  · refine .inl ⟨sameRun.trans waits.stored, sameCount.trans waits.unrecovered, ?_⟩
    refine (enqueued.existing_kept fun sameKey => ?_).trans waits.slot
    exact apart (runStepKey_inj (Option.some.inj sameKey)).1
  · refine .inr ⟨sameRun ▸ taken.moved, sameCount.trans taken.recovered, ?_, ?_⟩
    · obtain ⟨event, there, _⟩ := taken.event
      exact Db.step_unique ⟨event, enqueued.events_kept there.1, there.2⟩
    · rw [same]
      exact taken.message

/-- The transition of a run, which is one of those that an attempt makes. -/
theorem Kept.transition {other : RunRow} {eventId : String}
    (kept : Kept start run requestId row world)
    (stored : world.db.run other.id = some other) (blocked : other.status = .blockedEffect)
    (recorded : other.id = run.id →
      ∃ message, world.db.message run.id (reconciledKey requestId) = some message)
    (enqueued : Enqueues host (runStepRequest other.id (other.stepCount + 1) 0 now)
      (resumedWorld world other.id other.stepCount now) eventId world') :
    Kept start run requestId row world' ∧
      (other.id = run.id → TakenOn start run requestId world') := by
  obtain ⟨events, journal, drawn, same⟩ := enqueued.touches
  have taken : other.id = run.id → TakenOn start run requestId world' := by
    intro named
    have isRun : other = run := by
      rcases kept.phase with waits | taken
      · exact Option.some.inj (stored.symm.trans (named ▸ waits.stored))
      · obtain ⟨moved, there, running, _⟩ := taken.moved
        obtain rfl := Option.some.inj (stored.symm.trans (named ▸ there))
        rw [blocked] at running
        cases running
    subst isRun
    exact kept.resumed stored blocked (recorded rfl) enqueued
  refine ⟨⟨?_, ?_, ?_, ?_, ?_⟩, taken⟩
  · by_cases named : other.id = run.id
    · exact .inr (taken named)
    · exact phase_resumedOther kept.phase stored blocked named enqueued
  · rw [same]
    exact kept.ledger
  · rw [same]
    exact kept.calls
  · rw [same]
    exact kept.message
  · rw [same]
    intro runId left there isBlocked waitsFor
    by_cases named : runId = other.id
    · subst named
      have moved := (run_resumedWorld now stored blocked).1
      obtain rfl := Option.some.inj (moved.symm.trans there)
      cases isBlocked
    · have unchanged := (run_resumedWorld now stored blocked).2 runId named
      exact kept.sole runId left (unchanged.symm.trans there) isBlocked waitsFor

theorem getRun_keeps {I : World → Prop} {target : String} (holds : I world) :
    Keeps host I (fun found world' => world' = world ∧ world.db.run target = some found)
      (getRun host target).proc world := by
  simp only [getRun, Stmt.perform, Program.perform, Program.bind_eq_bind, Program.call_bind,
    Sql.proc_call]
  refine .statement (.selectRun target) holds (fun exc => .raise holds exc) ?_
  simp only [Stmt.exec, Program.ofExcept_ok, Program.done_bind]
  split
  · exact .raise holds _
  · rename_i found there
    exact .done holds ⟨rfl, there⟩

/-- The transition, in its own step. -/
theorem resumeTransaction_keeps {target : String} (kept : Kept start run requestId row world)
    (recorded : target = run.id →
      ∃ message, world.db.message run.id (reconciledKey requestId) = some message) :
    Keeps host (Kept start run requestId row)
      (fun _ world' => target = run.id → TakenOn start run requestId world')
      (Transaction.resumeRunAfterEffect target now 0).perform world := by
  refine .op (.transaction (.resumeRunAfterEffect target now 0)) kept fun answer _ => ?_
  cases fault : answer.fault with
  | some fault' =>
      simp only [Op.answer, fault]
      exact ⟨kept, fun _ impossible => by cases impossible⟩
  | none =>
      simp only [Op.answer, fault]
      rcases ran : (Transaction.resumeRunAfterEffect target now 0).exec host world with
        ⟨exc | next, world'⟩
      · refine ⟨?_, fun _ impossible => by cases impossible⟩
        rw [Transaction.exec_error ran]
        exact kept.untouched ⟨rfl, rfl, rfl, rfl, rfl, rfl, rfl⟩
      · cases Transaction.exec_ok ran with
        | resume other stored blocked enqueued =>
            obtain rfl := (Db.run_eq_some.1 stored).2
            obtain ⟨kept', taken⟩ := kept.transition stored blocked recorded enqueued
            exact ⟨kept', fun _ _ => taken⟩

/-- An attempt to resume a run. -/
theorem resumeBlockedEffect_keeps {target : String} {call : ToolCall}
    (kept : Kept start run requestId row world) (waits : run.blockedRequestId = some requestId)
    (stored : StoredMutation registry row call) :
    Keeps host (Kept start run requestId row)
      (fun _ world' => target = run.id → TakenOn start run requestId world')
      (resumeBlockedEffect host registry target now) world := by
  refine Keeps.seq (getRun_keeps kept) ?_
  rintro found _ _ ⟨rfl, there⟩
  split
  · rename_i asked blocked waitsFor
    split
    · exact .raise kept _
    · -- the request of the run in question is the one it waits for
      have own : target = run.id → asked = requestId := by
        rintro rfl
        rcases kept.phase with still | taken
        · obtain rfl := Option.some.inj (there.symm.trans still.stored)
          exact Option.some.inj (waitsFor.symm.trans waits)
        · obtain ⟨moved, isThere, running, _⟩ := taken.moved
          obtain rfl := Option.some.inj (there.symm.trans isThere)
          rw [blocked] at running
          cases running
      refine Keeps.seq (recoverReconciled_keeps kept stored) fun result world₁ kept₁ recovered => ?_
      refine .ofExcept kept₁ fun content printed => ?_
      refine Keeps.seq (recordRunMessage_keeps kept₁ ?_) fun _ world₂ kept₂ recorded => ?_
      · intro named _
        obtain ⟨left, isRow, committed, tool, read⟩ := recovered (own named)
        exact ⟨left, result.output, isRow, committed, read, tool ▸ printed⟩
      · refine Keeps.seq (resumeTransaction_keeps kept₂ ?_) fun _ _ kept₃ taken => .done kept₃ taken
        intro named
        obtain ⟨message, isThere⟩ := recorded
        exact ⟨message, by rw [← own named, ← named]; exact isThere⟩
  · exact .raise kept _

theorem Kept.reconciled {target evidenceDigest : String} {effectOccurred : Bool}
    {resultJson resultDigest : Option String} {settled : EffectRow}
    (kept : Kept start run requestId row world) (found : world.db.effect target = some settled)
    (unresolved : settled.state.unresolved = true) :
    Kept start run requestId row (reconciledWorld world target effectOccurred evidenceDigest
      resultJson resultDigest now) := by
  have reports := @noEffectReports_reconciled world target effectOccurred evidenceDigest resultJson
    resultDigest now requestId
  by_cases named : target = requestId
  · subst named
    have accounted := kept.calls
    have after : (reconciledWorld world target effectOccurred evidenceDigest resultJson resultDigest
        now).db.effect target =
          some (settled.reconciled effectOccurred resultJson resultDigest now) := by
      rw [effect_reconciledWorld, found, Option.map_some, if_pos (Db.effect_eq_some.1 found).2]
    refine kept.ledgerStep rfl rfl rfl rfl found ?_ after ?_ ?_
    · intro committed
      rw [committed] at unresolved
      cases unresolved
    · cases effectOccurred <;> exact ⟨rfl, rfl, rfl, rfl, rfl⟩
    · have allows : retriable (some (settled.reconciled effectOccurred resultJson resultDigest now)) =
          if target = target ∧ effectOccurred = false then 1 else 0 := by
        cases effectOccurred <;>
          simp [retriable, EffectRow.reconciled, EffectRow.committed, EffectRow.cleared]
      rw [allows, reports, ← Nat.add_assoc]
      change callsUnder world target + _ ≤ _
      omega
  · refine kept.untouched ⟨rfl, rfl, rfl, rfl, ?_, rfl, ?_⟩
    · rw [effect_reconciledWorld]
      cases stored : world.db.effect requestId with
      | none => rfl
      | some other =>
          have isOther := (Db.effect_eq_some.1 stored).2
          rw [Option.map_some, if_neg fun same => named (same.symm.trans isOther)]
    · rw [reports, if_neg fun both => named both.1, Nat.add_zero]

theorem reconcileTransaction_keeps {target evidenceDigest : String} {effectOccurred : Bool}
    {resultJson resultDigest : Option String} (kept : Kept start run requestId row world) :
    Keeps host (Kept start run requestId row) (fun _ _ => True)
      (Transaction.reconcile target effectOccurred evidenceDigest resultJson resultDigest
        now).perform world := by
  refine .op (.transaction (.reconcile target effectOccurred evidenceDigest resultJson resultDigest
    now)) kept fun answer _ => ⟨?_, fun _ _ => trivial⟩
  cases fault : answer.fault with
  | some fault' => simpa only [Op.answer, fault] using kept
  | none =>
      simp only [Op.answer, fault]
      rcases ran : (Transaction.reconcile target effectOccurred evidenceDigest resultJson
        resultDigest now).exec host world with ⟨exc | _, world'⟩
      · rw [Transaction.exec_error ran]
        exact kept.untouched ⟨rfl, rfl, rfl, rfl, rfl, rfl, rfl⟩
      · cases Transaction.exec_ok ran with
        | reconcile settled found unresolved => exact kept.reconciled found unresolved

/-- A reconciliation of a request. -/
theorem reconcile_keeps {target evidenceDigest : String} {effectOccurred : Bool}
    {result : Option PyVal} (kept : Kept start run requestId row world) :
    Keeps host (Kept start run requestId row) (fun _ _ => True)
      (reconcile host target effectOccurred evidenceDigest now result) world := by
  unfold reconcile
  split
  · exact .raise kept _
  · refine .lookup (.selectEffect target) rfl kept ?_
    split
    · exact .raise kept _
    · split
      · exact .raise kept _
      · split
        · exact .raise kept _
        · exact .raise kept _
        · exact .ofExcept kept fun _ _ => reconcileTransaction_keeps kept
        · exact reconcileTransaction_keeps kept

/-- What a host starts keeps the invariant, and a resume that returns has taken its run on. -/
theorem recovering_keeps {call : ToolCall} {started : Call}
    (kept : Kept start run requestId row world) (waits : run.blockedRequestId = some requestId)
    (stored : StoredMutation registry row call) (recovering : Recovering registry started) :
    Keeps host (Kept start run requestId row)
      (fun _ world' => (∃ now, started = .resumeBlockedEffect registry run.id now) →
        TakenOn start run requestId world')
      (started.program host) world := by
  cases recovering with
  | resume target now =>
      refine (resumeBlockedEffect_keeps kept waits stored).weaken fun _ _ taken asked => ?_
      obtain ⟨_, isCall⟩ := asked
      cases isCall
      exact taken rfl
  | reconcile target effectOccurred evidenceDigest now result =>
      refine (reconcile_keeps kept).weaken fun _ _ _ asked => ?_
      obtain ⟨_, isCall⟩ := asked
      cases isCall

end Attempts

/-! ### The start -/

/-- A request in the ledger was admitted at least once. -/
theorem admissions_pos {steps : KernelConfig → Label Answer Call → Prop} {config : KernelConfig}
    (reached : (system host).Reachable steps KernelConfig.initial config) :
    ∀ requestId row, config.world.db.effect requestId = some row →
      0 < admissions (some row) (noEffectReports config.world requestId) := by
  refine reached.invariant (I := fun config => ∀ requestId row,
    config.world.db.effect requestId = some row →
      0 < admissions (some row) (noEffectReports config.world requestId)) ?_ ?_
  · intro requestId row stored
    cases stored
  · intro config label config' before held _ stepped requestId row stored
    cases Steps.of_step stepped with
    | spawn call => exact held requestId row stored
    | die found => exact held requestId row stored
    | @act pid answer call op next log found =>
        have rule := (reachable_rule before _ (List.mem_of_getElem? found)).head
        have grows := admissions_le host config.world answer rule.issued requestId
        change (op.answer host answer config.world).2.db.effect requestId = some row at stored
        change 0 < admissions _ (noEffectReports (op.answer host answer config.world).2 requestId)
        cases existing : config.world.db.effect requestId with
        | some old =>
            rw [existing, stored] at grows
            exact (held requestId old existing).trans_le grows
        | none =>
            have change := ledgerChange host config.world answer rule.issued requestId
            rw [existing, stored] at change
            generalize isRow : some row = after at change
            cases change with
            | keep => cases isRow
            | enter named =>
                obtain rfl := Option.some.inj isRow
                obtain ⟨_, _, _, _, _, _, _, _, _, _, rfl⟩ := rule.tool rfl
                exact Nat.succ_pos _

theorem retriable_le_reports {row : EffectRow} {reports : Nat}
    (admitted : 0 < admissions (some row) reports) : retriable (some row) ≤ reports := by
  unfold retriable
  split
  · rename_i cleared
    simp only [Option.any_some, beq_iff_eq] at cleared
    simpa [admissions, cleared, Nat.one_le_iff_ne_zero, Nat.pos_iff_ne_zero] using admitted
  · exact Nat.zero_le _

/-! ### Every sequence of attempts -/

theorem recoveries_le (answer : Answer) (op : Op) :
    recoveries world runId ≤ recoveries (op.answer host answer world).2 runId :=
  (journal_grows host answer op world).sublist.countP_le

/-- What a sequence of attempts has made of a run that was blocked on the request: it still waits or
was taken on once, it was taken on if an attempt returned, it stays so, and the attempts called
handlers at most as often as the request was reconciled as having had no effect.  While it waits, a
retry that is not disturbed takes it on as soon as the request is settled. -/
structure CrashIdempotent (host : Host) (registry : ToolRegistry) (start : World) (run : RunRow)
    (requestId : String) (row : EffectRow) (config : KernelConfig) : Prop where
  once : Waits start run config.world ∨ TakenOn start run requestId config.world
  returned : ∀ process ∈ config.procs, ∀ now,
    process.call = .resumeBlockedEffect registry run.id now → process.rest = .done () →
      TakenOn start run requestId config.world
  final : TakenOn start run requestId config.world → ∀ config',
    (system host).Reachable (HostSteps registry) config config' →
      TakenOn start run requestId config'.world
  calls : callsUnder config.world requestId ≤
    callsUnder start requestId + noEffectReports config.world requestId
  retry : Waits start run config.world → requestId ≠ "" →
    start.db.message run.id (reconciledKey requestId) = none → ∀ now, start.db.SlotFree run now →
      ∀ row' occurred (value : JsonObject), config.world.db.effect requestId = some row' →
        row.SettledAs row' occurred value.value → ∀ answers, Faultless answers →
          (∀ handled, (answers (.handler handled)).output = .ok value.value) →
            ∃ world', Runs host answers (resumeBlockedEffect host registry run.id now) config.world
              (.ok ()) world' ∧ Resumed world' run now

section Sequences

variable {config config' : KernelConfig} {run : RunRow}

/-- What is known of a run that is blocked on a request, in any state. -/
theorem blocked_start
    (reached : (system host).Reachable (fun _ label => FixedRegistry host registry label)
      KernelConfig.initial config)
    (apart : RequestsApart host config) (stored : config.world.db.run run.id = some run)
    (blocked : run.status = .blockedEffect) (waits : run.blockedRequestId = some requestId) :
    ∃ row call, config.world.db.effect requestId = some row ∧
      row.AdmittedFor host registry config.world.db run.id call ∧
        Kept config.world run requestId row config.world := by
  obtain ⟨step, call, row, decided, waits', ledger, _⟩ :=
    blocked_decided reached run.id run stored blocked
  obtain rfl := Option.some.inj (waits.symm.trans waits')
  obtain ⟨call', admitted⟩ :=
    admittedFor_of_run (fun _ _ admits => admits) reached apart decided ledger
  refine ⟨row, call', ledger, admitted, .inl ⟨stored, rfl, rfl⟩, ⟨row, ledger, .refl _⟩, ?_,
    fun _ there => .inl there, ?_⟩
  · rw [ledger]
    exact Nat.add_le_add_left (retriable_le_reports (admissions_pos reached _ row ledger)) _
  · intro runId other there isBlocked waitsFor
    obtain ⟨step', call'', _, decided', waits'', _⟩ :=
      blocked_decided reached runId other there isBlocked
    have sameRequest := Option.some.inj (waits''.symm.trans waitsFor)
    exact apart.runs _ _ _ _ _ _ decided' decided sameRequest

/-- What a sequence of attempts keeps. -/
theorem attempts_keep {start : World} {row : EffectRow} {call : ToolCall}
    (kept : Kept start run requestId row start) (waits : run.blockedRequestId = some requestId)
    (stored : StoredMutation registry row call)
    (attempts : (system host).Reachable (HostSteps registry) ⟨start, []⟩ config) :
    Kept start run requestId row config.world ∧ ∀ process ∈ config.procs,
      process.rest = .done () →
        (∃ now, process.call = .resumeBlockedEffect registry run.id now) →
          recoveries start run.id < recoveries config.world run.id := by
  have both := attempts.secured (A := JsonOutput) (I := Kept start run requestId row)
    (D := fun started world => (∃ now, started = .resumeBlockedEffect registry run.id now) →
      recoveries start run.id < recoveries world run.id) ?_ ?_ ?_ ?_ kept rfl
  · exact ⟨both.1, fun process member => (both.2 process member).2⟩
  · rintro config started ⟨recovering, _⟩ world holds
    refine (recovering_keeps holds waits stored recovering).weaken fun _ _ taken asked => ?_
    rw [(taken asked).recovered]
    exact Nat.lt_succ_self _
  · rintro config started ⟨_, idle⟩ process member
    simp only [oneAttempt, allIdle, List.all_eq_true] at idle
    exact Option.isNone_iff_eq_none.1 (idle process member)
  · rintro config pid answer ⟨json, _⟩
    exact json
  · intro started op answer world more asked
    exact (more asked).trans_le (recoveries_le answer op)

theorem recoveries_reached {steps : KernelConfig → Label Answer Call → Prop}
    (later : (system host).Reachable steps config config') :
    recoveries config.world runId ≤ recoveries config'.world runId := by
  refine later.invariant (I := fun config' =>
    recoveries config.world runId ≤ recoveries config'.world runId) (le_refl _) ?_
  intro before label after _ held _ stepped
  cases Steps.of_step stepped with
  | spawn call => exact held
  | die found => exact held
  | @act pid answer call op next log found => exact held.trans (recoveries_le answer op)

/-- A settled request of a run that still waits is recoverable. -/
theorem Kept.recoverable {start : World} {row row' : EffectRow} {occurred : Bool}
    {value : JsonObject} (kept : Kept start run requestId row world)
    (still : Waits start run world) (named : requestId ≠ "")
    (unwritten : start.db.message run.id (reconciledKey requestId) = none)
    (free : start.db.SlotFree run now) (ledger : world.db.effect requestId = some row')
    (settled : row.SettledAs row' occurred value.value) :
    Recoverable world.db run requestId row.toolName value.value now := by
  have printed : reconciledContent row.toolName value.value =
      .ok ("reconciled " ++ row.toolName ++ " => " ++ value.text defaultStyle) := by
    rw [reconciledContent, printed, value.dumps_eq]
    rfl
  refine ⟨named, ⟨_, value.dumps_eq _⟩, ⟨_, printed, fun message there => ?_⟩, ?_⟩
  · rcases kept.message message there with before | ⟨left, output, isRow, committed, read, role, content⟩
    · rw [unwritten] at before
      cases before
    · obtain rfl := Option.some.inj (ledger.symm.trans isRow)
      cases occurred with
      | false =>
          rw [settled.cleared rfl] at committed
          cases committed
      | true =>
          obtain ⟨_, result, same, json⟩ := settled.committed rfl
          rw [json, loadsResult, JsonObject.loads_text, Except.ok.injEq] at read
          rw [← read, same, settled.same.toolName, printed] at content
          exact ⟨role, (Except.ok.inj content).symm⟩
  · intro event found
    exact free event (still.slot ▸ found)

/-- For one host at a time, if no two runs share a request id: whatever attempts to resume and to
reconcile follow, wherever each of them dies and whatever the handlers do, a blocked run is taken on
once. -/
theorem resumes_crash_idempotent (distinct : Function.Injective host.uuid4)
    (reached : (system host).Reachable (fun _ label => FixedRegistry host registry label)
      KernelConfig.initial config)
    (apart : RequestsApart host config) (stored : config.world.db.run run.id = some run)
    (blocked : run.status = .blockedEffect) (waits : run.blockedRequestId = some requestId)
    (attempts : (system host).Reachable (HostSteps registry) ⟨config.world, []⟩ config') :
    ∃ row, config.world.db.effect requestId = some row ∧
      CrashIdempotent host registry config.world run requestId row config' := by
  obtain ⟨row, call, ledger, admitted, kept⟩ := blocked_start reached apart stored blocked waits
  have isMutation := admitted.storedMutation
  -- a run that was taken on shows in the journal
  have taken : ∀ config', (system host).Reachable (HostSteps registry) ⟨config.world, []⟩ config' →
      recoveries config.world run.id < recoveries config'.world run.id →
        TakenOn config.world run requestId config'.world := by
    intro config' attempts more
    rcases (attempts_keep kept waits isMutation attempts).1.phase with still | taken
    · exact absurd still.unrecovered (Nat.ne_of_gt more)
    · exact taken
  obtain ⟨kept', ended⟩ := attempts_keep kept waits isMutation attempts
  refine ⟨row, ledger, kept'.phase, ?_, ?_, ?_, ?_⟩
  · intro process member now isCall finished
    exact taken config' attempts (ended process member finished ⟨now, isCall⟩)
  · intro already config'' later
    refine taken config'' (attempts.trans later) ?_
    have more : recoveries config.world run.id < recoveries config'.world run.id := by
      rw [already.recovered]
      exact Nat.lt_succ_self _
    exact more.trans_le (recoveries_reached later)
  · exact (Nat.le_add_right _ _).trans kept'.calls
  · intro still named unwritten now free row' occurred value ledger' settled answers faultless returns
    have recoverable := kept'.recoverable still named unwritten free ledger' settled
    obtain ⟨middle, recovers, _⟩ :=
      settled_recovers faultless ledger' settled admitted stored fun _ => returns
    have drawn : EventsDrawn host config'.world := (reachable_drawn reached).reached attempts
    obtain ⟨world', ran, resumed, _⟩ := recoverable_resumes faultless still.stored blocked waits
      recovers distinct drawn recoverable
    exact ⟨world', ran, resumed⟩

end Sequences

/-! ### A resume that dies after its message -/

/-- The payment is reported as not made, and the resume that makes it dies before the transition. A
second one finds the result and the message of the first. -/
def interruptedResume : List (Label Answer Call) :=
  [.spawn (.reconcile "q" false someEvidence 1 none), .act 0 .quiet, .act 0 .quiet,
    .spawn (.resumeBlockedEffect payRegistry "id-0" 2), .act 1 .quiet, .act 1 .quiet,
    .act 1 .quiet, .act 1 .quiet, .act 1 .quiet, .act 1 .quiet, .act 1 .quiet, .act 1 .quiet,
    .die 1, .spawn (.resumeBlockedEffect payRegistry "id-0" 3), .act 2 .quiet, .act 2 .quiet,
    .act 2 .quiet, .act 2 .quiet, .act 2 .quiet]

theorem jsonOutput_quiet : JsonOutput .quiet := by
  intro output isOutput
  exact ⟨.empty, Except.ok.inj isOutput⟩

theorem interruptedResume_host : ∀ label ∈ interruptedResume, HostLabel payRegistry label := by
  intro label member
  simp only [interruptedResume, List.mem_cons, List.not_mem_nil, or_false] at member
  rcases member with rfl | rfl | rfl | rfl | rfl | rfl | rfl | rfl | rfl | rfl | rfl | rfl | rfl |
    rfl | rfl | rfl | rfl | rfl | rfl
  all_goals first | exact jsonOutput_quiet | constructor

set_option maxRecDepth 10000 in
/-- In spite of the interruption the run is taken on once. -/
theorem resumes_crash_idempotent_interrupted :
    ∃ config config' run row, (system plainHost).Reachable
        (fun _ label => FixedRegistry plainHost payRegistry label) KernelConfig.initial config ∧
      (system plainHost).Reachable (HostSteps payRegistry) ⟨config.world, []⟩ config' ∧
      config'.world.db.runStanding "id-0" = some (.running, 1) ∧
      CrashIdempotent plainHost payRegistry config.world run "q" row config' := by
  have ran : ((system plainHost).run (oneWorker 8) KernelConfig.initial
      (timedOutPayment "q")).any (fun config => confirmable "q" config &&
        ((system plainHost).run oneAttempt ⟨config.world, []⟩ interruptedResume).any (fun config' =>
          config'.world.db.runStanding "id-0" == some (.running, 1))) = true := by decide +kernel
  obtain ⟨config, reached, both⟩ :=
    System.Reachable.exists_of_run_each _ (timedOutPayment_fixed "q") ran
  rw [Bool.and_eq_true] at both
  obtain ⟨confirms, ran'⟩ := both
  obtain ⟨apart, run, _, _, _, _, stored, blocked, waits, _⟩ := confirmable_settles confirms
  obtain ⟨config', attempts, moved⟩ :=
    System.Reachable.exists_of_run_each _ interruptedResume_host ran'
  have reached' := reached.mono fun _ _ both => both.1
  obtain ⟨row, _, idempotent⟩ := resumes_crash_idempotent plainHost_uuid4_injective reached' apart
    stored blocked waits attempts
  exact ⟨config, config', run, row, reached', attempts, eq_of_beq moved, idempotent⟩

end PreActive.Kernel
