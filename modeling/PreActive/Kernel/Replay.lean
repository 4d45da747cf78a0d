/-
Module: PreActive.Kernel.Replay
Purpose: A worker that runs alone makes the durable changes of the ideal machine, one after the
  other, wherever it starts and wherever it is killed.
Trusted boundary: none
Main exports: At, Crashable, Does, recordRunMessage_does, admittedResponse_does
-/
import PreActive.Foundation.Crash
import PreActive.Kernel.Changes
import PreActive.Kernel.Ideal
import PreActive.Kernel.StorePaths

namespace PreActive.Kernel

open PreActive.Foundation PreActive.Python

/-! ### Worlds and views -/

/-- The event asks for a step of the run. -/
def EventRow.Asks (runId : String) (row : EventRow) : Prop :=
  row.kind = "run.step" ∧ ∃ step, loads row.payloadJson = .ok (runStepPayload runId step).value

/-- The world shows the view, holds the memories of the environment, and the run is the only one
with work left. -/
structure At (env : Environment) (view : View) (world : World) : Prop where
  seen : viewOf env.runId world = some view
  memories : world.db.memories = env.memories
  events : ∀ row ∈ world.db.events.rows, row.status ≠ .done → row.Asks env.runId

/-- What holds wherever a worker is killed: the world shows a view of the ideal machine, or a
mutation is in flight. -/
def Crashable (env : Environment) (start : View) (world : World) : Prop :=
  ∃ view, At env view world ∧
    (env.Chain start view ∨ ∃ row ∈ view.effects, row.state = .executing)

/-- How a program ends: with a value or an exception, and in a view of the ideal machine. -/
def Ends {α : Type} (env : Environment) (start : View) (R : α → View → Prop)
    (E : Exc → View → Prop) : Except Exc α → World → Prop
  | .ok value, world => ∃ view, At env view world ∧ env.Chain start view ∧ R value view
  | .error exc, world => ∃ view, At env view world ∧ env.Chain start view ∧ E exc view

/-- The program that runs alone from a view of the ideal machine keeps to the machine. -/
def Does {α : Type} (env : Environment) (start : View) (R : α → View → Prop)
    (E : Exc → View → Prop) (program : Proc α) (view : View) : Prop :=
  env.Chain start view → ∀ world, At env view world →
    program.Passes (kernelMachine env.host) env.answers (Crashable env start)
      (Ends env start R E) world

/-- The exception says nothing about the view. -/
def anyError : Exc → View → Prop := fun _ _ => True

/-- There is no exception. -/
def noError : Exc → View → Prop := fun _ _ => False

variable {env : Environment} {start view : View} {α β : Type} {host : Host} {world world' : World}

theorem At.crashable (shows : At env view world) (chain : env.Chain start view) :
    Crashable env start world :=
  ⟨view, shows, .inl chain⟩

/-- A world that differs in nothing that a view tells. -/
theorem At.congr (shows : At env view world) (runs : world'.db.runs = world.db.runs)
    (decisions : world'.db.decisions = world.db.decisions)
    (messages : world'.db.messages = world.db.messages)
    (effects : world'.db.effects = world.db.effects)
    (memories : world'.db.memories = world.db.memories)
    (calls : world'.calls.filter HandlerRun.isMutation =
      world.calls.filter HandlerRun.isMutation)
    (events : ∀ row ∈ world'.db.events.rows, row.status ≠ .done → row.Asks env.runId) :
    At env view world' where
  seen := by
    rw [← shows.seen, viewOf, viewOf, Db.run, Db.run, runs, decisions, messages, effects, calls]
  memories := memories.trans shows.memories
  events := events

namespace Does

variable {R : α → View → Prop} {E : Exc → View → Prop}

theorem done {value : α} (ends : R value view) : Does env start R E (.done value) view :=
  fun chain _ shows => ⟨shows.crashable chain, view, shows, chain, ends⟩

theorem raise {exc : Exc} (ends : E exc view) :
    Does env start R E (.raise exc : Proc α) view :=
  fun chain _ shows => ⟨shows.crashable chain, view, shows, chain, ends⟩

theorem ofExcept {outcome : Except Exc α} (returns : ∀ value, outcome = .ok value → R value view)
    (raises : ∀ exc, outcome = .error exc → E exc view) :
    Does env start R E (Program.ofExcept outcome) view := by
  cases outcome with
  | ok value => exact done (returns value rfl)
  | error exc => exact raise (raises exc rfl)

/-- Sequencing rule. -/
theorem bind {M : α → View → Prop} {E' : Exc → View → Prop} {R' : β → View → Prop}
    {first : Proc α} {next : α → Proc β} (does : Does env start M E' first view)
    (rest : ∀ value view', M value view' → Does env start R' E (next value) view')
    (raised : ∀ exc view', E' exc view' → E exc view') :
    Does env start R' E (first.bind next) view := by
  intro chain world shows
  refine (does chain world shows).bind ?_ ?_
  · rintro exc world' _ ⟨view', shows', chain', ends⟩
    exact ⟨view', shows', chain', raised exc view' ends⟩
  · rintro value world' _ ⟨view', shows', chain', ends⟩
    exact rest value view' ends chain' world' shows'

/-- Sequencing where exceptions do not matter. -/
theorem seq {M : α → View → Prop} {R' : β → View → Prop} {first : Proc α} {next : α → Proc β}
    (does : Does env start M anyError first view)
    (rest : ∀ value view', M value view' → Does env start R' anyError (next value) view') :
    Does env start R' anyError (first.bind next) view :=
  does.bind rest fun _ _ _ => trivial

/-- Capturing the outcome. -/
theorem attempt {program : Proc α} (does : Does env start R E program view) :
    Does env start (fun outcome view' =>
      (∀ value, outcome = .ok value → R value view') ∧
        ∀ exc, outcome = .error exc → E exc view') anyError program.attempt view := by
  intro chain world shows
  refine ((does chain world shows).weaken ?_).attempt
  rintro (exc | value) world' _ ⟨view', shows', chain', ends⟩
  · refine ⟨view', shows', chain', ?_⟩
    constructor
    · intro value impossible
      cases impossible
    · intro exc' same
      cases same
      exact ends
  · refine ⟨view', shows', chain', ?_⟩
    constructor
    · intro value' same
      cases same
      exact ends
    · intro exc impossible
      cases impossible

theorem weaken {R' : α → View → Prop} {E' : Exc → View → Prop} {program : Proc α}
    (does : Does env start R E program view) (returns : ∀ value view', R value view' → R' value view')
    (raises : ∀ exc view', E exc view' → E' exc view') :
    Does env start R' E' program view := by
  intro chain world shows
  refine (does chain world shows).weaken ?_
  rintro (exc | value) world' _ ⟨view', shows', chain', ends⟩
  · exact ⟨view', shows', chain', raises exc view' ends⟩
  · exact ⟨view', shows', chain', returns value view' ends⟩

/-- One operation: it leads to a view of the machine, whatever it answers. -/
theorem op (op : Op) {R : op.Result → View → Prop}
    (moves : env.Chain start view → ∀ world, At env view world →
      Ends env start R E (op.answer env.host (env.answers op) world).1
        (op.answer env.host (env.answers op) world).2) :
    Does env start R E op.perform view := by
  intro chain world shows
  have ends := moves chain world shows
  refine Program.Passes.perform (shows.crashable chain) ?_ ends
  change Crashable env start (op.answer env.host (env.answers op) world).2
  generalize (op.answer env.host (env.answers op) world).1 = outcome at ends
  rcases outcome with exc | value
  · obtain ⟨view', shows', chain', _⟩ := ends
    exact shows'.crashable chain'
  · obtain ⟨view', shows', chain', _⟩ := ends
    exact shows'.crashable chain'

/-- One operation that is not seen in the view. -/
theorem keeps (op : Op) {R : op.Result → View → Prop}
    (moves : ∀ world, At env view world →
      At env view (op.answer env.host (env.answers op) world).2 ∧
        ∃ value, (op.answer env.host (env.answers op) world).1 = .ok value ∧ R value view) :
    Does env start R E op.perform view := by
  refine .op op fun chain world shows => ?_
  obtain ⟨shows', value, answered, ends⟩ := moves world shows
  rw [answered]
  exact ⟨view, shows', chain, ends⟩

end Does

/-! ### Reading -/

theorem sql_answer (env : Environment) (stmt : Stmt) (world : World) :
    (Op.sql stmt).answer env.host (env.answers (.sql stmt)) world = stmt.exec env.host world := rfl

/-- A statement of the store. -/
theorem Sql.proc_perform (stmt : Stmt) : (stmt.perform).proc = (Op.sql stmt).perform := by
  simp only [Stmt.perform, Program.perform, Op.perform, Sql.proc_call, Sql.proc_ofExcept]

/-- A selection. -/
theorem Does.select (stmt : Stmt) {R : stmt.Result → View → Prop} {E : Exc → View → Prop}
    (value : World → stmt.Result) (reads : ∀ world, stmt.exec env.host world = (.ok (value world), world))
    (ends : ∀ world, At env view world → R (value world) view) :
    Does env start R E (Op.sql stmt).perform view := by
  refine .keeps (.sql stmt) fun world shows => ?_
  rw [sql_answer, reads]
  exact ⟨shows, value world, rfl, ends world shows⟩

theorem At.run (shows : At env view world) :
    ∃ row, world.db.run env.runId = some row ∧ row.timeless = view.run := by
  obtain ⟨row, stored, same⟩ := Option.map_eq_some_iff.1 shows.seen
  exact ⟨row, stored, by rw [← same]⟩

theorem At.runId (shows : At env view world) : view.run.id = env.runId := by
  obtain ⟨row, stored, same⟩ := shows.run
  rw [← same]
  exact (Db.run_eq_some.1 stored).2

theorem At.fields (shows : At env view world) :
    view.decisions = world.db.decisions.rows.map DecisionRow.timeless ∧
      view.messages = world.db.messages.rows.map MessageRow.timeless ∧
        view.effects = world.db.effects.rows.map EffectRow.timeless ∧
          view.mutations = world.calls.filter HandlerRun.isMutation := by
  obtain ⟨row, stored, same⟩ := Option.map_eq_some_iff.1 shows.seen
  rw [← same]
  exact ⟨rfl, rfl, rfl, rfl⟩

theorem At.message (shows : At env view world) (messageKey : String) :
    view.message messageKey =
      (world.db.message env.runId messageKey).map MessageRow.timeless := by
  rw [View.message, shows.fields.2.1, shows.runId, List.find?_map]
  rfl

theorem At.decision (shows : At env view world) :
    view.decision =
      (world.db.decision env.runId view.run.stepCount).map DecisionRow.timeless := by
  rw [View.decision, shows.fields.1, shows.runId, List.find?_map]
  rfl

theorem At.effect (shows : At env view world) (requestId : String) :
    view.effect requestId = (world.db.effect requestId).map EffectRow.timeless := by
  rw [View.effect, shows.fields.2.2.1, List.find?_map]
  rfl

/-! ### Steps that a view does not tell -/

theorem At.updateEvents (shows : At env view world) (p : EventRow → Bool)
    (f : EventRow → EventRow) (keeps : ∀ row, UniqueKeys.key (f row) = UniqueKeys.key row)
    (kind : ∀ row, (f row).kind = row.kind) (payload : ∀ row, (f row).payloadJson = row.payloadJson)
    (live : ∀ row ∈ world.db.events.rows, p row = true → row.status ≠ .done) :
    At env view (updateEvents world p f keeps) := by
  refine shows.congr rfl rfl rfl rfl rfl rfl fun row' member open' => ?_
  obtain ⟨row, stored, rfl⟩ := List.mem_map.1 member
  by_cases matched : p row = true
  · obtain ⟨isStep, step, asks⟩ := shows.events row stored (live row stored matched)
    rw [if_pos matched]
    exact ⟨(kind row).trans isStep, step, by rw [payload]; exact asks⟩
  · rw [if_neg matched] at open' ⊢
    exact shows.events row stored open'

/-- An event that a worker holds is not done. -/
theorem EventRow.heldBy_live {eventId workerId : String} {row : EventRow}
    (held : row.heldBy eventId workerId = true) : row.status ≠ .done := by
  intro isDone
  simp [EventRow.heldBy, isDone] at held

theorem At.drawn (shows : At env view world) (drawn : Nat) :
    At env view { world with drawn := drawn } :=
  shows.congr rfl rfl rfl rfl rfl rfl shows.events

theorem appendJournal_does {eventType : JournalKind} {subjectId : Option String}
    {payload : List (String × JournalField)} {now : Time} :
    Does env start (fun _ view' => view' = view) anyError
      (appendJournal eventType subjectId payload now).proc view := by
  rw [appendJournal, Sql.proc_perform]
  refine .keeps (.sql (.insertJournal ⟨eventType, subjectId, payload, now⟩))
    fun world shows => ⟨?_, _, rfl, rfl⟩
  exact shows.congr rfl rfl rfl rfl rfl rfl shows.events

theorem ackEvent_does {eventId workerId : String} {now : Time} :
    Does env start (fun _ view' => view' = view) anyError
      (ackEvent eventId workerId now).proc view := by
  simp only [ackEvent, Program.bind_eq_bind, Sql.proc_bind]
  rw [Sql.proc_perform]
  have acks : Does env start (fun (_ : Nat) view' => view' = view) anyError
      (Op.sql (.ackEvent eventId workerId now)).perform view := by
    refine .keeps (.sql (.ackEvent eventId workerId now)) fun world shows => ⟨?_, _, rfl, rfl⟩
    exact shows.updateEvents _ _ _ (fun _ => rfl) (fun _ => rfl) fun _ _ => EventRow.heldBy_live
  refine acks.seq fun rowcount view' same => ?_
  subst same
  split
  · exact .raise trivial
  · rw [Sql.proc_bind]
    exact appendJournal_does.seq fun _ _ same => .done same

theorem failEvent_does {eventId workerId : String} {now : Time} {retryAt : Option Time} :
    Does env start (fun _ _ => True) anyError
      (failEvent eventId workerId now retryAt).proc view := by
  simp only [failEvent, Program.bind_eq_bind, Sql.proc_bind]
  rw [Sql.proc_perform]
  have releases : Does env start (fun (_ : Nat) view' => view' = view) anyError
      (Op.sql (.releaseEvent eventId workerId (retryAt.getD now) now)).perform view := by
    refine .keeps (.sql (.releaseEvent eventId workerId (retryAt.getD now) now)) fun world shows =>
      ⟨?_, _, rfl, rfl⟩
    exact shows.updateEvents _ _ _ (fun _ => rfl) (fun _ => rfl) fun _ _ => EventRow.heldBy_live
  refine releases.seq fun rowcount view' _ => ?_
  split
  · exact .raise trivial
  · rw [Sql.proc_bind]
    exact appendJournal_does.seq fun _ _ _ => .done trivial

theorem getRun_does :
    Does env start (fun row view' => view' = view ∧ row.timeless = view.run) anyError
      (getRun env.host env.runId).proc view := by
  simp only [getRun, Program.bind_eq_bind, Sql.proc_bind]
  rw [Sql.proc_perform]
  have reads : Does env start (fun found view' => view' = view ∧
      ∃ row, found = some row ∧ row.timeless = view.run) anyError
      (Op.sql (.selectRun env.runId)).perform view :=
    .select (.selectRun env.runId) (fun world => world.db.run env.runId) (fun _ => rfl)
      fun world shows => ⟨rfl, shows.run⟩
  refine reads.seq ?_
  rintro found view' ⟨rfl, row, rfl, same⟩
  exact .done ⟨rfl, same⟩

/-! ### The run -/

theorem At.updateRuns (shows : At env view world) {row : RunRow} (p : RunRow → Bool)
    (f : RunRow → RunRow) (keeps : ∀ row, UniqueKeys.key (f row) = UniqueKeys.key row)
    (stored : world.db.run env.runId = some row) (matched : p row = true) :
    At env { view with run := (f row).timeless } (updateRuns world p f keeps) where
  seen := by
    have updated := run_updateRuns world p f keeps env.runId
    obtain ⟨decisions, messages, effects, mutations⟩ := shows.fields
    rw [stored, Option.map_some, if_pos matched] at updated
    rw [viewOf, updated, Option.map_some, decisions, messages, effects, mutations]
    rfl
  memories := shows.memories
  events := shows.events

/-- An `update_run` that is a change of the machine, or none. -/
theorem updateRun_does {change : RunChange} {after : View}
    (either : after = view ∨ env.next view = some after)
    (changes : ∀ row : RunRow, row.timeless = view.run →
      { view with run := (change.apply row).timeless } = after) :
    Does env start (fun _ view' => view' = after) anyError
      (updateRun env.runId change).proc view := by
  unfold updateRun
  split
  · exact .raise trivial
  · rw [Sql.proc_perform]
    refine .op (.sql (.updateRun env.runId change)) fun chain world shows => ?_
    obtain ⟨row, stored, same⟩ := shows.run
    have shows' := shows.updateRuns (fun row => row.id == env.runId) change.apply (fun _ => rfl)
      stored (by simpa using (Db.run_eq_some.1 stored).2)
    rw [changes row same] at shows'
    refine ⟨after, shows', ?_, rfl⟩
    rcases either with rfl | step
    · exact chain
    · exact chain.next step

/-! ### The transcript -/

/-- Nothing but messages was added. -/
structure View.Continues (view view' : View) : Prop where
  run : view'.run = view.run
  decisions : view'.decisions = view.decisions
  effects : view'.effects = view.effects
  messages : ∀ messageKey, (view.message messageKey).isSome = true →
    (view'.message messageKey).isSome = true

theorem View.Continues.refl (view : View) : view.Continues view :=
  ⟨rfl, rfl, rfl, fun _ there => there⟩

theorem View.Continues.trans {a b c : View} (first : a.Continues b) (second : b.Continues c) :
    a.Continues c :=
  ⟨second.run.trans first.run, second.decisions.trans first.decisions,
    second.effects.trans first.effects, fun key there => second.messages key (first.messages key there)⟩

theorem View.Continues.decision {view view' : View} (continues : view.Continues view') :
    view'.decision = view.decision := by
  rw [View.decision, View.decision, continues.run, continues.decisions]

theorem View.continues_addMessage (view : View) (role : Role) (content messageKey : String) :
    view.Continues (view.addMessage role content messageKey) := by
  refine ⟨rfl, rfl, rfl, fun key there => ?_⟩
  simp only [View.message, View.addMessage, List.find?_append, Option.isSome_or] at there ⊢
  rw [there, Bool.true_or]

theorem View.message_addMessage (view : View) (role : Role) (content messageKey : String) :
    ((view.addMessage role content messageKey).message messageKey).isSome = true := by
  simp [View.message, View.addMessage, List.find?_append]

theorem At.run_exists (shows : At env view world) :
    (world.db.runs.rows.any fun run => run.id == env.runId) = true := by
  obtain ⟨row, stored, _⟩ := shows.run
  obtain ⟨member, same⟩ := Db.run_eq_some.1 stored
  exact List.any_eq_true.2 ⟨row, member, by simpa using same⟩

/-- A message is the next change of the machine, or was recorded before. -/
theorem recordRunMessage_does {role : Role} {content messageKey : String} {now : Time}
    (step : view.message messageKey = none →
      env.next view = some (view.addMessage role content messageKey)) :
    Does env start (fun _ view' => view.Continues view' ∧ (view'.message messageKey).isSome = true)
      anyError (recordRunMessage env.runId role content now (some messageKey)).proc view := by
  simp only [recordRunMessage, Program.bind_eq_bind, Sql.proc_bind, Sql.proc_attempt]
  rw [Sql.proc_perform]
  have inserts : Does env start
      (fun (_ : Unit) view' => view.Continues view' ∧ (view'.message messageKey).isSome = true)
      (fun _ view' => view' = view)
      (Op.sql (.insertMessage ⟨env.runId, role, content, some messageKey, now⟩)).perform view := by
    refine .op (.sql (.insertMessage ⟨env.runId, role, content, some messageKey, now⟩))
      fun chain world shows => ?_
    rw [sql_answer, Stmt.exec, if_pos shows.run_exists]
    cases inserted : world.db.messages.insert ⟨env.runId, role, content, some messageKey, now⟩ with
    | none => exact ⟨view, shows, chain, rfl⟩
    | some messages =>
        have absent := message_none_of_insert inserted rfl
        have fresh := step (by rw [shows.message, absent]; rfl)
        refine ⟨view.addMessage role content messageKey, ⟨?_, shows.memories, shows.events⟩,
          chain.next fresh, view.continues_addMessage .., view.message_addMessage ..⟩
        have same := shows.seen
        obtain ⟨row, stored, _⟩ := shows.run
        simp only [viewOf, Db.run] at same stored ⊢
        rw [stored, Option.map_some, Option.some.injEq] at same ⊢
        rw [← same, View.addMessage, Table.rows_insert inserted, List.map_append]
        have isRun : row.timeless.id = env.runId := (Db.run_eq_some.1 stored).2
        simp only [List.map_cons, List.map_nil, MessageRow.timeless, isRun]
  refine inserts.attempt.seq ?_
  rintro (exc | _) view' ⟨recorded, refused⟩
  · obtain rfl := refused exc rfl
    simp only
    split
    · rw [Sql.proc_bind, Sql.proc_perform]
      have reads : Does env start (fun found view'' => view'' = view' ∧
          view'.message messageKey = found.map MessageRow.timeless) anyError
          (Op.sql (.selectMessageByKey env.runId messageKey)).perform view' :=
        .select (.selectMessageByKey env.runId messageKey)
          (fun world => world.db.message env.runId messageKey) (fun _ => rfl)
          fun world shows => ⟨rfl, shows.message messageKey⟩
      refine reads.seq ?_
      rintro found view'' ⟨rfl, same⟩
      cases found with
      | none => exact .raise trivial
      | some row =>
          simp only
          split
          · exact .raise trivial
          · exact .done ⟨.refl _, by rw [same]; rfl⟩
    · exact .raise trivial
  · exact .done (recorded () rfl)

/-! ### The decision -/

/-- A decision that could be inserted was not there. -/
theorem View.decision_addDecision (view : View) (response : ModelResponse)
    (absent : view.decision = none) :
    (view.addDecision response).decision =
      some ⟨view.run.id, view.run.stepCount, decisionText response, 0⟩ := by
  simp only [View.decision] at absent
  simp [View.decision, View.addDecision, List.find?_append, absent, decisionText]

/-- The step of the run is decided, with this response. -/
def View.Decided (env : Environment) (run : RunRow) (response : ModelResponse) (view : View) :
    Prop :=
  view.run = run ∧ ∃ row, view.decision = some row ∧
    decodeDecision env.host row.decisionJson = .ok response

/-- A decision is the next change of the machine, or was recorded before. -/
theorem recordRunStepDecision_does {response : ModelResponse} {now : Time}
    (step : view.decision = none → env.next view = some (view.addDecision response)) :
    Does env start (fun _ view' => view'.Decided env view.run response) anyError
      (recordRunStepDecision env.runId view.run.stepCount (decisionFromResponse response)
        now).proc view := by
  simp only [recordRunStepDecision, Program.bind_eq_bind, Sql.proc_bind, Sql.proc_attempt]
  rw [Sql.proc_perform]
  have inserts : Does env start (fun (_ : Unit) view' => view'.Decided env view.run response)
      (fun _ view' => view' = view)
      (Op.sql (.insertDecision ⟨env.runId, view.run.stepCount,
        (decisionFromResponse response).text compactStyle, now⟩)).perform view := by
    refine .op (.sql (.insertDecision ⟨env.runId, view.run.stepCount,
      (decisionFromResponse response).text compactStyle, now⟩)) fun chain world shows => ?_
    rw [sql_answer, Stmt.exec, if_pos shows.run_exists]
    cases inserted : world.db.decisions.insert ⟨env.runId, view.run.stepCount,
        (decisionFromResponse response).text compactStyle, now⟩ with
    | none => exact ⟨view, shows, chain, rfl⟩
    | some decisions =>
        have absent : view.decision = none := by
          rw [shows.decision, decision_none_of_insert inserted]
          rfl
        refine ⟨view.addDecision response, ⟨?_, shows.memories, shows.events⟩,
          chain.next (step absent), rfl, _, view.decision_addDecision response absent,
          decodeDecision_text _ _⟩
        have same := shows.seen
        obtain ⟨row, stored, sameRun⟩ := shows.run
        simp only [viewOf, Db.run] at same stored ⊢
        rw [stored, Option.map_some, Option.some.injEq] at same ⊢
        have isRun : view.run.id = env.runId := shows.runId
        rw [View.addDecision, isRun, ← same, Table.rows_insert inserted, List.map_append]
        simp only [List.map_cons, List.map_nil, DecisionRow.timeless, sameRun]
  refine inserts.attempt.seq ?_
  rintro (exc | _) view' ⟨recorded, refused⟩
  · obtain rfl := refused exc rfl
    simp only
    split
    · rw [Sql.proc_bind, Sql.proc_perform]
      have reads : Does env start (fun found view'' => view'' = view' ∧
          view'.decision = found.map DecisionRow.timeless) anyError
          (Op.sql (.selectDecision env.runId view'.run.stepCount)).perform view' :=
        .select (.selectDecision env.runId view'.run.stepCount)
          (fun world => world.db.decision env.runId view'.run.stepCount) (fun _ => rfl)
          fun world shows => ⟨rfl, shows.decision⟩
      refine reads.seq ?_
      rintro found view'' ⟨rfl, same⟩
      cases found with
      | none => exact .raise trivial
      | some row =>
          simp only
          split
          · rename_i unchanged
            refine .done ⟨rfl, row.timeless, same, ?_⟩
            change decodeDecision env.host row.decisionJson = .ok response
            rw [unchanged]
            exact decodeDecision_text _ _
          · exact .raise trivial
    · exact .raise trivial
  · exact .done (recorded () rfl)

theorem getRunStepDecision_does :
    Does env start (fun found view' => view' = view ∧ match found with
        | none => view.decision = none
        | some value => ∃ row, view.decision = some row ∧ loads row.decisionJson = .ok value ∧
            value.isDict = true) anyError
      (getRunStepDecision env.runId view.run.stepCount).proc view := by
  simp only [getRunStepDecision, Program.bind_eq_bind, Sql.proc_bind]
  rw [Sql.proc_perform]
  have reads : Does env start (fun found view' => view' = view ∧
      view.decision = found.map DecisionRow.timeless) anyError
      (Op.sql (.selectDecision env.runId view.run.stepCount)).perform view :=
    .select (.selectDecision env.runId view.run.stepCount)
      (fun world => world.db.decision env.runId view.run.stepCount) (fun _ => rfl)
      fun world shows => ⟨rfl, shows.decision⟩
  refine reads.seq ?_
  rintro found view' ⟨rfl, same⟩
  cases found with
  | none => exact .done ⟨rfl, same⟩
  | some row =>
      simp only
      split
      · exact .raise trivial
      · rename_i value loaded
        split
        · rename_i isDict
          exact .done ⟨rfl, row.timeless, same, loaded, isDict⟩
        · exact .raise trivial

/-! ### The prompt -/

theorem sqlLimit_map {α β : Type} (f : α → β) (limit : Int) (rows : List α) :
    sqlLimit limit (rows.map f) = (sqlLimit limit rows).map f := by
  unfold sqlLimit
  split
  · rfl
  · rw [List.map_take]

theorem latestMessages_timeless (runId : String) (limit : Int) (rows : List MessageRow) :
    latestMessages runId limit (rows.map MessageRow.timeless) =
      (latestMessages runId limit rows).map MessageRow.timeless := by
  simp only [latestMessages, List.filter_map, ← List.map_reverse, sqlLimit_map]
  rfl

theorem promptTask_timeless (task : String) (rows : List MessageRow) :
    Engine.promptTask task (rows.map MessageRow.timeless) = Engine.promptTask task rows := by
  simp only [Engine.promptTask, List.map_eq_nil_iff, List.map_map]
  rfl

theorem build_does {task query : String} :
    Does env start (fun messages view' => view' = view ∧ messages =
        env.context.assembled env.host env.systemPrompt task query env.memories.rows) anyError
      (env.context.build env.host env.systemPrompt task query) view := by
  simp only [ContextAssembler.build, ContextAssembler.assembled]
  split
  · exact .done ⟨rfl, rfl⟩
  · simp only [searchMemories, Program.bind_eq_bind, Sql.proc_bind]
    rw [Sql.proc_perform]
    generalize max (env.context.memoryLimit * 4) env.context.memoryLimit = limit
    have reads : Does env start (fun rows view' => view' = view ∧ rows =
        sqlLimit limit (env.memories.rows.insertionSort fun a b => MemoryRow.before a b = true))
        anyError (Op.sql (.selectMemories limit)).perform view :=
      .select (.selectMemories limit)
        (fun world => sqlLimit limit
          (world.db.memories.rows.insertionSort fun a b => MemoryRow.before a b = true))
        (fun _ => rfl) fun world shows => ⟨rfl, by rw [shows.memories]⟩
    rw [Program.bind_assoc]
    refine reads.seq ?_
    rintro rows view' ⟨rfl, rfl⟩
    simp only [Program.pure_eq_done, Sql.proc_done, Program.done_bind]
    split
    · exact .done ⟨rfl, rfl⟩
    · exact .done ⟨rfl, rfl⟩

/-- The worker shows the model what the environment says. -/
theorem messagesForRun_does {workerId : String} {leaseSeconds : Time} {run : RunRow}
    (same : run.timeless = view.run) :
    Does env start (fun messages view' => view' = view ∧
        messages = env.shown view.run view.messages) anyError
      ((env.engine workerId leaseSeconds).messagesForRun env.host run) view := by
  simp only [Engine.messagesForRun, listRunMessages, Program.bind_eq_bind, Sql.proc_bind]
  rw [Sql.proc_perform, Program.bind_assoc]
  have reads : Does env start (fun rows view' => view' = view ∧
      Engine.promptTask view.run.task rows.reverse =
        Engine.promptTask view.run.task (latestMessages view.run.id 32 view.messages)) anyError
      (Op.sql (.selectMessages run.id 32)).perform view := by
    refine .select (.selectMessages run.id 32)
      (fun world => sqlLimit 32 (world.db.messages.rows.filter fun row => row.runId == run.id).reverse)
      (fun _ => rfl) fun world shows => ⟨rfl, ?_⟩
    rw [shows.fields.2.1, latestMessages_timeless, promptTask_timeless, ← same]
    rfl
  refine reads.seq ?_
  rintro rows view' ⟨rfl, prompt⟩
  simp only [Program.pure_eq_done, Sql.proc_done, Program.done_bind]
  have sameTask : run.task = view'.run.task := by rw [← same]; rfl
  change Does env start _ _ (env.context.build env.host env.systemPrompt
    (Engine.promptTask run.task rows.reverse) run.task) view'
  rw [sameTask, prompt]
  exact build_does

/-! ### The model -/

/-- The run can be worked on. -/
structure View.Working (env : Environment) (view : View) : Prop where
  running : view.run.status = .running
  below : ¬ env.maxSteps ≤ (view.run.stepCount : Int)

theorem View.Working.next_undecided (working : view.Working env) (absent : view.decision = none) :
    env.next view = some (view.addDecision (env.model (env.shown view.run view.messages)
      (env.tools.specs view.run.capabilities))) := by
  rw [Environment.next, if_neg (by simp [working.running]), if_neg working.below, absent]

theorem View.Working.next_call (working : view.Working env) {call : ToolCall}
    (decided : view.Decided env view.run (.toolCall call)) :
    env.next view = env.nextCall view call := by
  obtain ⟨_, row, found, decoded⟩ := decided
  rw [Environment.next, if_neg (by simp [working.running]), if_neg working.below, found]
  simp only [decoded]

theorem View.Working.next_final (working : view.Working env) {text : String}
    (decided : view.Decided env view.run (.finalText text)) :
    env.next view = Environment.nextFinal view text := by
  obtain ⟨_, row, found, decoded⟩ := decided
  rw [Environment.next, if_neg (by simp [working.running]), if_neg working.below, found]
  simp only [decoded]

theorem respond_does {messages : List Message} {tools : List ToolSpec} :
    Does env start (fun response view' => view' = view ∧ response = env.model messages tools)
      anyError (Op.respond messages tools).perform view :=
  .keeps (.respond messages tools) fun _ shows => ⟨shows, _, rfl, rfl, rfl⟩

/-- Whatever response a worker acts on is the decision of the step. -/
theorem admittedResponse_does {workerId : String} {leaseSeconds now : Time} {run : RunRow}
    (same : run.timeless = view.run) (working : view.Working env) :
    Does env start (fun response view' => view'.Decided env view.run response) anyError
      ((env.engine workerId leaseSeconds).admittedResponse env.host env.runId run now) view := by
  have sameStep : run.stepCount = view.run.stepCount := by rw [← same]; rfl
  have sameCapabilities : run.capabilities = view.run.capabilities := by rw [← same]; rfl
  simp only [Engine.admittedResponse, sameStep, Program.bind_eq_bind]
  refine getRunStepDecision_does.seq ?_
  rintro (_ | decision) view' ⟨rfl, found⟩
  · refine (messagesForRun_does same).seq ?_
    rintro messages view'' ⟨rfl, rfl⟩
    refine respond_does.seq ?_
    rintro response view'' ⟨rfl, rfl⟩
    refine (recordRunStepDecision_does fun absent => ?_).seq fun _ view' decided => .done decided
    rw [working.next_undecided absent, sameCapabilities]
    rfl
  · obtain ⟨row, decided, loaded, isDict⟩ := found
    refine .ofExcept (fun response decoded => ⟨rfl, row, decided, ?_⟩) fun _ _ => trivial
    rw [decodeDecision, loaded]
    simp only [isDict, if_true]
    exact decoded

end PreActive.Kernel
