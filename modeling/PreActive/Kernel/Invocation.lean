/-
Module: PreActive.Kernel.Invocation
Purpose: A tool call of a worker that runs alone keeps to the ideal machine: a read-only handler
  is asked again, a mutation is invoked once and replayed from the ledger.
Trusted boundary: none
Main exports: View.Settled, Environment.Chain.settled, View.Yields, View.Executed, execute_does
-/
import PreActive.Kernel.Replay

namespace PreActive.Kernel

open PreActive.Foundation PreActive.Python

variable {env : Environment} {start view : View} {world : World} {now : Time}

/-! ### The ledger of the ideal machine -/

/-- Every row is committed with the text of a JSON object. -/
def View.Settled (view : View) : Prop :=
  ∀ row ∈ view.effects, row.state = .committed ∧
    ∃ output : JsonObject, row.resultJson = some (output.text canonicalStyle)

theorem nextResult_effects {call : ToolCall} {output : PyVal} {view' : View}
    (step : Environment.nextResult view call output = some view') :
    view'.effects = view.effects := by
  simp only [Environment.nextResult] at step
  split at step
  · rw [← Option.some.inj step]
    rfl
  · rw [← Option.some.inj step]
    rfl
  · cases step

theorem View.Settled.nextMutation {spec : ToolSpec} {call : ToolCall} {view' : View}
    (settled : view.Settled) (step : env.nextMutation view spec call = some view') :
    view'.Settled := by
  unfold Environment.nextMutation at step
  split at step
  · rw [← Option.some.inj step]
    intro row member
    rcases List.mem_append.1 member with old | fresh
    · exact settled row old
    · rw [List.mem_singleton] at fresh
      rw [fresh]
      exact ⟨rfl, _, rfl⟩
  · split at step
    · rw [← Option.some.inj step]
      exact settled
    · split at step
      · rw [View.Settled, nextResult_effects step]
        exact settled
      · cases step

theorem View.Settled.nextCall {call : ToolCall} {view' : View} (settled : view.Settled)
    (step : env.nextCall view call = some view') : view'.Settled := by
  simp only [Environment.nextCall] at step
  split at step
  · rw [← Option.some.inj step]
    exact settled
  · split at step
    · split at step
      · rw [← Option.some.inj step]
        exact settled
      · cases step
    · split at step
      · exact settled.nextMutation step
      · rw [View.Settled, nextResult_effects step]
        exact settled

theorem View.Settled.nextFinal {text : String} {view' : View} (settled : view.Settled)
    (step : Environment.nextFinal view text = some view') : view'.Settled := by
  simp only [Environment.nextFinal] at step
  split at step
  · rw [← Option.some.inj step]
    exact settled
  · rw [← Option.some.inj step]
    exact settled

/-- The machine keeps its ledger settled. -/
theorem View.Settled.next {view' : View} (settled : view.Settled)
    (step : env.next view = some view') : view'.Settled := by
  unfold Environment.next at step
  split at step
  · cases step
  · split at step
    · rw [← Option.some.inj step]
      exact settled
    · split at step
      · rw [← Option.some.inj step]
        exact settled
      · split at step
        · cases step
        · exact settled.nextCall step
        · exact settled.nextFinal step

theorem Environment.Chain.settled (chain : env.Chain start view) (settled : start.Settled) :
    view.Settled := by
  induction chain with
  | refl => exact settled
  | tail before step ih => exact ih.next step

/-- What the chain says may be used. -/
theorem Does.ofChain {α : Type} {R : α → View → Prop} {E : Exc → View → Prop}
    {program : Proc α} (does : env.Chain start view → Does env start R E program view) :
    Does env start R E program view :=
  fun chain => does chain chain

/-! ### `execute` -/

/-- The machine has this output for the call: the handler's, or the one in the ledger. -/
def View.Yields (env : Environment) (view : View) (call : ToolCall) (output : PyVal) : Prop :=
  ∃ spec, env.gate call view.run.capabilities = .ok spec ∧
    if spec.mutation then
      ∃ row, view.effect call.requestId = some row ∧
        row.requestSha256 = requestDigest env.host call.name call.arguments ∧
          row.toolName = call.name ∧ loadsResult row.resultJson = .ok output
    else output = (env.handler spec call.arguments).value

/-- The assistant message of the step is stored. -/
def View.Announced (view : View) : Prop :=
  (view.message (stepKey view.run.stepCount "assistant-decision")).isSome = true

/-- With an output for the call the machine goes on to the result. -/
theorem View.Yields.nextCall {call : ToolCall} {output : PyVal}
    (yields : view.Yields env call output) (announced : view.Announced) :
    env.nextCall view call = Environment.nextResult view call output := by
  obtain ⟨spec, gate, found⟩ := yields
  obtain ⟨message, told⟩ := Option.isSome_iff_exists.1 announced
  simp only [Environment.nextCall, told, gate]
  split at found
  · rename_i mutates
    obtain ⟨row, stored, sameRequest, sameTool, loaded⟩ := found
    rw [if_pos mutates, Environment.nextMutation, stored]
    simp [sameRequest, sameTool, loaded]
  · rename_i reads
    rw [if_neg reads, found]

theorem View.Yields.of_same {view' : View} {call : ToolCall} {output : PyVal}
    (yields : view.Yields env call output) (run : view'.run = view.run)
    (effects : view'.effects = view.effects) : view'.Yields env call output := by
  obtain ⟨spec, gate, found⟩ := yields
  refine ⟨spec, by rw [run]; exact gate, ?_⟩
  rw [View.effect, effects]
  exact found

/-- The call of the step was executed. -/
structure View.Executed (env : Environment) (before : View) (call : ToolCall) (output : PyVal)
    (view : View) : Prop where
  run : view.run = before.run
  decisions : view.decisions = before.decisions
  messages : view.messages = before.messages
  yields : view.Yields env call output

/-- The exception says how the machine goes on. -/
def View.Refused (env : Environment) (before : View) (call : ToolCall) (exc : Exc) (view : View) :
    Prop :=
  view = before ∧ (exc.isToolError = true → env.nextCall before call = some before.failed)

theorem canonicalJson_value (output : JsonObject) :
    canonicalJson output.value = .ok (output.text canonicalStyle) :=
  output.dumps_eq canonicalStyle

theorem execute_eq (env : Environment) (call : ToolCall) (allowed : List String) (now : Time) :
    env.tools.execute env.host call allowed now =
      (Op.enterExecute call allowed).perform.bind fun _ =>
        match env.gate call allowed with
        | .error exc => .raise exc
        | .ok spec =>
            if spec.mutation then executeMutation env.host spec call now
            else executeReadOnly env.host spec call := by
  simp only [ToolRegistry.execute, Program.bind_eq_bind, Environment.gate]
  congr 1
  funext _
  cases env.tools.find call.name with
  | none => rfl
  | some spec =>
      simp only
      split
      · rfl
      · cases validateArguments env.host spec call.arguments <;> rfl

theorem handler_answer (env : Environment) (call : HandlerCall) (world : World) :
    (Op.handler call).answer env.host (env.answers (.handler call)) world =
      (.ok (env.handler call.spec call.arguments).value,
        { world with
          calls := world.calls ++ [⟨call, .ok (env.handler call.spec call.arguments).value⟩] }) :=
  rfl

theorem executeReadOnly_does {spec : ToolSpec} {call : ToolCall} (reads : spec.mutation = false) :
    Does env start (fun result view' => view' = view ∧
        result.output = (env.handler spec call.arguments).value) noError
      (executeReadOnly env.host spec call) view := by
  simp only [executeReadOnly, Program.bind_eq_bind]
  have handles : Does env start (fun output view' => view' = view ∧
      output = (env.handler spec call.arguments).value) noError
      (Op.handler ⟨spec, call.arguments, call.requestId⟩).perform view := by
    refine .keeps (.handler ⟨spec, call.arguments, call.requestId⟩) fun world shows =>
      ⟨?_, _, rfl, rfl, rfl⟩
    refine shows.congr rfl rfl rfl rfl rfl ?_ shows.events
    simp [handler_answer, HandlerRun.isMutation, reads]
  refine handles.bind ?_ fun _ _ never => never
  rintro output view' ⟨rfl, rfl⟩
  rw [canonicalJson_value]
  exact .done ⟨rfl, rfl⟩

/-! ### A fresh mutation -/

/-- The world after a mutation was admitted. -/
def enteredWorld (world : World) (effects : Table EffectRow) : World :=
  { world with db := { world.db with effects := effects } }

theorem At.entered {effects : Table EffectRow} {row : EffectRow} (shows : At env view world)
    (inserted : world.db.effects.insert row = some effects) :
    At env { view with effects := view.effects ++ [row.timeless] }
      (enteredWorld world effects) where
  seen := by
    have same := shows.seen
    obtain ⟨stored, found, _⟩ := shows.run
    simp only [viewOf, Db.run, enteredWorld] at same found ⊢
    rw [found, Option.map_some, Option.some.injEq] at same ⊢
    rw [← same, Table.rows_insert inserted, List.map_append]
    rfl
  memories := shows.memories
  events := shows.events

theorem At.invoked (run : HandlerRun) (shows : At env view world)
    (mutates : run.call.spec.mutation = true) :
    At env { view with mutations := view.mutations ++ [run] }
      { world with calls := world.calls ++ [run] } where
  seen := by
    have same := shows.seen
    obtain ⟨stored, found, _⟩ := shows.run
    simp only [viewOf, Db.run] at same found ⊢
    rw [found, Option.map_some, Option.some.injEq] at same ⊢
    rw [← same, List.filter_append]
    simp [HandlerRun.isMutation, mutates]
  memories := shows.memories
  events := shows.events

theorem At.settledEffect (shows : At env view world) (requestId : String)
    (f : EffectRow → EffectRow) (keeps : ∀ row, UniqueKeys.key (f row) = UniqueKeys.key row) :
    At env
      { view with
        effects := (world.db.effects.rows.map fun row =>
          if row.requestId == requestId then f row else row).map EffectRow.timeless }
      (updateEffects world requestId f keeps) where
  seen := by
    have same := shows.seen
    obtain ⟨stored, found, _⟩ := shows.run
    simp only [viewOf, Db.run, updateEffects, Table.rows_update] at same found ⊢
    rw [found, Option.map_some, Option.some.injEq] at same ⊢
    rw [← same]
  memories := shows.memories
  events := shows.events

/-- The committed row is the fresh one, with its result. -/
theorem At.committed {effects : Table EffectRow} {spec : ToolSpec} {call : ToolCall}
    (output : JsonObject) (shows : At env view world) (mutates : spec.mutation = true)
    (inserted : world.db.effects.insert (freshEffect env.host call now) = some effects) :
    At env (view.addEffect env.host spec call output)
      (updateEffects
        { enteredWorld world effects with
          calls := (enteredWorld world effects).calls ++
            [⟨⟨spec, call.arguments, call.requestId⟩, .ok output.value⟩] }
        call.requestId
        (EffectRow.committed (output.text canonicalStyle)
          (env.host.sha256 (output.text canonicalStyle)) now) fun _ => rfl) := by
  have settled := ((shows.entered inserted).invoked
    ⟨⟨spec, call.arguments, call.requestId⟩, .ok output.value⟩ mutates).settledEffect
    call.requestId (EffectRow.committed (output.text canonicalStyle)
      (env.host.sha256 (output.text canonicalStyle)) now) fun _ => rfl
  -- the update reaches the row that was inserted and no other
  have others : ∀ row ∈ world.db.effects.rows, (row.requestId == call.requestId) = false :=
    fun row stored => Table.fresh_of_insert inserted row stored
  have untouched : world.db.effects.rows.map (fun row =>
      if row.requestId == call.requestId then
        row.committed (output.text canonicalStyle)
          (env.host.sha256 (output.text canonicalStyle)) now
      else row) = world.db.effects.rows := by
    refine (List.map_congr_left fun row stored => ?_).trans (List.map_id' _)
    rw [others row stored, if_neg Bool.false_ne_true]
  have rows : (enteredWorld world effects).db.effects.rows =
      world.db.effects.rows ++ [freshEffect env.host call now] := Table.rows_insert inserted
  simp only [rows, List.map_append, untouched, List.map_cons, List.map_nil] at settled
  rw [← shows.fields.2.2.1] at settled
  simpa [View.addEffect, freshEffect, EffectRow.committed, EffectRow.timeless] using settled

/-- One operation whose answer is known. -/
theorem Op.performOk (env : Environment) (op : Op) {value : op.Result} {P : World → Prop}
    {last : World}
    (answered : op.answer env.host (env.answers op) world = (.ok value, last)) (before : P world)
    (after : P last) :
    op.perform.Passes (kernelMachine env.host) env.answers P (Program.EndsIn (.ok value) last)
      world :=
  .performOk answered before after

/-- A fresh mutation is one change of the machine, unless the process is killed inside it. -/
theorem freshMutation_does {spec : ToolSpec} {call : ToolCall} (mutates : spec.mutation = true)
    (absent : view.effect call.requestId = none)
    (step : env.next view =
      some (view.addEffect env.host spec call (env.handler spec call.arguments))) :
    Does env start (fun result view' =>
        view' = view.addEffect env.host spec call (env.handler spec call.arguments) ∧
          result.output = (env.handler spec call.arguments).value) noError
      ((Op.sql (.insertEffect (freshEffect env.host call now))).perform.bind fun _ =>
        dispatchMutation env.host spec call now) view := by
  intro chain world shows
  have unknown : world.db.effect call.requestId = none := by
    have same := shows.effect call.requestId
    rw [absent] at same
    exact Option.map_eq_none_iff.1 same.symm
  obtain ⟨effects, inserted⟩ := Table.insert_isSome (freshEffect env.host call now)
    fun old stored => by
      simpa [UniqueKeys.clash, UniqueKeys.key, freshEffect] using
        Db.effect_eq_none.1 unknown old stored
  have inFlight : ∀ world' view', At env view' world' →
      view'.effects = view.effects ++ [(freshEffect env.host call now).timeless] →
        Crashable env start world' := by
    intro world' view' shows' same
    refine ⟨view', shows', .inr ⟨(freshEffect env.host call now).timeless, ?_, rfl⟩⟩
    rw [same]
    exact List.mem_append_right _ (List.mem_singleton_self _)
  have entered := shows.entered inserted
  have invoked := entered.invoked ⟨⟨spec, call.arguments, call.requestId⟩,
    .ok (env.handler spec call.arguments).value⟩ mutates
  have insertion : (Op.sql (.insertEffect (freshEffect env.host call now))).answer env.host
      (env.answers (.sql (.insertEffect (freshEffect env.host call now)))) world =
        (.ok (), enteredWorld world effects) := by
    rw [sql_answer, Stmt.exec, inserted]
    rfl
  refine (Op.performOk env _ insertion (shows.crashable chain)
    (inFlight _ _ entered rfl)).thenOk fun _ => ?_
  simp only [dispatchMutation, Program.bind_eq_bind]
  have handling := Op.performOk (P := Crashable env start) env _
    (handler_answer env ⟨spec, call.arguments, call.requestId⟩ (enteredWorld world effects))
    (inFlight _ _ entered rfl) (inFlight _ _ invoked rfl)
  refine handling.attemptEnds.thenOk fun _ => ?_
  simp only [canonicalJson_value, Program.ofExcept_ok, Program.done_bind]
  have settled := shows.committed (env.handler spec call.arguments) mutates inserted
  have continued := chain.next step
  have commits := Op.performOk (P := Crashable env start) env
    (.sql (.commitEffect call.requestId
      ((env.handler spec call.arguments).text canonicalStyle)
      (env.host.sha256 ((env.handler spec call.arguments).text canonicalStyle)) now))
    rfl (inFlight _ _ invoked rfl) (settled.crashable continued)
  refine commits.thenOk fun _ => ?_
  exact ⟨settled.crashable continued, _, settled, continued, rfl, rfl⟩

/-! ### The admission of a mutation -/

theorem View.addEffect_yields {spec : ToolSpec} {call : ToolCall} (output : JsonObject)
    (mutates : spec.mutation = true) (gate : env.gate call view.run.capabilities = .ok spec)
    (absent : view.effect call.requestId = none) :
    (view.addEffect env.host spec call output).Yields env call output.value := by
  refine ⟨spec, gate, ?_⟩
  rw [if_pos mutates]
  refine ⟨(freshEffect env.host call 0).committed (output.text canonicalStyle)
    (env.host.sha256 (output.text canonicalStyle)) 0, ?_, rfl, rfl, output.loads_text canonicalStyle⟩
  simp only [View.effect] at absent
  simp [View.effect, View.addEffect, List.find?_append, absent, freshEffect, EffectRow.committed]

theorem View.Settled.effect {requestId : String} {row : EffectRow} (settled : view.Settled)
    (found : view.effect requestId = some row) :
    row.state = .committed ∧
      ∃ output : JsonObject, row.resultJson = some (output.text canonicalStyle) :=
  settled row (List.mem_of_find?_eq_some found)

/-- A mutation is invoked once, and replayed from the ledger ever after. -/
theorem executeMutation_does {spec : ToolSpec} {call : ToolCall} (mutates : spec.mutation = true)
    (gate : env.gate call view.run.capabilities = .ok spec) (settled : view.Settled)
    (working : view.Working env) (decided : view.Decided env view.run (.toolCall call))
    (announced : view.Announced) :
    Does env start (fun result => View.Executed env view call result.output)
      (View.Refused env view call) (executeMutation env.host spec call now) view := by
  have nexts : env.nextCall view call = env.nextMutation view spec call := by
    obtain ⟨message, told⟩ := Option.isSome_iff_exists.1 announced
    simp only [Environment.nextCall, told, gate, mutates, if_true]
  simp only [executeMutation, Program.bind_eq_bind]
  have reads : Does env start (fun found view' => view' = view ∧
      view.effect call.requestId = found.map EffectRow.timeless) noError
      (Op.sql (.selectEffect call.requestId)).perform view :=
    .select (.selectEffect call.requestId) (fun world => world.db.effect call.requestId)
      (fun _ => rfl) fun world shows => ⟨rfl, shows.effect call.requestId⟩
  refine reads.bind ?_ fun _ _ never => never.elim
  rintro (_ | row) view' ⟨rfl, found⟩
  · -- the first time the request is seen
    refine (freshMutation_does mutates found ?_).weaken ?_ fun _ _ never => never.elim
    · rw [working.next_call decided, nexts, Environment.nextMutation, found]
      rfl
    · rintro result view'' ⟨rfl, same⟩
      rw [same]
      exact ⟨rfl, rfl, rfl, View.addEffect_yields _ mutates gate found⟩
  · simp only
    split
    · rename_i differs
      refine .raise ⟨rfl, fun _ => ?_⟩
      rw [nexts, Environment.nextMutation, found]
      exact if_pos differs
    · rename_i same
      simp only [ne_eq, not_or, not_not] at same
      obtain ⟨committed, output, result⟩ := settled.effect found
      have state : row.state = .committed := committed
      have stored : row.resultJson = some (output.text canonicalStyle) := result
      have loaded : loadsResult row.resultJson = .ok output.value := by
        rw [stored]
        exact output.loads_text canonicalStyle
      simp only [state, replay, Program.bind_eq_bind, loaded, Program.ofExcept_ok,
        Program.done_bind]
      refine .done ⟨rfl, rfl, rfl, spec, gate, ?_⟩
      rw [if_pos mutates]
      exact ⟨row.timeless, found, same.1, same.2, loaded⟩

/-- Whatever a call returns, the machine goes on with; whatever it raises, the machine stops at. -/
theorem execute_does {call : ToolCall} (settled : view.Settled) (working : view.Working env)
    (decided : view.Decided env view.run (.toolCall call)) (announced : view.Announced) :
    Does env start (fun result => View.Executed env view call result.output)
      (View.Refused env view call)
      (env.tools.execute env.host call view.run.capabilities now) view := by
  rw [execute_eq]
  have enters : Does env start (fun _ view' => view' = view) noError
      (Op.enterExecute call view.run.capabilities).perform view :=
    .keeps (.enterExecute call view.run.capabilities) fun _ shows => ⟨shows, (), rfl, rfl⟩
  refine enters.bind ?_ fun _ _ never => never.elim
  rintro _ view' rfl
  cases gate : env.gate call view'.run.capabilities with
  | error exc =>
      refine .raise ⟨rfl, fun isToolError => ?_⟩
      obtain ⟨message, told⟩ := Option.isSome_iff_exists.1 announced
      simp only [Environment.nextCall, told, gate, isToolError, if_true]
  | ok spec =>
      simp only
      by_cases mutates : spec.mutation = true
      · rw [if_pos mutates]
        exact executeMutation_does mutates gate settled working decided announced
      · rw [if_neg mutates]
        refine (executeReadOnly_does (by simpa using mutates)).weaken ?_
          fun _ _ never => never.elim
        rintro result view'' ⟨rfl, same⟩
        refine ⟨rfl, rfl, rfl, spec, gate, ?_⟩
        rw [if_neg mutates]
        exact same

end PreActive.Kernel
