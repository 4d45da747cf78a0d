/-
Module: PreActive.Kernel.Origins
Purpose: Where the rows of a store come from: the identifiers of events, the call and the run behind
  a ledger row, the decision behind a blocked run.
Trusted boundary: none
Main exports: EventsDrawn, reachable_drawn, RequestsApart, EffectRow.AdmittedFor, admittedFor_of_run,
  blocked_decided
-/
import PreActive.Kernel.Binding
import PreActive.Kernel.Confinement
import PreActive.Kernel.Ownership

namespace PreActive.Kernel

open PreActive.Foundation PreActive.Python

variable {host : Host} {registry : ToolRegistry} {world world' : World} {op : Op}
variable {config : KernelConfig} {log : History} {runId requestId : String}

/-! ### Identifiers -/

/-- Every event has an identifier that was drawn. -/
def EventsDrawn (host : Host) (world : World) : Prop :=
  ∀ row ∈ world.db.events.rows, ∃ index < world.drawn, row.id = host.uuid4 index

theorem EventsDrawn.of_events (drawn : EventsDrawn host world)
    (same : world'.db.events = world.db.events) (more : world.drawn ≤ world'.drawn) :
    EventsDrawn host world' := by
  intro row member
  rw [same] at member
  obtain ⟨index, below, named⟩ := drawn row member
  exact ⟨index, below.trans_le more, named⟩

theorem EventsDrawn.updateEvents (drawn : EventsDrawn host world) {p : EventRow → Bool}
    {f : EventRow → EventRow} (keeps : ∀ row, UniqueKeys.key (f row) = UniqueKeys.key row) :
    EventsDrawn host (updateEvents world p f keeps) := by
  intro row member
  obtain ⟨old, stored, rfl⟩ := List.mem_map.1 member
  obtain ⟨index, below, named⟩ := drawn old stored
  refine ⟨index, below, ?_⟩
  split
  · exact (congrArg Prod.fst (keeps old)).trans named
  · exact named

theorem EventsDrawn.insert (drawn : EventsDrawn host world) {row : EventRow}
    {events : Table EventRow} (inserted : world.db.events.insert row = some events)
    (same : world'.db.events = events) (more : world.drawn ≤ world'.drawn)
    (fresh : ∃ index < world'.drawn, row.id = host.uuid4 index) : EventsDrawn host world' := by
  intro other member
  rw [same, Table.rows_insert inserted, List.mem_append, List.mem_singleton] at member
  rcases member with old | rfl
  · obtain ⟨index, below, named⟩ := drawn other old
    exact ⟨index, below.trans_le more, named⟩
  · exact fresh

theorem EventsDrawn.enqueues (drawn : EventsDrawn host world) {request : EventRequest}
    {eventId : String} (enqueues : Enqueues host request world eventId world') :
    EventsDrawn host world' ∧ world.drawn ≤ world'.drawn := by
  cases enqueues with
  | reused row found same => exact ⟨drawn, le_refl _⟩
  | fresh events absent inserted =>
      refine ⟨drawn.insert inserted rfl (Nat.le_succ _) ?_, Nat.le_succ _⟩
      exact ⟨world.drawn, Nat.lt_succ_self _, rfl⟩

theorem EventsDrawn.creates (drawn : EventsDrawn host world) {task runId : String}
    {capabilities : List String} {now : Time} {sourceEventId : Option String}
    (creates : CreatesRun host task capabilities now sourceEventId world runId world') :
    EventsDrawn host world' ∧ world.drawn ≤ world'.drawn := by
  cases creates with
  | reused source row bound found sameTask sameSet => exact ⟨drawn, le_refl _⟩
  | fresh runs inserted =>
      exact ⟨drawn.of_events rfl (Nat.le_succ _), Nat.le_succ _⟩

theorem EventsDrawn.transacts {block : Transaction} {result : block.Result}
    (drawn : EventsDrawn host world) (transacts : Transacts host world block result world') :
    EventsDrawn host world' ∧ world.drawn ≤ world'.drawn := by
  cases transacts with
  | claimNothing idle => exact ⟨drawn, le_refl _⟩
  | @claim workerId now leaseSeconds row found =>
      refine ⟨?_, le_refl _⟩
      exact (drawn.updateEvents (f := EventRow.claimedBy workerId (now + leaseSeconds)
        (row.attempts + 1) now) fun _ => rfl).of_events rfl (le_refl _)
  | createRun created enqueued =>
      obtain ⟨drawn', more⟩ := drawn.creates created
      obtain ⟨drawn'', more'⟩ := drawn'.enqueues enqueued
      exact ⟨drawn'', more.trans more'⟩
  | @advance runId step _ now _ _ run found running stands enqueued =>
      have advanced : EventsDrawn host (advancedWorld world runId step now) :=
        drawn.of_events rfl (le_refl _)
      exact advanced.enqueues enqueued
  | @resume runId now _ _ _ run found blocked enqueued =>
      have resumed : EventsDrawn host (resumedWorld world runId run.stepCount now) :=
        drawn.of_events rfl (le_refl _)
      exact resumed.enqueues enqueued
  | @reconcile requestId effectOccurred _ _ _ _ effect found unresolved =>
      cases effectOccurred <;> exact ⟨drawn.of_events rfl (le_refl _), le_refl _⟩

/-- Identifiers are only ever drawn. -/
theorem Stmt.drawn_le (host : Host) (stmt : Stmt) (world : World) :
    world.drawn ≤ (stmt.exec host world).2.drawn := by
  have writes := Stmt.writes host stmt world
  generalize (stmt.exec host world).2 = world' at writes ⊢
  cases writes with
  | draw => exact Nat.le_succ _
  | _ => exact le_refl _

theorem Sql.drawn_le {α : Type} (host : Host) (sql : Sql α) (world : World) :
    world.drawn ≤ (sql.run host world).2.drawn := by
  induction sql generalizing world with
  | done value => exact le_refl _
  | raise exc => exact le_refl _
  | call stmt next ih => exact (stmt.drawn_le host world).trans (ih _ _)

theorem Op.drawn_le (host : Host) (op : Op) (answer : Answer) (world : World) :
    world.drawn ≤ (op.answer host answer world).2.drawn := by
  cases op with
  | sql stmt =>
      simp only [Op.answer]
      split
      · exact le_refl _
      · exact stmt.drawn_le host world
  | transaction block =>
      simp only [Op.answer]
      split
      · exact le_refl _
      · have more := Sql.drawn_le host (block.body host) world
        unfold Transaction.exec
        split <;> rename_i ran <;> rw [ran] at more <;> exact more
  | enterExecute call allowed => exact le_refl _
  | respond messages tools => exact le_refl _
  | handler handled => exact le_refl _

theorem EventsDrawn.stmt {stmt : Stmt} (drawn : EventsDrawn host world)
    (added : ∀ row, stmt = .insertEvent row → ∃ index < world.drawn, row.id = host.uuid4 index) :
    EventsDrawn host (stmt.exec host world).2 := by
  have writes := Stmt.writes host stmt world
  generalize (stmt.exec host world).2 = world' at writes ⊢
  cases writes with
  | event row events inserted =>
      exact drawn.insert inserted rfl (le_refl _) (added row rfl)
  | events p f keeps => exact drawn.updateEvents keeps
  | draw => exact drawn.of_events rfl (Nat.le_succ _)
  | _ => exact drawn.of_events rfl (le_refl _)

/-- A step whose event, if it inserts one, has a drawn identifier. -/
theorem EventsDrawn.answer (drawn : EventsDrawn host world) (answer : Answer)
    (added : ∀ row, op = .sql (.insertEvent row) → ∃ index < world.drawn, row.id = host.uuid4 index) :
    EventsDrawn host (op.answer host answer world).2 := by
  have more := op.drawn_le host answer world
  rcases op.answer_cases host answer world with
    same | ⟨stmt, rfl, same⟩ | ⟨block, rfl, ⟨_, same⟩ | ⟨result, transacts⟩⟩ | ⟨call, rfl, same⟩
  · exact drawn.of_events (by rw [same]) more
  · rw [same]
    exact drawn.stmt fun row isInsert => added row (congrArg Op.sql isInsert)
  · exact drawn.of_events (by rw [same]) more
  · exact (drawn.transacts transacts).1
  · exact drawn.of_events (by rw [same]) more

/-- An identifier that a process has drawn is among the drawn ones. -/
def DrawnKnown (host : Host) (entry : Entry kernel Exc) (world : World) : Prop :=
  ∀ eventId, entry = ⟨.sql .uuid4, .ok eventId⟩ →
    ∃ index < world.drawn, eventId = host.uuid4 index

/-- Whatever processes run, if every event had an identifier that was drawn, so it stays. -/
theorem EventsDrawn.reached {steps : KernelConfig → Label Answer Call → Prop}
    (drawn : EventsDrawn host world)
    (reached : (system host).Reachable steps ⟨world, []⟩ config) : EventsDrawn host config.world := by
  have both := reached.learned_with (I := EventsDrawn host)
    (fun _ _ entry world => DrawnKnown host entry world) drawn ?_ ?_ ?_ rfl
  · exact both.1
  · intro config pid call op next log answer before found _ drawn learned
    refine drawn.answer answer ?_
    rintro row rfl
    have rule := (before.obeys (program_obeys host) rfl _ (List.mem_of_getElem? found)).head
    cases call with
    | enqueueEvent request =>
        obtain ⟨eventId, saw, rfl⟩ := rule
        obtain ⟨_, _, known⟩ := learned.of_mem saw
        exact known eventId rfl
    | execute => simp only [CallRule] at rule; exact rule.elim
    | recoverReconciled => simp only [CallRule] at rule; exact rule.elim
    | _ => exact rule.elim
  · intro config pid call op next log answer before found _ _ _ eventId same
    obtain ⟨rfl, answered⟩ := Entry.mk.inj same
    rw [heq_eq_eq] at answered
    change (Op.answer host (.sql .uuid4) answer config.world).1 = .ok eventId at answered
    change ∃ index < (Op.answer host (.sql .uuid4) answer config.world).2.drawn, _
    cases faulty : answer.fault with
    | some fault => simp [Op.answer, faulty] at answered
    | none =>
        simp only [Op.answer, faulty, Stmt.exec, Except.ok.injEq] at answered ⊢
        exact ⟨config.world.drawn, Nat.lt_succ_self _, answered.symm⟩
  · intro config pid call op next log answer before found _ _ _ older entry known eventId same
    obtain ⟨index, below, drawn⟩ := known eventId same
    exact ⟨index, below.trans_le (op.drawn_le host answer config.world), drawn⟩

/-- In every reachable state every event has an identifier that was drawn. -/
theorem reachable_drawn {steps : KernelConfig → Label Answer Call → Prop}
    (reached : (system host).Reachable steps KernelConfig.initial config) :
    EventsDrawn host config.world := by
  have drawn : EventsDrawn host World.initial := fun row member => nomatch member
  exact drawn.reached reached

/-! ### Requests -/

/-- A request id is used by one run only: no two runs have decided a call under it, and nobody
executes a call under it directly. -/
structure RequestsApart (host : Host) (config : KernelConfig) : Prop where
  runs : ∀ runId step call runId' step' call',
    DecidedCall host config.world.db runId step call →
      DecidedCall host config.world.db runId' step' call' →
        call.requestId = call'.requestId → runId = runId'
  direct : ∀ process ∈ config.procs, ∀ registry call allowed now,
    process.call = .execute registry call allowed now → ∀ runId step call',
      DecidedCall host config.world.db runId step call' → call'.requestId ≠ call.requestId

/-- The ledger row was admitted for a call that the run has decided and may make. -/
structure EffectRow.AdmittedFor (host : Host) (registry : ToolRegistry) (db : Db) (row : EffectRow)
    (runId : String) (call : ToolCall) : Prop where
  decided : ∃ step, DecidedCall host db runId step call
  requestId : call.requestId = row.requestId
  admits : row.admits host call
  requestJson : row.requestJson = some (requestText call.name call.arguments)
  admissible : ∃ run, db.run runId = some run ∧
    registry.admissible host call run.capabilities = true

theorem DecidedCall.later {step : Nat} {call : ToolCall}
    (decided : DecidedCall host world.db runId step call) (op : Op) (answer : Answer) :
    DecidedCall host (op.answer host answer world).2.db runId step call := by
  obtain ⟨decision, stored, decoded⟩ := decided
  exact ⟨decision, decision_kept host answer op stored, decoded⟩

theorem EffectRow.AdmittedFor.later {row row' : EffectRow} {call : ToolCall}
    (admitted : row.AdmittedFor host registry world.db runId call) (answer : Answer)
    (issued : op.issued) (same : row.SameRequest row') :
    row'.AdmittedFor host registry (op.answer host answer world).2.db runId call where
  decided := admitted.decided.imp fun _ decided => decided.later op answer
  requestId := admitted.requestId.trans same.requestId.symm
  admits := same.admits admitted.admits
  requestJson := same.requestJson.trans admitted.requestJson
  admissible := by
    obtain ⟨run, stored, admissible⟩ := admitted.admissible
    obtain ⟨run', stored', evolves⟩ := run_evolves host answer issued stored
    refine ⟨run', stored', ?_⟩
    rw [evolves.capabilities]
    exact admissible

theorem Granted.admissible {call : ToolCall} {allowed : List String} {spec : ToolSpec}
    (granted : Granted host registry call allowed spec) (mutation : spec.mutation = true) :
    registry.admissible host call allowed = true := by
  simp [ToolRegistry.admissible, granted.found, mutation, granted.valid, granted.granted]

/-- The call was executed directly, not for a run. -/
def ExecutedDirectly (config : KernelConfig) (requestId : String) : Prop :=
  ∃ process ∈ config.procs, ∃ registry call allowed now,
    process.call = .execute registry call allowed now ∧ call.requestId = requestId

theorem ExecutedDirectly.later {config' : KernelConfig} {label : Label Answer Call}
    (executed : ExecutedDirectly config requestId) (stepped : Steps host config label config') :
    ExecutedDirectly config' requestId := by
  obtain ⟨process, member, registry, call, allowed, now, isCall, same⟩ := executed
  have kept : ∃ process' ∈ config'.procs, process'.call = process.call := by
    cases stepped with
    | spawn call => exact ⟨process, List.mem_append_left _ member, rfl⟩
    | die found => exact System.calls_of_set found (by rfl) process member
    | act found => exact System.calls_of_set found (by rfl) process member
  obtain ⟨process', member', sameCall⟩ := kept
  exact ⟨process', member', registry, call, allowed, now, sameCall.trans isCall, same⟩

section Reached

variable {steps : KernelConfig → Label Answer Call → Prop}
variable (fixed : ∀ config label, steps config label → FixedRegistry host registry label)
variable (reached : (system host).Reachable steps KernelConfig.initial config)
include fixed reached

/-- A row that is about to be admitted is one of a call that its run has decided, or is admitted by
a direct call. -/
theorem inserted_origin {process : Process kernel Exc Call} {row : EffectRow}
    (member : process ∈ config.procs)
    (rule : CallRule host process.call process.log (.sql (.insertEffect row)))
    (absent : config.world.db.effect row.requestId = none) :
    (∃ runId call, row.AdmittedFor host registry config.world.db runId call) ∨
      ExecutedDirectly config row.requestId := by
  have uses := reached.calls (P := fun call => call.Uses host registry)
    (fun config call admitted => fixed config _ admitted call rfl) rfl process member
  have lawful := reachable_lawful reached process member
  have known := reachable_known reached process member
  obtain ⟨registry', enter, entering, call, allowed, spec, now, entered, granted, mutation, rfl⟩ :=
    rule.tool rfl
  obtain rfl := uses registry' enter entering
  obtain ⟨older, longer, entersRule⟩ := lawful.of_mem entered
  have inside := (List.suffix_cons _ _).trans longer
  -- who executes a stored call would have found its row
  have notStored : ∀ requestId, StoredFor host older requestId call →
      call.requestId = requestId → False := by
    rintro requestId ⟨effect, _, _, saw, _⟩ rfl
    obtain ⟨effect', stored, _⟩ := Saw.effect known (saw.later inside)
    rw [freshEffect, stored] at absent
    cases absent
  cases isCall : process.call with
  | runOnce engine started =>
      rw [isCall] at entersRule
      left
      obtain ⟨claim, event, runId, run, stepping, decided, rfl⟩ := entersRule
      obtain ⟨decisionJson, seen, decoded⟩ := decided.later inside
      obtain ⟨decision, stored, rfl⟩ := seen.stored known
      obtain ⟨run', storedRun, evolves⟩ := Saw.run known (stepping.selected.later inside)
      refine ⟨runId, call, ⟨run.stepCount, decision, stored, decoded⟩, rfl, ⟨rfl, rfl⟩, rfl, run',
        storedRun, ?_⟩
      rw [evolves.capabilities]
      exact granted.admissible mutation
  | execute registry' call' allowed' started =>
      rw [isCall] at entersRule
      obtain ⟨rfl, _⟩ := entersRule
      exact .inr ⟨process, member, registry', call, allowed', started, isCall, rfl⟩
  | resumeBlockedEffect registry' target started =>
      rw [isCall] at entersRule
      obtain ⟨run, requestId, _, isStored, _⟩ := entersRule
      exact (notStored requestId isStored isStored.sameRequest).elim
  | recoverReconciled registry' requestId allowed' started =>
      rw [isCall] at entersRule
      have isStored : StoredFor host older requestId call := entersRule
      exact (notStored requestId isStored isStored.sameRequest).elim
  | submitTask task capabilities started sourceEventId =>
      rw [isCall] at entersRule
      exact entersRule.elim
  | reconcile requestId effectOccurred evidenceDigest started result =>
      rw [isCall] at entersRule
      exact entersRule.elim
  | enqueueEvent request =>
      rw [isCall] at entersRule
      exact entersRule.elim
  | addMemory =>
      rw [isCall] at entersRule
      exact entersRule.elim

/-- Every ledger row was admitted for a call that some run has decided and may make, or by a direct
call. -/
theorem effect_origin : ∀ requestId row, config.world.db.effect requestId = some row →
    (∃ runId call, row.AdmittedFor host registry config.world.db runId call) ∨
      ExecutedDirectly config requestId := by
  refine reached.invariant (I := fun config => ∀ requestId row,
    config.world.db.effect requestId = some row →
      (∃ runId call, row.AdmittedFor host registry config.world.db runId call) ∨
        ExecutedDirectly config requestId) ?_ ?_
  · intro requestId row stored
    cases stored
  · intro config label config' before held admitted stepped requestId row stored
    cases Steps.of_step stepped with
    | spawn call => exact (held requestId row stored).imp_right (·.later (.of_step stepped))
    | die found => exact (held requestId row stored).imp_right (·.later (.of_step stepped))
    | @act pid answer call op next log found =>
        have member := List.mem_of_getElem? found
        have rule := (reachable_rule before _ member).head
        have change := ledgerChange host config.world answer rule.issued requestId
        have direct : ∀ requestId, ExecutedDirectly config requestId → ExecutedDirectly _ requestId :=
          fun _ executed => executed.later (.of_step stepped)
        cases existing : config.world.db.effect requestId with
        | some old =>
            rw [existing] at change
            obtain ⟨row', stored', same⟩ := change.sameRequest
            obtain rfl := Option.some.inj (stored.symm.trans stored')
            refine (held requestId old existing).imp ?_ (direct requestId)
            rintro ⟨runId, call, admitted⟩
            exact ⟨runId, call, admitted.later answer rule.issued same⟩
        | none =>
            change (op.answer host answer config.world).2.db.effect requestId = some row at stored
            rw [existing, stored] at change
            generalize isRow : some row = after at change
            cases change with
            | keep => cases isRow
            | enter named =>
                obtain rfl := Option.some.inj isRow
                refine (inserted_origin fixed before member rule (named ▸ existing)).imp ?_ ?_
                · rintro ⟨runId, call, admitted⟩
                  exact ⟨runId, call, admitted.later answer rule.issued (.refl _)⟩
                · rw [named]
                  exact direct requestId

/-- The ledger row of a request that a run has decided was admitted for this run, if nobody else
uses the request id. -/
theorem admittedFor_of_run (apart : RequestsApart host config) {step : Nat} {call : ToolCall}
    {row : EffectRow} (decided : DecidedCall host config.world.db runId step call)
    (stored : config.world.db.effect call.requestId = some row) :
    ∃ call', row.AdmittedFor host registry config.world.db runId call' := by
  have named := (Db.effect_eq_some.1 stored).2
  rcases effect_origin fixed reached call.requestId row stored with
    ⟨runId', call', admitted⟩ | ⟨process, member, _, call', _, _, isCall, same⟩
  · obtain ⟨step', decided'⟩ := admitted.decided
    obtain rfl := apart.runs _ _ _ _ _ _ decided decided'
      (named.symm.trans admitted.requestId.symm)
    exact ⟨call', admitted⟩
  · exact absurd same.symm (apart.direct process member _ _ _ _ isCall _ _ _ decided)

end Reached

/-- A run that is blocked on a request has decided a call under it, at a step not after the one it
stands at, and the request is in the ledger. -/
def BlockedDecided (host : Host) (db : Db) : Prop :=
  ∀ runId run, db.run runId = some run → run.status = .blockedEffect →
    ∃ step call row, DecidedCall host db runId step call ∧
      run.blockedRequestId = some call.requestId ∧ db.effect call.requestId = some row ∧
        step ≤ run.stepCount

theorem blocked_decided {steps : KernelConfig → Label Answer Call → Prop}
    (reached : (system host).Reachable steps KernelConfig.initial config) :
    BlockedDecided host config.world.db := by
  refine reached.invariant (I := fun config => BlockedDecided host config.world.db) ?_ ?_
  · intro runId run stored
    cases stored
  · intro config label config' before held _ stepped
    cases Steps.of_step stepped with
    | spawn call => exact held
    | die found => exact held
    | @act pid answer call op next log found =>
        intro runId run stored blocked
        have member := List.mem_of_getElem? found
        have rule := (reachable_rule before _ member).head
        have change := Kernel.runStep host config.world answer rule.issued runId
        change (op.answer host answer config.world).2.db.run runId = some run at stored
        rw [stored] at change
        generalize earlier : config.world.db.run runId = old at change
        have kept : ∀ {row : RunRow}, config.world.db.run runId = some row →
            row.status = .blockedEffect → ∃ step call effect,
              DecidedCall host (op.answer host answer config.world).2.db runId step call ∧
                row.blockedRequestId = some call.requestId ∧
                  (op.answer host answer config.world).2.db.effect call.requestId = some effect ∧
                    step ≤ row.stepCount := by
          intro row there isBlocked
          obtain ⟨step, decidedCall, effect, decided, waits, ledger, notAfter⟩ :=
            held runId row there isBlocked
          obtain ⟨effect', ledger', _⟩ := effect_sameRequest host answer rule.issued ledger
          exact ⟨step, decidedCall, effect', decided.later op answer, waits, ledger', notAfter⟩
        cases change with
        | keep => exact kept earlier blocked
        | create => cases blocked
        | @update row change issued =>
            cases issued with
            | complete now text => cases blocked
            | fail now error => cases blocked
            | note now error =>
                have noted := kept earlier blocked
                exact noted
        | @block row requestId error now running =>
            cases call with
            | runOnce engine started =>
                obtain ⟨claim, event, run, decidedCall, stepping, ⟨_, seen, decoded⟩, ⟨_, saw⟩,
                  rfl⟩ := rule
                have known := reachable_known before _ member
                obtain ⟨row', there, evolves⟩ := Saw.run known stepping.selected
                obtain rfl := Option.some.inj (earlier.symm.trans there)
                obtain ⟨decision, decided, rfl⟩ := seen.stored known
                obtain ⟨effect, ledger, _⟩ := Saw.effect known saw
                have issued : Op.issued (.sql (.blockRun runId decidedCall.requestId error now)) := trivial
                obtain ⟨effect', ledger', _⟩ := effect_sameRequest host answer issued ledger
                have isDecided : DecidedCall host config.world.db runId run.stepCount decidedCall :=
                  ⟨decision, decided, decoded⟩
                exact ⟨run.stepCount, decidedCall, effect', isDecided.later _ answer, rfl, ledger',
                  evolves.stepCount⟩
            | _ => exact rule.elim
        | advance running => cases running.symm.trans blocked
        | resume => cases blocked

end PreActive.Kernel
