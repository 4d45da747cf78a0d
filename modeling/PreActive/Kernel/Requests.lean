/-
Module: PreActive.Kernel.Requests
Purpose: Every task request becomes one run, however often and to whom its event is delivered.
Trusted boundary: human-reviewed spec
Main exports: OnlyDelivered, RunRow.MadeFor, Db.Answers, RequestSound, RequestKept,
  one_run_per_request
-/
import PreActive.Kernel.Successors
import Mathlib.Data.List.Dedup

namespace PreActive.Kernel

open PreActive.Foundation PreActive.Python

/-! ### Capabilities -/

/-- The capabilities of a new run, as the set that was asked for, sorted. -/
theorem newRunRow_capabilities (task : String) (capabilities : List String) (now : Time)
    (sourceEventId : Option String) (runId : String) :
    (newRunRow task capabilities now sourceEventId runId).capabilities =
      capabilities.dedup.insertionSort (· ≤ ·) := by
  have json : ∀ names : List String, isJson (.list (names.map PyVal.str)) = true := by
    intro names
    simp only [isJson]
    induction names with
    | nil => rfl
    | cons name names ih => simp [isJsonItems, isJson, ih]
  obtain ⟨text, written, read⟩ :=
    loads_dumps defaultStyle (json (capabilities.dedup.insertionSort (· ≤ ·)))
  have stored : (newRunRow task capabilities now sourceEventId runId).capabilitiesJson = text := by
    simp [newRunRow, capabilitiesText, written, Except.toOption]
  rw [RunRow.capabilities, stored, read]
  simp [List.filterMap_map, Function.comp_def, PyVal.asStr?]

theorem mem_newRunRow_capabilities {task : String} {capabilities : List String} {now : Time}
    {sourceEventId : Option String} {runId capability : String} :
    capability ∈ (newRunRow task capabilities now sourceEventId runId).capabilities ↔
      capability ∈ capabilities := by
  rw [newRunRow_capabilities, List.mem_insertionSort, List.mem_dedup]

theorem sameCapabilities_iff {a b : List String} :
    sameCapabilities a b = true ↔ ∀ capability, capability ∈ a ↔ capability ∈ b := by
  simp only [sameCapabilities, Bool.and_eq_true, List.all_eq_true, List.contains_iff_mem]
  constructor
  · rintro ⟨forward, backward⟩ capability
    exact ⟨forward capability, backward capability⟩
  · intro same
    exact ⟨fun capability => (same capability).1, fun capability => (same capability).2⟩

/-! ### Requests -/

/-- The event is the task request with this id, for this task and these capabilities. -/
structure EventRow.Requests (eventId task : String) (capabilities : List String)
    (row : EventRow) : Prop where
  id : row.id = eventId
  kind : row.kind = "task.requested"
  payload : ∃ payload, loads row.payloadJson = .ok payload ∧
    requestedTask payload = some (task, capabilities)

/-- The run is the one that the event asks for, and has its initial step. -/
structure RunRow.MadeFor (db : Db) (eventId : String) (run : RunRow) : Prop where
  request : ∃ event ∈ db.events.rows, ∃ capabilities,
    event.Requests eventId run.task capabilities ∧
      run.capabilitiesJson = capabilitiesText capabilities
  initial : ∃ event ∈ db.events.rows, event.IsStep run.id 0 ∧ event.priority = 0

/-- The event has its run, or was malformed and is rejected in the journal. -/
def Db.Answers (db : Db) (event : EventRow) : Prop :=
  (∃ run ∈ db.runs.rows, run.sourceEventId = some event.id) ∨
  ∃ payload, loads event.payloadJson = .ok payload ∧ requestedTask payload = none ∧
    ∃ entry ∈ db.journal, entry.eventType = .eventRejected ∧ entry.subjectId = some event.id

/-- The runs made for an event are the ones it asks for, and it is acknowledged only once it is
answered. -/
structure RequestSound (eventId : String) (db : Db) : Prop where
  made : ∀ run ∈ db.runs.rows, run.sourceEventId = some eventId → run.MadeFor db eventId
  done : ∀ event ∈ db.events.rows, event.id = eventId → event.kind = "task.requested" →
    event.status = .done → db.Answers event

theorem RequestSound.empty (eventId : String) : RequestSound eventId .empty where
  made := fun _ member => nomatch member
  done := fun _ member => nomatch member

variable {host : Host} {world mid world' : World} {op : Op} {eventId : String}

theorem EventRow.SameRequest.requests {task : String} {capabilities : List String}
    {row row' : EventRow} (same : row.SameRequest row')
    (requests : row.Requests eventId task capabilities) :
    row'.Requests eventId task capabilities := by
  obtain ⟨payload, read, asked⟩ := requests.payload
  exact ⟨same.id.trans requests.id, same.kind.trans requests.kind,
    ⟨payload, by rw [same.payloadJson, read], asked⟩⟩

theorem EventRow.SameRequest.isStep {runId : String} {step : Nat} {row row' : EventRow}
    (same : row.SameRequest row') (isStep : row.IsStep runId step) : row'.IsStep runId step :=
  ⟨same.kind.trans isStep.kind, same.payloadJson.trans isStep.payload,
    same.dedupKey.trans isStep.key⟩

/-- What was made for an event stays so. -/
theorem RunRow.MadeFor.later {run run' : RunRow} (made : run.MadeFor world.db eventId)
    (evolves : run.Evolves run') (host : Host) (answer : Answer) (op : Op) :
    run'.MadeFor (op.answer host answer world).2.db eventId := by
  constructor
  · obtain ⟨event, member, capabilities, requests, stored⟩ := made.request
    obtain ⟨event', member', same⟩ := event_sameRequest host answer op member
    refine ⟨event', member', capabilities, ?_, evolves.capabilitiesJson.trans stored⟩
    rw [evolves.task]
    exact same.requests requests
  · obtain ⟨event, member, isStep, priority⟩ := made.initial
    obtain ⟨event', member', same⟩ := event_sameRequest host answer op member
    refine ⟨event', member', ?_, same.priority.trans priority⟩
    rw [evolves.id]
    exact same.isStep isStep

theorem run_kept (host : Host) (answer : Answer) (issued : op.issued) {run : RunRow}
    (stored : run ∈ world.db.runs.rows) :
    ∃ run' ∈ (op.answer host answer world).2.db.runs.rows, run.Evolves run' := by
  obtain ⟨run', stored', evolves⟩ :=
    run_evolves host answer issued (Db.run_eq_some.2 ⟨stored, rfl⟩)
  exact ⟨run', (Db.run_eq_some.1 stored').1, evolves⟩

/-- An answered event stays answered. -/
theorem Db.Answers.later {event event' : EventRow} (answers : world.db.Answers event)
    (same : event.SameRequest event') (host : Host) (answer : Answer) (issued : op.issued) :
    (op.answer host answer world).2.db.Answers event' := by
  rcases answers with ⟨run, member, source⟩ | ⟨payload, read, malformed, entry, member, rejected⟩
  · obtain ⟨run', member', evolves⟩ := run_kept host answer issued member
    exact .inl ⟨run', member', by rw [evolves.sourceEventId, source, same.id]⟩
  · refine .inr ⟨payload, by rw [same.payloadJson, read], malformed, entry,
      journal_kept host answer op member, ?_⟩
    rw [same.id]
    exact rejected

/-! ### What a delivery knows -/

/-- What an entry says about the request it is concerned with. -/
structure RequestKnown (entry : Entry kernel Exc) (world : World) : Prop where
  claimed : ∀ row, ClaimedRow entry row → ∃ row' ∈ world.db.events.rows,
    row'.id = row.id ∧ row'.kind = row.kind ∧ row'.payloadJson = row.payloadJson
  created : ∀ task capabilities now source priority runId,
    entry = ⟨.transaction (.createRunWithInitialStep task capabilities now (some source) priority),
      .ok runId⟩ → ∃ run ∈ world.db.runs.rows, run.sourceEventId = some source
  journalled : ∀ row seq, entry = ⟨.sql (.insertJournal row), .ok seq⟩ → row ∈ world.db.journal

theorem RequestKnown.later {entry : Entry kernel Exc} (known : RequestKnown entry world)
    (host : Host) (answer : Answer) (issued : op.issued) :
    RequestKnown entry (op.answer host answer world).2 where
  claimed := by
    intro row claims
    obtain ⟨row', stored, sameId, sameKind, samePayload⟩ := known.claimed row claims
    obtain ⟨row'', stored', same⟩ := event_sameRequest host answer op stored
    exact ⟨row'', stored', same.id.trans sameId, same.kind.trans sameKind,
      same.payloadJson.trans samePayload⟩
  created := by
    intro task capabilities now source priority runId same
    obtain ⟨run, member, isSource⟩ := known.created task capabilities now source priority runId same
    obtain ⟨run', member', evolves⟩ := run_kept host answer issued member
    exact ⟨run', member', evolves.sourceEventId.trans isSource⟩
  journalled := fun row seq same => journal_kept host answer op (known.journalled row seq same)

/-- A run that `create_run` returned is stored under its source. -/
theorem CreatesRun.stored {task runId source : String} {capabilities : List String} {now : Time}
    (creates : CreatesRun host task capabilities now (some source) world runId mid) :
    ∃ run ∈ mid.db.runs.rows, run.sourceEventId = some source := by
  cases creates with
  | reused source' row bound found sameTask sameSet =>
      obtain rfl := Option.some.inj bound
      exact ⟨row, Table.mem_of_select found, by simpa using Table.holds_of_select found⟩
  | fresh runs inserted =>
      refine ⟨newRunRow task capabilities now (some source) (host.uuid4 world.drawn), ?_, rfl⟩
      change _ ∈ runs.rows
      rw [Table.rows_insert inserted]
      exact List.mem_append_right _ (List.mem_singleton.2 rfl)

theorem RequestKnown.of_answer (host : Host) (answer : Answer) (op : Op) (world : World) :
    RequestKnown ⟨op, (op.answer host answer world).1⟩ (op.answer host answer world).2 where
  claimed := fun _ claims => claimed_of_answer host answer claims
  created := by
    intro task capabilities now source priority runId same
    obtain ⟨rfl, answered⟩ := Entry.mk.inj same
    rw [heq_eq_eq] at answered
    have transacts := Op.transacts_of_answer answered
    generalize (Op.answer host _ answer world).2 = world' at transacts ⊢
    cases transacts with
    | createRun created enqueued =>
        obtain ⟨events, journal, drawn, rfl⟩ := enqueued.touches
        exact created.stored
  journalled := by
    intro row seq same
    obtain ⟨rfl, answered⟩ := Entry.mk.inj same
    rw [heq_eq_eq] at answered
    cases faulty : answer.fault with
    | some fault => simp [Op.answer, faulty] at answered
    | none => simp [Op.answer, faulty, Stmt.exec]

theorem reachable_requestKnown {steps : KernelConfig → Label Answer Call → Prop}
    {config : KernelConfig}
    (reached : (system host).Reachable steps KernelConfig.initial config) :
    ∀ process ∈ config.procs,
      System.Reachable.Learned (fun _ entry world => RequestKnown entry world) config.world
        process.log := by
  refine reached.learned (fun _ _ entry world => RequestKnown entry world) ?_ ?_ rfl
  · intro config pid call op next log answer _ _ _ _
    exact RequestKnown.of_answer host answer op config.world
  · intro config pid call op next log answer before found _ _ older entry known
    have rule := (reachable_rule before _ (List.mem_of_getElem? found)).head
    exact known.later host answer rule.issued

section Delivery

variable {engine : Engine} {log : History} {claim : Claim} {event : Event}
variable (learned :
  System.Reachable.Learned (fun _ entry world => RequestKnown entry world) world log)
include learned

/-- The event a worker holds is stored, with the kind and the payload it has read. -/
theorem Holding.stored (holding : Holding engine log claim event) :
    ∃ row ∈ world.db.events.rows,
      row.id = claim.row.id ∧ row.kind = claim.row.kind ∧
        row.payloadJson = claim.row.payloadJson := by
  obtain ⟨claimedAt, saw⟩ := holding.claimed
  obtain ⟨_, _, known⟩ := learned.of_mem saw
  exact known.claimed claim.row ⟨_, _, _, claim, rfl, rfl⟩

/-- What a worker has answered is answered in the store. -/
theorem Answered.answers (answered : Answered log claim) {row : EventRow}
    (named : row.id = claim.row.id) (payload : row.payloadJson = claim.row.payloadJson) :
    world.db.Answers row := by
  obtain ⟨read, loaded, ⟨task, capabilities, now, runId, _, saw⟩ |
    ⟨malformed, reason, now, seq, saw⟩⟩ := answered
  · obtain ⟨_, _, known⟩ := learned.of_mem saw
    obtain ⟨run, member, source⟩ := known.created _ _ _ _ _ _ rfl
    exact .inl ⟨run, member, by rw [source, named]⟩
  · obtain ⟨_, _, known⟩ := learned.of_mem saw
    refine .inr ⟨read, by rw [payload, loaded], malformed, _, known.journalled _ _ rfl, rfl, ?_⟩
    rw [named]

end Delivery

/-! ### What keeps a request sound -/

/-- A run that was not there before comes with its initial step. -/
theorem created_hasStep {task runId : String} {capabilities : List String} {now : Time}
    {sourceEventId : Option String} {priority : Int} {run : RunRow} {answer : Answer}
    (absent : world.db.run runId = none)
    (present : ((Op.transaction (.createRunWithInitialStep task capabilities now sourceEventId
      priority)).answer host answer world).2.db.run runId = some run) :
    ∃ row ∈ ((Op.transaction (.createRunWithInitialStep task capabilities now sourceEventId
      priority)).answer host answer world).2.db.events.rows,
        row.IsStep runId 0 ∧ row.priority = priority := by
  have cases := Op.answer_cases host (.transaction (.createRunWithInitialStep task capabilities now
    sourceEventId priority)) answer world
  generalize (Op.answer host _ answer world).2 = after at cases present ⊢
  rcases cases with rfl | ⟨stmt, impossible, _⟩ | ⟨block, same, ⟨drawn, rfl⟩ | ⟨result, transacts⟩⟩ |
    ⟨call, impossible, _⟩
  · rw [absent] at present
    cases present
  · cases impossible
  · change world.db.run runId = some run at present
    rw [absent] at present
    cases present
  · cases same
    cases transacts with
    | createRun created enqueued =>
        have hasStep := enqueued.hasStep
        obtain ⟨events, journal, drawn, rfl⟩ := enqueued.touches
        cases created with
        | reused source row bound found sameTask sameSet =>
            change world.db.run runId = some run at present
            rw [absent] at present
            cases present
        | fresh runs inserted =>
            have looked := run_insert inserted runId
            rw [absent, Option.none_or] at looked
            change ({ world.db with runs := runs } : Db).run runId = some run at present
            rw [looked] at present
            split at present
            · rename_i isRun
              rw [← isRun]
              exact hasStep
            · cases present
  · cases impossible

/-- Only deliveries make runs for the event. -/
def onlyDelivered (eventId : String) (_ : KernelConfig) : Label Answer Call → Bool
  | .spawn (.submitTask _ _ _ sourceEventId) => sourceEventId != some eventId
  | _ => true

/-- The steps of a run in which no caller of `submit_task` names the event as the source. -/
def OnlyDelivered (eventId : String) (config : KernelConfig) (label : Label Answer Call) : Prop :=
  onlyDelivered eventId config label = true

variable {config config' : KernelConfig}

/-- The block that makes a run for the event belongs to a worker that holds the event. -/
theorem CallRule.createRun {call : Call} {log : History} {task : String}
    {capabilities : List String} {now : Time} {priority : Int}
    (rule : CallRule host call log (.transaction (.createRunWithInitialStep task capabilities now
      (some eventId) priority)))
    (foreign : ∀ task capabilities now, call ≠ .submitTask task capabilities now (some eventId)) :
    ∃ engine claim event, Holding engine log claim event ∧ claim.row.id = eventId ∧
      claim.row.kind = "task.requested" ∧
        requestedTask event.payload = some (task, capabilities) ∧ priority = 0 := by
  cases call with
  | submitTask task' capabilities' now' source =>
      obtain rfl : some eventId = source := rule
      exact absurd rfl (foreign task' capabilities' now')
  | runOnce engine started =>
      obtain ⟨claim, event, holding, kind, asked, source, priority⟩ := rule
      exact ⟨engine, claim, event, holding, (Option.some.inj source).symm, kind, asked, priority⟩
  | _ => exact rule.elim

/-- No process of such a run is a foreign submission. -/
theorem delivered_calls
    (reached : (system host).Reachable (OnlyDelivered eventId) KernelConfig.initial config) :
    ∀ process ∈ config.procs, ∀ task capabilities now,
      process.call ≠ .submitTask task capabilities now (some eventId) := by
  refine reached.calls (P := fun call => ∀ task capabilities now,
    call ≠ .submitTask task capabilities now (some eventId)) ?_ rfl
  rintro config call allowed task capabilities now rfl
  simp [OnlyDelivered, onlyDelivered] at allowed

/-- The stored events with one id are one event. -/
theorem event_unique {events : Table EventRow} {row row' : EventRow} (stored : row ∈ events.rows)
    (stored' : row' ∈ events.rows) (same : row.id = row'.id) : row = row' := by
  apply Table.eq_of_clash stored stored'
  · simp [UniqueKeys.clash, UniqueKeys.key, same]
  · simp [UniqueKeys.clash, UniqueKeys.key, same]

/-- The runs with one source event are one run. -/
theorem run_of_source_unique {runs : Table RunRow} {run run' : RunRow} (stored : run ∈ runs.rows)
    (stored' : run' ∈ runs.rows) (source : run.sourceEventId = some eventId)
    (source' : run'.sourceEventId = some eventId) : run = run' := by
  apply Table.eq_of_clash stored stored'
  · simp [UniqueKeys.clash, UniqueKeys.key, source, source']
  · simp [UniqueKeys.clash, UniqueKeys.key, source, source']

theorem reachable_requestSound
    (reached : (system host).Reachable (OnlyDelivered eventId) KernelConfig.initial config) :
    RequestSound eventId config.world.db := by
  refine reached.invariant (I := fun config => RequestSound eventId config.world.db)
    (RequestSound.empty eventId) ?_
  intro config label config' before sound _ stepped
  cases Steps.of_step stepped with
  | spawn call => exact sound
  | die found => exact sound
  | @act pid answer call op next log found =>
      have member := List.mem_of_getElem? found
      have rule := (reachable_rule before _ member).head
      have learned := reachable_requestKnown before _ member
      constructor
      · intro run stored source
        have lookup := Db.run_eq_some.2 ⟨stored, rfl⟩
        have step := Kernel.runStep host config.world answer rule.issued run.id
        cases was : config.world.db.run run.id with
        | some old =>
            rw [was] at step
            obtain ⟨run', lookup', evolves⟩ := step.evolves
            obtain rfl := Option.some.inj (lookup.symm.trans lookup')
            have made := sound.made old (Db.run_eq_some.1 was).1
              (evolves.sourceEventId.symm.trans source)
            exact made.later evolves host answer op
        | none =>
            change (op.answer host answer config.world).2.db.run run.id = some run at lookup
            rw [was, lookup] at step
            generalize isRow : some run = after at step
            generalize isAbsent : (none : Option RunRow) = absent at step
            cases step with
            | keep =>
                subst isAbsent
                cases isRow
            | @create task capabilities now sourceEventId priority =>
                have same := Option.some.inj isRow
                obtain rfl : sourceEventId = some eventId := by
                  rw [same] at source
                  exact source
                obtain ⟨engine, claim, event, holding, named, kind, asked, rfl⟩ :=
                  rule.createRun (delivered_calls before _ member)
                obtain ⟨row, row_stored, rowId, rowKind, rowPayload⟩ := holding.stored learned
                obtain ⟨row', stored', sameRow⟩ := event_sameRequest host answer
                  (.transaction (.createRunWithInitialStep task capabilities now (some eventId) 0))
                  row_stored
                constructor
                · refine ⟨row', stored', capabilities, ?_, by rw [same]; rfl⟩
                  refine ⟨sameRow.id.trans (rowId.trans named), sameRow.kind.trans
                    (rowKind.trans kind), event.payload, ?_, ?_⟩
                  · rw [sameRow.payloadJson, rowPayload, holding.payload]
                  · rw [asked, same]
                    rfl
                · exact created_hasStep was lookup
            | _ => cases isAbsent
      · intro event stored named kind status
        rcases event_comesFrom host answer rule.issued stored with
          ⟨earlier, there, same, acked⟩ | pending
        · have answers : config.world.db.Answers earlier := by
            rcases acked status with done | ⟨workerId, now, rfl⟩
            · exact sound.done earlier there (same.id.symm.trans named)
                (same.kind.symm.trans kind) done
            · obtain ⟨engine, started, rfl, claim, held, holding, isEvent, _, _, answered⟩ :=
                CallRule.ackEvent rule
              obtain ⟨row, row_stored, rowId, rowKind, rowPayload⟩ := holding.stored learned
              obtain rfl := event_unique row_stored there (rowId.trans isEvent.symm)
              exact (answered (rowKind.symm.trans (same.kind.symm.trans kind))).answers learned
                rowId rowPayload
          exact answers.later same host answer rule.issued
        · rw [pending] at status
          cases status

/-! ### Deliveries of one request -/

/-- A run lives on. -/
theorem run_lives {steps : KernelConfig → Label Answer Call → Prop} {run : RunRow}
    (reached : (system host).Reachable steps KernelConfig.initial config)
    (later : (system host).Reachable steps config config')
    (stored : run ∈ config.world.db.runs.rows) :
    ∃ run' ∈ config'.world.db.runs.rows, run.Evolves run' := by
  refine later.invariant (I := fun config' =>
    ∃ run' ∈ config'.world.db.runs.rows, run.Evolves run') ⟨run, stored, .refl run⟩ ?_
  rintro middle label next before ⟨run', held, evolves⟩ _ stepped
  cases Steps.of_step stepped with
  | spawn call => exact ⟨run', held, evolves⟩
  | die found => exact ⟨run', held, evolves⟩
  | @act pid answer call op continuation log found =>
      have rule := (reachable_rule (reached.trans before) _ (List.mem_of_getElem? found)).head
      obtain ⟨run'', held', evolves'⟩ := run_kept host answer rule.issued held
      exact ⟨run'', held', evolves.trans evolves'⟩

/-- The block of a redelivery returns the run that an earlier delivery made, and changes
nothing. -/
theorem exec_createRun_again {source : String} {capabilities : List String} {now : Time}
    {run : RunRow} (stored : world.db.runBySource source = some run)
    (same : sameCapabilities run.capabilities capabilities = true)
    (initial : ∃ event ∈ world.db.events.rows, event.IsStep run.id 0 ∧ event.priority = 0) :
    (Transaction.createRunWithInitialStep run.task capabilities now (some source) 0).exec host
      world = (.ok run.id, world) := by
  obtain ⟨event, member, isStep, priority⟩ := initial
  have found : world.db.existing (runStepRequest run.id 0 0 now).dedupKey = some event := by
    have keyed := Db.eventByKey_eq_some.2 ⟨member, isStep.key⟩
    simpa [Db.existing, runStepRequest, runStepKey] using keyed
  have reuses : (runStepRequest run.id 0 0 now).sameAs event = true := by
    simp [EventRequest.sameAs, EventRequest.payloadJson, runStepRequest, isStep.kind,
      isStep.payload, priority]
  have created : (createRun run.task capabilities now (some source)).run host world =
      (.ok run.id, world) := by
    simp [createRun, Stmt.perform, Program.perform, Stmt.exec, stored, reuseRun, same]
  have enqueued : (enqueueEvent (runStepRequest run.id 0 0 now)).run host world =
      (.ok event.id, world) := by
    simp [enqueueEvent, Sql.run_bind, run_existingForDedup, found, reuseOrReject, reuses]
  simp [Transaction.exec, Transaction.body, createRunWithInitialStepBody, Sql.run_bind, created,
    enqueued]

/-- One request, one run: in two states of one run of the system, the second no earlier than the
first. -/
structure RequestKept (host : Host) (eventId : String) (config config' : KernelConfig) : Prop where
  /-- At most one run is ever made for the event. -/
  once : ∀ run ∈ config.world.db.runs.rows, ∀ run' ∈ config'.world.db.runs.rows,
    run.sourceEventId = some eventId → run'.sourceEventId = some eventId → run'.id = run.id
  /-- It has the task and the capabilities of the payload. -/
  content : ∀ event ∈ config'.world.db.events.rows, event.id = eventId →
    ∀ run ∈ config'.world.db.runs.rows, run.sourceEventId = some eventId →
      ∃ payload task capabilities, loads event.payloadJson = .ok payload ∧
        requestedTask payload = some (task, capabilities) ∧ run.task = task ∧
          ∀ capability, capability ∈ run.capabilities ↔ capability ∈ capabilities
  /-- An acknowledged request has its run with its initial step, or is rejected as malformed. -/
  answered : ∀ event ∈ config'.world.db.events.rows, event.id = eventId →
    event.kind = "task.requested" → event.status = .done →
      (∃ run ∈ config'.world.db.runs.rows, run.sourceEventId = some eventId ∧
        ∃ step ∈ config'.world.db.events.rows, step.IsStep run.id 0) ∨
      ∃ payload, loads event.payloadJson = .ok payload ∧ requestedTask payload = none ∧
        ∃ entry ∈ config'.world.db.journal,
          entry.eventType = .eventRejected ∧ entry.subjectId = some eventId
  /-- A delivery that finds the run of an earlier one returns it and changes nothing. -/
  again : ∀ process ∈ config'.procs, ∀ task capabilities now priority,
    process.nextOp = some (.transaction (.createRunWithInitialStep task capabilities now
      (some eventId) priority)) →
        ∀ run ∈ config'.world.db.runs.rows, run.sourceEventId = some eventId →
          (Transaction.createRunWithInitialStep task capabilities now (some eventId) priority).exec
            host config'.world = (.ok run.id, config'.world)

/-- The capabilities of a run that was made for an event are the ones it asks for. -/
theorem RunRow.capabilities_of_stored {run : RunRow} {capabilities : List String}
    (stored : run.capabilitiesJson = capabilitiesText capabilities) (capability : String) :
    capability ∈ run.capabilities ↔ capability ∈ capabilities := by
  have same : run.capabilities = (newRunRow run.task capabilities 0 none run.id).capabilities := by
    rw [RunRow.capabilities, stored]
    rfl
  rw [same, mem_newRunRow_capabilities]

/-- Two requests read from one event ask for the same. -/
theorem EventRow.Requests.of_read {task : String} {capabilities : List String} {row : EventRow}
    {payload : PyVal} (requests : row.Requests eventId task capabilities)
    (read : loads row.payloadJson = .ok payload) :
    requestedTask payload = some (task, capabilities) := by
  obtain ⟨payload', read', asked⟩ := requests.payload
  rw [read, Except.ok.injEq] at read'
  rw [read', asked]

/-- Whatever the interleaving and whoever dies, a task request becomes exactly one run. -/
theorem one_run_per_request (host : Host) (eventId : String) (config config' : KernelConfig)
    (reached : (system host).Reachable (OnlyDelivered eventId) KernelConfig.initial config)
    (later : (system host).Reachable (OnlyDelivered eventId) config config') :
    RequestKept host eventId config config' := by
  have reached' := reached.trans later
  have sound := reachable_requestSound reached'
  constructor
  · intro run stored run' stored' source source'
    obtain ⟨run'', lives, evolves⟩ := run_lives reached later stored
    have source'' := evolves.sourceEventId.trans source
    rw [run_of_source_unique stored' lives source' source'', evolves.id]
  · intro event there named run stored source
    obtain ⟨event', there', capabilities, requests, text⟩ := (sound.made run stored source).request
    obtain rfl := event_unique there there' (named.trans requests.id.symm)
    obtain ⟨payload, read, asked⟩ := requests.payload
    exact ⟨payload, run.task, capabilities, read, asked, rfl, run.capabilities_of_stored text⟩
  · intro event there named kind done
    rcases sound.done event there named kind done with ⟨run, stored, source⟩ | rejected
    · rw [named] at source
      obtain ⟨step, member, isStep, _⟩ := (sound.made run stored source).initial
      exact .inl ⟨run, stored, source, step, member, isStep⟩
    · rw [named] at rejected
      exact .inr rejected
  · intro process member task capabilities now priority next run stored source
    have rule := next_rule reached' member next
    obtain ⟨engine, claim, event, holding, named, kind, asked, rfl⟩ :=
      rule.createRun (delivered_calls reached' _ member)
    have made := sound.made run stored source
    obtain ⟨event', there', capabilities', requests, text⟩ := made.request
    obtain ⟨row, there, rowId, _, rowPayload⟩ :=
      holding.stored (reachable_requestKnown reached' _ member)
    obtain rfl := event_unique there there' ((rowId.trans named).trans requests.id.symm)
    have same := requests.of_read (rowPayload ▸ holding.payload)
    rw [asked, Option.some.injEq, Prod.mk.injEq] at same
    obtain ⟨rfl, rfl⟩ := same
    refine exec_createRun_again ?_ (sameCapabilities_iff.2 (run.capabilities_of_stored text))
      made.initial
    refine (Table.select_eq_some ?_).2 ⟨stored, by simp [source]⟩
    intro a b inA inB
    simp only [beq_iff_eq] at inA inB
    simp [UniqueKeys.clash, UniqueKeys.key, inA, inB]

/-- A payload that asks for a task with one capability. -/
def moneyTask : JsonObject :=
  .ofFields [("capabilities", .list [.str "money"]), ("task", .str " task ")]
    (by change ["capabilities", "task"].Pairwise (· < ·); decide) (by decide)

/-- A worker makes the run of a request and dies before it acknowledges the event; when its lease
has ended, another worker gets the event. -/
def deliveredTwice : List (Label Answer Call) :=
  [.spawn (.enqueueEvent ⟨"task.requested", moneyTask, 0, none, 0, none⟩), .act 0 .quiet,
    .act 0 .quiet, .act 0 .quiet,
    .spawn (.runOnce (payEngine "a") 0), .act 1 .quiet, .act 1 .quiet, .die 1,
    .spawn (.runOnce (payEngine "b") 20), .act 2 .quiet]

set_option maxRecDepth 10000 in
/-- The second delivery of a request whose run is there. -/
theorem one_run_per_request_twice :
    ∃ config config',
      (system plainHost).Reachable (OnlyDelivered "id-0") KernelConfig.initial config ∧
      (system plainHost).Reachable (OnlyDelivered "id-0") config config' ∧
      (config.world.db.runBySource "id-0").isSome = true ∧
      (config'.world.db.events.rows.any fun row => row.id == "id-0" && row.status == .done) =
        true ∧ RequestKept plainHost "id-0" config config' := by
  have ran : ((system plainHost).run (onlyDelivered "id-0") KernelConfig.initial
      deliveredTwice).any (fun config => (config.world.db.runBySource "id-0").isSome &&
        ((system plainHost).run (onlyDelivered "id-0") config [.act 2 .quiet, .act 2 .quiet,
          .act 2 .quiet]).any fun config' => config'.world.db.events.rows.any fun row =>
            row.id == "id-0" && row.status == .done) = true := by decide +kernel
  obtain ⟨config, config', reached, later, made, done⟩ :=
    System.Reachable.exists_of_run_then _ _ ran
  exact ⟨config, config', reached, later, made, done,
    one_run_per_request plainHost "id-0" config config' reached later⟩

end PreActive.Kernel
