/-
Module: PreActive.Kernel.Settlement
Purpose: Which events a worker leaves done or waiting for a retry, and which it leaves leased.
Trusted boundary: human-reviewed spec
Main exports: TakesEvent, TakesTask, EventRow.Handled, EventSettled, event_settled_iff
-/
import PreActive.Kernel.Moves
import PreActive.Kernel.Recovery
import PreActive.Kernel.Solo
import PreActive.Python.JsonRoundTrip

namespace PreActive.Kernel

open PreActive.Foundation PreActive.Python
open Program.Obeys

variable {host : Host} {world world' : World} {engine : Engine} {event : Event} {now : Time}
variable {eventId workerId runId : String} {answers : Op → Answer} {log : History}

/-! ### What an event needs -/

/-- The request can be enqueued with the next identifier: its key is bound to the same request, or
to none and the identifier is new. -/
def TakesEvent (host : Host) (world : World) (drawn : Nat) (request : EventRequest) : Prop :=
  match world.db.existing request.dedupKey with
  | some row => request.sameAs row = true
  | none => ∀ row ∈ world.db.events.rows, row.id ≠ host.uuid4 drawn

/-- The task can be taken up for its event: the event is bound to a run with this task and these
capabilities, or to none and the new run has a new identifier; and the first step of the run can be
enqueued. -/
def TakesTask (host : Host) (world : World) (sourceEventId task : String)
    (capabilities : List String) (now : Time) : Prop :=
  match world.db.runBySource sourceEventId with
  | some run =>
      run.task = task ∧ sameCapabilities run.capabilities capabilities = true ∧
        TakesEvent host world world.drawn (runStepRequest run.id 0 0 now)
  | none =>
      (∀ run ∈ world.db.runs.rows, run.id ≠ host.uuid4 world.drawn) ∧
        TakesEvent host world (world.drawn + 1) (runStepRequest (host.uuid4 world.drawn) 0 0 now)

/-- A step event names a run that is there, and a well-formed request for a task can be taken up. -/
structure EventRow.Handled (host : Host) (world : World) (now : Time) (row : EventRow)
    (payload : PyVal) : Prop where
  step : row.kind = "run.step" → ∃ value run, payload.get? "run_id" = some value ∧
    world.db.run (host.str value) = some run
  task : row.kind = "task.requested" → ∀ task capabilities,
    requestedTask payload = some (task, capabilities) →
      TakesTask host world row.id task capabilities now

/-- The event is done, or waits for its retry. -/
def EventSettled (world : World) (eventId : String) (retryAt : Time) : Prop :=
  ∃ row ∈ world.db.events.rows, row.id = eventId ∧
    (row.status = .done ∨ row.status = .pending ∧ row.availableAt = retryAt)

/-! ### Leases -/

/-- The worker holds the event, or the event is done. -/
def KeepsLease (eventId workerId : String) (world : World) : Prop :=
  ∃ row ∈ world.db.events.rows, row.id = eventId ∧
    (row.status = .claimed ∧ row.leaseOwner = some workerId ∨ row.status = .done)

/-- The operation leases an event or gives a lease back. -/
def Op.releases : Op → Bool
  | .sql (.claimEvent ..) => true
  | .sql (.releaseEvent ..) => true
  | .transaction (.claimEvent ..) => true
  | _ => false

/-- The operations that take no lease and give none back. -/
def Steady (_ : History) (op : Op) : Prop := op.releases = false

theorem KeepsLease.of_events (keeps : KeepsLease eventId workerId world)
    (more : ∀ row ∈ world.db.events.rows, row ∈ world'.db.events.rows) :
    KeepsLease eventId workerId world' := by
  obtain ⟨row, stored, rest⟩ := keeps
  exact ⟨row, more row stored, rest⟩

theorem Enqueues.keepsEvents {request : EventRequest}
    (enqueues : Enqueues host request world eventId world') :
    ∀ row ∈ world.db.events.rows, row ∈ world'.db.events.rows := by
  intro row stored
  cases enqueues with
  | reused found there same => exact stored
  | fresh events absent inserted =>
      change row ∈ events.rows
      rw [Table.rows_insert inserted]
      exact List.mem_append_left _ stored

theorem KeepsLease.acked (keeps : KeepsLease eventId workerId world) (other worker : String)
    (now : Time) : KeepsLease eventId workerId (updateEvents world (EventRow.heldBy other worker)
      (EventRow.acked now) fun _ => rfl) := by
  obtain ⟨row, stored, named, rest⟩ := keeps
  by_cases held : row.heldBy other worker = true
  · refine ⟨row.acked now, ?_, named, .inr rfl⟩
    have mapped := List.mem_map_of_mem (f := fun row : EventRow =>
      if row.heldBy other worker = true then row.acked now else row) stored
    rwa [if_pos held] at mapped
  · refine ⟨row, ?_, named, rest⟩
    have mapped := List.mem_map_of_mem (f := fun row : EventRow =>
      if row.heldBy other worker = true then row.acked now else row) stored
    rwa [if_neg held] at mapped

/-- The operation changes no event that is there. -/
def Op.keepsEvents : Op → Bool
  | .sql (.ackEvent ..) => false
  | op => !op.releases

theorem keepsEvents_answer (op : Op) (answer : Answer) (keeps : op.keepsEvents = true) :
    ∀ row ∈ world.db.events.rows, row ∈ (op.answer host answer world).2.db.events.rows := by
  rcases op.answer_cases host answer world with
    same | ⟨stmt, rfl, same⟩ | ⟨block, rfl, ⟨_, same⟩ | ⟨result, transacts⟩⟩ | ⟨call, rfl, same⟩
  · rw [same]
    exact fun row stored => stored
  · rw [same]
    cases stmt with
    | claimEvent | releaseEvent | ackEvent => cases keeps
    | insertEvent row =>
        simp only [Stmt.exec]
        split
        · rename_i events inserted
          intro old stored
          change old ∈ events.rows
          rw [Table.rows_insert inserted]
          exact List.mem_append_left _ stored
        · exact fun row stored => stored
    | _ =>
        -- the events are not concerned
        intro row stored
        first
          | exact stored
          | simp only [Stmt.exec]
            split <;> first | exact stored | (split <;> exact stored)
  · rw [same]
    exact fun row stored => stored
  · generalize (Op.answer host (.transaction block) answer world).2 = after at transacts ⊢
    cases transacts with
    | claimNothing idle => cases keeps
    | claim row found => cases keeps
    | createRun created enqueued =>
        obtain ⟨runs, drawn, rfl⟩ := created.touches
        exact enqueued.keepsEvents
    | advance run found running stands enqueued => exact enqueued.keepsEvents
    | resume run found blocked enqueued => exact enqueued.keepsEvents
    | @reconcile requestId effectOccurred _ _ _ _ effect found unresolved =>
        cases effectOccurred <;> exact fun row stored => stored
  · rw [same]
    exact fun row stored => stored

/-- Operations that give no lease back leave the event with its worker, or done. -/
theorem keepsLease_answer (op : Op) (answer : Answer) (steady : op.releases = false)
    (keeps : KeepsLease eventId workerId world) :
    KeepsLease eventId workerId (op.answer host answer world).2 := by
  have others : op.keepsEvents = true → KeepsLease eventId workerId (op.answer host answer world).2 :=
    fun kept => keeps.of_events (keepsEvents_answer op answer kept)
  cases op with
  | sql stmt =>
      cases stmt with
      | ackEvent other worker now =>
          simp only [Op.answer]
          split
          · exact keeps
          · exact keeps.acked other worker now
      | claimEvent | releaseEvent => cases steady
      | _ => exact others rfl
  | transaction block =>
      refine others ?_
      rw [Op.keepsEvents, steady]
      · rfl
      · exact fun _ _ _ impossible => by cases impossible
  | _ => exact others rfl

/-! ### The body of the step keeps the lease -/

variable {run : RunRow} {call : ToolCall}

theorem ack_steady : (engine.ack event now).Obeys Steady (returns fun _ _ => True) log :=
  ackEvent_obeys (fun _ _ => rfl) rfl

theorem ToolRule.steady {registry : ToolRegistry} {enter : History → ToolCall → List String → Prop}
    {op : Op} (rule : ToolRule host registry enter log op) : Steady log op := by
  cases op with
  | sql stmt => cases stmt <;> first | exact rule.elim | exact rfl
  | transaction block => exact rule.elim
  | enterExecute call allowed => exact rfl
  | respond messages tools => exact rule.elim
  | handler handled => exact rfl

theorem execute_steady {registry : ToolRegistry} {allowed : List String} :
    (registry.execute host call allowed now).Obeys Steady
      (returns (ExecuteReturns host registry call allowed)) log := by
  have obeys : (registry.execute host call allowed now).Obeys
      (ToolRule host registry fun _ _ _ => True)
      (returns (ExecuteReturns host registry call allowed)) log := execute_obeys trivial
  exact obeys.mono (fun _ _ rule => rule.steady) fun _ _ ends => ends

theorem admittedResponse_steady :
    (engine.admittedResponse host runId run now).Obeys Steady (returns fun _ _ => True) log := by
  simp only [Engine.admittedResponse, Program.bind_eq_bind]
  refine (getRunStepDecision_obeys host rfl).seq fun _ stored _ _ => ?_
  cases stored with
  | some decision => exact of_ofExcept fun _ _ => trivial
  | none =>
      refine (messagesForRun_obeys (fun _ _ => rfl) fun _ _ => rfl).seq fun _ messages _ _ => ?_
      simp only [Op.perform, Program.perform, Program.call_bind]
      apply afterCall rfl
      intro response
      have recorded : ∀ log, (recordRunStepDecision runId run.stepCount
          (decisionFromResponse response) now).proc.Obeys Steady (returns fun log' _ =>
            DecisionSeen log' runId run.stepCount (decisionText response)) log :=
        fun _ => recordRunStepDecision_obeys rfl fun _ _ => rfl
      exact (recorded _).seq fun _ _ _ _ => of_done (Q := fun _ _ => True) trivial

theorem classifyToolError_steady {exc : Exc} :
    (engine.classifyToolError event runId call exc now).Obeys Steady (returns fun _ _ => True)
      log := by
  simp only [Engine.classifyToolError, effectState, Op.perform, Program.perform,
    Program.bind_eq_bind, Program.call_bind, Program.bind_assoc]
  apply afterCall rfl
  intro row
  simp only [Program.pure_eq_done, Program.done_bind]
  split
  · exact (blockRunOnEffect_obeys (fun _ _ => rfl) rfl).seq fun _ _ _ _ => ack_steady
  · split
    · exact (updateRun_obeys rfl).seq fun _ _ _ _ => ack_steady
    · exact of_raise

theorem toolStep_steady :
    (engine.toolStep host event runId run call now).Obeys Steady (returns fun _ _ => True) log := by
  simp only [Engine.toolStep, Program.bind_eq_bind]
  refine (recordRunMessage_obeys rfl fun _ _ => rfl).seq fun _ _ _ _ => ?_
  refine execute_steady.captured.seq fun _ outcome _ _ => ?_
  cases outcome with
  | error exc => exact classifyToolError_steady
  | ok result =>
      refine seq (M := fun _ _ => True) (of_ofExcept fun _ _ => trivial) fun _ content _ _ => ?_
      refine (recordRunMessage_obeys rfl fun _ _ => rfl).seq fun _ _ _ _ => ?_
      simp only [Transaction.perform, Op.perform, Program.perform, Program.call_bind]
      apply afterCall rfl
      exact fun _ => ack_steady

theorem processStep_steady :
    (engine.processStep host event runId run now).Obeys Steady (returns fun _ _ => True) log := by
  simp only [Engine.processStep, Program.bind_eq_bind]
  refine admittedResponse_steady.seq fun _ response _ _ => ?_
  cases response with
  | toolCall call => exact toolStep_steady
  | finalText text =>
      simp only [Engine.finalStep, Program.bind_eq_bind]
      refine (recordRunMessage_obeys rfl fun _ _ => rfl).seq fun _ _ _ _ => ?_
      exact (updateRun_obeys rfl).seq fun _ _ _ _ => ack_steady

theorem processStep_keepsLease {outcome : Except Exc Unit}
    (runs : Runs host answers (engine.processStep host event runId run now) world outcome world')
    (eventId workerId : String) (keeps : KeepsLease eventId workerId world) :
    KeepsLease eventId workerId world' := by
  have kept := @Program.execute_keeps _ _ _ _ _ (kernelMachine host) answers _ _ (KeepsLease eventId workerId)
    (fun _ op answer _ steady keeps => keepsLease_answer op answer steady keeps) _ _
    (@processStep_steady host engine event now runId [] run) _ keeps
  rwa [runs] at kept

/-! ### How the step ends -/

/-- The event is done. -/
def EventDone (world : World) (eventId : String) : Prop :=
  ∃ row ∈ world.db.events.rows, row.id = eventId ∧ row.status = .done

theorem EventDone.settled (done : EventDone world eventId) (retryAt : Time) :
    EventSettled world eventId retryAt := by
  obtain ⟨row, stored, named, status⟩ := done
  exact ⟨row, stored, named, .inl status⟩

/-- An acknowledgement that returns has found the lease. -/
theorem ack_done (faultless : Faultless answers)
    (runs : Runs host answers (engine.ack event now) world (.ok ()) world') :
    EventDone world' event.id := by
  by_cases counted : world.db.events.count (EventRow.heldBy event.id engine.workerId) = 1
  · obtain ⟨row, stored, named, claimed, owner⟩ := (count_heldBy _ _ _).1 counted
    obtain ⟨_, rfl⟩ := runs.unique (ack_runs faultless stored named claimed owner)
    have mapped := List.mem_map_of_mem (f := fun row : EventRow =>
      if row.heldBy event.id engine.workerId = true then row.acked now else row) stored
    rw [if_pos (EventRow.heldBy_eq_true.2 ⟨named, claimed, owner⟩)] at mapped
    exact ⟨row.acked now, mapped, named, rfl⟩
  · have ran := @run_ackEvent host world event.id engine.workerId now
    rw [if_neg counted] at ran
    obtain ⟨impossible, _⟩ := runs.unique (faultless.proc _ ran)
    cases impossible

theorem classifyToolError_done (faultless : Faultless answers) {exc : Exc}
    (runs : Runs host answers (engine.classifyToolError event runId call exc now) world (.ok ())
      world') : EventDone world' event.id := by
  obtain ⟨state, mid, _, rest⟩ := runs.of_bind
  split at rest
  · obtain ⟨_, mid', _, acks⟩ := rest.of_bind
    exact ack_done faultless acks
  · split at rest
    · obtain ⟨_, mid', _, acks⟩ := rest.of_bind
      exact ack_done faultless acks
    · cases rest

/-- A step that ends without an exception has acknowledged its event. -/
theorem processStep_done (faultless : Faultless answers)
    (runs : Runs host answers (engine.processStep host event runId run now) world (.ok ())
      world') : EventDone world' event.id := by
  obtain ⟨response, mid, _, rest⟩ := runs.of_bind
  cases response with
  | toolCall call =>
      obtain ⟨_, mid₁, _, rest⟩ := rest.of_bind
      obtain ⟨outcome, mid₂, _, rest⟩ := rest.of_bind
      cases outcome with
      | error exc => exact classifyToolError_done faultless rest
      | ok result =>
          obtain ⟨_, mid₃, _, rest⟩ := rest.of_bind
          obtain ⟨_, mid₄, _, rest⟩ := rest.of_bind
          obtain ⟨_, mid₅, _, acks⟩ := rest.of_bind
          exact ack_done faultless acks
  | finalText text =>
      obtain ⟨_, mid₁, _, rest⟩ := rest.of_bind
      obtain ⟨_, mid₂, _, acks⟩ := rest.of_bind
      exact ack_done faultless acks

/-- After an exception the event waits for its retry, or was done before. -/
theorem requeue_settles (faultless : Faultless answers) {exc : Exc} {outcome : Except Exc Unit}
    (runs : Runs host answers (engine.requeue event runId exc now) world outcome world')
    (keeps : KeepsLease event.id engine.workerId world) :
    EventSettled world' event.id (Engine.retryAt event now) := by
  obtain ⟨row, stored, named, held⟩ := keeps
  have notes := @updateRun_runs host answers world faultless runId
    ⟨now, none, none, some exc.render, false, false⟩ (.note now _)
  generalize isNoted : (Stmt.exec host (.updateRun runId
    ⟨now, none, none, some exc.render, false, false⟩) world).2 = noted at notes
  have sameEvents : noted.db.events = world.db.events := by
    rw [← isNoted]
    rfl
  have failed := @run_failEvent host noted event.id engine.workerId now
    (some (Engine.retryAt event now))
  rw [sameEvents] at failed
  by_cases counted : world.db.events.count (EventRow.heldBy event.id engine.workerId) = 1
  · rw [if_pos counted] at failed
    obtain ⟨_, rfl⟩ := runs.unique (.bind notes (.bind (faultless.proc _ failed) (.raise exc)))
    obtain ⟨held', stored', named', claimed, owner⟩ := (count_heldBy _ _ _).1 counted
    rw [← sameEvents] at stored'
    have mapped := List.mem_map_of_mem (f := fun row : EventRow =>
      if row.heldBy event.id engine.workerId = true then
        row.released (Engine.retryAt event now) now else row) stored'
    rw [if_pos (EventRow.heldBy_eq_true.2 ⟨named', claimed, owner⟩)] at mapped
    exact ⟨_, mapped, named', .inr ⟨rfl, rfl⟩⟩
  · rw [if_neg counted] at failed
    obtain ⟨_, rfl⟩ := runs.unique (.bind notes (.bindRaised (faultless.proc _ failed)))
    rcases held with ⟨claimed, owner⟩ | isDone
    · exact absurd ((count_heldBy _ _ _).2 ⟨row, stored, named, claimed, owner⟩) counted
    · exact ⟨row, sameEvents ▸ stored, named, .inl isDone⟩

/-! ### Taking up a task -/

variable {request : EventRequest} {sourceEventId task : String} {capabilities : List String}

/-- An event is enqueued exactly if its request can be taken. -/
theorem enqueueEvent_ok_iff (keyed : request.dedupKey ≠ some "") :
    (∃ eventId world', (enqueueEvent request).run host world = (.ok eventId, world')) ↔
      TakesEvent host world world.drawn request := by
  unfold TakesEvent
  cases found : world.db.existing request.dedupKey with
  | some row =>
      rw [run_enqueueEvent_found found, reuseOrReject]
      by_cases same : request.sameAs row = true
      · simp [same]
      · simp [same]
  | none =>
      constructor
      · rintro ⟨eventId, world', ran⟩ row member
        cases enqueueEvent_ok ran with
        | reused row' there same =>
            rw [found] at there
            cases there
        | fresh events absent inserted =>
            have apart := Table.fresh_of_insert inserted row member
            intro same
            simp [UniqueKeys.clash, UniqueKeys.key, EventRequest.row, same] at apart
      · intro new
        obtain ⟨world', ran, _⟩ := run_enqueueEvent_new new found keyed
        exact ⟨_, world', ran⟩

/-- What a request needs depends on the events only. -/
theorem TakesEvent.congr {drawn : Nat} (same : world'.db.events = world.db.events) :
    TakesEvent host world' drawn request ↔ TakesEvent host world drawn request := by
  have lookup : world'.db.existing request.dedupKey = world.db.existing request.dedupKey := by
    simp only [Db.existing, Db.eventByKey, same]
  rw [TakesEvent, TakesEvent, lookup, same]

theorem run_createRun_found {run : RunRow}
    (found : world.db.runBySource sourceEventId = some run) :
    (createRun task capabilities now (some sourceEventId)).run host world =
      (reuseRun task capabilities run).run host world := by
  simp only [createRun, Stmt.perform, Program.perform, Program.bind_eq_bind, Program.call_bind,
    Sql.run_call, Stmt.exec, found, Program.ofExcept_ok, Program.done_bind]

theorem run_createRun_new (absent : world.db.runBySource sourceEventId = none)
    (new : ∀ run ∈ world.db.runs.rows, run.id ≠ host.uuid4 world.drawn) :
    ∃ runs, (createRun task capabilities now (some sourceEventId)).run host world =
      (.ok (host.uuid4 world.drawn),
        { world with db := { world.db with runs := runs }, drawn := world.drawn + 1 }) := by
  obtain ⟨runs, inserted⟩ : ∃ runs, world.db.runs.insert
      (newRunRow task capabilities now (some sourceEventId) (host.uuid4 world.drawn)) =
        some runs := by
    apply Table.insert_isSome
    intro old member
    have unbound := Table.select_eq_none.1 absent old member
    simp only [beq_eq_false_iff_ne, ne_eq] at unbound
    simp [UniqueKeys.clash, UniqueKeys.key, newRunRow, new old member, unbound]
  refine ⟨runs, ?_⟩
  simp only [createRun, insertNewRun, Stmt.perform, Program.perform, Program.bind_eq_bind,
    Program.call_bind, Program.call_attempt, Program.ofExcept_attempt, Sql.run_call, Stmt.exec,
    absent, inserted, Program.ofExcept_ok, Program.done_bind, Program.pure_eq_done, Sql.run_done]

/-- The block of a task request commits exactly if the task can be taken up. -/
theorem createRunWithInitialStep_ok_iff :
    (∃ runId world', (createRunWithInitialStepBody task capabilities now (some sourceEventId) 0).run
      host world = (.ok runId, world')) ↔
        TakesTask host world sourceEventId task capabilities now := by
  have keyed : ∀ runId, (runStepRequest runId 0 0 now).dedupKey ≠ some "" := fun runId =>
    runStepKey_ne_empty runId 0
  have continues : ∀ {runId : String} {mid : World},
      (createRun task capabilities now (some sourceEventId)).run host world = (.ok runId, mid) →
      ((∃ runId' world', (createRunWithInitialStepBody task capabilities now (some sourceEventId)
        0).run host world = (.ok runId', world')) ↔
          TakesEvent host mid mid.drawn (runStepRequest runId 0 0 now)) := by
    intro runId mid created
    rw [← enqueueEvent_ok_iff (keyed runId), createRunWithInitialStepBody, Program.bind_eq_bind,
      Sql.run_bind, created]
    constructor
    · rintro ⟨runId', world', ran⟩
      obtain ⟨eventId, enqueued, _⟩ := Sql.run_bind_done_ok ran
      exact ⟨eventId, world', enqueued⟩
    · rintro ⟨eventId, world', enqueued⟩
      refine ⟨runId, world', ?_⟩
      simp only [Program.bind_eq_bind, Sql.run_bind, enqueued, Program.pure_eq_done, Sql.run_done]
  have created : ∀ {runId : String} {world' : World},
      (createRunWithInitialStepBody task capabilities now (some sourceEventId) 0).run host world =
        (.ok runId, world') → ∃ newId mid,
          (createRun task capabilities now (some sourceEventId)).run host world = (.ok newId, mid) := by
    intro runId world' ran
    obtain ⟨newId, mid, created, _⟩ := Sql.run_bind_ok ran
    exact ⟨newId, mid, created⟩
  cases found : world.db.runBySource sourceEventId with
  | some run =>
      simp only [TakesTask, found]
      have runs := @run_createRun_found host world now _ task capabilities _ found
      rw [reuseRun] at runs
      by_cases same : run.task = task ∧ sameCapabilities run.capabilities capabilities = true
      · rw [if_neg (by simp [same.1, same.2]), Sql.run_done] at runs
        simp only [same.1, same.2, true_and]
        exact continues runs
      · refine ⟨?_, fun takes => absurd ⟨takes.1, takes.2.1⟩ same⟩
        rintro ⟨runId, world', ran⟩
        obtain ⟨newId, mid, ran'⟩ := created ran
        rw [if_pos (by simpa [-not_and, not_and_or] using same), Sql.run_raise] at runs
        rw [runs] at ran'
        cases ran'
  | none =>
      simp only [TakesTask, found]
      constructor
      · rintro ⟨runId, world', ran⟩
        obtain ⟨newId, mid, ran'⟩ := created ran
        have takes := (continues ran').1 ⟨runId, world', ran⟩
        cases createRun_ok ran' with
        | reused source run bound there sameTask sameSet =>
            rw [← Option.some.inj bound, found] at there
            cases there
        | fresh runs inserted =>
            refine ⟨fun run member same => ?_, (TakesEvent.congr rfl).1 takes⟩
            have apart := Table.fresh_of_insert inserted run member
            simp [UniqueKeys.clash, UniqueKeys.key, newRunRow, same] at apart
      · rintro ⟨new, takes⟩
        obtain ⟨runs, ran⟩ := @run_createRun_new host world now _ task capabilities found new
        exact (continues ran).2 ((TakesEvent.congr rfl).2 takes)

/-! ### The claimed event -/

/-- A lease does not change what the event needs. -/
theorem TakesEvent.leased_iff {leaseSeconds : Time} {row : EventRow} {drawn : Nat} :
    TakesEvent host (leased world workerId now leaseSeconds row) drawn request ↔
      TakesEvent host world drawn request := by
  let claim : EventRow → EventRow := fun other =>
    if (other.id == row.id) = true then
      other.claimedBy workerId (now + leaseSeconds) (row.attempts + 1) now else other
  have rows : (leased world workerId now leaseSeconds row).db.events.rows =
      world.db.events.rows.map claim := rfl
  have kept : ∀ other, (claim other).id = other.id ∧
      request.sameAs (claim other) = request.sameAs other := by
    intro other
    simp only [claim]
    split <;> exact ⟨rfl, rfl⟩
  have lookup : (leased world workerId now leaseSeconds row).db.existing request.dedupKey =
      (world.db.existing request.dedupKey).map claim := by
    cases keyed : request.dedupKey with
    | none => rfl
    | some key =>
        by_cases empty : key = ""
        · simp [Db.existing, empty]
        · simp only [Db.existing, Option.bind_some, empty, if_false]
          exact Table.select_update world.db.events (fun other => other.id == row.id)
            (fun other => other.dedupKey == some key)
            (EventRow.claimedBy workerId (now + leaseSeconds) (row.attempts + 1) now)
            (fun _ => rfl) fun _ => rfl
  rw [TakesEvent, TakesEvent, lookup, rows]
  cases world.db.existing request.dedupKey with
  | some found => simp [(kept found).2]
  | none => simp [fun other => (kept other).1]

theorem TakesTask.leased_iff {leaseSeconds : Time} {row : EventRow} :
    TakesTask host (leased world workerId now leaseSeconds row) sourceEventId task capabilities now ↔
      TakesTask host world sourceEventId task capabilities now := by
  have runs : (leased world workerId now leaseSeconds row).db.runs = world.db.runs := rfl
  have drawn : (leased world workerId now leaseSeconds row).drawn = world.drawn := rfl
  simp only [TakesTask, Db.runBySource, runs, drawn, TakesEvent.leased_iff]

theorem KeepsLease.of_claim {leaseSeconds : Time} {row : EventRow}
    (stored : row ∈ world.db.events.rows) :
    KeepsLease row.id workerId (leased world workerId now leaseSeconds row) := by
  have mapped := List.mem_map_of_mem (f := fun other : EventRow =>
    if (other.id == row.id) = true then other.claimedBy workerId (now + leaseSeconds)
      (row.attempts + 1) now else other) stored
  rw [if_pos (beq_self_eq_true _)] at mapped
  exact ⟨_, mapped, rfl, .inl ⟨rfl, rfl⟩⟩

/-- An event that a worker still holds is not settled. -/
theorem not_settled_of_claimed {row : EventRow} {retryAt : Time}
    (stored : row ∈ world.db.events.rows) (claimed : row.status = .claimed) :
    ¬ EventSettled world row.id retryAt := by
  rintro ⟨row', stored', named, settled⟩
  have same : row' = row := Table.eq_of_clash stored' stored
    (by simp [UniqueKeys.clash, UniqueKeys.key, named])
    (by simp [UniqueKeys.clash, UniqueKeys.key, named])
  rw [same, claimed] at settled
  rcases settled with impossible | ⟨impossible, _⟩ <;> cases impossible

section Claimed

variable {payload : PyVal} {outcome : Except Exc (Option String)} {row : EventRow}
variable {retryAt : Time}

/-- The acknowledgement of an event that its worker holds. -/
theorem ack_settles (faultless : Faultless answers) {next : Unit → Proc (Option String)}
    {value : Option String} (ends : next () = .done value)
    (held : ∃ row ∈ world.db.events.rows, row.id = event.id ∧ row.status = .claimed ∧
      row.leaseOwner = some engine.workerId)
    (runs : Runs host answers ((engine.ack event now).bind next) world outcome world') :
    EventSettled world' event.id retryAt := by
  obtain ⟨row, stored, named, claimed, owner⟩ := held
  have acks := @ack_runs host answers world faultless engine event now row stored named claimed owner
  have rest : Runs host answers (next ()) (acknowledged world event.id engine.workerId now)
      (.ok value) (acknowledged world event.id engine.workerId now) := by
    rw [ends]
    exact .done value
  obtain ⟨_, rfl⟩ := runs.unique (.bind acks rest)
  exact (ack_done faultless acks).settled retryAt

/-- A rejected event is settled. -/
theorem rejectEvent_settles (faultless : Faultless answers) {reason : String}
    (held : ∃ row ∈ world.db.events.rows, row.id = event.id ∧ row.status = .claimed ∧
      row.leaseOwner = some engine.workerId)
    (runs : Runs host answers (engine.rejectEvent event reason now) world outcome world') :
    EventSettled world' event.id retryAt := by
  have noted : Runs host answers (appendJournal .eventRejected (some event.id)
      [("reason", .text reason)] now).proc world (.ok (world.db.journal.length + 1))
      { world with db := { world.db with journal := world.db.journal ++
        [⟨.eventRejected, some event.id, [("reason", .text reason)], now⟩] } } := by
    apply faultless.proc
    rfl
  obtain ⟨row, stored, named, claimed, owner⟩ := held
  have acks := @ack_runs host answers { world with db := { world.db with journal := world.db.journal ++
      [⟨.eventRejected, some event.id, [("reason", .text reason)], now⟩] } }
    faultless engine event now row stored named claimed owner
  obtain ⟨_, rfl⟩ := runs.unique (.bind noted (.bind acks (.done none)))
  exact (ack_done faultless acks).settled retryAt

/-- A claimed request for a task is settled exactly if it is malformed or can be taken up. -/
theorem runTaskRequested_settles (faultless : Faultless answers)
    (held : ∃ row ∈ world.db.events.rows, row.id = event.id ∧ row.status = .claimed ∧
      row.leaseOwner = some engine.workerId)
    (runs : Runs host answers (engine.runTaskRequested event now) world outcome world') :
    EventSettled world' event.id retryAt ↔ ∀ task capabilities,
      requestedTask event.payload = some (task, capabilities) →
        TakesTask host world event.id task capabilities now := by
  cases requested : requestedTask event.payload with
  | none =>
      simp only [reduceCtorEq, false_imp_iff, implies_true, iff_true]
      simp only [Engine.runTaskRequested] at runs
      split at runs
      · exact rejectEvent_settles faultless held runs
      · rename_i task isTask
        split at runs
        · exact rejectEvent_settles faultless held runs
        · rename_i nonempty
          split at runs
          · exact rejectEvent_settles faultless held runs
          · rename_i capabilities areCapabilities
            simp [requestedTask, isTask, nonempty, areCapabilities] at requested
  | some asked =>
      obtain ⟨task, capabilities⟩ := asked
      have submits : engine.runTaskRequested event now = (do
          let runId ← submitTask task capabilities now (some event.id)
          engine.ack event now
          return some runId) := by
        unfold requestedTask at requested
        unfold Engine.runTaskRequested
        generalize (event.payload.get? "task").bind PyVal.asStr? = named at requested ⊢
        cases named with
        | none => cases requested
        | some text =>
            dsimp only at requested ⊢
            split at requested
            · cases requested
            · rename_i nonempty
              obtain ⟨items, areCapabilities, same⟩ := Option.map_eq_some_iff.1 requested
              obtain ⟨rfl, rfl⟩ := Prod.mk.inj same
              rw [if_neg nonempty, areCapabilities]
      rw [submits] at runs
      have submitted := @Faultless.transaction host answers world faultless
        (.createRunWithInitialStep task capabilities now (some event.id) 0)
      obtain ⟨row, stored, named, claimed, owner⟩ := held
      rcases ran : Transaction.exec host
        (.createRunWithInitialStep task capabilities now (some event.id) 0) world with
          ⟨exc | newRun, mid⟩
      · -- the block was rolled back, and the event stays leased
        rw [ran] at submitted
        obtain ⟨_, rfl⟩ := runs.unique (.bindRaised submitted)
        have rolledBack := Transaction.exec_error ran
        refine iff_of_false ?_ fun takes => ?_
        · rw [rolledBack, ← named]
          exact not_settled_of_claimed stored claimed
        · obtain ⟨newRun, mid', body⟩ :=
            createRunWithInitialStep_ok_iff.2 (takes task capabilities rfl)
          simp only [Transaction.exec, Transaction.body, body] at ran
          cases ran
      · rw [ran] at submitted
        have body := Transaction.body_of_exec_ok ran
        have stored' : row ∈ mid.db.events.rows := by
          cases createRunWithInitialStepBody_ok body with
          | createRun created enqueued =>
              obtain ⟨runs, drawn, rfl⟩ := created.touches
              exact enqueued.keepsEvents row stored
        have acks := @ack_runs host answers mid faultless engine event now row stored' named claimed
          owner
        obtain ⟨_, rfl⟩ := runs.unique (.bind submitted (.bind acks (.done (some newRun))))
        refine iff_of_true ((ack_done faultless acks).settled retryAt) ?_
        intro task' capabilities' same
        obtain ⟨rfl, rfl⟩ := Prod.mk.inj (Option.some.inj same)
        exact createRunWithInitialStep_ok_iff.1 ⟨newRun, mid, body⟩

/-- A claimed step event is settled exactly if the run it names is there. -/
theorem runStep_settles (faultless : Faultless answers)
    (held : ∃ row ∈ world.db.events.rows, row.id = event.id ∧ row.status = .claimed ∧
      row.leaseOwner = some engine.workerId)
    (runs : Runs host answers (engine.runStep host event now) world outcome world') :
    EventSettled world' event.id (Engine.retryAt event now) ↔ ∃ value run,
      event.payload.get? "run_id" = some value ∧ world.db.run (host.str value) = some run := by
  have unsettled : ∀ {exc : Exc}, Runs host answers (.raise exc : Proc (Option String)) world
      outcome world' → ¬ EventSettled world' event.id (Engine.retryAt event now) := by
    intro exc raises
    obtain ⟨_, rfl⟩ := raises.unique (.raise exc)
    obtain ⟨row, stored, named, claimed, _⟩ := held
    rw [← named]
    exact not_settled_of_claimed stored claimed
  unfold Engine.runStep at runs
  split at runs
  · rename_i missing
    refine iff_of_false (unsettled runs) ?_
    rintro ⟨value, _, there, _⟩
    rw [missing] at there
    cases there
  · rename_i value named
    cases stored : world.db.run (host.str value) with
    | none =>
        have lookup : Runs host answers (getRun host (host.str value)).proc world
            (.error ⟨.keyError, host.repr (.str (host.str value))⟩) world := by
          apply faultless.proc
          simp [getRun, Stmt.perform, Program.perform, Stmt.exec, stored]
        obtain ⟨same, rfl⟩ := runs.unique (.bindRaised lookup)
        refine iff_of_false (unsettled (by rw [same]; exact .raise _)) ?_
        rintro ⟨value', run, there, stored'⟩
        obtain rfl := Option.some.inj (named.symm.trans there)
        rw [stored] at stored'
        cases stored'
    | some run =>
        refine iff_of_true ?_ ⟨value, run, named, stored⟩
        have rest := (getRun_runs faultless stored).after runs
        simp only [Program.bind_eq_bind] at rest
        split at rest
        · exact ack_settles faultless rfl held rest
        · split at rest
          · exact ack_settles faultless rfl held rest
          · split at rest
            · have failed := @updateRun_runs host answers world faultless (host.str value) _
                (.fail now "max_steps exceeded")
              refine ack_settles faultless rfl ?_ (failed.after rest)
              exact held
            · rcases processed : (engine.processStep host event (host.str value) run now).execute
                (kernelMachine host) answers world with ⟨outcome', mid⟩
              have steps : Runs host answers (engine.processStep host event (host.str value) run
                now) world outcome' mid := processed
              have ends := steps.attempt.after rest
              cases outcome' with
              | ok done =>
                  obtain ⟨_, rfl⟩ := ends.unique (.done _)
                  exact (processStep_done faultless steps).settled _
              | error exc =>
                  obtain ⟨row, inStore, named, claimed, owner⟩ := held
                  have keeps := processStep_keepsLease steps event.id
                    engine.workerId ⟨row, inStore, named, .inl ⟨claimed, owner⟩⟩
                  rcases requeued : (engine.requeue event (host.str value) exc now).execute
                    (kernelMachine host) answers mid with ⟨exc' | done, last⟩
                  · have requeues : Runs host answers (engine.requeue event (host.str value) exc now)
                      mid (.error exc') last := requeued
                    obtain ⟨_, rfl⟩ := ends.unique requeues.bindRaised
                    exact requeue_settles faultless requeues keeps
                  · have requeues : Runs host answers (engine.requeue event (host.str value) exc now)
                      mid (.ok done) last := requeued
                    obtain ⟨_, rfl⟩ := ends.unique (requeues.bind (.done _))
                    exact requeue_settles faultless requeues keeps

end Claimed

/-- When one worker claims an event and nothing else happens, the event is done or waits for its
retry afterwards exactly if it is one that the worker handles. -/
theorem event_settled_iff (host : Host) (engine : Engine) (answers : Op → Answer)
    (faultless : Faultless answers) (world world' : World) (now : Time) (row : EventRow)
    (found : firstBy host.tieBreak EventRow.before
      (world.db.events.rows.filter (EventRow.claimable now)) = some row)
    (payload : JsonObject) (read : loads row.payloadJson = .ok payload.value)
    (outcome : Except Exc (Option String))
    (runs : Runs host answers (engine.runOnce host now) world outcome world') :
    EventSettled world' row.id (now + min 60 (2 ^ min (row.attempts + 1) 6)) ↔
      row.Handled host world now payload.value := by
  have stored := List.mem_of_mem_filter (firstBy_mem found)
  have rest := (claimEvent_runs faultless found read).after runs
  have mapped := List.mem_map_of_mem (f := fun other : EventRow =>
    if (other.id == row.id) = true then other.claimedBy engine.workerId
      (now + engine.leaseSeconds) (row.attempts + 1) now else other) stored
  rw [if_pos (beq_self_eq_true _)] at mapped
  have held : ∃ held ∈ (leased world engine.workerId now engine.leaseSeconds row).db.events.rows,
      held.id = row.id ∧ held.status = .claimed ∧ held.leaseOwner = some engine.workerId :=
    ⟨_, mapped, rfl, rfl, rfl⟩
  simp only [Program.bind_eq_bind] at rest
  split at rest
  · rename_i kind
    have settles := @runTaskRequested_settles host _ _ engine ⟨row.id, row.kind, payload.value,
      row.priority, row.attempts + 1⟩ now _ _ (now + min 60 (2 ^ min (row.attempts + 1) 6))
      faultless held rest
    refine settles.trans ⟨fun takes => ⟨fun step => ?_, fun _ task capabilities asked => ?_⟩, ?_⟩
    · rw [kind] at step
      exact absurd step (by decide)
    · exact TakesTask.leased_iff.1 (takes task capabilities asked)
    · exact fun handled task capabilities asked =>
        TakesTask.leased_iff.2 (handled.task kind task capabilities asked)
  · rename_i notTask
    split at rest
    · rename_i kind
      have settles := @runStep_settles host _ _ engine ⟨row.id, row.kind, payload.value, row.priority,
        row.attempts + 1⟩ now _ _ faultless held rest
      refine settles.trans ⟨fun there => ⟨fun _ => there, fun task => absurd task notTask⟩, ?_⟩
      exact fun handled => handled.step kind
    · rename_i notStep
      refine iff_of_true ?_ ⟨fun step => absurd step notStep, fun task => absurd task notTask⟩
      exact @ack_settles host _ _ engine ⟨row.id, row.kind, payload.value, row.priority,
        row.attempts + 1⟩ now _ _ _ faultless _ _ rfl held rest

/-! ### Two step events -/

/-- A store with a run at its first step. -/
def submitted : World :=
  ((submitTask "task" ["money"] 0 none).execute (kernelMachine plainHost) (fun _ => .quiet)
    World.initial).2

/-- The event of that step. -/
def firstStep : EventRow := (runStepRequest "id-0" 0 0 0).row "id-1"

/-- A model that decides on the payment, and a handler that times out. -/
def timesOut : Op → Answer
  | .respond .. => .ofResponse (.toolCall (payCall "q"))
  | _ => .ofOutput (.error ⟨.other "TimeoutError", "no answer"⟩)

set_option maxRecDepth 10000 in
/-- The event of a step whose effect stays uncertain is done, and the run is blocked. -/
theorem event_settled_blocked :
    ∃ outcome world', Runs plainHost timesOut
        ((payEngine "a").runOnce plainHost 0) submitted outcome world' ∧
      (EventSettled world' "id-1" (0 + min 60 (2 ^ min (0 + 1) 6)) ↔
        firstStep.Handled plainHost submitted 0 (runStepPayload "id-0" 0).value) ∧
      EventSettled world' "id-1" (0 + min 60 (2 ^ min (0 + 1) 6)) ∧
        world'.db.runs.rows.map RunRow.status = [.blockedEffect] := by
  have blocks : (((payEngine "a").runOnce plainHost 0).execute (kernelMachine plainHost) timesOut
      submitted).2.db.runs.rows.map RunRow.status = [.blockedEffect] := by decide +kernel
  rcases ran : ((payEngine "a").runOnce plainHost 0).execute (kernelMachine plainHost) timesOut
    submitted with ⟨outcome, world'⟩
  rw [ran] at blocks
  have faultless : Faultless timesOut := by
    intro op
    cases op <;> rfl
  have claims : firstBy plainHost.tieBreak EventRow.before
      (submitted.db.events.rows.filter (EventRow.claimable 0)) = some firstStep := by decide +kernel
  have text : firstStep.payloadJson = (runStepPayload "id-0" 0).text compactStyle := rfl
  have read : loads firstStep.payloadJson = .ok (runStepPayload "id-0" 0).value := by
    rw [text]
    exact JsonObject.loads_text compactStyle (runStepPayload "id-0" 0)
  have settles := event_settled_iff plainHost (payEngine "a") timesOut faultless submitted world' 0
    firstStep claims (runStepPayload "id-0" 0) read outcome ran
  have stored : (submitted.db.run "id-0").isSome = true := by decide +kernel
  obtain ⟨run, stored⟩ := Option.isSome_iff_exists.1 stored
  have handled : firstStep.Handled plainHost submitted 0 (runStepPayload "id-0" 0).value :=
    ⟨fun _ => ⟨.str "id-0", run, rfl, stored⟩, fun task => absurd task (by decide)⟩
  exact ⟨outcome, world', ran, settles, settles.2 handled, blocks⟩

/-- An event with an empty payload. -/
def plainEvent (kind : String) : EventRow :=
  ⟨"e", kind, JsonObject.empty.text compactStyle, 0, none, .pending, 0, none, none, 0, 0, 0⟩

/-- A store with nothing else. -/
def oneEvent (kind : String) : World :=
  { World.initial with
    db := { Db.empty with events := ⟨[plainEvent kind], List.pairwise_singleton _ _⟩ } }

set_option maxRecDepth 10000 in
/-- A step event that names no run stays leased: the worker raises and forgets it. -/
theorem nameless_step_stuck :
    ∃ outcome world', Runs plainHost (fun _ => .quiet)
        ((payEngine "a").runOnce plainHost 0) (oneEvent "run.step") outcome world' ∧
      world'.db.events.rows.map EventRow.status = [.claimed] ∧
        ¬ EventSettled world' "e" (0 + min 60 (2 ^ min (0 + 1) 6)) := by
  have claimed : (((payEngine "a").runOnce plainHost 0).execute (kernelMachine plainHost)
      (fun _ => .quiet) (oneEvent "run.step")).2.db.events.rows.map EventRow.status =
        [.claimed] := by decide +kernel
  rcases ran : ((payEngine "a").runOnce plainHost 0).execute (kernelMachine plainHost)
    (fun _ => .quiet) (oneEvent "run.step") with ⟨outcome, world'⟩
  rw [ran] at claimed
  refine ⟨outcome, world', ran, claimed, ?_⟩
  rintro ⟨row, stored, _, settled⟩
  have status := List.mem_map_of_mem (f := EventRow.status) stored
  rw [claimed, List.mem_singleton] at status
  rw [status] at settled
  rcases settled with impossible | ⟨impossible, _⟩ <;> cases impossible

end PreActive.Kernel
