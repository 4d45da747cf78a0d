/-
Module: PreActive.Kernel.Draining
Purpose: Work runs out: every call of a worker that returns leaves less to do, and a worker that
  is left alone brings every run to rest.
Trusted boundary: human-reviewed spec
Main exports: Db.backlog, Db.Due, runOnce_lowers, TakeTurns, AtRest, backlog_drains
-/
import Mathlib.Algebra.Order.BigOperators.Group.List
import PreActive.Foundation.Turns
import PreActive.Kernel.Daemon
import PreActive.Kernel.Requests
import PreActive.Kernel.Settlement

namespace PreActive.Kernel

open PreActive.Foundation PreActive.Python
open Program.Obeys

variable {host : Host} {answers : Op → Answer} {world mid world' : World} {engine : Engine}
variable {event : Event} {now : Time} {log : History} {runId : String} {run : RunRow}
variable {maxSteps : Int}

/-! ### What is left to do -/

/-- How often a worker may come back to what an event starts: a step may lead to the next one, up
to `max_steps`, and a task to a run with its first step. -/
def workOf (maxSteps : Int) (kind : String) (payload : Except Exc PyVal) : Nat :=
  if kind = "task.requested" then maxSteps.toNat + 2
  else if kind = "run.step" then
    match payload with
    | .ok payload => (payloadStep payload).elim 1 fun step => (maxSteps - step).toNat + 1
    | .error _ => 1
  else 1

/-- A finished event is no work. -/
def EventRow.work (maxSteps : Int) (row : EventRow) : Nat :=
  if row.unfinished then workOf maxSteps row.kind (loads row.payloadJson) else 0

def Event.work (maxSteps : Int) (event : Event) : Nat :=
  workOf maxSteps event.kind (.ok event.payload)

/-- The work that all events together make. -/
def Db.backlog (maxSteps : Int) (db : Db) : Nat := (db.events.rows.map (EventRow.work maxSteps)).sum

theorem workOf_pos (kind : String) (payload : Except Exc PyVal) : 0 < workOf maxSteps kind payload := by
  unfold workOf
  split
  · omega
  · split
    · split
      · cases payloadStep _ <;> simp
      · simp
    · simp

/-- Without work every event is finished. -/
theorem Db.backlog_eq_zero {db : Db} :
    db.backlog maxSteps = 0 ↔ ∀ row ∈ db.events.rows, row.unfinished = false := by
  rw [Db.backlog, List.sum_eq_zero_iff_forall_eq_nat, List.forall_mem_map]
  refine forall₂_congr fun row _ => ?_
  have positive := @workOf_pos maxSteps row.kind (loads row.payloadJson)
  unfold EventRow.work
  cases row.unfinished
  · simp
  · simp only [if_true]
    constructor
    · omega
    · nofun

/-- Events do not become more work, and one that was some work is none. -/
theorem sum_add_le {α : Type} {f g : α → Nat} {rows : List α} (le : ∀ row ∈ rows, f row ≤ g row)
    {row : α} (member : row ∈ rows) (zero : f row = 0) :
    (rows.map f).sum + g row ≤ (rows.map g).sum := by
  induction rows with
  | nil => cases member
  | cons head rest ih =>
      have first := le head List.mem_cons_self
      have others (other : α) (inRest : other ∈ rest) : f other ≤ g other :=
        le other (List.mem_cons_of_mem _ inRest)
      simp only [List.map_cons, List.sum_cons]
      rcases List.mem_cons.1 member with rfl | inRest
      · have sums := List.sum_le_sum others
        omega
      · have := ih others inRest
        omega

/-! ### What single operations do to it -/

theorem EventRow.work_of_unfinished {row row' : EventRow} (unfinished : row.unfinished = true)
    (unfinished' : row'.unfinished = true) (kind : row'.kind = row.kind)
    (payloadJson : row'.payloadJson = row.payloadJson) : row'.work maxSteps = row.work maxSteps := by
  simp only [EventRow.work, unfinished, unfinished', kind, payloadJson]

theorem EventRow.unfinished_of_claimable {row : EventRow} (claimable : row.claimable now = true) :
    row.unfinished = true := by
  simp only [EventRow.claimable, Bool.and_eq_true, Bool.or_eq_true, decide_eq_true_eq] at claimable
  rcases claimable.2 with pending | ⟨claimed, _⟩
  · simp [EventRow.unfinished, pending]
  · simp [EventRow.unfinished, claimed]

/-- A lease is no progress. -/
theorem backlog_leased {workerId : String} {leaseSeconds : Time} {row : EventRow}
    (stored : row ∈ world.db.events.rows) (claimable : row.claimable now = true) :
    (leased world workerId now leaseSeconds row).db.backlog maxSteps =
      world.db.backlog maxSteps := by
  change (List.map _ (List.map _ _)).sum = _
  rw [List.map_map, Db.backlog]
  congr 1
  apply List.map_congr_left
  intro other stored'
  simp only [Function.comp_apply]
  split
  · rename_i same
    obtain rfl := event_unique stored' stored (eq_of_beq same)
    exact EventRow.work_of_unfinished (EventRow.unfinished_of_claimable claimable) rfl rfl rfl
  · rfl

/-- An enqueued event is its own work, and the others stay. -/
theorem Enqueues.backlog_le (maxSteps : Int) {request : EventRequest} {eventId : String}
    (enqueues : Enqueues host request world eventId world') :
    world'.db.backlog maxSteps ≤ world.db.backlog maxSteps +
      workOf maxSteps request.kind (loads request.payloadJson) := by
  cases enqueues with
  | reused row found same => exact Nat.le_add_right _ _
  | fresh events absent inserted =>
      change (events.rows.map _).sum ≤ _
      rw [Table.rows_insert inserted, List.map_append, List.sum_append]
      apply Nat.add_le_add_left
      simp [EventRow.work, EventRequest.row, EventRow.unfinished]

/-- The event is stored as it was claimed. -/
def Event.Stored (event : Event) (world : World) : Prop :=
  ∃ row ∈ world.db.events.rows, row.id = event.id ∧ row.kind = event.kind ∧
    loads row.payloadJson = .ok event.payload

/-- A statement that returns was executed. -/
theorem stmt_ok {stmt : Stmt} {value : stmt.Result}
    (runs : Runs host answers stmt.perform.proc world (.ok value) world') :
    stmt.exec host world = (.ok value, world') := by
  have performs : Sql.proc stmt.perform = (Op.sql stmt).perform := by
    simp [Stmt.perform, Op.perform, Program.perform]
  rw [performs] at runs
  obtain ⟨outcome, last⟩ := (Op.runs host answers (.sql stmt) world).unique runs
  simp only [Op.answer] at outcome last
  cases fault : (answers (.sql stmt)).fault with
  | some fault =>
      rw [fault] at outcome
      cases outcome
  | none =>
      rw [fault] at outcome last
      exact Prod.ext outcome last

theorem EventRow.work_acked_le (eventId workerId : String) (row : EventRow) :
    (if row.heldBy eventId workerId = true then row.acked now else row).work maxSteps ≤
      row.work maxSteps := by
  split
  · simp [EventRow.work, EventRow.unfinished, EventRow.acked]
  · exact Nat.le_refl _

/-- Every event that is not finished can be claimed. -/
def Db.Due (db : Db) (now : Time) : Prop :=
  ∀ row ∈ db.events.rows, row.unfinished = true → row.claimable now = true

instance (db : Db) (now : Time) : Decidable (db.Due now) :=
  inferInstanceAs (Decidable (∀ row ∈ db.events.rows, _ → _))

/-- The same of every event but one. -/
def Db.DueBut (db : Db) (eventId : String) (now : Time) : Prop :=
  ∀ row ∈ db.events.rows, row.id ≠ eventId → row.unfinished = true → row.claimable now = true

/-- What is left once the event is acknowledged: its work is gone, some may have come up, and
nothing else waits. -/
structure Acked (maxSteps : Int) (event : Event) (now : Time) (raised : Nat) (world world' : World) :
    Prop where
  lowers : world'.db.backlog maxSteps + event.work maxSteps ≤ world.db.backlog maxSteps + raised
  due : world.db.DueBut event.id now → world'.db.Due now

/-- An acknowledgement that returns takes the work of its event away. -/
theorem ack_acked (maxSteps : Int) (stored : event.Stored world)
    (runs : Runs host answers (engine.ack event now) world (.ok ()) world') :
    Acked maxSteps event now 0 world world' := by
  simp only [Engine.ack, ackEvent, Program.bind_eq_bind, Sql.proc_bind] at runs
  obtain ⟨rowcount, mid, acks, rest⟩ := runs.of_bind
  obtain ⟨counted, rfl⟩ := Prod.mk.inj (stmt_ok acks)
  split at rest
  · cases rest
  · rename_i isOne
    rw [Sql.proc_bind] at rest
    obtain ⟨_, last, journals, ends⟩ := rest.of_bind
    obtain ⟨_, rfl⟩ := Prod.mk.inj ends
    obtain ⟨_, rfl⟩ := Prod.mk.inj (stmt_ok journals)
    obtain rfl := Except.ok.inj counted
    obtain ⟨held, isStored, named, claimed, owner⟩ := (count_heldBy _ _ _).1 (not_not.1 isOne)
    have isHeld := EventRow.heldBy_eq_true.2 ⟨named, claimed, owner⟩
    constructor
    · obtain ⟨row, there, sameId, kind, payload⟩ := stored
      obtain rfl := event_unique isStored there (named.trans sameId.symm)
      have own : held.work maxSteps = event.work maxSteps := by
        simp [EventRow.work, Event.work, EventRow.unfinished, claimed, kind, payload]
      rw [← own]
      change (List.map _ (List.map _ _)).sum + _ ≤ _
      rw [List.map_map]
      refine sum_add_le (fun row _ => EventRow.work_acked_le _ _ row) isStored ?_
      simp only [isHeld, if_true]
      simp [EventRow.work, EventRow.unfinished, EventRow.acked]
    · intro due row there unfinished
      obtain ⟨old, before, rfl⟩ := List.mem_map.1 there
      by_cases other : old.id = event.id
      · -- the event itself is done
        obtain rfl := event_unique before isStored (other.trans named.symm)
        simp only [isHeld, if_true] at unfinished
        simp [EventRow.unfinished, EventRow.acked] at unfinished
      · have apart : old.heldBy event.id engine.workerId = false := by
          simp [EventRow.heldBy, other]
        simp only [apart] at unfinished ⊢
        exact due old before other unfinished

/-! ### What leaves the events alone -/

/-- The operation touches no event. -/
def Op.offQueue : Op → Bool
  | .sql (.updateRun ..) | .sql (.blockRun ..) => true
  | op => op.quiet

def OffQueue (_ : History) (op : Op) : Prop := op.offQueue = true

theorem Op.offQueue_of_quiet {op : Op} (quiet : op.quiet = true) : op.offQueue = true := by
  unfold Op.offQueue
  split
  · rfl
  · rfl
  · exact quiet

theorem offQueue_events (op : Op) (answer : Answer) (off : op.offQueue = true) :
    (op.answer host answer world).2.db.events = world.db.events := by
  unfold Op.offQueue at off
  split at off
  · simp only [Op.answer]
    split <;> rfl
  · simp only [Op.answer]
    split <;> rfl
  · exact (quiet_answer op answer off).events

/-- A program that touches no event leaves the work as it is. -/
theorem offQueue_runs {α : Type} {program : Proc α} {post : History → Except Exc α → Prop}
    (obeys : program.Obeys OffQueue post []) {outcome : Except Exc α}
    (runs : Runs host answers program world outcome world') :
    world'.db.events = world.db.events := by
  have kept : (program.execute (kernelMachine host) answers world).2.db.events =
      world.db.events :=
    Program.execute_frame (fun world : World => world.db.events)
      (fun _ op answer _ off => offQueue_events op answer off) obeys world
  rwa [runs] at kept

theorem quiet_offQueue {α : Type} {program : Proc α} {post : History → Except Exc α → Prop}
    (obeys : program.Obeys Quiet post log) : program.Obeys OffQueue post log :=
  obeys.mono (fun _ _ quiet => Op.offQueue_of_quiet quiet) fun _ _ ends => ends

theorem recording_offQueue {α : Type} {program : Proc α} {post : History → Except Exc α → Prop}
    (obeys : program.Obeys Recording post log) : program.Obeys OffQueue post log :=
  quiet_offQueue (obeys.mono (fun _ _ recording => recording.quiet) fun _ _ ends => ends)

theorem Event.Stored.congr (stored : event.Stored world)
    (same : mid.db.events = world.db.events) : event.Stored mid := by
  unfold Event.Stored
  rw [same]
  exact stored

/-- What comes before may touch no event. -/
theorem Acked.congr {raised : Nat} (same : mid.db.events = world.db.events)
    (acked : Acked maxSteps event now raised mid world') :
    Acked maxSteps event now raised world world' where
  lowers := by
    have lowers := acked.lowers
    rwa [Db.backlog, Db.backlog, same] at lowers
  due due := acked.due (by rwa [Db.DueBut, same])

theorem then_ack (maxSteps : Int) {α : Type} {program : Proc α}
    {post : History → Except Exc α → Prop}
    (obeys : program.Obeys OffQueue post []) {value : α} (stored : event.Stored world)
    (runs : Runs host answers program world (.ok value) mid)
    (acks : Runs host answers (engine.ack event now) mid (.ok ()) world') :
    Acked maxSteps event now 0 world world' :=
  have same := offQueue_runs obeys runs
  .congr same (ack_acked maxSteps (stored.congr same) acks)

/-! ### Blocks -/

/-- A block that returns was committed. -/
theorem block_ok {block : Transaction} {result : block.Result}
    (runs : Runs host answers block.perform world (.ok result) world') :
    Transacts host world block result world' := by
  obtain ⟨outcome, rfl⟩ := (Op.runs host answers (.transaction block) world).unique runs
  exact Op.transacts_of_answer outcome

theorem workOf_runStep (maxSteps : Int) (runId : String) (step : Nat) :
    workOf maxSteps "run.step" (loads ((runStepPayload runId step).text compactStyle)) =
      (maxSteps - step).toNat + 1 := by
  simp [workOf, JsonObject.loads_text, payloadStep_runStepPayload]

/-- What a step event that a block enqueues adds to what an acknowledgement leaves. -/
theorem Acked.enqueues {step : Nat} {priority : Int} {eventId : String}
    (enqueues : Enqueues host (runStepRequest runId step priority now) world eventId mid)
    (acked : Acked maxSteps event now 0 mid world') :
    Acked maxSteps event now ((maxSteps - step).toNat + 1) world world' where
  lowers := by
    have raised := enqueues.backlog_le maxSteps
    have work : workOf maxSteps (runStepRequest runId step priority now).kind
      (loads (runStepRequest runId step priority now).payloadJson) = _ :=
        workOf_runStep maxSteps runId step
    rw [work] at raised
    have lowers := acked.lowers
    omega
  due due := by
    apply acked.due
    intro row there other unfinished
    cases enqueues with
    | reused found looked same => exact due row there other unfinished
    | fresh events absent inserted =>
        change row ∈ events.rows at there
        rw [Table.rows_insert inserted, List.mem_append, List.mem_singleton] at there
        rcases there with before | rfl
        · exact due row before other unfinished
        · simp [EventRow.claimable, EventRequest.row, runStepRequest]

theorem Event.Stored.enqueues {request : EventRequest} {eventId : String}
    (stored : event.Stored world) (enqueues : Enqueues host request world eventId world') :
    event.Stored world' := by
  obtain ⟨row, there, rest⟩ := stored
  exact ⟨row, enqueues.keepsEvents row there, rest⟩

/-! ### A step that returns -/

variable {call : ToolCall}

theorem classifyToolError_acked (maxSteps : Int) {exc : Exc} (stored : event.Stored world)
    (runs : Runs host answers (engine.classifyToolError event runId call exc now) world (.ok ())
      world') :
    Acked maxSteps event now 0 world world' := by
  have looks : (effectState call.requestId).Obeys OffQueue (returns fun _ _ => True) [] :=
    afterCall rfl fun _ => of_done trivial
  obtain ⟨state, mid, looked, rest⟩ := runs.of_bind
  have same := offQueue_runs looks looked
  apply Acked.congr same
  split at rest
  · obtain ⟨_, _, blocks, acks⟩ := rest.of_bind
    exact then_ack maxSteps (blockRunOnEffect_obeys (fun _ _ => rfl) rfl) (stored.congr same) blocks
      acks
  · split at rest
    · obtain ⟨_, _, updates, acks⟩ := rest.of_bind
      exact then_ack maxSteps (updateRun_obeys rfl) (stored.congr same) updates acks
    · cases rest

/-- A tool call may lead to the next step, and to nothing else. -/
theorem toolStep_acked (maxSteps : Int) (stored : event.Stored world)
    (runs : Runs host answers (engine.toolStep host event runId run call now) world (.ok ())
      world') :
    Acked maxSteps event now 0 world world' ∨
      Acked maxSteps event now ((maxSteps - (run.stepCount + 1 : Nat)).toNat + 1) world world' := by
  obtain ⟨_, mid₁, records, rest⟩ := runs.of_bind
  obtain ⟨outcome, mid₂, executes, rest⟩ := rest.of_bind
  have same₁ := offQueue_runs (recording_offQueue recordRunMessage_recording) records
  have same₂ := (offQueue_runs (quiet_offQueue execute_quiet.captured) executes).trans same₁
  cases outcome with
  | error exc =>
      exact .inl (.congr same₂ (classifyToolError_acked maxSteps (stored.congr same₂) rest))
  | ok result =>
      obtain ⟨content, mid₃, shows, after⟩ := rest.of_bind
      obtain ⟨_, rfl⟩ := shows.of_ofExcept
      obtain ⟨_, mid₄, records', after⟩ := after.of_bind
      have same₄ := (offQueue_runs (recording_offQueue recordRunMessage_recording) records').trans
        same₂
      obtain ⟨next, mid₅, advances, acks⟩ := after.of_bind
      cases block_ok advances with
      | advance row found running stands enqueued =>
          have same₅ : (advancedWorld mid₄ runId run.stepCount now).db.events = world.db.events :=
            same₄
          have acked := ack_acked maxSteps ((stored.congr same₅).enqueues enqueued) acks
          exact .inr (.congr same₅ (.enqueues enqueued acked))

theorem finalStep_acked (maxSteps : Int) {text : String} (stored : event.Stored world)
    (runs : Runs host answers (engine.finalStep event runId run text now) world (.ok ()) world') :
    Acked maxSteps event now 0 world world' := by
  obtain ⟨_, mid, records, rest⟩ := runs.of_bind
  have same := offQueue_runs (recording_offQueue recordRunMessage_recording) records
  obtain ⟨_, _, updates, acks⟩ := rest.of_bind
  exact .congr same (then_ack maxSteps (updateRun_obeys rfl) (stored.congr same) updates acks)

/-- What has come up is less than what was done. -/
def Progresses (maxSteps : Int) (event : Event) (now : Time) (world world' : World) : Prop :=
  ∃ raised < event.work maxSteps, Acked maxSteps event now raised world world'

theorem Acked.progresses (acked : Acked maxSteps event now 0 world world') :
    Progresses maxSteps event now world world' :=
  ⟨0, workOf_pos _ _, acked⟩

theorem processStep_progresses (stored : event.Stored world) (isStep : event.kind = "run.step")
    (step : payloadStep event.payload = some (run.stepCount : Int))
    (below : (run.stepCount : Int) < maxSteps)
    (runs : Runs host answers (engine.processStep host event runId run now) world (.ok ())
      world') : Progresses maxSteps event now world world' := by
  have own : event.work maxSteps = (maxSteps - run.stepCount).toNat + 1 := by
    simp [Event.work, workOf, isStep, step]
  obtain ⟨response, mid, admits, rest⟩ := runs.of_bind
  have same := offQueue_runs (recording_offQueue admittedResponse_recording) admits
  cases response with
  | toolCall call =>
      rcases toolStep_acked maxSteps (stored.congr same) rest with acked | acked
      · exact (acked.congr same).progresses
      · exact ⟨_, by omega, acked.congr same⟩
  | finalText text => exact ((finalStep_acked maxSteps (stored.congr same) rest).congr same).progresses

/-! ### A call that returns -/

theorem runStep_progresses (stored : event.Stored world) (isStep : event.kind = "run.step")
    {result : Option String}
    (runs : Runs host answers (engine.runStep host event now) world (.ok result) world') :
    Progresses engine.maxSteps event now world world' := by
  unfold Engine.runStep at runs
  split at runs
  · cases runs
  · rename_i value isRun
    obtain ⟨run, mid, reads, rest⟩ := runs.of_bind
    have same := offQueue_runs (getRun_obeys rfl) reads
    have stored' := stored.congr same
    dsimp only at rest
    split at rest
    · obtain ⟨_, last, acks, ends⟩ := rest.of_bind
      obtain ⟨_, rfl⟩ := Prod.mk.inj ends
      exact ((ack_acked _ stored' acks).congr same).progresses
    · rename_i step
      split at rest
      · obtain ⟨_, last, acks, ends⟩ := rest.of_bind
        obtain ⟨_, rfl⟩ := Prod.mk.inj ends
        exact ((ack_acked _ stored' acks).congr same).progresses
      · split at rest
        · obtain ⟨_, last, updates, rest⟩ := rest.of_bind
          obtain ⟨_, last, acks, ends⟩ := rest.of_bind
          obtain ⟨_, rfl⟩ := Prod.mk.inj ends
          exact ((then_ack _ (updateRun_obeys rfl) stored' updates acks).congr same).progresses
        · rename_i below
          rcases steps : (engine.processStep host event (host.str value) run now).execute
            (kernelMachine host) answers mid with ⟨exc | _, last⟩
          · -- the event waits for its retry, and the exception is passed on
            have requeues := Program.RunsTo.after (Program.RunsTo.attempt steps) rest
            obtain ⟨_, _, requeues, _⟩ := requeues.of_bind
            obtain ⟨_, _, _, requeues⟩ := requeues.of_bind
            obtain ⟨_, _, _, raises⟩ := requeues.of_bind
            cases raises
          · have ends := Program.RunsTo.after (Program.RunsTo.attempt steps) rest
            obtain ⟨_, rfl⟩ := Prod.mk.inj ends
            obtain ⟨raised, less, acked⟩ := processStep_progresses stored' isStep
              (not_not.1 step) (not_le.1 below) steps
            exact ⟨raised, less, acked.congr same⟩

theorem rejectEvent_acked (maxSteps : Int) {reason : String} {result : Option String}
    (stored : event.Stored world)
    (runs : Runs host answers (engine.rejectEvent event reason now) world (.ok result) world') :
    Acked maxSteps event now 0 world world' := by
  obtain ⟨_, mid, journals, rest⟩ := runs.of_bind
  obtain ⟨_, last, acks, ends⟩ := rest.of_bind
  obtain ⟨_, rfl⟩ := Prod.mk.inj ends
  exact then_ack maxSteps (appendJournal_obeys fun _ _ => rfl) stored journals acks

theorem runTaskRequested_progresses (stored : event.Stored world)
    (isTask : event.kind = "task.requested") {result : Option String}
    (runs : Runs host answers (engine.runTaskRequested event now) world (.ok result) world') :
    Progresses maxSteps event now world world' := by
  have own : event.work maxSteps = maxSteps.toNat + 2 := by
    simp [Event.work, workOf, isTask]
  unfold Engine.runTaskRequested at runs
  dsimp only at runs
  split at runs
  · exact (rejectEvent_acked maxSteps stored runs).progresses
  · split at runs
    · exact (rejectEvent_acked maxSteps stored runs).progresses
    · split at runs
      · exact (rejectEvent_acked maxSteps stored runs).progresses
      · obtain ⟨runId, mid, submits, rest⟩ := runs.of_bind
        obtain ⟨_, last, acks, ends⟩ := rest.of_bind
        obtain ⟨_, rfl⟩ := Prod.mk.inj ends
        cases block_ok submits with
        | @createRun _ _ _ _ _ _ _ middle _ created enqueued =>
            have same : middle.db.events = world.db.events := by cases created <;> rfl
            have acked := ack_acked maxSteps ((stored.congr same).enqueues enqueued) acks
            exact ⟨_, by simp [own], .congr same (.enqueues enqueued acked)⟩

/-- In a total order something comes first. -/
theorem exists_first {α : Type} {before : α → α → Bool}
    (total : ∀ a b, before a b = true ∨ before b a = true)
    (trans : ∀ a b c, before a b = true → before b c = true → before a c = true) :
    ∀ {items : List α}, items ≠ [] → ∃ item ∈ items, ∀ other ∈ items, before item other = true
  | [item], _ => ⟨item, by simp, by simpa using (total item item)⟩
  | item :: next :: rest, _ => by
      obtain ⟨best, among, first⟩ := exists_first total trans (List.cons_ne_nil next rest)
      rcases total item best with earlier | later
      · refine ⟨item, List.mem_cons_self, fun other member => ?_⟩
        rcases List.mem_cons.1 member with rfl | inRest
        · simpa using total other other
        · exact trans _ _ _ earlier (first other inRest)
      · refine ⟨best, List.mem_cons_of_mem _ among, fun other member => ?_⟩
        rcases List.mem_cons.1 member with rfl | inRest
        · exact later
        · exact first other inRest

theorem EventRow.before_total (a b : EventRow) : a.before b = true ∨ b.before a = true := by
  simp only [EventRow.before, Bool.or_eq_true, Bool.and_eq_true, decide_eq_true_eq]
  rcases lt_trichotomy a.priority b.priority with less | same | more
  · exact .inr (.inl less)
  · rcases le_total a.createdAt b.createdAt with earlier | later
    · exact .inl (.inr ⟨same, earlier⟩)
    · exact .inr (.inr ⟨same.symm, later⟩)
  · exact .inl (.inl more)

theorem EventRow.before_trans (a b c : EventRow) (first : a.before b = true)
    (second : b.before c = true) : a.before c = true := by
  simp only [EventRow.before, Bool.or_eq_true, Bool.and_eq_true, decide_eq_true_eq] at *
  rcases first with above | ⟨same, earlier⟩ <;> rcases second with above' | ⟨same', earlier'⟩
  · exact .inl (above'.trans above)
  · exact .inl (same' ▸ above)
  · exact .inl (same ▸ above')
  · exact .inr ⟨same.trans same', earlier.trans earlier'⟩

/-- Where nothing is claimed there is nothing that can be. -/
theorem firstBy_eq_none {tieBreak : List EventRow → Nat} {rows : List EventRow}
    (none : firstBy tieBreak EventRow.before rows = none) : rows = [] := by
  by_contra some
  obtain ⟨row, member, first⟩ := exists_first EventRow.before_total EventRow.before_trans some
  have isFirst : row ∈ firsts EventRow.before rows :=
    List.mem_filter.2 ⟨member, List.all_eq_true.2 first⟩
  exact absurd (List.getElem?_eq_none_iff.1 none)
    (Nat.not_le.2 (Nat.mod_lt _ (List.length_pos_of_mem isFirst)))

/-- A claim takes an event that can be claimed, if there is one. -/
theorem claimEvent_ok {workerId : String} {leaseSeconds : Time} {found : Option Event}
    (runs : Runs host answers (claimEvent workerId now leaseSeconds) world (.ok found) world') :
    (found = none ∧ world' = world ∧
      ∀ row ∈ world.db.events.rows, row.claimable now = false) ∨
    ∃ row payload, row ∈ world.db.events.rows ∧ row.claimable now = true ∧
      loads row.payloadJson = .ok payload ∧
      found = some ⟨row.id, row.kind, payload, row.priority, row.attempts + 1⟩ ∧
        world' = leased world workerId now leaseSeconds row := by
  obtain ⟨claimed, mid, claims, rest⟩ := runs.of_bind
  cases block_ok claims with
  | claimNothing idle =>
      obtain ⟨same, rfl⟩ := Prod.mk.inj rest
      refine .inl ⟨(Except.ok.inj same).symm, rfl, fun row stored => ?_⟩
      cases claimable : row.claimable now with
      | false => rfl
      | true =>
          have member := List.mem_filter.2 ⟨stored, claimable⟩
          rw [firstBy_eq_none idle] at member
          cases member
  | claim row isFirst =>
      obtain ⟨stored, claimable⟩ := List.mem_filter.1 (firstBy_mem isFirst)
      obtain ⟨payload, last, reads, ends⟩ := rest.of_bind
      obtain ⟨read, rfl⟩ := reads.of_ofExcept
      obtain ⟨same, rfl⟩ := Prod.mk.inj ends
      exact .inr ⟨row, payload, stored, claimable, read, (Except.ok.inj same).symm, rfl⟩

/-- A call that returns either found nothing to do, or leaves less to do. -/
theorem runOnce_lowers {result : Option String} (due : world.db.Due now)
    (runs : Runs host answers (engine.runOnce host now) world (.ok result) world') :
    (world' = world ∧ ∀ row ∈ world.db.events.rows, row.unfinished = false) ∨
      world'.db.backlog engine.maxSteps < world.db.backlog engine.maxSteps ∧ world'.db.Due now := by
  obtain ⟨found, mid, claims, rest⟩ := runs.of_bind
  rcases claimEvent_ok claims with ⟨rfl, rfl, idle⟩ | ⟨row, payload, stored, claimable, read, rfl, rfl⟩
  · obtain ⟨_, rfl⟩ := Prod.mk.inj rest
    refine .inl ⟨rfl, fun row stored => ?_⟩
    cases unfinished : row.unfinished with
    | false => rfl
    | true => exact absurd (due row stored unfinished) (by simp [idle row stored])
  · right
    generalize isEvent : (⟨row.id, row.kind, payload, row.priority, row.attempts + 1⟩ : Event) =
      event at rest
    have isStored : event.Stored (leased world engine.workerId now engine.leaseSeconds row) := by
      have mapped := List.mem_map_of_mem (f := fun other : EventRow =>
        if other.id == row.id then other.claimedBy engine.workerId (now + engine.leaseSeconds)
          (row.attempts + 1) now else other) stored
      rw [if_pos (beq_self_eq_true _)] at mapped
      subst isEvent
      exact ⟨_, mapped, rfl, rfl, read⟩
    have dueBut : (leased world engine.workerId now engine.leaseSeconds row).db.DueBut event.id now := by
      intro other there apart unfinished
      obtain ⟨old, before, rfl⟩ := List.mem_map.1 there
      subst isEvent
      by_cases same : (old.id == row.id) = true
      · simp only [same, if_true] at apart
        exact absurd (eq_of_beq same) apart
      · simp only [same] at unfinished ⊢
        exact due old before unfinished
    have progresses : Progresses engine.maxSteps event now
        (leased world engine.workerId now engine.leaseSeconds row) world' := by
      dsimp only at rest
      split at rest
      · rename_i isTask
        exact runTaskRequested_progresses isStored isTask rest
      · split at rest
        · rename_i isStep
          exact runStep_progresses isStored isStep rest
        · obtain ⟨_, last, acks, ends⟩ := rest.of_bind
          obtain ⟨_, rfl⟩ := Prod.mk.inj ends
          exact (ack_acked _ isStored acks).progresses
    obtain ⟨raised, less, acked⟩ := progresses
    have lowers := acked.lowers
    rw [backlog_leased stored claimable] at lowers
    exact ⟨by omega, acked.due dueBut⟩

/-! ### Workers that are left alone -/

theorem EventRow.claimable_mono {later : Time} {row : EventRow} (le : now ≤ later)
    (claimable : row.claimable now = true) : row.claimable later = true := by
  simp only [EventRow.claimable, Bool.and_eq_true, Bool.or_eq_true, decide_eq_true_eq,
    Option.any_eq_true] at claimable ⊢
  obtain ⟨available, pending | ⟨claimed, leaseUntil, leased, expired⟩⟩ := claimable
  · exact ⟨available.trans le, .inl pending⟩
  · exact ⟨available.trans le, .inr ⟨claimed, leaseUntil, leased, expired.trans le⟩⟩

theorem Db.Due.mono {db : Db} {later : Time} (due : db.Due now) (le : now ≤ later) :
    db.Due later :=
  fun row stored unfinished => EventRow.claimable_mono le (due row stored unfinished)

/-- A lease has a deadline, so that every event comes to be due. -/
theorem EventRow.exists_due {row : EventRow}
    (deadline : row.status = .claimed → row.leaseUntil.isSome = true) :
    ∃ since, row.unfinished = true → row.claimable since = true := by
  cases status : row.status with
  | done => exact ⟨0, by simp [EventRow.unfinished, status]⟩
  | pending =>
      refine ⟨row.availableAt, fun _ => ?_⟩
      simp [EventRow.claimable, status]
  | claimed =>
      obtain ⟨leaseUntil, leased⟩ := Option.isSome_iff_exists.1 (deadline status)
      refine ⟨max row.availableAt leaseUntil, fun _ => ?_⟩
      simp [EventRow.claimable, status, leased]

/-- So do all events of a store together. -/
theorem Db.exists_due {db : Db}
    (deadlines : ∀ row ∈ db.events.rows, row.status = .claimed → row.leaseUntil.isSome = true) :
    ∃ since, ∀ now, since ≤ now → db.Due now := by
  suffices every : ∀ rows : List EventRow,
      (∀ row ∈ rows, row.status = .claimed → row.leaseUntil.isSome = true) →
        ∃ since, ∀ row ∈ rows, row.unfinished = true → row.claimable since = true by
    obtain ⟨since, due⟩ := every _ deadlines
    exact ⟨since, fun now le => Db.Due.mono due le⟩
  intro rows
  induction rows with
  | nil => exact fun _ => ⟨0, nofun⟩
  | cons first rest ih =>
      intro deadlines
      obtain ⟨firstSince, firstDue⟩ :=
        EventRow.exists_due (deadlines first List.mem_cons_self)
      obtain ⟨restSince, restDue⟩ :=
        ih fun row stored => deadlines row (List.mem_cons_of_mem _ stored)
      refine ⟨max firstSince restSince, fun row stored unfinished => ?_⟩
      rcases List.mem_cons.1 stored with rfl | inRest
      · exact EventRow.claimable_mono (le_max_left _ _) (firstDue unfinished)
      · exact EventRow.claimable_mono (le_max_right _ _) (restDue row inRest unfinished)

/-- Every event is done with. -/
def Db.Finished (db : Db) : Prop := ∀ row ∈ db.events.rows, row.unfinished = false

/-- A call that finds every event finished changes nothing, whatever fails on the way. -/
theorem runOnce_idle (finished : world.db.Finished) :
    ((engine.runOnce host now).execute (kernelMachine host) answers world).2 = world := by
  have nothing : world.db.events.rows.filter (EventRow.claimable now) = [] := by
    apply List.filter_eq_nil_iff.2
    intro row stored claimable
    have unfinished := EventRow.unfinished_of_claimable claimable
    simp [finished row stored] at unfinished
  have claims (workerId : String) (leaseSeconds : Time) :
      (Transaction.claimEvent workerId now leaseSeconds).exec host world = (.ok none, world) := by
    simp [Transaction.exec, Transaction.body, claimEventBody, Stmt.perform, Program.perform,
      Stmt.exec, nothing, firstBy, firsts]
  have asked := Op.runs host answers
    (.transaction (.claimEvent engine.workerId now engine.leaseSeconds)) world
  cases faulty :
    (answers (.transaction (.claimEvent engine.workerId now engine.leaseSeconds))).fault with
  | some fault =>
      simp only [Op.answer, faulty] at asked
      have ended : Runs host answers (engine.runOnce host now) world (.error fault.exc) world :=
        Program.RunsTo.bindRaised (Program.RunsTo.bindRaised asked)
      rw [ended]
  | none =>
      simp only [Op.answer, faulty, claims] at asked
      have ended : Runs host answers (engine.runOnce host now) world (.ok none) world :=
        Program.RunsTo.bind (Program.RunsTo.bind asked (.done none)) (.done none)
      rw [ended]

/-- Workers take turns on a store, at readings of a clock that never goes back: nothing waits any
more when they start, and as many calls as there is work return. -/
structure TakeTurns (host : Host) (maxSteps : Int) (workers : Nat → Engine) (clock : Nat → Time)
    (answers : Nat → Op → Answer) (world : World) : Prop where
  steps : ∀ turn, (workers turn).maxSteps = maxSteps
  monotone : Monotone clock
  due : world.db.Due (clock 0)
  returns : ∀ turn < world.db.backlog maxSteps,
    (system host).Returns (fun turn => .runOnce (workers turn) (clock turn)) answers world turn

/-- Every event is done with, and no run waits for a step. -/
structure AtRest (db : Db) : Prop where
  events : ∀ row ∈ db.events.rows, row.status = .done
  runs : ∀ run ∈ db.runs.rows, run.status ≠ .running

/-- A call returns when its program does, and leaves the world that it leaves. -/
theorem execute_discard {α : Type} (program : Proc α) (world : World) :
    (discard program).execute (kernelMachine host) answers world =
      ((program.execute (kernelMachine host) answers world).1.map fun _ => (),
        (program.execute (kernelMachine host) answers world).2) := by
  rw [discard, Program.execute_bind]
  rcases program.execute (kernelMachine host) answers world with ⟨exc | value, last⟩ <;> rfl

variable {workers : Nat → Engine} {clock : Nat → Time} {heard : Nat → Op → Answer}

/-- Workers that take turns work off what there is. -/
theorem TakeTurns.finished (turns : TakeTurns host maxSteps workers clock heard world) (turn : Nat)
    (enough : world.db.backlog maxSteps ≤ turn) :
    ((system host).turns (fun turn => .runOnce (workers turn) (clock turn)) heard world
      turn).db.Finished := by
  refine System.turns_exhaust (fun world : World => world.db.backlog maxSteps)
    (fun turn world => world.db.Due (clock turn)) (fun world => world.db.Finished) ?_ ?_ ?_
    turns.due turns.returns turn enough
  · exact fun world => Db.backlog_eq_zero.1
  · intro turn world due returns
    simp only [system, Call.program, execute_discard] at returns ⊢
    rcases ran : ((workers turn).runOnce host (clock turn)).execute (kernelMachine host) (heard turn)
      world with ⟨exc | result, last⟩
    · simp [ran, Except.map, Except.isOk, Except.toBool] at returns
    · rcases runOnce_lowers due ran with ⟨_, finished⟩ | ⟨lower, stillDue⟩
      · exact .inl finished
      · rw [turns.steps turn] at lower
        exact .inr ⟨lower, stillDue.mono (turns.monotone (Nat.le_succ turn))⟩
  · intro turn world finished
    simp only [system, Call.program, execute_discard]
    exact runOnce_idle finished

/-- From every reachable store there is a time from which on nothing waits any more; and workers
that take turns when nothing waits bring every event and every run to rest, in as many calls as
there is work. -/
theorem backlog_drains (host : Host) (config : KernelConfig)
    (reached : (system host).Reachable StoreOwnsSteps KernelConfig.initial config) :
    (∃ since, ∀ now, since ≤ now → config.world.db.Due now) ∧
      ∀ maxSteps workers clock answers,
        TakeTurns host maxSteps workers clock answers config.world →
          ∀ turn, config.world.db.backlog maxSteps ≤ turn →
            AtRest ((system host).turns (fun turn => .runOnce (workers turn) (clock turn)) answers
              config.world turn).db := by
  refine ⟨Db.exists_due (reachable_sound reached).leased, ?_⟩
  intro maxSteps workers clock answers turns turn enough
  have finished := turns.finished turn enough
  let calls (turn : Nat) : Call := .runOnce (workers turn) (clock turn)
  have spawns : ∀ config turn, StoreOwnsSteps config (.spawn (calls turn)) := fun _ _ => rfl
  obtain ⟨config', later, shows⟩ : ∃ config', (system host).Reachable StoreOwnsSteps config config' ∧
      config'.world = (system host).turns calls answers config.world turn :=
    System.Reachable.turns spawns (fun _ _ _ => rfl) answers config turn
  rw [← shows] at finished ⊢
  have noneStranded := (reachable_sound (reached.trans later)).noStrandedRun
  constructor
  · intro row stored
    have done := finished row stored
    cases status : row.status with
    | done => rfl
    | _ => simp [EventRow.unfinished, status] at done
  · intro run stored running
    obtain ⟨row, there, _, _, waits⟩ := noneStranded.next run stored running
    have done := finished row there
    rcases waits with pending | ⟨claimed, _⟩
    · simp [EventRow.unfinished, pending] at done
    · simp [EventRow.unfinished, claimed] at done

/-- The model asks for the payment once and then ends the run. -/
def payOnce (turn : Nat) (_ : Op) : Answer where
  fault := none
  response := .ok (if turn = 0 then .toolCall (payCall "q") else .finalText "paid")
  output := .ok (.dict [])

set_option maxRecDepth 10000 in
/-- A submitted task is nine calls of work, and ends with the second of them. -/
theorem backlog_drains_paid :
    ∃ config, (system plainHost).Reachable StoreOwnsSteps KernelConfig.initial config ∧
      config.world.db.runStanding "id-0" = some (.running, 0) ∧
      config.world.db.backlog 8 = 9 ∧
      AtRest ((system plainHost).turns (fun _ => .runOnce (payEngine "a") 0) payOnce
        config.world 9).db ∧
      ((system plainHost).turns (fun _ => .runOnce (payEngine "a") 0) payOnce
        config.world 9).db.runStanding "id-0" = some (.completed, 2) := by
  have ran : ((system plainHost).run storeOwnsSteps KernelConfig.initial
      [.spawn (.submitTask "task" ["money"] 0 none), .act 0 .quiet]).any (fun config =>
        decide (config.world.db.runStanding "id-0" = some (.running, 0) ∧
          config.world.db.backlog 8 = 9 ∧ config.world.db.Due 0 ∧
          (∀ turn < 9, (system plainHost).Returns
            (fun _ => .runOnce (payEngine "a") 0) payOnce config.world turn) ∧
          ((system plainHost).turns (fun _ => .runOnce (payEngine "a") 0) payOnce
            config.world 9).db.runStanding "id-0" = some (.completed, 2))) = true := by
    decide +kernel
  obtain ⟨config, reached, checked⟩ := System.Reachable.exists_of_run _ ran
  obtain ⟨running, count, due, returns, completed⟩ := of_decide_eq_true checked
  have turns : TakeTurns plainHost 8 (fun _ => payEngine "a") (fun _ => 0) payOnce
      config.world :=
    ⟨fun _ => rfl, monotone_const, due, by simpa only [count] using returns⟩
  have rests := (backlog_drains plainHost config reached).2 8 _ _ _ turns 9 (Nat.le_of_eq count)
  exact ⟨config, reached, running, count, rests, completed⟩

end PreActive.Kernel
