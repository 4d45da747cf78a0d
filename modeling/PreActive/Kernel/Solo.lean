/-
Module: PreActive.Kernel.Solo
Purpose: What the store methods answer and leave behind when one process runs alone and no step
  is faulty.
Trusted boundary: none
Main exports: Runs, Faultless, Faultless.proc, claimEvent_runs, getRun_runs, ack_runs
-/
import PreActive.Kernel.Changes
import PreActive.Kernel.Queue
import PreActive.Kernel.StorePaths

namespace PreActive.Kernel

open PreActive.Foundation PreActive.Python
open Program

variable {host : Host} {answers : Op → Answer} {α β : Type} {world mid world' : World}

/-- The program of one process, run alone. -/
abbrev Runs (host : Host) (answers : Op → Answer) (program : Proc α) (world : World)
    (outcome : Except Exc α) (world' : World) : Prop :=
  program.RunsTo (kernelMachine host) answers world outcome world'

theorem Op.runs (host : Host) (answers : Op → Answer) (op : Op) (world : World) :
    Runs host answers op.perform world (op.answer host (answers op) world).1
      (op.answer host (answers op) world).2 :=
  RunsTo.perform (F := kernel) op

/-- No step is faulty. -/
def Faultless (answers : Op → Answer) : Prop := ∀ op, (answers op).fault = none

theorem Faultless.sql (faultless : Faultless answers) (stmt : Stmt) :
    Runs host answers (Op.sql stmt).perform world (stmt.exec host world).1
      (stmt.exec host world).2 := by
  have runs := Op.runs host answers (.sql stmt) world
  simp only [Op.answer, faultless (.sql stmt)] at runs
  exact runs

theorem Faultless.transaction (faultless : Faultless answers) (block : Transaction) :
    Runs host answers block.perform world (block.exec host world).1 (block.exec host world).2 := by
  have runs := Op.runs host answers (.transaction block) world
  simp only [Op.answer, faultless (.transaction block)] at runs
  exact runs

/-- A method of the store, called statement by statement, does what it does alone. -/
theorem Faultless.proc (faultless : Faultless answers) (sql : Sql α) {outcome : Except Exc α}
    (ran : sql.run host world = (outcome, world')) :
    Runs host answers sql.proc world outcome world' := by
  induction sql generalizing world with
  | done value =>
      obtain ⟨rfl, rfl⟩ := Prod.mk.inj ran
      exact .done value
  | raise exc =>
      obtain ⟨rfl, rfl⟩ := Prod.mk.inj ran
      exact .raise exc
  | call stmt next ih =>
      rw [Sql.run_call] at ran
      have rest := ih _ ran
      rw [Sql.proc_call]
      have first := @Faultless.sql host answers world faultless stmt
      unfold Runs RunsTo at rest ⊢
      simp only [Program.execute, kernelMachine, Op.answer, faultless (.sql stmt)]
      exact rest

/-! ### The methods a worker calls -/

/-- A claim leases the event that is first in line. -/
theorem claimEvent_runs (faultless : Faultless answers) {workerId : String}
    {now leaseSeconds : Time} {row : EventRow} {payload : PyVal}
    (found : firstBy host.tieBreak EventRow.before
      (world.db.events.rows.filter (EventRow.claimable now)) = some row)
    (read : loads row.payloadJson = .ok payload) :
    Runs host answers (claimEvent workerId now leaseSeconds) world
      (.ok (some ⟨row.id, row.kind, payload, row.priority, row.attempts + 1⟩))
      (leased world workerId now leaseSeconds row) := by
  have body : (claimEventBody workerId now leaseSeconds).run host world =
      (.ok (some ⟨row, row.attempts + 1, now + leaseSeconds⟩),
        leased world workerId now leaseSeconds row) := by
    simp only [claimEventBody, Stmt.perform, Program.perform, Program.bind_eq_bind,
      Program.call_bind, Sql.run_call, Stmt.exec, Program.ofExcept_ok, Program.done_bind, found,
      appendJournal, Program.pure_eq_done, Sql.run_done]
    rfl
  have ran := @Faultless.transaction host answers world faultless
    (.claimEvent workerId now leaseSeconds)
  rw [Transaction.exec, Transaction.body, body] at ran
  refine .bind ran ?_
  simp only [read, Program.ofExcept_ok]
  exact .done _

theorem getRun_runs (faultless : Faultless answers) {runId : String} {row : RunRow}
    (stored : world.db.run runId = some row) :
    Runs host answers (getRun host runId).proc world (.ok row) world := by
  apply faultless.proc
  simp [getRun, Stmt.perform, Program.perform, Stmt.exec, stored]

theorem updateRun_runs (faultless : Faultless answers) (runId : String) {change : RunChange}
    (issued : change.Issued) :
    Runs host answers (updateRun runId change).proc world (.ok ())
      (Stmt.exec host (.updateRun runId change) world).2 := by
  apply faultless.proc
  cases issued <;> rfl

theorem EventRow.acked_key (now : Time) (row : EventRow) :
    UniqueKeys.key (row.acked now) = UniqueKeys.key row := rfl

/-- The world in which a worker has acknowledged an event. -/
def acknowledged (world : World) (eventId workerId : String) (now : Time) : World :=
  let world' := updateEvents world (EventRow.heldBy eventId workerId) (EventRow.acked now)
    (EventRow.acked_key now)
  { world' with
    db := { world'.db with
      journal := world'.db.journal ++
        [⟨.eventAcked, some eventId, [("worker_id", .text workerId)], now⟩] } }

/-- The holder of a lease acknowledges its event. -/
theorem ack_runs (faultless : Faultless answers) {engine : Engine} {event : Event} {now : Time}
    {row : EventRow} (stored : row ∈ world.db.events.rows) (named : row.id = event.id)
    (claimed : row.status = .claimed) (owner : row.leaseOwner = some engine.workerId) :
    Runs host answers (engine.ack event now) world (.ok ())
      (acknowledged world event.id engine.workerId now) := by
  apply faultless.proc
  rw [run_ackEvent, if_pos ((count_heldBy _ _ _).2 ⟨row, stored, named, claimed, owner⟩)]
  rfl

end PreActive.Kernel
