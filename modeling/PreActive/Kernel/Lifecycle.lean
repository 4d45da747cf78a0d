/-
Module: PreActive.Kernel.Lifecycle
Purpose: The documented states of a run, and the runs of the system that keep to them.
Trusted boundary: human-reviewed spec
Main exports: RunMachine, updatesOpen, KeepsLifecycle, runs_keep_lifecycle
-/
import PreActive.Kernel.Paths

namespace PreActive.Kernel

open PreActive.Foundation PreActive.Python

/-- The documented transitions of a run. -/
inductive RunMachine : RunStatus → RunStatus → Prop where
  | complete : RunMachine .running .completed
  | fail : RunMachine .running .failed
  | block : RunMachine .running .blockedEffect
  | resume : RunMachine .blockedEffect .running

def RunStatus.isTerminal (status : RunStatus) : Bool := status == .completed || status == .failed

/-- `update_run` finds the run `RUNNING`, or only records an error on a blocked run. -/
def RunChange.isOpen (change : RunChange) (row : RunRow) : Bool :=
  row.status == .running || (change.status.isNone && row.status == .blockedEffect)

/-- The step is no `update_run`, or one on a run that is still open to it. -/
def updatesOpen (config : KernelConfig) (label : Label Answer Call) : Bool :=
  match config.performing label with
  | some (.sql (.updateRun runId change), answer) =>
      answer.fault.isSome || (config.world.db.run runId).all change.isOpen
  | _ => true

/-- The steps of a run in which no worker updates a run that was closed or blocked meanwhile. -/
def UpdatesOpen (config : KernelConfig) (label : Label Answer Call) : Prop :=
  updatesOpen config label = true

variable {host : Host} {config config' : KernelConfig} {label : Label Answer Call}

/-! ### One step -/

/-- The row of a run before and after a step that keeps to the documented states. -/
inductive RunChanges : Option RunRow → Option RunRow → Prop where
  | same {row : Option RunRow} : RunChanges row row
  | created {row : RunRow} (running : row.status = .running) : RunChanges none (some row)
  | worked {old new : RunRow} (unfinished : old.status.isTerminal = false)
      (kept : new.status = old.status) : RunChanges (some old) (some new)
  | moved {old new : RunRow} (documented : RunMachine old.status new.status) :
      RunChanges (some old) (some new)

/-- An update that is open to the run moves it along the machine. -/
theorem RunChange.Issued.changes {change : RunChange} {row : RunRow} (issued : change.Issued)
    (isOpen : change.isOpen row = true) : RunChanges (some row) (some (change.apply row)) := by
  cases issued with
  | complete now text =>
      have running : row.status = .running := by simpa [RunChange.isOpen] using isOpen
      apply RunChanges.moved
      rw [running]
      exact .complete
  | fail now error =>
      have running : row.status = .running := by simpa [RunChange.isOpen] using isOpen
      apply RunChanges.moved
      rw [running]
      exact .fail
  | note now error =>
      apply RunChanges.worked
      · have unfinished : row.status = .running ∨ row.status = .blockedEffect := by
          simpa [RunChange.isOpen] using isOpen
        rcases unfinished with running | blocked
        · rw [running]
          rfl
        · rw [blocked]
          rfl
      · rfl

theorem RunStep.changes {runId : String} {op : Op} {before after : Option RunRow}
    (step : RunStep runId op before after)
    (isOpen : ∀ change row, op = .sql (.updateRun runId change) → before = some row →
      change.isOpen row = true) : RunChanges before after := by
  cases step with
  | keep => exact .same
  | create => exact .created rfl
  | update issued => exact issued.changes (isOpen _ _ rfl rfl)
  | @block row requestId error now running =>
      apply RunChanges.moved
      rw [running]
      exact .block
  | @advance row priority now running =>
      apply RunChanges.worked
      · rw [running]
        rfl
      · rfl
  | @resume row now priority blocked =>
      apply RunChanges.moved
      rw [blocked]
      exact .resume

/-- What a step of a run that meets the condition does to the row of a run. -/
theorem run_changes
    (reached : (system host).Reachable UpdatesOpen KernelConfig.initial config)
    (isOpen : UpdatesOpen config label) (stepped : Steps host config label config')
    (runId : String) :
    RunChanges (config.world.db.run runId) (config'.world.db.run runId) := by
  cases stepped with
  | spawn call => exact .same
  | die found => exact .same
  | @act pid answer call op next log found =>
      have rule := (reachable_rule reached _ (List.mem_of_getElem? found)).head
      have step := runStep host config.world answer rule.issued runId
      have performed : config.performing (.act pid answer) = some (op, answer) :=
        KernelConfig.performing_act found
      cases faulty : answer.fault with
      | some fault =>
          change RunChanges _ ((op.answer host answer config.world).2.db.run runId)
          rw [Op.answer_fault faulty]
          exact .same
      | none =>
          apply step.changes
          rintro change row rfl stored
          simpa [UpdatesOpen, updatesOpen, performed, faulty, stored] using isOpen

/-! ### Runs -/

/-- No documented transition starts in a finished state. -/
theorem RunMachine.not_terminal {old new : RunStatus} (documented : RunMachine old new) :
    old.isTerminal = false := by
  cases documented <;> rfl

/-- A finished run is not changed any more. -/
theorem RunChanges.of_terminal {row : RunRow} {after : Option RunRow}
    (changes : RunChanges (some row) after) (terminal : row.status.isTerminal = true) :
    after = some row := by
  cases changes with
  | same => rfl
  | worked unfinished kept =>
      rw [unfinished] at terminal
      cases terminal
  | moved documented =>
      rw [documented.not_terminal] at terminal
      cases terminal

/-- A run keeps to its documented states from here on. -/
structure KeepsLifecycle (host : Host) (config : KernelConfig) (runId : String) : Prop where
  transitions : ∀ label config', UpdatesOpen config label →
    (system host).step config label = some config' →
      RunChanges (config.world.db.run runId) (config'.world.db.run runId)
  terminal : ∀ row config', config.world.db.run runId = some row →
    row.status.isTerminal = true → (system host).Reachable UpdatesOpen config config' →
      config'.world.db.run runId = some row

/-- In every run whose `update_run`s find the run open to them, the status of each run only
changes along the documented machine, and a finished run stays as it is. -/
theorem runs_keep_lifecycle (host : Host) (config : KernelConfig)
    (reached : (system host).Reachable UpdatesOpen KernelConfig.initial config)
    (runId : String) : KeepsLifecycle host config runId where
  transitions := by
    intro label config' isOpen stepped
    exact run_changes reached isOpen (.of_step stepped) runId
  terminal := by
    intro row config' stored terminal later
    refine later.invariant (I := fun config' => config'.world.db.run runId = some row)
      stored ?_
    intro middle label next before held isOpen stepped
    have changes := run_changes (reached.trans before) isOpen (.of_step stepped) runId
    rw [held] at changes
    exact changes.of_terminal terminal

/-! ### A worker that lost its lease -/

/-- A worker loses its lease while it asks the model, and a second one closes the run. -/
def overtaken : List (Label Answer Call) :=
  let done : Answer := .ofResponse (.finalText "done")
  [.spawn (.submitTask "task" [] 0 none), .act 0 .quiet,
    .spawn (.runOnce (payEngine "a") 0), .act 1 .quiet, .act 1 .quiet, .act 1 .quiet,
    .act 1 .quiet,
    .spawn (.runOnce (payEngine "b") 20), .act 2 .quiet, .act 2 .quiet, .act 2 .quiet,
    .act 2 .quiet, .act 2 done, .act 2 .quiet, .act 2 .quiet, .act 2 .quiet]

/-- The first worker gets the same answer from the model and goes on. -/
def lateCompletion : List (Label Answer Call) :=
  [.act 1 (.ofResponse (.finalText "done")), .act 1 .quiet, .act 1 .quiet, .act 1 .quiet,
    .act 1 .quiet, .act 1 .quiet]

set_option maxRecDepth 10000 in
/-- Without the condition a completed run counts another step. -/
theorem completed_updated :
    ∃ config config', (system plainHost).Reachable (fun _ _ => True) KernelConfig.initial config ∧
      (system plainHost).Reachable (fun _ _ => True) config config' ∧
        config.world.db.runStanding "id-0" = some (.completed, 1) ∧
          config'.world.db.runStanding "id-0" = some (.completed, 2) := by
  have ran : ((system plainHost).run (fun _ _ => true) KernelConfig.initial overtaken).any
      (fun config => decide (config.world.db.runStanding "id-0" = some (.completed, 1)) &&
        ((system plainHost).run (fun _ _ => true) config lateCompletion).any fun config' =>
          decide (config'.world.db.runStanding "id-0" = some (.completed, 2))) = true := by
    decide +kernel
  obtain ⟨config, config', reached, later, before, after⟩ :=
    System.Reachable.exists_of_run_then overtaken lateCompletion ran
  refine ⟨config, config', reached.mono fun _ _ _ => trivial, later.mono fun _ _ _ => trivial,
    ?_, ?_⟩
  · simpa using before
  · simpa using after

set_option maxRecDepth 10000 in
/-- A run that meets the condition and closes while another worker still holds the step. -/
theorem runs_keep_lifecycle_overtaken :
    ∃ config, (system plainHost).Reachable UpdatesOpen KernelConfig.initial config ∧
      config.world.db.runStanding "id-0" = some (.completed, 1) ∧
        KeepsLifecycle plainHost config "id-0" := by
  have ran : ((system plainHost).run updatesOpen KernelConfig.initial overtaken).any
      (fun config => decide (config.world.db.runStanding "id-0" = some (.completed, 1))) =
        true := by decide +kernel
  obtain ⟨config, reached, completed⟩ := System.Reachable.exists_of_run overtaken ran
  exact ⟨config, reached, by simpa using completed,
    runs_keep_lifecycle plainHost config reached "id-0"⟩

end PreActive.Kernel
