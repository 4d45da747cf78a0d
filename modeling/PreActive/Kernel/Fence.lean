/-
Module: PreActive.Kernel.Fence
Purpose: The decision fence: one durable decision for each step of a run, which every worker obeys.
Trusted boundary: human-reviewed spec
Main exports: ActsFor, Dispatches, DecisionFence, decision_fence
-/
import PreActive.Kernel.Knowledge

namespace PreActive.Kernel

open PreActive.Foundation PreActive.Python

/-- A worker with this history acts for a step: the event it leased names the run and the step,
and it read the run as `RUNNING` at that step. -/
def ActsFor (host : Host) (engine : Engine) (log : History) (runId : String) (step : Nat) : Prop :=
  ∃ claim event run, Stepping host engine log claim event runId run ∧ run.stepCount = step

/-- A process is about to enter `execute` with a call or has done so. -/
def Executes (process : Process kernel Exc Call) (call : ToolCall)
    (allowedCapabilities : List String) : Prop :=
  process.nextOp = some (.enterExecute call allowedCapabilities) ∨
    Saw process.log (.enterExecute call allowedCapabilities) ()

/-- A process is about to invoke a handler or has done so. -/
def Dispatches (process : Process kernel Exc Call) (handled : HandlerCall) : Prop :=
  process.nextOp = some (.handler handled) ∨
    ∃ output, (⟨.handler handled, output⟩ : Entry kernel Exc) ∈ process.log

/-- The stored decision of a step is the tool call. -/
def DecidedCall (host : Host) (db : Db) (runId : String) (step : Nat) (call : ToolCall) : Prop :=
  ∃ row, db.decision runId step = some row ∧
    decodeDecision host row.decisionJson = .ok (.toolCall call)

variable {host : Host} {engine : Engine} {config : KernelConfig}
variable {process : Process kernel Exc Call} {now : Time} {log : History}

/-- A worker acts for one step only. -/
theorem ActsFor.unique {runId runId' : String} {step step' : Nat}
    (lawful : System.Reachable.Lawful (WorkerRule host engine) log)
    (acts : ActsFor host engine log runId step) (acts' : ActsFor host engine log runId' step') :
    runId = runId' ∧ step = step' := by
  obtain ⟨claim, event, run, stepping, rfl⟩ := acts
  obtain ⟨claim', event', run', stepping', rfl⟩ := acts'
  obtain ⟨rfl, rfl⟩ := selects_once lawful stepping.selected stepping'.selected
  exact ⟨rfl, rfl⟩

/-- The call a worker decided on is the stored decision of its step. -/
theorem EntersDecided.stored {call : ToolCall} {allowed : List String} {world : World}
    (learned : System.Reachable.Learned (fun _ entry world => Known entry world) world log)
    (enters : EntersDecided host engine log call allowed) :
    ∃ runId step, ActsFor host engine log runId step ∧
      DecidedCall host world.db runId step call := by
  obtain ⟨claim, event, runId, run, stepping, ⟨decisionJson, seen, decoded⟩, _⟩ := enters
  obtain ⟨row, stored, rfl⟩ := seen.stored learned
  exact ⟨runId, run.stepCount, ⟨claim, event, run, stepping, rfl⟩, row, stored, decoded⟩

theorem EntersDecided.later {call : ToolCall} {allowed : List String} {log' : History}
    (enters : EntersDecided host engine log call allowed) (longer : log <:+ log') :
    EntersDecided host engine log' call allowed := by
  obtain ⟨claim, event, runId, run, stepping, decided, same⟩ := enters
  exact ⟨claim, event, runId, run, stepping.later longer, decided.later longer, same⟩

/-- A handler is only invoked with the arguments and the request id of the call that was entered,
and is the handler of the tool of that name. -/
structure HandlerCall.Carries (handled : HandlerCall) (call : ToolCall) : Prop where
  name : handled.spec.name = call.name
  arguments : handled.arguments = call.arguments
  requestId : handled.requestId = call.requestId

section Worker

variable {steps : KernelConfig → Label Answer Call → Prop}
variable (reached : (system host).Reachable steps KernelConfig.initial config)
variable (member : process ∈ config.procs) (worker : process.call = .runOnce engine now)
include reached member worker

theorem worker_lawful : System.Reachable.Lawful (WorkerRule host engine) process.log := by
  have lawful := reachable_lawful reached process member
  rw [worker] at lawful
  exact lawful

theorem worker_rule {op : Op} (next : process.nextOp = some op) :
    WorkerRule host engine process.log op := by
  have rule := next_rule reached member next
  rw [worker] at rule
  exact rule

/-- Whatever a worker executes is the stored decision of the step it acts for. -/
theorem executes_decided {call : ToolCall} {allowed : List String}
    (executes : Executes process call allowed) :
    ∃ runId step, ActsFor host engine process.log runId step ∧
      DecidedCall host config.world.db runId step call := by
  have learned := reachable_known reached process member
  have enters : EntersDecided host engine process.log call allowed := by
    rcases executes with next | saw
    · exact worker_rule reached member worker next
    · obtain ⟨older, longer, enters⟩ := (worker_lawful reached member worker).of_mem saw
      exact EntersDecided.later enters ((List.suffix_cons _ _).trans longer)
  exact enters.stored learned

/-- Whatever handler a worker invokes, it entered `execute` with the call before. -/
theorem dispatches_entered {handled : HandlerCall} (dispatches : Dispatches process handled) :
    ∃ call allowed, Executes process call allowed ∧ handled.Carries call := by
  have tool : ∃ older, older <:+ process.log ∧
      ToolRule host engine.tools (EntersDecided host engine) older (.handler handled) := by
    rcases dispatches with next | ⟨output, saw⟩
    · exact ⟨process.log, List.suffix_refl _, worker_rule reached member worker next⟩
    · obtain ⟨older, longer, rule⟩ := (worker_lawful reached member worker).of_mem saw
      exact ⟨older, (List.suffix_cons _ _).trans longer, rule⟩
  obtain ⟨older, longer, call, allowed, spec, entered, granted, rfl, _⟩ := tool
  exact ⟨call, allowed, .inr (entered.later longer), granted.name, rfl, rfl⟩

end Worker

/-- The fence around the decisions of a store. -/
structure DecisionFence (host : Host) (config : KernelConfig) : Prop where
  unique : ∀ row ∈ config.world.db.decisions.rows, ∀ row' ∈ config.world.db.decisions.rows,
    row.runId = row'.runId → row.step = row'.step → row = row'
  durable : ∀ config', (system host).Reachable (fun _ _ => True) config config' →
    ∀ row ∈ config.world.db.decisions.rows, row ∈ config'.world.db.decisions.rows
  executed : ∀ process ∈ config.procs, ∀ engine now, process.call = .runOnce engine now →
    ∀ call allowed, Executes process call allowed →
      ∃ runId step, (∀ runId' step', ActsFor host engine process.log runId' step' ↔
          runId' = runId ∧ step' = step) ∧
        DecidedCall host config.world.db runId step call
  dispatched : ∀ process ∈ config.procs, ∀ engine now, process.call = .runOnce engine now →
    ∀ handled, Dispatches process handled →
      ∃ call allowed, Executes process call allowed ∧ handled.Carries call

/-- In every reachable state there is at most one decision for a step, it never changes, and a
worker enters `execute` and invokes handlers only for the decision stored for its step. -/
theorem decision_fence (host : Host) (config : KernelConfig)
    (reached : (system host).Reachable (fun _ _ => True) KernelConfig.initial config) :
    DecisionFence host config where
  unique := by
    intro row stored row' stored' sameRun sameStep
    apply Table.eq_of_clash stored stored'
    · simp [UniqueKeys.clash, UniqueKeys.key, sameRun, sameStep]
    · simp [UniqueKeys.clash, UniqueKeys.key, sameRun, sameStep]
  durable := by
    intro config' later row stored
    refine later.invariant (I := fun config' => row ∈ config'.world.db.decisions.rows) stored ?_
    intro middle label next _ held _ stepped
    cases Steps.of_step stepped with
    | spawn call => exact held
    | die found => exact held
    | @act pid answer call op continuation log found =>
        have kept := decision_kept host answer op (Db.decision_eq_some.2 ⟨held, rfl, rfl⟩)
        exact (Db.decision_eq_some.1 kept).1
  executed := by
    intro process member engine now worker call allowed executes
    obtain ⟨runId, step, acts, decided⟩ := executes_decided reached member worker executes
    refine ⟨runId, step, fun runId' step' => ⟨fun acts' => ?_, ?_⟩, decided⟩
    · exact acts'.unique (worker_lawful reached member worker) acts
    · rintro ⟨rfl, rfl⟩
      exact acts
  dispatched := by
    intro process member engine now worker handled dispatches
    exact dispatches_entered reached member worker dispatches

/-! ### Two models with different answers -/

/-- The process is about to enter `execute` under the request id. -/
def entersUnder (requestId : String) (process : Process kernel Exc Call) : Bool :=
  match process.nextOp with
  | some (.enterExecute call _) => call.requestId == requestId
  | _ => false

/-- Two workers find no decision, ask the model and get calls with different request ids; the
first to store its decision goes on to execute it. -/
def racingDecisions : List (Label Answer Call) :=
  let answer (requestId : String) : Answer := .ofResponse (.toolCall (payCall requestId))
  [.spawn (.submitTask "task" ["money"] 0 none), .act 0 .quiet,
    .spawn (.runOnce (payEngine "a") 0), .act 1 .quiet, .act 1 .quiet, .act 1 .quiet,
    .act 1 .quiet,
    .spawn (.runOnce (payEngine "b") 20), .act 2 .quiet, .act 2 .quiet, .act 2 .quiet,
    .act 2 .quiet, .act 1 (answer "q1"), .act 2 (answer "q2"), .act 1 .quiet, .act 2 .quiet,
    .act 2 .quiet, .act 1 .quiet]

set_option maxRecDepth 10000 in
/-- The fence in a state in which a worker is about to execute one of two competing decisions. -/
theorem decision_fence_race :
    ∃ config, (system plainHost).Reachable (fun _ _ => True) KernelConfig.initial config ∧
      config.procs.any (entersUnder "q1") = true ∧ DecisionFence plainHost config := by
  have ran : ((system plainHost).run (fun _ _ => true) KernelConfig.initial racingDecisions).any
      (fun config => config.procs.any (entersUnder "q1")) = true := by decide +kernel
  obtain ⟨config, reached, enters⟩ := System.Reachable.exists_of_run racingDecisions ran
  have anyRun : (system plainHost).Reachable (fun _ _ => True) KernelConfig.initial config :=
    reached.mono fun _ _ _ => trivial
  exact ⟨config, anyRun, enters, decision_fence plainHost config anyRun⟩

end PreActive.Kernel
