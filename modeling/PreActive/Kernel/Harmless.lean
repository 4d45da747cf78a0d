/-
Module: PreActive.Kernel.Harmless
Purpose: What never happens without mutations, and what a command line never does.
Trusted boundary: human-reviewed spec
Main exports:
  Call.ToolsAre, NothingInDoubt, harmless_hosts, NoToolRuns, OnlyCommands,
  command_lines_run_no_tool
-/
import PreActive.Kernel.Attention
import PreActive.Kernel.Hosting
import PreActive.Kernel.ReadRetry

namespace PreActive.Kernel

open PreActive.Foundation PreActive.Python

variable {host : Host} {P : ToolSpec → Prop}

/-! ### The tools of a call -/

/-- The tools that the call can execute are all of a kind. -/
def Call.ToolsAre (host : Host) (P : ToolSpec → Prop) (call : Call) : Prop :=
  ∀ registry enter, call.entering host = some (registry, enter) → ∀ spec ∈ registry.tools, P spec

theorem Granted.member {registry : ToolRegistry} {call : ToolCall} {allowed : List String}
    {spec : ToolSpec} (granted : Granted host registry call allowed spec) : spec ∈ registry.tools :=
  List.mem_of_find?_eq_some granted.found

theorem ExecuteReturns.member {registry : ToolRegistry} {call : ToolCall} {allowed : List String}
    {log : History} {result : ToolExecution}
    (returned : ExecuteReturns host registry call allowed log result) :
    ∃ spec, spec ∈ registry.tools := by
  obtain ⟨spec, granted, _⟩ := returned.gate
  exact ⟨spec, granted.member⟩

/-! ### Stores without mutations -/

section Reached

variable {steps : KernelConfig → Label Answer Call → Prop} {config : KernelConfig}
variable (tools : ∀ config call, steps config (.spawn call) → call.ToolsAre host P)
variable (reached : (system host).Reachable steps KernelConfig.initial config)
include tools reached

/-- Whatever a process executes is a tool of the kind. -/
theorem tool_is {process : Process kernel Exc Call} (member : process ∈ config.procs)
    {registry : ToolRegistry} {enter : History → ToolCall → List String → Prop}
    (entering : process.call.entering host = some (registry, enter)) {spec : ToolSpec}
    (isTool : spec ∈ registry.tools) : P spec :=
  reached.calls (P := fun call => call.ToolsAre host P) (fun config call admitted =>
    tools config call admitted) rfl process member registry enter entering spec isTool

theorem calls_are : ∀ run ∈ config.world.calls, P run.call.spec := by
  refine reached.invariant (I := fun config => ∀ run ∈ config.world.calls, P run.call.spec)
    (fun run member => absurd member List.not_mem_nil) ?_
  intro config label config' before held _ stepped
  cases Steps.of_step stepped with
  | spawn call => exact held
  | die found => exact held
  | @act pid answer call op next log found =>
      have member := List.mem_of_getElem? found
      have rule := (reachable_rule before _ member).head
      intro run inCalls
      rcases calls_change host config.world answer op with same | ⟨handled, rfl, same⟩
      · exact held run (same ▸ inCalls)
      · rw [same] at inCalls
        rcases List.mem_append.1 inCalls with old | fresh
        · exact held run old
        · obtain rfl := List.mem_singleton.1 fresh
          obtain ⟨registry, enter, entering, called, allowed, spec, _, granted, rfl, _⟩ :=
            rule.tool rfl
          exact tool_is tools before member entering granted.member

variable (harmless : ∀ spec, P spec → spec.mutation = false)
include harmless

/-- Without mutations the ledger stays empty. -/
theorem no_effect : ∀ requestId, config.world.db.effect requestId = none := by
  refine reached.invariant (I := fun config => ∀ requestId,
    config.world.db.effect requestId = none) (fun _ => rfl) ?_
  intro config label config' before held _ stepped requestId
  cases Steps.of_step stepped with
  | spawn call => exact held requestId
  | die found => exact held requestId
  | @act pid answer call op next log found =>
      have member := List.mem_of_getElem? found
      have rule := (reachable_rule before _ member).head
      have change := ledgerChange host config.world answer rule.issued requestId
      change (op.answer host answer config.world).2.db.effect requestId = none
      rw [held requestId] at change
      generalize (op.answer host answer config.world).2.db.effect requestId = after at change
      cases change with
      | keep => rfl
      | enter named =>
          obtain ⟨registry, enter, entering, called, allowed, spec, _, _, granted, mutation, _⟩ :=
            rule.tool rfl
          have reads := harmless spec (tool_is tools before member entering granted.member)
          rw [reads] at mutation
          cases mutation

/-- Then no run is ever blocked. -/
theorem none_blocked : ∀ runId run, config.world.db.run runId = some run →
    run.status ≠ .blockedEffect := by
  refine reached.invariant (I := fun config => ∀ runId run,
    config.world.db.run runId = some run → run.status ≠ .blockedEffect)
    (fun _ _ stored => by cases stored) ?_
  intro config label config' before held _ stepped runId run stored
  cases Steps.of_step stepped with
  | spawn call => exact held runId run stored
  | die found => exact held runId run stored
  | @act pid answer call op next log found =>
      have member := List.mem_of_getElem? found
      have rule := (reachable_rule before _ member).head
      have change := Kernel.runStep host config.world answer rule.issued runId
      change (op.answer host answer config.world).2.db.run runId = some run at stored
      rw [stored] at change
      generalize earlier : config.world.db.run runId = old at change
      cases change with
      | keep => exact held runId run earlier
      | create => exact fun isBlocked => by cases isBlocked
      | @update row change issued =>
          have kept := held runId row earlier
          cases issued with
          | complete now text => exact fun isBlocked => by cases isBlocked
          | fail now error => exact fun isBlocked => by cases isBlocked
          | note now error => exact kept
      | @block row requestId error now running =>
          cases call with
          | runOnce engine started =>
              obtain ⟨_, _, _, decided, _, _, ⟨effect, saw⟩, _⟩ := rule
              obtain ⟨effect', present, _⟩ := Saw.effect (reachable_known before _ member) saw
              rw [no_effect tools before harmless] at present
              cases present
          | _ => exact rule.elim
      | advance running => exact fun isBlocked => by cases running.symm.trans isBlocked
      | resume blocked => exact fun isBlocked => by cases isBlocked

end Reached

/-- Nothing is in doubt: the ledger is empty, no run waits for an effect, and only tools that mutate
nothing were run. -/
structure NothingInDoubt (world : World) : Prop where
  ledger : world.db.effects.rows = []
  runs : ∀ run ∈ world.db.runs.rows, run.status ≠ .blockedEffect
  reads : ∀ run ∈ world.calls, run.call.spec.mutation = false

theorem NothingInDoubt.of_tools {steps : KernelConfig → Label Answer Call → Prop}
    {config : KernelConfig}
    (tools : ∀ config call, steps config (.spawn call) → call.ToolsAre host P)
    (reached : (system host).Reachable steps KernelConfig.initial config)
    (harmless : ∀ spec, P spec → spec.mutation = false) : NothingInDoubt config.world where
  ledger := by
    apply List.eq_nil_iff_forall_not_mem.2
    intro effect stored
    have none := no_effect tools reached harmless effect.requestId
    exact Db.effect_eq_none.1 none effect stored rfl
  runs := fun run stored =>
    none_blocked tools reached harmless run.id run (Db.run_eq_some.2 ⟨stored, rfl⟩)
  reads := fun run member => harmless _ (calls_are tools reached run member)

/-- Where every process has only tools that mutate nothing, nothing is ever in doubt, whatever
daemons, command lines and hosts do on one database and wherever they die. -/
theorem harmless_hosts (host : Host) (allowed : DaemonConfig → Label Answer DaemonCall → Prop)
    (harmless : ∀ config daemon, allowed config (.spawn daemon) → ∀ call, daemon.Makes call →
      call.ToolsAre host fun spec => spec.mutation = false)
    (config : DaemonConfig)
    (reached : (daemons host).Reachable allowed DaemonConfig.initial config) :
    NothingInDoubt config.world.world := by
  obtain ⟨base, place, moves, served⟩ := (served_initial host allowed).run reached
  rw [← served.world]
  refine .of_tools (P := fun spec => spec.mutation = false) ?_ moves fun _ reads => reads
  rintro _ call ⟨config, daemon, admitted, makes⟩
  exact harmless config daemon admitted call makes

/-! ### Command lines -/

/-- The calls that command lines make have no tools. -/
theorem main_toolless {command : Command} {now : Time} {clock : List Time} {call : Call}
    (makes : (DaemonCall.main command now clock).Makes call) : call.ToolsAre host fun _ => False := by
  intro registry enter entering spec member
  have empty : registry.tools = [] := by
    cases makes with
    | work works =>
        have built : ∀ {args engine}, runtime args = .ok engine → engine.tools = .empty := by
          intro args engine built
          unfold runtime at built
          dsimp only at built
          split at built
          · cases built
          · split at built
            · cases built
            · cases built
              rfl
        have none : ∀ {engine : Engine} {started : Time}, engine.tools = .empty →
            (Call.runOnce engine started).entering host = some (registry, enter) →
              registry.tools = [] := by
          rintro engine started noTools same
          obtain ⟨rfl, _⟩ := Prod.mk.inj (Option.some.inj same)
          rw [noTools]
          rfl
        cases command with
        | runOnce args => exact none (built works.1) entering
        | daemon args pollSeconds => exact none (built works.1) entering
        | _ => exact works.elim
    | _ => cases entering
  rw [empty] at member
  cases member

section Toolless

variable {steps : KernelConfig → Label Answer Call → Prop} {config : KernelConfig}
variable (tools : ∀ config call, steps config (.spawn call) → call.ToolsAre host fun _ => False)
variable (reached : (system host).Reachable steps KernelConfig.initial config)
include tools reached

/-- Without tools a running run is at its first step. -/
theorem running_first : ∀ runId run, config.world.db.run runId = some run →
    run.status = .running → run.stepCount = 0 := by
  refine reached.invariant (I := fun config => ∀ runId run,
    config.world.db.run runId = some run → run.status = .running → run.stepCount = 0)
    (fun _ _ stored => by cases stored) ?_
  intro config label config' before held _ stepped runId run stored
  cases Steps.of_step stepped with
  | spawn call => exact held runId run stored
  | die found => exact held runId run stored
  | @act pid answer call op next log found =>
      have member := List.mem_of_getElem? found
      have rule := (reachable_rule before _ member).head
      have change := Kernel.runStep host config.world answer rule.issued runId
      change (op.answer host answer config.world).2.db.run runId = some run at stored
      rw [stored] at change
      generalize earlier : config.world.db.run runId = old at change
      cases change with
      | keep => exact held runId run earlier
      | create => exact fun _ => rfl
      | @update row change issued =>
          have kept := held runId row earlier
          cases issued with
          | complete now text => exact fun running => by cases running
          | fail now error => exact fun running => by cases running
          | note now error => exact kept
      | block running => exact fun running => by cases running
      | advance running =>
          cases call with
          | runOnce engine started =>
              have uses : (Call.runOnce engine started).Uses host engine.tools := by
                simp [Call.Uses, Call.entering]
              have minds := (before.obeys (program_minds host) rfl _ member).head rfl _ uses
              obtain ⟨_, called, allowed, spec, _, isSpec, _⟩ := minds
              exact (tool_is tools before member rfl (List.mem_of_find?_eq_some isSpec)).elim
          | _ => exact rule.elim
      | @resume row _ _ blocked =>
          exact absurd blocked (none_blocked tools before (fun _ => False.elim) runId row earlier)

/-- Without tools no transcript has a line of a tool. -/
theorem assistant_messages : ∀ row ∈ config.world.db.messages.rows, row.role = .assistant := by
  refine reached.invariant (I := fun config =>
    ∀ row ∈ config.world.db.messages.rows, row.role = .assistant)
    (fun _ member => absurd member List.not_mem_nil) ?_
  intro config label config' before held _ stepped
  cases Steps.of_step stepped with
  | spawn call => exact held
  | die found => exact held
  | @act pid answer call op next log found =>
      have member := List.mem_of_getElem? found
      have rule := (reachable_rule before _ member).head
      intro row stored
      rcases messages_change host config.world answer op with same | ⟨fresh, rfl, inserted⟩
      · exact held row (same ▸ stored)
      · change row ∈ ((Op.sql (.insertMessage fresh)).answer host answer
          config.world).2.db.messages.rows at stored
        rw [Table.rows_insert inserted, List.mem_append, List.mem_singleton] at stored
        rcases stored with old | rfl
        · exact held row old
        · cases call with
          | runOnce engine started =>
              obtain ⟨_, _, _, _, line | line | line⟩ := rule
              · obtain ⟨_, _, assistant, _⟩ := line
                exact assistant
              · obtain ⟨_, _, assistant, _⟩ := line
                exact assistant
              · obtain ⟨_, _, _, _, returned, _⟩ := line
                obtain ⟨spec, isSpec⟩ := returned.member
                exact (tool_is tools before member rfl isSpec).elim
          | resumeBlockedEffect registry runId started =>
              obtain ⟨_, _, _, _, _, returned, _⟩ := rule
              rcases returned with ⟨effect, saw, _⟩ | ⟨_, _, returned⟩
              · obtain ⟨effect', present, _⟩ := Saw.effect (reachable_known before _ member) saw
                rw [no_effect tools before fun _ => False.elim] at present
                cases present
              · obtain ⟨spec, isSpec⟩ := returned.member
                exact (tool_is tools before member rfl isSpec).elim
          | _ => exact rule.elim

end Toolless

/-- No tool was run: nothing is in doubt, no handler was invoked, no transcript has a line of a tool,
and no running run is past its first step. -/
structure NoToolRuns (world : World) : Prop extends NothingInDoubt world where
  calls : world.calls = []
  transcripts : ∀ row ∈ world.db.messages.rows, row.role = .assistant
  steps : ∀ run ∈ world.db.runs.rows, run.status = .running → run.stepCount = 0

/-- The process is a command line. -/
def OnlyCommands (_ : DaemonConfig) : Label Answer DaemonCall → Prop
  | .spawn (.main ..) => True
  | .spawn _ => False
  | _ => True

/-- Whatever commands are given on one database, by any number of command lines that may die
anywhere, no tool is ever run. -/
theorem command_lines_run_no_tool (host : Host) (config : DaemonConfig)
    (reached : (daemons host).Reachable OnlyCommands DaemonConfig.initial config) :
    NoToolRuns config.world.world := by
  obtain ⟨base, place, moves, served⟩ := (served_initial host OnlyCommands).run reached
  have tools : ∀ config call, ServedBy OnlyCommands config (.spawn call) →
      call.ToolsAre host fun _ => False := by
    rintro _ call ⟨config, daemon, admitted, makes⟩
    cases daemon with
    | main command now clock => exact main_toolless makes
    | _ => exact admitted.elim
  rw [← served.world]
  have nothing := NothingInDoubt.of_tools tools moves fun _ => False.elim
  refine ⟨nothing, ?_, assistant_messages tools moves, ?_⟩
  · exact List.eq_nil_iff_forall_not_mem.2 (calls_are tools moves)
  · exact fun run stored =>
      running_first tools moves run.id run (Db.run_eq_some.2 ⟨stored, rfl⟩)

/-! ### A clock that a daemon reads, and a payment that no command line makes -/

/-- The tools of whatever the step starts mutate nothing. -/
def OnlyReads (host : Host) : Label Answer DaemonCall → Prop
  | .spawn daemon => ∀ call, daemon.Makes call → call.ToolsAre host fun spec => spec.mutation = false
  | _ => True

theorem onlyReads_clock (now : Time) :
    OnlyReads host (.spawn (.cycle (clockEngine "a") now)) := by
  intro call makes registry enter entering spec member
  cases makes with
  | work works =>
      obtain ⟨rfl, rfl⟩ := works
      obtain ⟨rfl, _⟩ := Prod.mk.inj (Option.some.inj entering)
      obtain rfl := List.mem_singleton.1 member
      rfl
  | _ => cases entering

/-- The model asks for the clock, which shows `1`. -/
def clockAsked : Answer where
  fault := none
  response := .ok (.toolCall clockCall)
  output := .ok (clockShows 1).value

/-- A command line submits a task, and a daemon reads the clock for it. -/
def clockCycle : List (Label Answer DaemonCall) :=
  [.spawn (.main (.submit "task" ["time"]) 0 []), .act 0 .quiet,
    .spawn (.cycle (clockEngine "a") 5)] ++ List.replicate 14 (.act 1 clockAsked)

set_option maxRecDepth 10000 in
/-- A daemon that reads the clock leaves nothing in doubt. -/
theorem harmless_hosts_clock :
    ∃ config, (daemons plainHost).Reachable (fun _ label => OnlyReads plainHost label)
        DaemonConfig.initial config ∧
      config.world.world.calls.length = 1 ∧ NothingInDoubt config.world.world := by
  have reads : ∀ label ∈ clockCycle, OnlyReads plainHost label := by
    intro label member
    simp only [clockCycle, List.cons_append, List.mem_cons, List.nil_append,
      List.mem_replicate] at member
    rcases member with rfl | rfl | rfl | ⟨_, rfl⟩
    · exact fun call makes registry enter entering spec member =>
        (main_toolless makes registry enter entering spec member).elim
    · trivial
    · exact onlyReads_clock 5
    · trivial
  have ran : ((daemons plainHost).run (fun _ _ => true) DaemonConfig.initial clockCycle).any
      (fun config => decide (config.world.world.calls.length = 1)) = true := by
    decide +kernel
  obtain ⟨config, reached, called⟩ := System.Reachable.exists_of_run_each _ reads ran
  have onlyReads : (daemons plainHost).Reachable (fun _ label => OnlyReads plainHost label)
      DaemonConfig.initial config :=
    reached.mono fun _ _ both => both.1
  exact ⟨config, onlyReads, of_decide_eq_true called,
    harmless_hosts plainHost _ (fun _ _ admitted => admitted) config onlyReads⟩

/-- A command line that has a model. -/
def plainArgs : RuntimeArgs where
  baseUrl := some "http://localhost"
  model := none
  environBaseUrl := none
  environModel := some "qwen"
  contextChars := 1000
  systemPrompt := ""
  workerId := "a"
  leaseSeconds := 10
  maxSteps := 8

/-- A command line submits a task, and another one asks the model, which wants a payment. -/
def paymentWanted : List (Label Answer DaemonCall) :=
  [.spawn (.main (.submit "pay the rent" ["money"]) 0 []), .act 0 .quiet,
    .spawn (.main (.runOnce plainArgs) 5 [])] ++
    List.replicate 14 (.act 1 (.ofResponse (.toolCall (payCall "q"))))

set_option maxRecDepth 10000 in
/-- The run fails before anything is paid. -/
theorem command_lines_run_no_tool_payment :
    ∃ config, (daemons plainHost).Reachable OnlyCommands DaemonConfig.initial config ∧
      config.world.world.db.runs.rows.map RunRow.lastError = [some "ToolError: unknown tool: pay"] ∧
      NoToolRuns config.world.world := by
  have ran : ((daemons plainHost).run (fun _ _ => true) DaemonConfig.initial paymentWanted).any
      (fun config => decide (config.world.world.db.runs.rows.map RunRow.lastError =
        [some "ToolError: unknown tool: pay"])) = true := by
    decide +kernel
  have commands : ∀ label ∈ paymentWanted, OnlyCommands DaemonConfig.initial label := by
    intro label member
    simp only [paymentWanted, List.cons_append, List.mem_cons, List.nil_append,
      List.mem_replicate] at member
    rcases member with rfl | rfl | rfl | ⟨_, rfl⟩ <;> trivial
  obtain ⟨config, reached, failed⟩ := System.Reachable.exists_of_run_each _ commands ran
  have byCommands : (daemons plainHost).Reachable OnlyCommands DaemonConfig.initial config :=
    reached.mono fun _ _ both => both.1
  exact ⟨config, byCommands, of_decide_eq_true failed,
    command_lines_run_no_tool plainHost config byCommands⟩

end PreActive.Kernel
