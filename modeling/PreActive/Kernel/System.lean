/-
Module: PreActive.Kernel.System
Purpose: The calls that hosts, workers and producers make on one database, as a system of
  interleaving processes.
Trusted boundary: human-reviewed spec
Main exports: Call, Call.program, system, KernelConfig, KernelConfig.initial, Steps
-/
import PreActive.Foundation.System
import PreActive.Kernel.Engine

namespace PreActive.Kernel

open PreActive.Foundation PreActive.Python

/-- The public operations that processes start. -/
inductive Call where
  | submitTask (task : String) (capabilities : List String) (now : Time)
      (sourceEventId : Option String)
  | runOnce (engine : Engine) (now : Time)
  | resumeBlockedEffect (registry : ToolRegistry) (runId : String) (now : Time)
  | execute (registry : ToolRegistry) (call : ToolCall) (allowedCapabilities : List String)
      (now : Time)
  | recoverReconciled (registry : ToolRegistry) (requestId : String)
      (allowedCapabilities : List String) (now : Time)
  | reconcile (requestId : String) (effectOccurred : Bool) (evidenceDigest : String) (now : Time)
      (result : Option PyVal)
  | enqueueEvent (request : EventRequest)
  | addMemory (kind content : String) (salience : ℚ) (now : Time)

def Call.resumes : Call → Bool
  | .resumeBlockedEffect .. => true
  | _ => false

/-- A program whose value nobody reads. -/
def discard {α : Type} (program : Proc α) : Proc Unit := program.bind fun _ => .done ()

def Call.program (host : Host) : Call → Proc Unit
  | submitTask task capabilities now sourceEventId =>
      discard (Kernel.submitTask task capabilities now sourceEventId)
  | runOnce engine now => discard (engine.runOnce host now)
  | resumeBlockedEffect registry runId now => Kernel.resumeBlockedEffect host registry runId now
  | execute registry call allowedCapabilities now =>
      discard (registry.execute host call allowedCapabilities now)
  | recoverReconciled registry requestId allowedCapabilities now =>
      discard (registry.recoverReconciled host requestId allowedCapabilities now)
  | reconcile requestId effectOccurred evidenceDigest now result =>
      Kernel.reconcile host requestId effectOccurred evidenceDigest now result
  | enqueueEvent request => discard (Kernel.enqueueEvent request).proc
  | addMemory kind content salience now => discard (Kernel.addMemory kind content salience now).proc

/-- Workers, hosts and producers on one database. -/
def system (host : Host) : System kernel Exc World Answer Call where
  toMachine := kernelMachine host
  program := Call.program host

abbrev KernelConfig := Config kernel Exc World Call

/-- An empty store and nothing started. -/
def KernelConfig.initial : KernelConfig := ⟨.initial, []⟩

/-- The operation that a label lets a process perform, with the answer from outside. -/
def KernelConfig.performing (config : KernelConfig) : Label Answer Call → Option (Op × Answer)
  | .act pid answer =>
      (config.procs[pid]?.bind Process.nextOp).map fun op => (op, answer)
  | _ => none

theorem KernelConfig.performing_act {config : KernelConfig} {pid : Nat} {answer : Answer}
    {call : Call} {op : Op} {next : Except Exc op.Result → Proc Unit} {log : Log kernel Exc}
    (found : config.procs[pid]? = some ⟨call, .call (F := kernel) op next, log, true⟩) :
    config.performing (.act pid answer) = some (op, answer) := by
  rw [performing, found]
  rfl

/-- What one scheduling step does to a configuration. -/
inductive Steps (host : Host) (config : KernelConfig) :
    Label Answer Call → KernelConfig → Prop where
  | spawn (call : Call) :
      Steps host config (.spawn call)
        ⟨config.world, config.procs ++ [⟨call, call.program host, [], true⟩]⟩
  | act {pid : Nat} {answer : Answer} {call : Call} {op : Op}
      {next : Except Exc op.Result → Proc Unit} {log : Log kernel Exc}
      (found : config.procs[pid]? = some ⟨call, .call (F := kernel) op next, log, true⟩) :
      Steps host config (.act pid answer)
        ⟨(op.answer host answer config.world).2,
          config.procs.set pid
            ⟨call, next (op.answer host answer config.world).1,
              ⟨op, (op.answer host answer config.world).1⟩ :: log, true⟩⟩
  | die {pid : Nat} {process : Process kernel Exc Call}
      (found : config.procs[pid]? = some process) :
      Steps host config (.die pid)
        ⟨config.world, config.procs.set pid { process with alive := false }⟩

theorem Steps.of_step {host : Host} {config config' : KernelConfig} {label : Label Answer Call}
    (stepped : (system host).step config label = some config') :
    Steps host config label config' := by
  rcases System.step_cases stepped with
    ⟨call, rfl, rfl⟩ | ⟨pid, answer, call, op, next, log, rfl, found, rfl⟩ |
      ⟨pid, process, rfl, found, rfl⟩
  · exact .spawn call
  · exact .act found
  · exact .die found

/-! ### A concrete host -/

/-- The status and the step of a run. -/
def Db.runStanding (db : Db) (runId : String) : Option (RunStatus × Nat) :=
  (db.run runId).map fun row => (row.status, row.stepCount)

/-- The state of the ledger row of a request. -/
def Db.ledgerState (db : Db) (requestId : String) : Option EffectState :=
  (db.effect requestId).map EffectRow.state

/-- The run is blocked on the request at the step. -/
def Db.isBlockedOn (db : Db) (runId requestId : String) (step : Nat) : Bool :=
  (db.run runId).any fun row =>
    row.status == .blockedEffect && row.blockedRequestId == some requestId && row.stepCount == step

/-- A host for fixed inputs: a digest is the digested text and identifiers are numbered. -/
def plainHost : Host where
  sha256 text := text
  uuid4 index := "id-" ++ toString index
  lower text := text
  reSearch _ _ := false
  repr _ := ""
  tieBreak _ := 0
  room _ := true

/-- The answer to a step that meets no fault, with the outcome of a handler. -/
def Answer.ofOutput (output : Except Exc PyVal) : Answer where
  fault := none
  response := .error (runtimeError "no reply")
  output := output

/-- The answer to a step that meets no fault, with the reply of the model. -/
def Answer.ofResponse (response : ModelResponse) : Answer where
  fault := none
  response := .ok response
  output := .error (runtimeError "no outcome")

/-- The answer to a step that asks nothing of the outside. -/
def Answer.quiet : Answer := .ofOutput (.ok (.dict []))

/-- A mutation without arguments. -/
def payTool : ToolSpec where
  name := "pay"
  description := "Pay once."
  inputSchema := .empty
  capability := "money"
  mutation := true

def payRegistry : ToolRegistry := ⟨[payTool], by decide, by decide⟩

/-- A call of that mutation under a given request id. -/
def payCall (requestId : String) : ToolCall := ⟨requestId, "pay", .empty⟩

/-- A worker with that tool, a lease of ten seconds and no room for memories. -/
def payEngine (workerId : String) : Engine where
  tools := payRegistry
  context := ⟨0, 0⟩
  systemPrompt := ""
  workerId := workerId
  leaseSeconds := 10
  maxSteps := 8

/-- A well-formed evidence digest. -/
def someEvidence : String := String.ofList (List.replicate 64 'a')

/-- A mutation fails in an unknown way and its run is blocked on it. -/
def unresolvedPayment : List (Label Answer Call) :=
  [.spawn (.submitTask "task" ["money"] 0 none), .act 0 .quiet,
    .spawn (.runOnce (payEngine "a") 0), .act 1 .quiet, .act 1 .quiet, .act 1 .quiet,
    .act 1 .quiet, .act 1 (.ofResponse (.toolCall (payCall "q"))), .act 1 .quiet, .act 1 .quiet,
    .act 1 .quiet, .act 1 .quiet, .act 1 .quiet,
    .act 1 (.ofOutput (.error ⟨.other "TimeoutError", "no answer"⟩)), .act 1 .quiet,
    .act 1 .quiet, .act 1 .quiet]

/-- The payment of a blocked run is confirmed, and a host that resumes the run stops right before
the resume itself. -/
def confirmedPayment : List (Label Answer Call) :=
  unresolvedPayment ++
    [.act 1 .quiet, .act 1 .quiet, .act 1 .quiet,
      .spawn (.reconcile "q" true someEvidence 1 (some (.dict []))), .act 2 .quiet, .act 2 .quiet,
      .spawn (.resumeBlockedEffect payRegistry "id-0" 2), .act 3 .quiet, .act 3 .quiet,
      .act 3 .quiet]

end PreActive.Kernel
