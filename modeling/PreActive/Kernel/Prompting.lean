/-
Module: PreActive.Kernel.Prompting
Purpose: What the model is shown for a run, and where stored decisions come from.
Trusted boundary: human-reviewed spec of prompts
Main exports:
  Engine.shownMessages, AsksFor, Grounded, PromptsGrounded, prompts_grounded
-/
import PreActive.Kernel.Knowledge
import PreActive.Kernel.Recency

namespace PreActive.Kernel

open PreActive.Foundation PreActive.Python
open Program.Obeys

variable {host : Host} {engine : Engine} {log : History} {event : Event} {run : RunRow}
variable {runId : String} {now : Time} {call : ToolCall} {registry : ToolRegistry}

/-! ### Prompts -/

/-- What the model is shown for a task, a transcript and memories: the system prompt, as much of the
task with the transcript as the budget allows, and the memories. -/
def Engine.shownMessages (engine : Engine) (task : String) (transcript : List MessageRow)
    (chosen : List MemoryRow) : List Message :=
  requiredMessages engine.systemPrompt
      (shownTask engine.context engine.systemPrompt (Engine.promptTask task transcript)) ++
    if chosen = [] then [] else [memoryMessage chosen]

/-- The messages of a run, in the order in which they were added. -/
def Db.transcript (db : Db) (runId : String) : List MessageRow :=
  db.messages.rows.filter fun row => row.runId == runId

/-- The messages and the tools are what a worker asks the model for a step of a run: nothing but its
system prompt, the task of that run, at most 32 successive lines of that run's own transcript, and
memories; and the tools of its registry that the run may use. -/
structure AsksFor (db : Db) (engine : Engine) (runId : String) (step : Nat)
    (messages : List Message) (tools : List ToolSpec) : Prop where
  ofRun : ∃ run, db.run runId = some run ∧ step ≤ run.stepCount ∧
    tools = engine.tools.specs run.capabilities ∧
      ∃ transcript chosen, transcript <:+: db.transcript runId ∧ transcript.length ≤ 32 ∧
        (∀ memory ∈ chosen, memory ∈ db.memories.rows) ∧
          messages = engine.shownMessages run.task transcript chosen

/-! ### How a prompt is assembled -/

/-- A ranking shows rows that were read. -/
theorem mem_of_ranked {query : String} {limit : Int} {rows : List MemoryRow} {memory : MemoryRow}
    (member : memory ∈ rankMemories host query limit rows) : memory ∈ rows := by
  have kept : ∀ items : List MemoryRow, memory ∈ pySliceTo limit items → memory ∈ items := by
    intro items inside
    unfold pySliceTo at inside
    split at inside
    · exact List.mem_of_mem_take inside
    · exact List.mem_of_mem_take inside
  have sorted := kept _ member
  obtain ⟨scored, isScored, rfl⟩ := List.mem_map.1 sorted
  obtain ⟨row, isRow, rfl⟩ := List.mem_map.1 ((List.mem_insertionSort _).1 isScored)
  exact isRow

/-- What `build` returns is made from the system prompt, the task, and memories that were read. -/
theorem build_shows {R : History → Op → Prop} {context : ContextAssembler}
    {systemPrompt task query : String}
    (memories : ∀ log limit, R log (.sql (.selectMemories limit))) :
    (context.build host systemPrompt task query).Obeys R (returns fun log' messages =>
      ∃ chosen, (∀ memory ∈ chosen, ∃ limit known,
          Saw log' (.sql (.selectMemories limit)) known ∧ memory ∈ known) ∧
        messages = requiredMessages systemPrompt (shownTask context systemPrompt task) ++
          if chosen = [] then [] else [memoryMessage chosen]) log := by
  have required : ∀ log' : History, ∃ chosen : List MemoryRow,
      (∀ memory ∈ chosen, ∃ limit known,
        Saw log' (.sql (.selectMemories limit)) known ∧ memory ∈ known) ∧
      context.trimRequired [⟨.system, pyStrip systemPrompt⟩, ⟨.user, pyStrip task⟩] =
        requiredMessages systemPrompt (shownTask context systemPrompt task) ++
          if chosen = [] then [] else [memoryMessage chosen] := by
    intro log'
    refine ⟨[], fun memory member => absurd member List.not_mem_nil, ?_⟩
    change context.trimRequired (requiredMessages systemPrompt (pyStrip task)) = _
    rw [trimRequired_required, if_pos rfl, List.append_nil]
  have used : ContextAssembler.contentLength [⟨.system, pyStrip systemPrompt⟩,
      ⟨.user, pyStrip task⟩] + 1 = (pyStrip systemPrompt).length + 1 + (pyStrip task).length := by
    rw [← joinedLength_required]
    simp [joinedLength, requiredMessages]
  simp only [ContextAssembler.build, used]
  split
  · exact of_done (required _)
  · rename_i room_left
    have left : max 0 (context.maxChars -
        ((pyStrip systemPrompt).length + 1 + (pyStrip task).length) - 1) =
          room context systemPrompt task [] := by
      simp only [room, if_true]
      omega
    have whole : shownTask context systemPrompt task = pyStrip task := if_pos (by omega)
    simp only [searchMemories, Stmt.perform, Program.perform, Program.bind_eq_bind,
      Program.call_bind, Sql.proc_call, Sql.proc_bind, Sql.proc_ofExcept, Program.bind_assoc]
    apply afterCall (memories _ _)
    intro rows
    simp only [Program.pure_eq_done, Sql.proc_done, Program.done_bind]
    obtain ⟨chosen, picks, selected⟩ := @selectLines_picks context systemPrompt task
      (rankMemories host query context.memoryLimit rows) []
    rw [List.map_nil] at selected
    rw [left, selected]
    by_cases none : chosen = []
    · rw [none, if_pos List.map_nil]
      exact of_done (required _)
    · have some : ¬ chosen.map MemoryRow.line = [] := by simpa using none
      rw [if_neg some]
      have fits : MemoriesFit context systemPrompt task chosen := picks.fitting.resolve_left none
      obtain ⟨added, same, part⟩ := picks.sublist
      rw [List.nil_append] at same
      refine of_done ⟨chosen, fun memory member => ?_, ?_⟩
      · exact ⟨_, rows, Saw.here, mem_of_ranked (part.subset (same ▸ member))⟩
      · rw [whole, if_neg none]
        exact trimRequired_of_le fits

/-! ### What a worker asks -/

/-- A worker asks the model for the step of a run that it has read. -/
structure Asking (log : History) (engine : Engine) (runId : String) (run : RunRow)
    (messages : List Message) (tools : List ToolSpec) : Prop where
  selected : Saw log (.sql (.selectRun runId)) (some run)
  offers : tools = engine.tools.specs run.capabilities
  shows : ∃ listed chosen, Saw log (.sql (.selectMessages run.id 32)) listed ∧
    (∀ memory ∈ chosen, ∃ limit known,
      Saw log (.sql (.selectMemories limit)) known ∧ memory ∈ known) ∧
    messages = engine.shownMessages run.task listed.reverse chosen

theorem Asking.later {log' : History} {messages : List Message} {tools : List ToolSpec}
    (asking : Asking log engine runId run messages tools) (longer : log <:+ log') :
    Asking log' engine runId run messages tools where
  selected := asking.selected.later longer
  offers := asking.offers
  shows := by
    obtain ⟨listed, chosen, saw, known, same⟩ := asking.shows
    refine ⟨listed, chosen, saw.later longer, fun memory member => ?_, same⟩
    obtain ⟨limit, rows, read, inside⟩ := known memory member
    exact ⟨limit, rows, read.later longer, inside⟩

/-- The model is asked for a run that was read, and a decision is the answer. -/
def AsksModel (engine : Engine) (log : History) : Op → Prop
  | .respond messages tools => ∃ runId run, Asking log engine runId run messages tools
  | .sql (.insertDecision row) => ∃ run messages tools response,
      Asking log engine row.runId run messages tools ∧ row.step = run.stepCount ∧
        Saw log (.respond messages tools) response ∧ row.decisionJson = decisionText response
  | _ => True

theorem messagesForRun_shows (selected : Saw log (.sql (.selectRun runId)) (some run)) :
    (engine.messagesForRun host run).Obeys (AsksModel engine) (returns fun log' messages =>
      Asking log' engine runId run messages (engine.tools.specs run.capabilities)) log := by
  simp only [Engine.messagesForRun, listRunMessages, Stmt.perform, Program.perform,
    Program.bind_eq_bind, Program.call_bind, Sql.proc_call, Sql.proc_bind, Sql.proc_ofExcept,
    Program.bind_assoc]
  apply afterCall trivial
  intro listed
  simp only [Program.pure_eq_done, Sql.proc_done, Program.done_bind]
  have listing : Saw (⟨.sql (.selectMessages run.id 32), .ok listed⟩ :: log)
      (.sql (.selectMessages run.id 32)) listed := Saw.here
  refine (build_shows fun _ _ => trivial).returning ?_
  rintro log' messages longer ⟨chosen, known, same⟩
  exact ⟨selected.later ((List.suffix_cons _ _).trans longer), rfl, listed, chosen,
    listing.later longer, known, same⟩

theorem admittedResponse_asks (selected : Saw log (.sql (.selectRun runId)) (some run)) :
    (engine.admittedResponse host runId run now).Obeys (AsksModel engine)
      (returns fun _ _ => True) log := by
  simp only [Engine.admittedResponse, Program.bind_eq_bind]
  refine (getRunStepDecision_obeys host trivial).seq fun log₁ stored longer₁ _ => ?_
  cases stored with
  | some decision => exact of_ofExcept fun _ _ => trivial
  | none =>
      refine (messagesForRun_shows (selected.later longer₁)).seq fun log₂ messages _ asking => ?_
      simp only [Op.perform, Program.perform, Program.call_bind]
      apply afterCall
      · exact ⟨runId, run, asking⟩
      · intro response
        have asked := asking.later
          (List.suffix_cons ⟨.respond messages (engine.tools.specs run.capabilities), .ok response⟩ _)
        refine (recordRunStepDecision_obeys ?_ fun _ _ => trivial).seq
          fun _ _ _ _ => of_done trivial
        exact ⟨run, messages, _, response, asked, rfl, Saw.here, rfl⟩

/-- Tools ask no model. -/
theorem asksModel_of_toolRule (engine : Engine) {enter : History → ToolCall → List String → Prop}
    (log : History) (op : Op) (rule : ToolRule host registry enter log op) : AsksModel engine log op := by
  cases op with
  | sql stmt => cases stmt <;> trivial
  | respond messages tools => exact rule.elim
  | _ => trivial

theorem ack_asks : (engine.ack event now).Obeys (AsksModel engine) (returns fun _ _ => True) log :=
  ackEvent_obeys (fun _ _ => trivial) trivial

theorem runTaskRequested_asks :
    (engine.runTaskRequested event now).Obeys (AsksModel engine) (returns fun _ _ => True) log := by
  have rejected : ∀ reason log, (engine.rejectEvent event reason now).Obeys (AsksModel engine)
      (returns fun _ _ => True) log := by
    intro reason log
    refine (appendJournal_obeys fun _ _ => trivial).seq fun _ _ _ _ => ?_
    exact ack_asks.seq fun _ _ _ _ => of_done trivial
  unfold Engine.runTaskRequested
  dsimp only
  split
  · exact rejected _ _
  · split
    · exact rejected _ _
    · split
      · exact rejected _ _
      · apply afterCall trivial
        intro newRun
        exact ack_asks.seq fun _ _ _ _ => of_done trivial

theorem classifyToolError_asks {exc : Exc} :
    (engine.classifyToolError event runId call exc now).Obeys (AsksModel engine)
      (returns fun _ _ => True) log := by
  simp only [Engine.classifyToolError, effectState, Op.perform, Program.perform,
    Program.bind_eq_bind, Program.call_bind, Program.bind_assoc]
  apply afterCall trivial
  intro row
  simp only [Program.pure_eq_done, Program.done_bind]
  split
  · exact (blockRunOnEffect_obeys (fun _ _ => trivial) trivial).seq fun _ _ _ _ => ack_asks
  · split
    · exact (updateRun_obeys trivial).seq fun _ _ _ _ => ack_asks
    · exact of_raise

theorem toolStep_asks :
    (engine.toolStep host event runId run call now).Obeys (AsksModel engine)
      (returns fun _ _ => True) log := by
  refine (recordRunMessage_obeys trivial fun _ _ => trivial).seq fun log₁ _ _ _ => ?_
  have executed : (engine.tools.execute host call run.capabilities now).Obeys
      (ToolRule host engine.tools fun _ _ _ => True)
      (returns (ExecuteReturns host engine.tools call run.capabilities)) log₁ :=
    execute_obeys trivial
  have asks := executed.mono (asksModel_of_toolRule engine) fun _ _ ends => ends
  refine asks.captured.seq fun log₂ outcome _ _ => ?_
  cases outcome with
  | error exc => exact classifyToolError_asks
  | ok result =>
      refine Program.Obeys.seq (M := fun _ _ => True) (of_ofExcept fun _ _ => trivial) ?_
      intro log₃ content _ _
      refine (recordRunMessage_obeys trivial fun _ _ => trivial).seq fun _ _ _ _ => ?_
      exact afterCall trivial fun next => ack_asks

theorem finalStep_asks {text : String} :
    (engine.finalStep event runId run text now).Obeys (AsksModel engine)
      (returns fun _ _ => True) log := by
  refine (recordRunMessage_obeys trivial fun _ _ => trivial).seq fun _ _ _ _ => ?_
  exact (updateRun_obeys trivial).seq fun _ _ _ _ => ack_asks

theorem processStep_asks (selected : Saw log (.sql (.selectRun runId)) (some run)) :
    (engine.processStep host event runId run now).Obeys (AsksModel engine)
      (returns fun _ _ => True) log := by
  refine (admittedResponse_asks selected).seq fun log' response _ _ => ?_
  cases response with
  | toolCall call => exact toolStep_asks
  | finalText text => exact finalStep_asks

theorem runStep_asks :
    (engine.runStep host event now).Obeys (AsksModel engine) (returns fun _ _ => True) log := by
  unfold Engine.runStep
  split
  · exact of_raise
  · rename_i value _
    refine (getRun_obeys trivial).seq ?_
    rintro log₁ run _ rfl
    dsimp only
    split
    · exact ack_asks.seq fun _ _ _ _ => of_done trivial
    · split
      · exact ack_asks.seq fun _ _ _ _ => of_done trivial
      · split
        · refine (updateRun_obeys trivial).seq fun _ _ _ _ => ?_
          exact ack_asks.seq fun _ _ _ _ => of_done trivial
        · refine (processStep_asks Saw.here).captured.seq fun log₂ outcome _ _ => ?_
          cases outcome with
          | ok _ => exact of_done trivial
          | error exc =>
              refine Program.Obeys.seq (M := fun _ _ => True) ?_ fun _ _ _ _ => of_done trivial
              refine (updateRun_obeys trivial).seq fun _ _ _ _ => ?_
              exact (failEvent_obeys (fun _ _ => trivial) trivial).seq fun _ _ _ _ => of_raise

theorem runOnce_asks :
    (engine.runOnce host now).Obeys (AsksModel engine) (returns fun _ _ => True) [] := by
  have claims : (claimEvent engine.workerId now engine.leaseSeconds).Obeys (AsksModel engine)
      (returns fun _ _ => True) [] := by
    apply afterCall trivial
    intro found
    cases found with
    | none => exact of_done trivial
    | some claim =>
        refine Program.Obeys.seq (M := fun _ _ => True) (of_ofExcept fun _ _ => trivial) ?_
        exact fun _ _ _ _ => of_done trivial
  refine claims.seq fun log event _ _ => ?_
  cases event with
  | none => exact of_done trivial
  | some event =>
      dsimp only
      split
      · exact runTaskRequested_asks
      · split
        · exact runStep_asks
        · exact ack_asks.seq fun _ _ _ _ => of_done trivial

/-- Only workers ask the model. -/
def Call.Asks : Call → History → Op → Prop
  | .runOnce engine _ => AsksModel engine
  | _ => fun _ _ => True

theorem program_asks (host : Host) (call : Call) :
    (call.program host).Obeys call.Asks Program.anyOutcome [] := by
  cases call with
  | runOnce engine now =>
      have asks : ((Call.runOnce engine now).program host).Obeys (AsksModel engine)
          (returns fun _ _ => True) [] := discard_obeys runOnce_asks
      exact asks.weaken fun _ _ _ => trivial
  | _ => exact (program_obeys host _).mono (fun _ _ _ => trivial) fun _ _ ends => ends

/-! ### What stays readable -/

/-- What an entry of a history says about what was shown and replied. -/
structure Recalled (Q : List Message → List ToolSpec → ModelResponse → Prop)
    (entry : Entry kernel Exc) (db : Db) : Prop where
  listed : ∀ runId limit rows, entry = ⟨.sql (.selectMessages runId limit), .ok rows⟩ →
    rows.reverse <:+: db.transcript runId ∧ (0 ≤ limit → (rows.length : Int) ≤ limit)
  known : ∀ limit rows, entry = ⟨.sql (.selectMemories limit), .ok rows⟩ →
    ∀ memory ∈ rows, memory ∈ db.memories.rows
  replied : ∀ messages tools response, entry = ⟨.respond messages tools, .ok response⟩ →
    Q messages tools response

variable {Q : List Message → List ToolSpec → ModelResponse → Prop} {world : World} {op : Op}
variable {W : Engine → Prop}

/-- A transcript only grows. -/
theorem transcript_kept (host : Host) (answer : Answer) (op : Op) (runId : String) :
    world.db.transcript runId <+: (op.answer host answer world).2.db.transcript runId := by
  rcases messages_change host world answer op with same | ⟨row, rfl, inserted⟩
  · rw [Db.transcript, Db.transcript, same]
  · rw [Db.transcript, Db.transcript, Table.rows_insert inserted, List.filter_append]
    exact List.prefix_append _ _

/-- A memory is never lost. -/
theorem memory_kept (host : Host) (answer : Answer) (op : Op) {memory : MemoryRow}
    (stored : memory ∈ world.db.memories.rows) :
    memory ∈ (op.answer host answer world).2.db.memories.rows := by
  rcases op.answer_cases host answer world with
    same | ⟨stmt, rfl, same⟩ | ⟨block, rfl, ⟨drawn, same⟩ | ⟨result, transacts⟩⟩ |
      ⟨call, rfl, same⟩
  · rw [same]
    exact stored
  · rw [same]
    have writes := stmt.writes host world
    generalize (stmt.exec host world).2 = world' at writes ⊢
    cases writes with
    | memory row memories inserted =>
        change memory ∈ memories.rows
        rw [Table.rows_insert inserted]
        exact List.mem_append_left _ stored
    | _ => exact stored
  · rw [same]
    exact stored
  · rw [transacts.touches.2.2.1]
    exact stored
  · rw [same]
    exact stored

theorem Recalled.later {entry : Entry kernel Exc} (recalled : Recalled Q entry world.db)
    (host : Host) (answer : Answer) (op : Op) :
    Recalled Q entry (op.answer host answer world).2.db where
  listed := by
    intro runId limit rows same
    obtain ⟨inside, short⟩ := recalled.listed runId limit rows same
    exact ⟨inside.trans (transcript_kept host answer op runId).isInfix, short⟩
  known := fun limit rows same memory member =>
    memory_kept host answer op (recalled.known limit rows same memory member)
  replied := recalled.replied

theorem mem_of_sqlLimit {α : Type} {limit : Int} {rows : List α} {row : α}
    (member : row ∈ sqlLimit limit rows) : row ∈ rows := by
  unfold sqlLimit at member
  split at member
  · exact member
  · exact List.mem_of_mem_take member

/-- The newest rows, turned around, are a part of all. -/
theorem sqlLimit_reverse {α : Type} (limit : Int) (rows : List α) :
    (sqlLimit limit rows.reverse).reverse <:+: rows := by
  unfold sqlLimit
  split
  · rw [List.reverse_reverse]
  · have newest := (List.take_prefix limit.toNat rows.reverse).reverse
    rw [List.reverse_reverse] at newest
    exact newest.isInfix

theorem length_sqlLimit {α : Type} {limit : Int} (nonneg : 0 ≤ limit) (rows : List α) :
    ((sqlLimit limit rows).length : Int) ≤ limit := by
  rw [sqlLimit, if_neg (Int.not_lt.2 nonneg), List.length_take]
  omega

/-- What a statement answers can be recalled. -/
theorem Recalled.of_answer (host : Host) (answer : Answer) (op : Op) (world : World)
    (replies : ∀ messages tools response, op = .respond messages tools →
      answer.response = .ok response → Q messages tools response) :
    Recalled Q ⟨op, (op.answer host answer world).1⟩ (op.answer host answer world).2.db where
  listed := by
    intro runId limit rows same
    obtain ⟨rfl, answered⟩ := Entry.mk.inj same
    rw [heq_eq_eq] at answered
    cases faulty : answer.fault with
    | some fault => simp [Op.answer, faulty] at answered
    | none =>
        simp only [Op.answer, faulty, Stmt.exec, Except.ok.injEq] at answered ⊢
        rw [← answered]
        exact ⟨sqlLimit_reverse limit _, fun nonneg => length_sqlLimit nonneg _⟩
  known := by
    intro limit rows same memory member
    obtain ⟨rfl, answered⟩ := Entry.mk.inj same
    rw [heq_eq_eq] at answered
    cases faulty : answer.fault with
    | some fault => simp [Op.answer, faulty] at answered
    | none =>
        simp only [Op.answer, faulty, Stmt.exec, Except.ok.injEq] at answered ⊢
        rw [← answered] at member
        exact (List.mem_insertionSort _).1 (mem_of_sqlLimit member)
  replied := by
    intro messages tools response same
    obtain ⟨rfl, answered⟩ := Entry.mk.inj same
    exact replies messages tools response rfl (heq_eq_eq _ _ ▸ answered)

/-! ### Every prompt and every decision -/

/-- A stored decision is what the model of a worker answered when it was asked for that step. -/
structure Grounded (W : Engine → Prop) (Q : List Message → List ToolSpec → ModelResponse → Prop)
    (db : Db) (row : DecisionRow) : Prop where
  answered : ∃ engine messages tools response, W engine ∧
    AsksFor db engine row.runId row.step messages tools ∧ Q messages tools response ∧
      row.decisionJson = decisionText response

/-- Whatever the model is asked, and whatever is decided, belongs to one run. -/
structure PromptsGrounded (W : Engine → Prop)
    (Q : List Message → List ToolSpec → ModelResponse → Prop) (config : KernelConfig) : Prop where
  prompts : ∀ process ∈ config.procs, ∀ messages tools,
    process.nextOp = some (.respond messages tools) →
      ∃ engine now runId step, process.call = .runOnce engine now ∧ W engine ∧
        AsksFor config.world.db engine runId step messages tools
  decisions : ∀ row ∈ config.world.db.decisions.rows, Grounded W Q config.world.db row

theorem AsksFor.later {db db' : Db} {step : Nat} {messages : List Message} {tools : List ToolSpec}
    (asks : AsksFor db engine runId step messages tools)
    (runs : ∀ run, db.run runId = some run → ∃ run', db'.run runId = some run' ∧ run.Evolves run')
    (lines : db.transcript runId <+: db'.transcript runId)
    (memories : ∀ memory ∈ db.memories.rows, memory ∈ db'.memories.rows) :
    AsksFor db' engine runId step messages tools := by
  obtain ⟨run, stored, reached, offers, transcript, chosen, inside, short, known, same⟩ := asks.ofRun
  obtain ⟨run', stored', evolves⟩ := runs run stored
  refine ⟨run', stored', reached.trans evolves.stepCount, ?_, transcript, chosen,
    inside.trans lines.isInfix, short, fun memory member => memories memory (known memory member), ?_⟩
  · rw [evolves.capabilities]
    exact offers
  · rw [evolves.task]
    exact same

section Reached

variable {steps : KernelConfig → Label Answer Call → Prop} {config : KernelConfig}
variable (replies : ∀ config pid answer messages tools response,
  steps config (.act pid answer) →
    config.performing (.act pid answer) = some (.respond messages tools, answer) →
      answer.response = .ok response → Q messages tools response)
variable (reached : (system host).Reachable steps KernelConfig.initial config)
include replies reached

theorem reachable_recalled : ∀ process ∈ config.procs,
    System.Reachable.Learned (fun _ entry world => Recalled Q entry world.db) config.world
      process.log := by
  refine reached.learned (fun _ _ entry world => Recalled Q entry world.db) ?_ ?_ rfl
  · intro config pid call op next log answer _ found admitted _
    refine Recalled.of_answer host answer op config.world fun messages tools response asks => ?_
    subst asks
    exact replies config pid answer messages tools response admitted
      (KernelConfig.performing_act found)
  · intro config pid call op next log answer _ _ _ _ older entry recalled
    exact recalled.later host answer op

/-- What a worker asks is for its run. -/
theorem asking_asksFor {process : Process kernel Exc Call} (member : process ∈ config.procs)
    {messages : List Message} {tools : List ToolSpec}
    (asking : Asking process.log engine runId run messages tools) :
    AsksFor config.world.db engine runId run.stepCount messages tools := by
  have recalled := reachable_recalled replies reached process member
  obtain ⟨row, stored, evolves⟩ := Saw.run (reachable_known reached process member) asking.selected
  obtain ⟨listed, chosen, saw, known, same⟩ := asking.shows
  have named : run.id = runId := evolves.id.symm.trans (Db.run_eq_some.1 stored).2
  obtain ⟨_, _, told⟩ := recalled.of_mem saw
  obtain ⟨inside, short⟩ := told.listed _ _ _ rfl
  rw [named] at inside
  have few : listed.reverse.length ≤ 32 := by
    rw [List.length_reverse]
    exact_mod_cast short (by decide)
  refine ⟨row, stored, evolves.stepCount, ?_, listed.reverse, chosen, inside, few, ?_, ?_⟩
  · rw [evolves.capabilities]
    exact asking.offers
  · intro memory isChosen
    obtain ⟨limit, rows, read, isRow⟩ := known memory isChosen
    obtain ⟨_, _, remembers⟩ := recalled.of_mem read
    exact remembers.known _ _ rfl memory isRow
  · rw [evolves.task]
    exact same

variable (workers : ∀ config engine now, steps config (.spawn (.runOnce engine now)) → W engine)
include workers

/-- Whoever asks the model is a worker, and asks for its run. -/
theorem asked_grounded {call : Call} {messages : List Message} {tools : List ToolSpec}
    {next : Except Exc ModelResponse → Proc Unit}
    (member : ⟨call, .call (F := kernel) (.respond messages tools) next, log, true⟩ ∈ config.procs) :
    ∃ engine now runId step, call = .runOnce engine now ∧ W engine ∧
      AsksFor config.world.db engine runId step messages tools := by
  have rule := (reachable_rule reached _ member).head
  have asks := (reached.obeys (program_asks host) rfl _ member).head
  have working := reached.calls (P := fun call => ∀ engine now, call = .runOnce engine now → W engine)
    (fun config call admitted engine now same => workers config engine now (same ▸ admitted)) rfl _
      member
  cases call with
  | runOnce engine now =>
      obtain ⟨runId, run, asking⟩ := asks
      exact ⟨engine, now, runId, run.stepCount, rfl, working engine now rfl,
        asking_asksFor replies reached member asking⟩
  | _ => exact rule.elim

/-- What is decided was answered. -/
theorem inserted_grounded {call : Call} {row : DecisionRow}
    {next : Except Exc Unit → Proc Unit}
    (member : ⟨call, .call (F := kernel) (.sql (.insertDecision row)) next, log, true⟩ ∈
      config.procs) : Grounded W Q config.world.db row := by
  have rule := (reachable_rule reached _ member).head
  have asks := (reached.obeys (program_asks host) rfl _ member).head
  have working := reached.calls (P := fun call => ∀ engine now, call = .runOnce engine now → W engine)
    (fun config call admitted engine now same => workers config engine now (same ▸ admitted)) rfl _
      member
  cases call with
  | runOnce engine now =>
      obtain ⟨run, messages, tools, response, asking, same, saw, text⟩ := asks
      obtain ⟨_, _, told⟩ := (reachable_recalled replies reached _ member).of_mem saw
      refine ⟨engine, messages, tools, response, working engine now rfl, ?_,
        told.replied _ _ _ rfl, text⟩
      rw [same]
      exact asking_asksFor replies reached member asking
  | _ => exact rule.elim

/-- Whatever the model is asked is for a run. -/
theorem next_grounded : ∀ process ∈ config.procs, ∀ messages tools,
    process.nextOp = some (.respond messages tools) →
      ∃ engine now runId step, process.call = .runOnce engine now ∧ W engine ∧
        AsksFor config.world.db engine runId step messages tools := by
  rintro ⟨call, rest, log, alive⟩ member messages tools next
  cases alive with
  | false => cases next
  | true =>
      cases rest with
      | call op rest =>
          obtain rfl := Option.some.inj next
          exact asked_grounded replies reached workers member
      | _ => cases next

/-- Whatever is stored as a decision was answered. -/
theorem stored_grounded :
    ∀ row ∈ config.world.db.decisions.rows, Grounded W Q config.world.db row := by
  refine reached.invariant (I := fun config => ∀ row ∈ config.world.db.decisions.rows,
    Grounded W Q config.world.db row) (fun _ member => absurd member List.not_mem_nil) ?_
  intro config label config' before held _ stepped
  cases Steps.of_step stepped with
  | spawn call => exact held
  | die found => exact held
  | @act pid answer call op next log found =>
      have member := List.mem_of_getElem? found
      have issued := (reachable_rule before _ member).head.issued
      have stays : ∀ row, Grounded W Q config.world.db row →
          Grounded W Q (op.answer host answer config.world).2.db row := by
        rintro row ⟨engine, messages, tools, response, working, asks, answered, text⟩
        refine ⟨engine, messages, tools, response, working, ?_, answered, text⟩
        exact asks.later (fun run stored => run_evolves host answer issued stored)
          (transcript_kept host answer op row.runId)
          fun memory known => memory_kept host answer op known
      intro row stored
      rcases decisions_change host config.world answer op with same | ⟨fresh, rfl, inserted⟩
      · exact stays row (held row (same ▸ stored))
      · change row ∈ ((Op.sql (.insertDecision fresh)).answer host answer
          config.world).2.db.decisions.rows at stored
        rw [Table.rows_insert inserted, List.mem_append, List.mem_singleton] at stored
        rcases stored with old | rfl
        · exact stays row (held row old)
        · exact stays row (inserted_grounded replies before workers member)

end Reached

/-- Wherever processes die, and whatever else runs on the database, a worker only ever shows its
model a run's own transcript and offers it tools that the run may use, and every stored decision is
an answer to that. -/
theorem prompts_grounded (host : Host) (W : Engine → Prop)
    (Q : List Message → List ToolSpec → ModelResponse → Prop)
    (allowed : KernelConfig → Label Answer Call → Prop) (config : KernelConfig)
    (workers : ∀ config engine now, allowed config (.spawn (.runOnce engine now)) → W engine)
    (replies : ∀ config pid answer messages tools response, allowed config (.act pid answer) →
      config.performing (.act pid answer) = some (.respond messages tools, answer) →
        answer.response = .ok response → Q messages tools response)
    (reached : (system host).Reachable allowed KernelConfig.initial config) :
    PromptsGrounded W Q config where
  prompts := next_grounded replies reached workers
  decisions := stored_grounded replies reached workers

/-- The only worker is `a`, and whatever its model replies is the payment. -/
def OnlyPays : Label Answer Call → Prop
  | .spawn (.runOnce engine _) => engine = payEngine "a"
  | .act _ answer => ∀ response, answer.response = .ok response →
      response = .toolCall (payCall "q")
  | _ => True

set_option maxRecDepth 10000 in
/-- The decision of a payment is grounded. -/
theorem prompts_grounded_payment :
    ∃ config, (system plainHost).Reachable (fun _ label => OnlyPays label) KernelConfig.initial
        config ∧
      config.world.db.decisions.rows.map DecisionRow.runId = ["id-0"] ∧
      PromptsGrounded (fun engine => engine = payEngine "a")
        (fun _ _ response => response = .toolCall (payCall "q")) config := by
  have pays : ∀ label ∈ unresolvedPayment, OnlyPays label := by
    simp [unresolvedPayment, OnlyPays, Answer.quiet, Answer.ofOutput, Answer.ofResponse]
  have ran : ((system plainHost).run (fun _ _ => true) KernelConfig.initial unresolvedPayment).any
      (fun config => decide (config.world.db.decisions.rows.map DecisionRow.runId = ["id-0"])) =
        true := by
    decide +kernel
  obtain ⟨config, reached, decided⟩ := System.Reachable.exists_of_run_each _ pays ran
  have paid : (system plainHost).Reachable (fun _ label => OnlyPays label) KernelConfig.initial
      config := reached.mono fun _ _ both => both.1
  refine ⟨config, paid, of_decide_eq_true decided, prompts_grounded plainHost _ _ _ config ?_ ?_ paid⟩
  · exact fun _ _ _ only => only
  · exact fun _ _ _ _ _ _ only _ replied => only _ replied

end PreActive.Kernel
