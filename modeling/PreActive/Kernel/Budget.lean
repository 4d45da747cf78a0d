/-
Module: PreActive.Kernel.Budget
Purpose: The character budget of the context: what the model is shown of the task and of the
  memories, and that it fits.
Trusted boundary: human-reviewed spec
Main exports: joinedLength, memoryMessage, WithinBudget, build_within_budget, build_runs
-/
import PreActive.Foundation.Selection
import PreActive.Kernel.Context
import PreActive.Kernel.Solo
import PreActive.Kernel.System

namespace PreActive.Kernel

open PreActive.Foundation PreActive.Python

variable {host : Host} {answers : Op → Answer} {context : ContextAssembler}
variable {systemPrompt task query : String}

/-! ### What is measured -/

/-- The length of the messages, joined by one separator each. -/
def joinedLength (messages : List Message) : Int :=
  ContextAssembler.contentLength messages + max 0 ((messages.length : Int) - 1)

/-- The line of a memory. -/
def MemoryRow.line (memory : MemoryRow) : String :=
  "[" ++ memory.kind ++ "] " ++ pyStrip memory.content

/-- The message that shows memories. -/
def memoryMessage (memories : List MemoryRow) : Message :=
  ⟨.system, ContextAssembler.memoryHeading ++ pyJoin "\n" (memories.map MemoryRow.line)⟩

/-- The two messages that are always there, with the given part of the task. -/
def requiredMessages (systemPrompt shown : String) : List Message :=
  [⟨.system, pyStrip systemPrompt⟩, ⟨.user, shown⟩]

/-- Beside the system prompt and the whole task there is room for the memories. -/
def MemoriesFit (context : ContextAssembler) (systemPrompt task : String)
    (memories : List MemoryRow) : Prop :=
  joinedLength (requiredMessages systemPrompt (pyStrip task) ++ [memoryMessage memories]) ≤
    context.maxChars

/-- What the messages for a task are, given the memories in their ranked order. -/
structure WithinBudget (context : ContextAssembler) (systemPrompt task : String)
    (ranked : List MemoryRow) (messages : List Message) (shown : String)
    (chosen : List MemoryRow) : Prop where
  messages_eq : messages = requiredMessages systemPrompt shown ++
    if chosen = [] then [] else [memoryMessage chosen]
  total : joinedLength messages ≤ max context.maxChars ((pyStrip systemPrompt).length + 1)
  shown_prefix : shown.toList <+: (pyStrip task).toList
  longest : ∀ text : String, text.toList <+: (pyStrip task).toList →
    joinedLength (requiredMessages systemPrompt text) ≤
      max context.maxChars ((pyStrip systemPrompt).length + 1) → text.length ≤ shown.length
  whole : ((pyStrip systemPrompt).length + 1 + (pyStrip task).length : Int) ≤ context.maxChars →
    shown = pyStrip task
  memories_after_task : chosen ≠ [] → shown = pyStrip task
  ranked_order : chosen.Sublist ranked
  /-- Each memory was taken if it fitted at its turn, and skipped only if it did not. -/
  turns : Picks (MemoriesFit context systemPrompt task) [] ranked chosen

/-! ### Lengths -/

theorem joinedLength_required (systemPrompt shown : String) :
    joinedLength (requiredMessages systemPrompt shown) =
      (pyStrip systemPrompt).length + 1 + shown.length := by
  simp only [joinedLength, requiredMessages, ContextAssembler.contentLength, List.map_cons,
    List.map_nil, List.sum_cons, List.sum_nil, List.length_cons, List.length_nil]
  omega

theorem joinedLength_withMemories (systemPrompt shown : String) (memories : List MemoryRow) :
    joinedLength (requiredMessages systemPrompt shown ++ [memoryMessage memories]) =
      (pyStrip systemPrompt).length + 1 + shown.length + 1 +
        (memoryMessage memories).content.length := by
  simp only [joinedLength, requiredMessages, ContextAssembler.contentLength, List.cons_append,
    List.nil_append, List.map_cons, List.map_nil, List.sum_cons, List.sum_nil, List.length_cons,
    List.length_nil]
  omega

theorem memoryMessage_singleton (memory : MemoryRow) :
    (memoryMessage [memory]).content.length =
      ContextAssembler.memoryHeading.length + memory.line.length := by
  simp [memoryMessage, pyJoin]

/-- One more memory costs its line and a line break. -/
theorem memoryMessage_append {memories : List MemoryRow} (memory : MemoryRow)
    (some : memories ≠ []) :
    (memoryMessage (memories ++ [memory])).content.length =
      (memoryMessage memories).content.length + (1 + memory.line.length) := by
  have joined : pyJoin "\n" ((memories ++ [memory]).map MemoryRow.line) =
      pyJoin "\n" (memories.map MemoryRow.line) ++ "\n" ++ memory.line := by
    rw [pyJoin, List.map_append, String.intercalate_append_of_ne_nil (by simpa using some)
      (by simp)]
    simp [pyJoin]
  simp only [memoryMessage, joined, String.length_append]
  have newline : "\n".length = 1 := rfl
  omega

theorem MemoryRow.line_length (memory : MemoryRow) : 0 < memory.line.length := by
  have bracket : "[".length = 1 := rfl
  simp only [MemoryRow.line, String.length_append]
  omega

/-! ### Selection -/

/-- What is left of the budget beside the system prompt, the whole task and the memories kept. -/
def room (context : ContextAssembler) (systemPrompt task : String) (kept : List MemoryRow) : Int :=
  context.maxChars - ((pyStrip systemPrompt).length + 1 + (pyStrip task).length) - 1 -
    if kept = [] then 0 else (memoryMessage kept).content.length

/-- What the loop charges for a line. -/
def lineCost (kept : List MemoryRow) (memory : MemoryRow) : Int :=
  (if kept = [] then (ContextAssembler.memoryHeading.length : Int) else 0) + memory.line.length +
    if kept = [] then 0 else 1

theorem room_append (kept : List MemoryRow) (memory : MemoryRow) :
    room context systemPrompt task (kept ++ [memory]) =
      room context systemPrompt task kept - lineCost kept memory := by
  by_cases empty : kept = []
  · subst empty
    simp only [room, lineCost, List.nil_append, List.cons_ne_nil, if_false, if_true,
      memoryMessage_singleton]
    omega
  · have longer : kept ++ [memory] ≠ [] := by simp
    simp only [room, lineCost, longer, empty, if_false, memoryMessage_append memory empty]
    omega

/-- A line that the loop can pay for is one beside which everything still fits. -/
theorem lineCost_le_room (kept : List MemoryRow) (memory : MemoryRow) :
    lineCost kept memory ≤ room context systemPrompt task kept ↔
      MemoriesFit context systemPrompt task (kept ++ [memory]) := by
  have after := @room_append context systemPrompt task kept memory
  have longer : kept ++ [memory] ≠ [] := by simp
  simp only [room, longer, if_false] at after
  simp only [MemoriesFit, joinedLength_withMemories, room]
  omega

/-- The loop over the memories is one pass that keeps what fits. -/
theorem selectLines_picks (memories kept : List MemoryRow) :
    ∃ chosen, Picks (MemoriesFit context systemPrompt task) kept memories chosen ∧
      ContextAssembler.selectLines memories (kept.map MemoryRow.line)
        (room context systemPrompt task kept) = chosen.map MemoryRow.line := by
  induction memories generalizing kept with
  | nil => exact ⟨kept, .done, rfl⟩
  | cons memory memories ih =>
      have priced := @lineCost_le_room context systemPrompt task kept memory
      simp only [lineCost, MemoryRow.line] at priced
      simp only [ContextAssembler.selectLines, List.map_eq_nil_iff]
      by_cases fitting : MemoriesFit context systemPrompt task (kept ++ [memory])
      · obtain ⟨chosen, picks, selected⟩ := ih (kept ++ [memory])
        refine ⟨chosen, .take fitting picks, ?_⟩
        rw [if_pos (priced.2 fitting), ← selected, room_append]
        simp only [List.map_append, List.map_cons, List.map_nil, lineCost, MemoryRow.line]
      · obtain ⟨chosen, picks, selected⟩ := ih kept
        refine ⟨chosen, .skip fitting picks, ?_⟩
        rw [if_neg fun paid => fitting (priced.1 paid), selected]

/-! ### Trimming -/

/-- What is left of a task that does not fit. -/
def shownTask (context : ContextAssembler) (systemPrompt task : String) : String :=
  if ((pyStrip systemPrompt).length + 1 + (pyStrip task).length : Int) ≤ context.maxChars then
    pyStrip task
  else
    ContextAssembler.cut (max 0 (context.maxChars - (pyStrip systemPrompt).length - 1))
      (pyStrip task)

/-- Messages that fit are left alone. -/
theorem trimRequired_of_le {messages : List Message}
    (fits : joinedLength messages ≤ context.maxChars) :
    context.trimRequired messages = messages := by
  simp only [ContextAssembler.trimRequired]
  exact if_pos fits

theorem trimRequired_required (context : ContextAssembler) (systemPrompt task : String) :
    context.trimRequired (requiredMessages systemPrompt (pyStrip task)) =
      requiredMessages systemPrompt (shownTask context systemPrompt task) := by
  have measured := joinedLength_required systemPrompt (pyStrip task)
  by_cases fits : joinedLength (requiredMessages systemPrompt (pyStrip task)) ≤ context.maxChars
  · rw [trimRequired_of_le fits, shownTask, if_pos (measured ▸ fits)]
  · have exceeds := Int.not_le.1 fits
    rw [shownTask, if_neg (measured ▸ fits)]
    simp only [joinedLength] at fits exceeds
    simp only [ContextAssembler.trimRequired, if_neg fits]
    simp [requiredMessages, ContextAssembler.popOptional] at exceeds ⊢
    exact fun small => absurd small (by omega)

theorem length_cut (allowance : Int) (text : String) :
    (ContextAssembler.cut allowance text).length = min allowance.toNat text.length := by
  simp [ContextAssembler.cut, String.length_toList]

theorem cut_prefix (allowance : Int) (text : String) :
    (ContextAssembler.cut allowance text).toList <+: text.toList := by
  simp [ContextAssembler.cut, List.take_prefix]

theorem shownTask_prefix (context : ContextAssembler) (systemPrompt task : String) :
    (shownTask context systemPrompt task).toList <+: (pyStrip task).toList := by
  rw [shownTask]
  split
  · exact List.prefix_refl _
  · exact cut_prefix _ _

/-- As much of the task is shown as there is room for. -/
theorem length_shownTask (context : ContextAssembler) (systemPrompt task : String) :
    ((shownTask context systemPrompt task).length : Int) =
      min (max 0 (context.maxChars - (pyStrip systemPrompt).length - 1)) (pyStrip task).length := by
  rw [shownTask]
  split
  · omega
  · rw [length_cut]
    omega

/-! ### The whole assembly -/

/-- The memories that a search finds, best first. -/
def memoriesFound (host : Host) (world : World) (query : String) (limit : Int) : List MemoryRow :=
  rankMemories host query limit (sqlLimit (max (limit * 4) limit)
    (world.db.memories.rows.insertionSort fun a b => MemoryRow.before a b = true))

theorem run_searchMemories (host : Host) (world : World) (query : String) (limit : Int) :
    (searchMemories host query limit).run host world =
      (.ok (memoriesFound host world query limit), world) := by
  simp [searchMemories, Stmt.perform, Program.perform, Stmt.exec, memoriesFound]

/-- The required messages alone keep to the budget when no memory could be added. -/
theorem WithinBudget.of_required {ranked : List MemoryRow}
    (turns : Picks (MemoriesFit context systemPrompt task) [] ranked []) :
    WithinBudget context systemPrompt task ranked
      (requiredMessages systemPrompt (shownTask context systemPrompt task))
      (shownTask context systemPrompt task) [] where
  messages_eq := by simp
  total := by
    rw [joinedLength_required, length_shownTask]
    omega
  shown_prefix := shownTask_prefix _ _ _
  longest text isPrefix fits := by
    have bounded : text.length ≤ (pyStrip task).length := by
      simpa only [String.length_toList] using isPrefix.length_le
    rw [joinedLength_required] at fits
    have shown := length_shownTask context systemPrompt task
    omega
  whole fits := by rw [shownTask, if_pos fits]
  memories_after_task some := absurd rfl some
  ranked_order := List.nil_sublist _
  turns := turns

/-- The messages of the assembly: within the budget, the task before any memory, the memories by
rank, and none left out that would have fitted. -/
theorem build_runs (faultless : Faultless answers) (context : ContextAssembler)
    (systemPrompt task query : String) (world : World) :
    ∃ messages chosen,
      Runs host answers (context.build host systemPrompt task query) world (.ok messages) world ∧
        WithinBudget context systemPrompt task (memoriesFound host world query context.memoryLimit)
          messages (shownTask context systemPrompt task) chosen := by
  let ranked := memoriesFound host world query context.memoryLimit
  have used : ContextAssembler.contentLength [⟨.system, pyStrip systemPrompt⟩,
      ⟨.user, pyStrip task⟩] + 1 = (pyStrip systemPrompt).length + 1 + (pyStrip task).length := by
    rw [← joinedLength_required]
    simp [joinedLength, requiredMessages]
  simp only [ContextAssembler.build, used]
  by_cases full : max 0 (context.maxChars -
      ((pyStrip systemPrompt).length + 1 + (pyStrip task).length) - 1) ≤ 0
  · -- there is no room for any memory, whatever it is
    rw [if_pos full]
    refine ⟨_, [], .done _, ?_⟩
    change WithinBudget _ _ _ _ (context.trimRequired (requiredMessages systemPrompt _)) _ _
    rw [trimRequired_required]
    refine .of_required (.of_none fun memory member fits => ?_)
    have long := memory.line_length
    rw [List.nil_append, MemoriesFit, joinedLength_withMemories, memoryMessage_singleton] at fits
    omega
  · rw [if_neg full]
    have left : max 0 (context.maxChars -
        ((pyStrip systemPrompt).length + 1 + (pyStrip task).length) - 1) =
          room context systemPrompt task [] := by
      simp only [room, if_true]
      omega
    have whole : shownTask context systemPrompt task = pyStrip task := if_pos (by omega)
    obtain ⟨chosen, picks, selected⟩ := @selectLines_picks context systemPrompt task ranked []
    rw [List.map_nil] at selected
    rw [left]
    have found := faultless.proc _ (run_searchMemories host world query context.memoryLimit)
    by_cases none : chosen = []
    · refine ⟨requiredMessages systemPrompt (shownTask context systemPrompt task), [],
        .bind found ?_, ?_⟩
      · simp only [ranked] at selected
        simp only [selected, none, List.map_nil, if_true]
        rw [← trimRequired_required]
        exact .done _
      · exact .of_required (none ▸ picks)
    · have fits : MemoriesFit context systemPrompt task chosen := picks.fitting.resolve_left none
      refine ⟨requiredMessages systemPrompt (pyStrip task) ++ [memoryMessage chosen], chosen,
        .bind found ?_, ?_⟩
      · simp only [ranked] at selected
        simp only [selected, List.map_eq_nil_iff, none, if_false]
        rw [← trimRequired_of_le fits]
        exact .done _
      · obtain ⟨added, same, part⟩ := picks.sublist
        constructor
        · simp [none, whole]
        · exact fits.trans (le_max_left _ _)
        · exact shownTask_prefix _ _ _
        · intro text isPrefix _
          rw [whole]
          simpa only [String.length_toList] using isPrefix.length_le
        · exact fun _ => whole
        · exact fun _ => whole
        · rw [same]
          exact part
        · exact picks

/-- The context assembler keeps to its character budget. -/
theorem build_within_budget (host : Host) (context : ContextAssembler)
    (systemPrompt task query : String) (answers : Op → Answer) (faultless : Faultless answers)
    (world : World) :
    ∃ ranked messages shown chosen,
      (searchMemories host query context.memoryLimit).run host world = (.ok ranked, world) ∧
        Runs host answers (context.build host systemPrompt task query) world (.ok messages) world ∧
          WithinBudget context systemPrompt task ranked messages shown chosen := by
  obtain ⟨messages, chosen, ran, within⟩ :=
    @build_runs host answers faultless context systemPrompt task query world
  exact ⟨_, messages, _, chosen, run_searchMemories host world query context.memoryLimit, ran,
    within⟩

/-- A store with two memories, of which the better one is long. -/
def notedWorld : World :=
  { World.initial with db := { Db.empty with
      memories := ⟨[⟨"m", "fact", "a long memory that takes much of the room", 1, 0⟩,
        ⟨"n", "fact", "short", 0, 0⟩], by decide⟩ } }

/-- A budget in which only the short memory fits. -/
theorem build_within_budget_short :
    ∃ ranked messages shown chosen,
      (searchMemories plainHost "task" 8).run plainHost notedWorld = (.ok ranked, notedWorld) ∧
        Runs plainHost (fun _ => .quiet)
            ((ContextAssembler.mk 60 8).build plainHost "system" "task" "task") notedWorld
            (.ok messages) notedWorld ∧
          WithinBudget ⟨60, 8⟩ "system" "task" ranked messages shown chosen :=
  build_within_budget plainHost ⟨60, 8⟩ "system" "task" "task" (fun _ => .quiet) (fun _ => rfl)
    notedWorld

end PreActive.Kernel
