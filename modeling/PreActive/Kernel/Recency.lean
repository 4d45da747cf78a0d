/-
Module: PreActive.Kernel.Recency
Purpose: Which transcript entries of a run reach the model, and when the newest ones do.
Trusted boundary: human-reviewed spec
Main exports: InFull, NewestFits, RecencyKept, KeepsRecency, newest_reaches_model
-/
import PreActive.Kernel.Budget
import PreActive.Kernel.Ideal
import PreActive.Python.Strip

namespace PreActive.Kernel

open PreActive.Foundation PreActive.Python

variable {host : Host} {answers : Op → Answer} {task : String} {transcript : List MessageRow}

/-! ### Entries -/

/-- A transcript entry as the model is shown it. -/
def MessageRow.entry (row : MessageRow) : String := row.role.text ++ ": " ++ row.content

/-- The prompt that ends with the given number of oldest entries. -/
def promptUpTo (task : String) (transcript : List MessageRow) (count : Nat) : String :=
  Engine.promptTask task (transcript.take count)

/-- The text shown reaches to the end of the entry with this number, counted from the oldest: put
back behind the whitespace that was stripped, it starts like the prompt that ends there. -/
def InFull (task : String) (transcript : List MessageRow) (number : Nat) (shown : String) : Prop :=
  (promptUpTo task transcript number).toList <+:
    leading (Engine.promptTask task transcript) ++ shown.toList

/-- The system prompt, the task, the header and the newest entry alone fit. -/
def NewestFits (context : ContextAssembler) (systemPrompt task : String)
    (transcript : List MessageRow) : Prop :=
  ∃ newest ∈ transcript.getLast?,
    ((pyStrip systemPrompt).length + 1 + (Engine.promptTask task [newest]).length : Int) ≤
      context.maxChars

/-- The newest entry is shown if there is room for it, and no entry is shown in full while a newer
one is not. -/
structure RecencyKept (context : ContextAssembler) (systemPrompt task : String)
    (transcript : List MessageRow) (shown : String) : Prop where
  newest : NewestFits context systemPrompt task transcript →
    InFull task transcript transcript.length shown
  order : ∀ older newer, 0 < older → older < newer → newer ≤ transcript.length →
    InFull task transcript older shown → InFull task transcript newer shown

/-- The room for the prompt of the run. -/
def promptRoom (context : ContextAssembler) (systemPrompt : String) : Int :=
  context.maxChars - (pyStrip systemPrompt).length - 1

/-- The length of the prompt that ends with the given number of oldest entries, without the
whitespace it starts with. -/
def lengthUpTo (task : String) (transcript : List MessageRow) (number : Nat) : Int :=
  (promptUpTo task transcript number).length - (leading (Engine.promptTask task transcript)).length

/-- Everything fits and nothing is stripped from the newest entry; or the newest entry would not
fit even alone, and of several entries not even the oldest fits. -/
def KeepsRecency (context : ContextAssembler) (systemPrompt task : String)
    (transcript : List MessageRow) : Prop :=
  transcript = [] ∨
  (endsBlank (Engine.promptTask task transcript) = false ∧
    lengthUpTo task transcript transcript.length ≤ promptRoom context systemPrompt) ∨
  (¬ NewestFits context systemPrompt task transcript ∧
    (transcript.length = 1 ∨ promptRoom context systemPrompt < lengthUpTo task transcript 1))

/-! ### Prompts -/

theorem promptTask_of_ne_nil (task : String) (some : transcript ≠ []) :
    Engine.promptTask task transcript =
      task ++ "\n\nDurable run transcript:\n" ++ pyJoin "\n" (transcript.map MessageRow.entry) := by
  rw [Engine.promptTask, if_neg some]
  rfl

theorem promptUpTo_length (task : String) (transcript : List MessageRow) :
    promptUpTo task transcript transcript.length = Engine.promptTask task transcript := by
  rw [promptUpTo, List.take_length]

/-- More entries make the prompt longer at its end. -/
theorem promptTask_append (task : String) {first later : List MessageRow} (some : first ≠ [])
    (more : later ≠ []) :
    Engine.promptTask task (first ++ later) =
      Engine.promptTask task first ++ ("\n" ++ pyJoin "\n" (later.map MessageRow.entry)) := by
  rw [promptTask_of_ne_nil task (by simp [some]), promptTask_of_ne_nil task some, pyJoin,
    List.map_append, String.intercalate_append_of_ne_nil (by simpa using some)
      (by simpa using more)]
  simp only [pyJoin, String.append_assoc]

theorem take_ne_nil {number : Nat} (positive : 0 < number) (inside : number ≤ transcript.length) :
    transcript.take number ≠ [] := by
  apply List.ne_nil_of_length_pos
  rw [List.length_take]
  omega

/-- The text of the first part is in the joined text. -/
theorem mem_pyJoin_cons {part : String} {c : Char} (separator : String) (parts : List String)
    (member : c ∈ part.toList) : c ∈ (pyJoin separator (part :: parts)).toList := by
  cases parts with
  | nil => simpa [pyJoin] using member
  | cons second rest =>
      rw [pyJoin, String.intercalate_cons_cons, String.toList_append, String.toList_append]
      exact List.mem_append_left _ (List.mem_append_left _ member)

theorem promptUpTo_later (task : String) {older newer : Nat} (positive : 0 < older) (later : older < newer)
    (inside : newer ≤ transcript.length) :
    ∃ more : String, (∃ c ∈ more.toList, isPySpace c = false) ∧
      promptUpTo task transcript newer = promptUpTo task transcript older ++ more := by
  have parts : transcript.take newer =
      transcript.take older ++ (transcript.take newer).drop older := by
    have taken := List.take_append_drop older (transcript.take newer)
    rw [List.take_take, Nat.min_eq_left (Nat.le_of_lt later)] at taken
    exact taken.symm
  have first : transcript.take older ≠ [] := take_ne_nil positive (by omega)
  have more : (transcript.take newer).drop older ≠ [] := by
    apply List.ne_nil_of_length_pos
    rw [List.length_drop, List.length_take]
    omega
  refine ⟨"\n" ++ pyJoin "\n" (((transcript.take newer).drop older).map MessageRow.entry), ?_, ?_⟩
  · obtain ⟨entry, entries, same⟩ := List.exists_cons_of_ne_nil more
    refine ⟨':', ?_, rfl⟩
    rw [String.toList_append, same, List.map_cons]
    refine List.mem_append_right _ (mem_pyJoin_cons _ _ ?_)
    simp [MessageRow.entry]
  · rw [promptUpTo, promptUpTo, ← promptTask_append task first more, ← parts]

theorem length_promptUpTo_lt (task : String) {older newer : Nat} (positive : 0 < older)
    (later : older < newer) (inside : newer ≤ transcript.length) :
    (promptUpTo task transcript older).length < (promptUpTo task transcript newer).length := by
  obtain ⟨more, ⟨c, member, _⟩, same⟩ := promptUpTo_later task positive later inside
  have some := List.length_pos_of_mem member
  rw [String.length_toList] at some
  rw [same, String.length_append]
  omega

/-- Every prompt with an entry is the start of the whole one. -/
theorem promptUpTo_starts (task : String) {number : Nat} (positive : 0 < number)
    (inside : number ≤ transcript.length) :
    (promptUpTo task transcript number).toList <+: (Engine.promptTask task transcript).toList := by
  rw [← promptUpTo_length]
  rcases Nat.lt_or_eq_of_le inside with later | rfl
  · obtain ⟨more, _, same⟩ := promptUpTo_later task positive later (Nat.le_refl _)
    rw [same, String.toList_append]
    exact List.prefix_append _ _
  · exact List.prefix_refl _

/-- The header is no whitespace. -/
theorem promptUpTo_visible (task : String) {number : Nat} (positive : 0 < number)
    (inside : number ≤ transcript.length) :
    ∃ c ∈ (promptUpTo task transcript number).toList, isPySpace c = false := by
  refine ⟨'D', ?_, rfl⟩
  rw [promptUpTo, promptTask_of_ne_nil task (take_ne_nil positive inside), String.toList_append,
    String.toList_append]
  exact List.mem_append_left _ (List.mem_append_right _ (by decide))

/-! ### What is shown -/

section Shown

variable {context : ContextAssembler} {systemPrompt : String}

/-- What is shown of the prompt, put back behind the stripped whitespace, is its start. -/
theorem shown_starts (context : ContextAssembler) (systemPrompt prompt : String) :
    leading prompt ++ (shownTask context systemPrompt prompt).toList <+: prompt.toList := by
  obtain ⟨rest, whole⟩ := shownTask_prefix context systemPrompt prompt
  rw [pyStrip_split prompt, ← whole]
  exact ⟨rest ++ trailing prompt, by simp⟩

/-- An entry is shown in full exactly if the room reaches to its end. -/
theorem inFull_iff {number : Nat} (positive : 0 < number) (inside : number ≤ transcript.length) :
    InFull task transcript number
        (shownTask context systemPrompt (Engine.promptTask task transcript)) ↔
      lengthUpTo task transcript number ≤ min (max 0 (promptRoom context systemPrompt))
        (pyStrip (Engine.promptTask task transcript)).length := by
  have shown := length_shownTask context systemPrompt (Engine.promptTask task transcript)
  have start := promptUpTo_starts task positive inside
  rw [lengthUpTo, promptRoom, ← shown, InFull]
  constructor
  · intro isPrefix
    have short := isPrefix.length_le
    rw [List.length_append, String.length_toList, String.length_toList] at short
    omega
  · intro short
    refine List.prefix_of_prefix_length_le start (shown_starts context systemPrompt _) ?_
    rw [List.length_append, String.length_toList, String.length_toList]
    omega

/-- The lengths of a prompt: what is stripped at its ends and what stays. -/
theorem length_prompt (prompt : String) :
    prompt.length = (leading prompt).length + (pyStrip prompt).length + (trailing prompt).length := by
  have split := congrArg List.length (pyStrip_split prompt)
  rw [List.length_append, List.length_append, String.length_toList, String.length_toList] at split
  exact split

theorem lengthUpTo_pos (task : String) {number : Nat} (positive : 0 < number)
    (inside : number ≤ transcript.length) : 0 < lengthUpTo task transcript number := by
  have longer := leading_lt_of_prefix (promptUpTo_starts task positive inside)
    (promptUpTo_visible task positive inside)
  rw [String.length_toList] at longer
  rw [lengthUpTo]
  omega

/-- The newest entry is shown in full exactly if all fits and it does not end in whitespace. -/
theorem newest_inFull_iff (some : 0 < transcript.length) :
    InFull task transcript transcript.length
        (shownTask context systemPrompt (Engine.promptTask task transcript)) ↔
      endsBlank (Engine.promptTask task transcript) = false ∧
        lengthUpTo task transcript transcript.length ≤ promptRoom context systemPrompt := by
  have whole := length_prompt (Engine.promptTask task transcript)
  have visible := promptUpTo_visible task some (Nat.le_refl _)
  have longer := lengthUpTo_pos task some (Nat.le_refl _)
  rw [promptUpTo_length] at visible
  have blank := trailing_eq_nil visible
  rw [inFull_iff some (Nat.le_refl _), ← blank, ← List.length_eq_zero_iff]
  rw [lengthUpTo, promptUpTo_length] at longer ⊢
  omega

/-- The trailing whitespace lies within the newest entry, so it never hides an older one. -/
theorem lengthUpTo_le_strip (task : String) {older : Nat} (positive : 0 < older)
    (later : older < transcript.length) :
    lengthUpTo task transcript older ≤ (pyStrip (Engine.promptTask task transcript)).length := by
  obtain ⟨more, visible, same⟩ :=
    promptUpTo_later task positive later (Nat.le_refl _)
  rw [promptUpTo_length] at same
  have hidden := @trailing_lt_of_suffix (Engine.promptTask task transcript) _
    ⟨_, (String.toList_append ▸ congrArg String.toList same).symm⟩ visible
  have whole := length_prompt (Engine.promptTask task transcript)
  have lengths := congrArg String.length same
  rw [String.length_append] at lengths
  rw [String.length_toList] at hidden
  rw [lengthUpTo]
  omega

/-- The newest entry reaches the model, and before any older one, exactly under this condition. -/
theorem recencyKept_iff :
    RecencyKept context systemPrompt task transcript
        (shownTask context systemPrompt (Engine.promptTask task transcript)) ↔
      KeepsRecency context systemPrompt task transcript := by
  let shown := shownTask context systemPrompt (Engine.promptTask task transcript)
  rcases Nat.eq_zero_or_pos transcript.length with empty | some
  · have none := List.length_eq_zero_iff.1 empty
    refine ⟨fun _ => .inl none, fun _ => ⟨fun fits => ?_, fun older newer _ _ inside => by omega⟩⟩
    obtain ⟨newest, there, _⟩ := fits
    rw [none] at there
    cases there
  · have newest : InFull task transcript transcript.length shown ↔ _ := newest_inFull_iff some
    constructor
    · intro kept
      by_cases seen : InFull task transcript transcript.length shown
      · exact .inr (.inl (newest.1 seen))
      · refine .inr (.inr ⟨fun fits => seen (kept.newest fits), ?_⟩)
        by_cases single : transcript.length = 1
        · exact .inl single
        · have several : 1 < transcript.length := by omega
          have hidden : ¬ InFull task transcript 1 shown := fun first =>
            seen (kept.order 1 transcript.length Nat.one_pos several (Nat.le_refl _) first)
          rw [inFull_iff Nat.one_pos some] at hidden
          have stays := lengthUpTo_le_strip task Nat.one_pos several
          exact .inr (by omega)
    · rintro (none | whole | ⟨noRoom, rest⟩)
      · simp [none] at some
      · have seen := newest.2 whole
        refine ⟨fun _ => seen, fun older newer positive later inside _ => ?_⟩
        rcases Nat.lt_or_eq_of_le inside with short | rfl
        · rw [inFull_iff some (Nat.le_refl _)] at seen
          rw [inFull_iff (by omega) inside]
          have less := length_promptUpTo_lt task (Nat.lt_trans positive later) short
            (Nat.le_refl transcript.length)
          simp only [lengthUpTo] at seen ⊢
          omega
        · exact seen
      · refine ⟨fun fits => absurd fits noRoom, fun older newer positive later inside first => ?_⟩
        rw [inFull_iff positive (by omega)] at first
        rcases rest with single | hidden
        · omega
        · have least : lengthUpTo task transcript 1 ≤ lengthUpTo task transcript older := by
            rcases Nat.lt_or_eq_of_le positive with more | rfl
            · have short : older ≤ transcript.length := by omega
              have less := length_promptUpTo_lt task Nat.one_pos more short
              simp only [lengthUpTo]
              omega
            · exact Int.le_refl _
          have positive' := lengthUpTo_pos task Nat.one_pos some
          omega

end Shown

/-! ### The prompt of a run -/

theorem run_listRunMessages (host : Host) (world : World) (runId : String) (limit : Int) :
    (listRunMessages runId limit).run host world =
      (.ok (latestMessages runId limit world.db.messages.rows), world) := by
  simp [listRunMessages, Stmt.perform, Program.perform, Stmt.exec, latestMessages]

/-- The messages for a run show its prompt as far as the budget allows. -/
theorem messagesForRun_runs (faultless : Faultless answers) (engine : Engine) (run : RunRow)
    (world : World) :
    ∃ messages, Runs host answers (engine.messagesForRun host run) world (.ok messages) world ∧
      messages[1]? = some ⟨.user, shownTask engine.context engine.systemPrompt
        (Engine.promptTask run.task (latestMessages run.id 32 world.db.messages.rows))⟩ := by
  obtain ⟨messages, chosen, ran, within⟩ := @build_runs host answers faultless engine.context
    engine.systemPrompt
    (Engine.promptTask run.task (latestMessages run.id 32 world.db.messages.rows)) run.task world
  refine ⟨messages, .bind (faultless.proc _ (run_listRunMessages host world run.id 32)) ran, ?_⟩
  rw [within.messages_eq]
  rfl

/-- When the newest transcript entry of a run reaches the model, and is never given up before an
older one. -/
theorem newest_reaches_model (host : Host) (engine : Engine) (run : RunRow)
    (answers : Op → Answer) (faultless : Faultless answers) (world : World) :
    ∃ messages shown,
      Runs host answers (engine.messagesForRun host run) world (.ok messages) world ∧
        messages[1]? = some ⟨.user, shown⟩ ∧
          (RecencyKept engine.context engine.systemPrompt run.task
              (latestMessages run.id 32 world.db.messages.rows) shown ↔
            KeepsRecency engine.context engine.systemPrompt run.task
              (latestMessages run.id 32 world.db.messages.rows)) := by
  obtain ⟨messages, ran, second⟩ := @messagesForRun_runs host answers faultless engine run world
  exact ⟨messages, _, ran, second, recencyKept_iff⟩

/-- A run that called a tool and has its result. -/
def toldRun : RunRow := newRunRow "double" ["math.read"] 0 none "r"

def toldResult : MessageRow := ⟨"r", .tool, "double => {}", some "step:0:tool-result", 0⟩

def toldMessages : List MessageRow :=
  [⟨"r", .assistant, "tool_call id=a name=double arguments={}", some "step:0:assistant-decision", 0⟩,
    toldResult]

def toldWorld : World :=
  { World.initial with db := { Db.empty with messages := ⟨toldMessages, by decide⟩ } }

/-- A worker with little room for its prompts. -/
def narrowEngine (maxChars : Int) : Engine := { payEngine "a" with context := ⟨maxChars, 0⟩ }

/-- The prompt of that run when all of it fits. -/
theorem newest_reaches_model_whole :
    ∃ messages shown,
      Runs plainHost (fun _ => .quiet) ((narrowEngine 200).messagesForRun plainHost toldRun)
          toldWorld (.ok messages) toldWorld ∧
        messages[1]? = some ⟨.user, shown⟩ ∧
          (RecencyKept (narrowEngine 200).context (narrowEngine 200).systemPrompt toldRun.task
              (latestMessages toldRun.id 32 toldWorld.db.messages.rows) shown ↔
            KeepsRecency (narrowEngine 200).context (narrowEngine 200).systemPrompt toldRun.task
              (latestMessages toldRun.id 32 toldWorld.db.messages.rows)) :=
  newest_reaches_model plainHost (narrowEngine 200) toldRun (fun _ => .quiet) (fun _ => rfl)
    toldWorld

/-- Eighty characters are enough for the newest entry, and it is cut away behind the older one. -/
theorem newest_cut_away :
    ∃ messages,
      (latestMessages toldRun.id 32 toldWorld.db.messages.rows).getLast? = some toldResult ∧
      Runs plainHost (fun _ => .quiet) ((narrowEngine 80).messagesForRun plainHost toldRun)
        toldWorld (.ok messages) toldWorld ∧
      NewestFits (narrowEngine 80).context (narrowEngine 80).systemPrompt toldRun.task
        (latestMessages toldRun.id 32 toldWorld.db.messages.rows) ∧
      ∀ message ∈ messages, ¬ toldResult.entry.toList <:+: message.content.toList := by
  obtain ⟨messages, ran, _⟩ := @messagesForRun_runs plainHost (fun _ => .quiet) (fun _ => rfl)
    (narrowEngine 80) toldRun toldWorld
  have cut : (((narrowEngine 80).messagesForRun plainHost toldRun).execute (kernelMachine plainHost)
      (fun _ => .quiet) toldWorld).1.toOption.all (fun messages => messages.all fun message =>
        !contains message.content toldResult.entry) = true := by decide +kernel
  refine ⟨messages, by decide +kernel, ran, ⟨toldResult, by decide +kernel, by decide +kernel⟩,
    fun message member => ?_⟩
  unfold Runs Program.RunsTo at ran
  rw [ran] at cut
  simpa [contains] using List.all_eq_true.1 cut message member

end PreActive.Kernel
