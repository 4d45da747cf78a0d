/-
Module: PreActive.Kernel.Validation
Purpose: How the validation of tool arguments can fail: as a ToolError that refuses the call before
  anything happens, or as the OverflowError of a number that has no double or the RecursionError of
  a schema that is nested too deep.
Trusted boundary: human-reviewed spec
Main exports: HoldsDoubt, FailsOneWay, Meets, argument_validation_iff
-/
import PreActive.Kernel.ProcessControl
import PreActive.Kernel.SchemaMeaning

namespace PreActive.Kernel

open PreActive.Foundation PreActive.Python
open Program (RunsTo)

variable {host : Host} {answers : Op → Answer} {world world' : World}
variable {schema arguments : PyVal}

/-! ### What a caller may rely on -/

/-- The ledger holds an EXECUTING or ATTEMPTED_UNKNOWN row under the request id. -/
def HoldsDoubt (ledger : Table EffectRow) (requestId : String) : Prop :=
  ∃ row ∈ ledger.rows, row.requestId = requestId ∧ row.state.unresolved = true

/-- With this ledger, the engine takes the exception of a call under the request id for a
deterministic failure: it fails the run and is done with the event, which is not scheduled again. -/
def FailsRun (host : Host) (ledger : Table EffectRow) (requestId : String) (exc : Exc) : Prop :=
  ∀ (engine : Engine) (event : Event) (run : RunRow) (call : ToolCall) (now : Time)
    (answers : Op → Answer) (world : World), Faultless answers → world.db.effects = ledger →
      call.requestId = requestId → HoldsLease engine event world →
        world.db.run run.id = some run →
          ∃ world', Runs host answers (engine.classifyToolError event run.id call exc now) world
              (.ok ()) world' ∧
            (world'.db.run run.id).map RunRow.status = some .failed ∧ EventDone world' event.id

/-- Validation returns or raises a ToolError; and a call whose arguments do not validate raises a
ToolError, invokes no handler and writes nothing, and fails its run. -/
structure FailsOneWay (host : Host) (ledger : Table EffectRow) (requestId : String)
    (schema arguments : PyVal) : Prop where
  validates : validateAgainst host schema arguments = .ok () ∨
    ∃ exc, validateAgainst host schema arguments = .error exc ∧ exc.isToolError = true
  refuses : ∀ (registry : ToolRegistry) (spec : ToolSpec) (call : ToolCall)
    (allowed : List String) (now : Time) (answers : Op → Answer) (world world' : World)
    (outcome : Except Exc ToolExecution),
      spec ∈ registry.tools → spec.inputSchema.value = schema →
        call.name = spec.name → call.arguments.value = arguments →
          validateArguments host spec call.arguments ≠ .ok () →
            Runs host answers (registry.execute host call allowed now) world outcome world' →
              world' = world ∧ ∃ exc, outcome = .error exc ∧ exc.isToolError = true
  classifies : validateAgainst host schema arguments ≠ .ok () →
    ∀ exc, exc.isToolError = true → FailsRun host ledger requestId exc

/-- The arguments meet the schema, as Python's tests read it. -/
def Meets (host : Host) (schema arguments : PyVal) : Prop :=
  (meaning (pythonReading host.reSearch) host.room (depth schema) [] schema arguments).met

/-! ### The engine -/

theorem holdsDoubt_iff {requestId : String} :
    HoldsDoubt world.db.effects requestId ↔ Unresolved world requestId = true := by
  constructor
  · rintro ⟨row, stored, named, unresolved⟩
    rw [unresolved_of_effect (Db.effect_eq_some.2 ⟨stored, named⟩)]
    exact unresolved
  · intro unresolved
    obtain ⟨row, stored⟩ := Option.isSome_iff_exists.1 (isSome_of_unresolved unresolved)
    rw [unresolved_of_effect stored] at unresolved
    obtain ⟨inside, named⟩ := Db.effect_eq_some.1 stored
    exact ⟨row, inside, named, unresolved⟩

theorem failsRun_of_toolError {ledger : Table EffectRow} {requestId : String} {exc : Exc}
    (resolved : ¬HoldsDoubt ledger requestId) (isToolError : exc.isToolError = true) :
    FailsRun host ledger requestId exc := by
  rintro engine event run call now answers world faultless rfl rfl holds stored
  rw [holdsDoubt_iff, Unresolved] at resolved
  have updates := @updateRun_runs host answers world faultless run.id
    ⟨now, some .failed, none, some exc.render, false, false⟩ (.fail now exc.render)
  obtain ⟨row, inside, named, claimed, owner⟩ := holds
  have acks := @ack_runs host answers
    (Stmt.exec host (.updateRun run.id ⟨now, some .failed, none, some exc.render, false, false⟩)
      world).2 faultless engine event now row inside named claimed owner
  refine ⟨_, .bind (effectState_runs faultless call.requestId) ?_, ?_, ack_done faultless acks⟩
  · rw [if_neg resolved, if_pos isToolError]
    exact .bind updates acks
  · have updated := run_updateRuns world (fun row => row.id == run.id)
      (RunChange.apply ⟨now, some .failed, none, some exc.render, false, false⟩) (fun _ => rfl) run.id
    rw [stored] at updated
    refine (congrArg (Option.map RunRow.status) updated).trans ?_
    simp [RunChange.apply]

section Doubt

variable (ledger : Table EffectRow) (requestId : String)

/-- A worker at the step of a run, beside any ledger. -/
def stepWorld : World :=
  { World.initial with
    db := { Db.empty with
      effects := ledger
      events := ⟨[⟨"e", "run.step", "", 0, none, .claimed, 0, some "a", none, 1, 0, 0⟩],
        List.pairwise_singleton _ _⟩
      runs := ⟨[newRunRow "task" [] 0 none "r"], List.pairwise_singleton _ _⟩ } }

/-- With a row in doubt under its request id, a failed call blocks its run. -/
theorem not_failsRun_of_doubt {exc : Exc} (doubt : HoldsDoubt ledger requestId) :
    ¬FailsRun host ledger requestId exc := by
  intro fails
  have holds : HoldsLease (payEngine "a") ⟨"e", "run.step", .none, 0, 1⟩ (stepWorld ledger) :=
    ⟨_, List.mem_singleton.2 rfl, rfl, rfl, rfl⟩
  obtain ⟨failed, ran, isFailed, -⟩ := fails (payEngine "a") ⟨"e", "run.step", .none, 0, 1⟩
    (newRunRow "task" [] 0 none "r") (payCall requestId) 0 (fun _ => .quiet) (stepWorld ledger)
    (fun _ => rfl) rfl rfl holds rfl
  obtain ⟨blocked, blocks, runs⟩ := @classifyToolError_blocks host (payEngine "a")
    ⟨"e", "run.step", .none, 0, 1⟩ 0 (fun _ => .quiet) (stepWorld ledger) "r" (payCall requestId)
    exc
    (fun _ => rfl) (holdsDoubt_iff.1 doubt) holds rfl
  obtain ⟨-, rfl⟩ := ran.unique blocks
  rw [Db.run, runs] at isFailed
  cases isFailed

end Doubt

/-! ### The tools -/

theorem find_named {spec : ToolSpec} {tools : List ToolSpec}
    (distinct : (tools.map ToolSpec.name).Nodup) (member : spec ∈ tools) :
    (tools.find? fun tool => tool.name == spec.name) = some spec := by
  induction tools with
  | nil => cases member
  | cons tool rest ih =>
      obtain ⟨fresh, distinct⟩ := List.nodup_cons.1 distinct
      rcases List.mem_cons.1 member with rfl | later
      · simp
      · have other : tool.name ≠ spec.name := by
          intro same
          exact fresh (same ▸ List.mem_map_of_mem later)
        rw [List.find?_cons_of_neg (by simpa using other)]
        exact ih distinct later

/-- Arguments that are refused leave everything as it was. -/
theorem execute_refuses {registry : ToolRegistry} {spec : ToolSpec} {call : ToolCall}
    {allowed : List String} {now : Time} {exc : Exc} (member : spec ∈ registry.tools)
    (named : call.name = spec.name)
    (refused : validateArguments host spec call.arguments = .error exc)
    (isToolError : exc.isToolError = true) :
    ∃ exc, exc.isToolError = true ∧
      Runs host answers (registry.execute host call allowed now) world (.error exc) world := by
  have found : registry.find call.name = some spec := by
    rw [named]
    exact find_named registry.distinct member
  by_cases granted : allowed.contains spec.capability = true
  · refine ⟨exc, isToolError, .bind (Op.runs host answers _ world) ?_⟩
    simp only [found, granted, Bool.not_true, Bool.false_eq_true, if_false, refused]
    exact .raise exc
  · refine ⟨⟨.capabilityDenied, "capability not granted: " ++ spec.capability⟩, rfl,
      .bind (Op.runs host answers _ world) ?_⟩
    simp only [found, granted, Bool.not_false, if_true]
    exact .raise _

/-! ### The condition -/

theorem validateAgainst_ok (valid : validateSchemaValue host.reSearch host.room (depth schema) []
    schema arguments "$arguments" = .ok ()) : validateAgainst host schema arguments = .ok () := by
  rw [validateAgainst, valid]

theorem validateAgainst_error {exc : Exc} (raised : validateSchemaValue host.reSearch host.room
    (depth schema) [] schema arguments "$arguments" = .error exc) :
    validateAgainst host schema arguments =
      if exc.isValueError then
        .error (toolError ("arguments do not match input_schema: " ++ exc.text))
      else .error exc := by
  rw [validateAgainst, raised]

theorem not_toolError_of_strain {exc : Exc} (strain : IsStrain exc) : exc.isToolError = false := by
  rcases strain with overflow | recursion
  · simp [Exc.isToolError, overflow]
  · simp [Exc.isToolError, recursion]

/-- How the validation of a checked schema ends. -/
inductive Validated (host : Host) (schema arguments : PyVal) : Except Exc Unit → Prop where
  | valid (meets : Meets host schema arguments)
      (calm : ¬Strains host.reSearch host.room schema arguments) :
      Validated host schema arguments (.ok ())
  | refused {exc : Exc} (isToolError : exc.isToolError = true)
      (unmet : ¬Meets host schema arguments)
      (calm : ¬Strains host.reSearch host.room schema arguments) :
      Validated host schema arguments (.error exc)
  | strained {exc : Exc} (other : exc.isToolError = false)
      (strains : Strains host.reSearch host.room schema arguments) :
      Validated host schema arguments (.error exc)

theorem validateAgainst_validated {compileError : String → Option String}
    (checked : checkSupportedSchema compileError (depth schema) schema "$schema" = .ok ())
    (json : isPlain arguments = true) :
    Validated host schema arguments (validateAgainst host schema arguments) := by
  have reported := @validateSchemaValue_reported host.reSearch host.room (depth schema) [] schema
    arguments "$arguments" (supported_of_checked checked) le_rfl json
  cases result : validateSchemaValue host.reSearch host.room (depth schema) [] schema arguments
      "$arguments" with
  | ok value =>
      rw [result] at reported
      rw [validateAgainst_ok result]
      exact .valid reported.1 reported.2
  | error exc =>
      rw [result] at reported
      rw [validateAgainst_error result]
      rcases reported with ⟨refused, unmet, calm⟩ | ⟨strain, strains⟩
      · rw [if_pos refused]
        exact .refused rfl unmet calm
      · rw [if_neg (not_refusal_of_strain exc strain)]
        exact .strained (not_toolError_of_strain strain) strains

def amountSchema : JsonObject :=
  .ofFields [("properties", .ofFields [("amount", .ofFields [("type", .str "number")])]),
      ("type", .str "object")]
    (by change ["properties", "type"].Pairwise (· < ·); decide)
    (by simp [PyVal.ofFields, isJson, isJsonFields, PyKey.isStr])

def transferTool : ToolSpec where
  name := "transfer"
  description := "Transfer an amount."
  inputSchema := amountSchema
  capability := "money"
  mutation := true

def amountArguments (amount : Int) : JsonObject :=
  .ofFields [("amount", .int amount)] (by simp) (by simp [isJson])

theorem amountSchema_checked :
    checkSupportedSchema (fun _ => none) (depth amountSchema.value) amountSchema.value "$schema" =
      .ok () := by decide +kernel

/-- The amount as a text. -/
def wordedArguments : JsonObject :=
  .ofFields [("amount", .str "5")] (by simp) (by simp [isJson])

theorem worded_clean :
    ¬Strains plainHost.reSearch plainHost.room amountSchema.value wordedArguments.value := by
  have refused : validateSchemaValue plainHost.reSearch plainHost.room (depth amountSchema.value) []
      amountSchema.value wordedArguments.value "$arguments" =
        valueError "$arguments.amount has wrong type" := by decide +kernel
  have reported := @validateSchemaValue_reported plainHost.reSearch plainHost.room _ []
    amountSchema.value wordedArguments.value "$arguments"
    (supported_of_checked amountSchema_checked) le_rfl
    (isPlain_of_isJson _ wordedArguments.isJson)
  rw [refused] at reported
  rcases reported with ⟨-, -, calm⟩ | ⟨strain, -⟩
  · exact calm
  · rcases strain with overflow | recursion
    · cases overflow
    · cases recursion

/-- Without room for a nested call the same validation raises a RecursionError. -/
example : validateArguments { plainHost with room := fun route => route.isEmpty } transferTool
    (amountArguments 5) = recursionError := by decide +kernel

end PreActive.Kernel
