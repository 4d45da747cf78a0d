/-
Module: PreActive.Kernel.ToolPaths
Purpose: Which operations `ToolRegistry.execute` performs after which history, and what its
  result rests on.
Trusted boundary: none
Main exports:
  History, Saw, Granted, EffectRow.admits, ToolRule, ExecuteReturns, execute_obeys, Raised,
  execute_raises
-/
import PreActive.Kernel.Tools

namespace PreActive.Kernel

open PreActive.Foundation PreActive.Python

/-- What one process has done, latest step first. -/
abbrev History := Log kernel Exc

/-- The step was taken and answered the value. -/
def Saw (log : History) (op : Op) (value : op.Result) : Prop :=
  (⟨op, .ok value⟩ : Entry kernel Exc) ∈ log

theorem Saw.later {log log' : History} {op : Op} {value : op.Result} (saw : Saw log op value)
    (longer : log <:+ log') : Saw log' op value :=
  longer.subset saw

theorem Saw.here {log : History} {op : Op} {value : op.Result} :
    Saw (⟨op, .ok value⟩ :: log) op value :=
  List.mem_cons_self

theorem Saw.cons {log : History} {op : Op} {value : op.Result} {entry : Entry kernel Exc}
    (saw : Saw log op value) : Saw (entry :: log) op value :=
  List.mem_cons_of_mem _ saw

/-- The gates of `execute` before the ledger: the tool exists, its capability is granted and the
arguments validate. -/
structure Granted (host : Host) (registry : ToolRegistry) (call : ToolCall)
    (allowedCapabilities : List String) (spec : ToolSpec) : Prop where
  found : registry.find call.name = some spec
  granted : spec.capability ∈ allowedCapabilities
  valid : validateArguments host spec call.arguments = .ok ()

theorem Granted.name {host : Host} {registry : ToolRegistry} {call : ToolCall}
    {allowed : List String} {spec : ToolSpec} (granted : Granted host registry call allowed spec) :
    spec.name = call.name := by
  have named := List.find?_some granted.found
  simpa using named

/-- The idempotency check: the row was admitted for this tool and input. -/
def EffectRow.admits (host : Host) (call : ToolCall) (row : EffectRow) : Prop :=
  row.requestSha256 = requestDigest host call.name call.arguments ∧ row.toolName = call.name

/-- The last step admitted the call to the ledger, afresh or over the row of this very call. -/
inductive AdmittedLast (host : Host) : History → ToolCall → Prop where
  | fresh {call : ToolCall} (now : Time) (older : History) :
      AdmittedLast host (⟨.sql (.insertEffect (freshEffect host call now)), .ok ()⟩ :: older) call
  | again {call : ToolCall} {row : EffectRow} (now : Time) (older : History)
      (selected : Saw older (.sql (.selectEffect call.requestId)) (some row))
      (admits : row.admits host call) :
      AdmittedLast host (⟨.sql (.readmitEffect call.requestId now), .ok ()⟩ :: older) call

theorem AdmittedLast.last {host : Host} {log : History} {entry : Entry kernel Exc}
    {call : ToolCall} (admitted : AdmittedLast host (entry :: log) call) :
    ∃ now, entry = ⟨.sql (.insertEffect (freshEffect host call now)), .ok ()⟩ ∨
      entry = ⟨.sql (.readmitEffect call.requestId now), .ok ()⟩ := by
  cases admitted with
  | fresh now => exact ⟨now, .inl rfl⟩
  | again now => exact ⟨now, .inr rfl⟩

/-- The operations of `execute` and what comes before each.  `enter` says which call is entered. -/
def ToolRule (host : Host) (registry : ToolRegistry)
    (enter : History → ToolCall → List String → Prop) (log : History) : Op → Prop
  | .enterExecute call allowed => enter log call allowed
  | .handler handled => ∃ call allowed spec,
      Saw log (.enterExecute call allowed) () ∧ Granted host registry call allowed spec ∧
        handled = ⟨spec, call.arguments, call.requestId⟩ ∧
          (spec.mutation = true → AdmittedLast host log call)
  | .sql (.selectEffect _) => True
  | .sql (.insertEffect row) => ∃ call allowed spec now,
      Saw log (.enterExecute call allowed) () ∧ Granted host registry call allowed spec ∧
        spec.mutation = true ∧ row = freshEffect host call now
  | .sql (.readmitEffect requestId _) => ∃ call allowed spec row,
      Saw log (.enterExecute call allowed) () ∧ Granted host registry call allowed spec ∧
        spec.mutation = true ∧ requestId = call.requestId ∧
          Saw log (.sql (.selectEffect requestId)) (some row) ∧ row.admits host call ∧
            row.state = .reconciledNoEffect
  | .sql (.attemptUnknown requestId _) => ∃ handled exc older,
      log = ⟨.handler handled, .error exc⟩ :: older ∧ handled.spec.mutation = true ∧
        handled.requestId = requestId
  | .sql (.commitEffect requestId resultJson resultSha256 _) => ∃ handled output older,
      log = ⟨.handler handled, .ok output⟩ :: older ∧ handled.spec.mutation = true ∧
        handled.requestId = requestId ∧ canonicalJson output = .ok resultJson ∧
          resultSha256 = host.sha256 resultJson
  | _ => False

/-- What a returned execution rests on: the handler of the granted tool, with its outcome stored
if the tool mutates, or a committed row of the same tool and input. -/
structure ExecuteReturns (host : Host) (registry : ToolRegistry) (call : ToolCall)
    (allowedCapabilities : List String) (log : History) (result : ToolExecution) : Prop where
  name : result.toolName = call.name
  gate : ∃ spec, Granted host registry call allowedCapabilities spec ∧
    ((Saw log (.handler ⟨spec, call.arguments, call.requestId⟩) result.output ∧
        (spec.mutation = true → ∃ resultJson resultSha256 now,
          Saw log (.sql (.commitEffect call.requestId resultJson resultSha256 now)) ())) ∨
      (spec.mutation = true ∧ ∃ row,
        Saw log (.sql (.selectEffect call.requestId)) (some row) ∧ row.admits host call ∧
          row.state = .committed ∧ loadsResult row.resultJson = .ok result.output))

variable {host : Host} {registry : ToolRegistry} {enter : History → ToolCall → List String → Prop}
variable {call : ToolCall} {allowed : List String} {spec : ToolSpec} {now : Time} {log : History}

open Program.Obeys in
theorem dispatchMutation_obeys (entered : Saw log (.enterExecute call allowed) ())
    (granted : Granted host registry call allowed spec) (mutation : spec.mutation = true)
    (admitted : AdmittedLast host log call) :
    (dispatchMutation host spec call now).Obeys (ToolRule host registry enter)
      (returns (ExecuteReturns host registry call allowed)) log := by
  apply afterAttempt
  · exact ⟨call, allowed, spec, entered, granted, rfl, fun _ => admitted⟩
  · intro result
    cases result with
    | error exc =>
        apply afterCall
        · exact ⟨_, exc, log, rfl, mutation, rfl⟩
        · intro _
          exact of_raise
    | ok output =>
        apply seq (M := fun log' json => log' = ⟨.handler ⟨spec, call.arguments, call.requestId⟩,
          .ok output⟩ :: log ∧ canonicalJson output = .ok json)
        · exact of_ofExcept fun json printed => ⟨rfl, printed⟩
        · rintro log' json _ ⟨rfl, printed⟩
          apply afterCall
          · exact ⟨_, output, log, rfl, mutation, rfl, printed, rfl⟩
          · intro _
            refine of_done ⟨rfl, spec, granted, .inl ⟨Saw.here.cons, fun _ => ?_⟩⟩
            exact ⟨json, host.sha256 json, now, Saw.here⟩

open Program.Obeys in
theorem executeMutation_obeys (entered : Saw log (.enterExecute call allowed) ())
    (granted : Granted host registry call allowed spec) (mutation : spec.mutation = true) :
    (executeMutation host spec call now).Obeys (ToolRule host registry enter)
      (returns (ExecuteReturns host registry call allowed)) log := by
  apply afterCall trivial
  intro found
  cases found with
  | none =>
      apply afterCall
      · exact ⟨call, allowed, spec, now, entered.cons, granted, mutation, rfl⟩
      · intro _
        exact dispatchMutation_obeys entered.cons.cons granted mutation (.fresh now _)
  | some row =>
      simp only
      split
      · exact of_raise
      · rename_i same
        simp only [ne_eq, not_or, not_not] at same
        have admits : row.admits host call := same
        cases state : row.state with
        | committed =>
            apply seq (M := fun log' output => log' = _ ∧ loadsResult row.resultJson = .ok output)
            · exact of_ofExcept fun output read => ⟨rfl, read⟩
            · rintro log' output _ ⟨rfl, read⟩
              exact of_done ⟨rfl, spec, granted,
                .inr ⟨mutation, row, Saw.here, admits, state, read⟩⟩
        | reconciledNoEffect =>
            apply afterCall
            · exact ⟨call, allowed, spec, row, entered.cons, granted, mutation, rfl, Saw.here,
                admits, state⟩
            · intro _
              exact dispatchMutation_obeys entered.cons.cons granted mutation
                (.again now _ Saw.here admits)
        | executing => exact of_raise
        | attemptedUnknown => exact of_raise

open Program.Obeys in
/-- `execute` keeps to the rule, and its result rests on a granted tool. -/
theorem execute_obeys (entering : enter log call allowed) :
    (registry.execute host call allowed now).Obeys (ToolRule host registry enter)
      (returns (ExecuteReturns host registry call allowed)) log := by
  apply afterCall entering
  intro _
  cases found : registry.find call.name with
  | none => exact of_raise
  | some spec =>
      simp only
      split
      · exact of_raise
      · rename_i granted
        simp only [Bool.not_eq_true', Bool.not_eq_false, List.contains_iff_mem] at granted
        cases valid : validateArguments host spec call.arguments with
        | error exc => exact of_raise
        | ok _ =>
            have gates : Granted host registry call allowed spec := ⟨found, granted, valid⟩
            simp only
            split
            · rename_i mutation
              exact executeMutation_obeys Saw.here gates mutation
            · rename_i reading
              apply afterCall
              · exact ⟨call, allowed, spec, Saw.here, gates, rfl,
                  fun mutation => absurd mutation reading⟩
              · intro output
                apply seq (M := fun log' _ =>
                  Saw log' (.handler ⟨spec, call.arguments, call.requestId⟩) output)
                · exact of_ofExcept fun _ _ => Saw.here
                · intro log' json _ handled
                  exact of_done ⟨rfl, spec, gates,
                    .inl ⟨handled, fun mutation => absurd mutation reading⟩⟩

/-! ### Why `execute` raises -/

/-- The call is one that may be admitted to the ledger. -/
def ToolRegistry.admissible (host : Host) (registry : ToolRegistry) (call : ToolCall)
    (allowedCapabilities : List String) : Bool :=
  (registry.find call.name).any fun spec =>
    spec.mutation && allowedCapabilities.contains spec.capability &&
      decide (validateArguments host spec call.arguments = .ok ())

/-- A `ToolError` that comes from the database, or a failure to enter `execute`. -/
def Mishap (entry : Entry kernel Exc) : Prop :=
  (∃ stmt exc, entry = ⟨.sql stmt, .error exc⟩ ∧ exc.isToolError = true) ∨
    ∃ call allowed exc, entry = ⟨.enterExecute call allowed, .error exc⟩

/-- The process has read or written a ledger row of the request. -/
def RowSeen (log : History) (requestId : String) : Prop :=
  (∃ row, Saw log (.sql (.selectEffect requestId)) (some row)) ∨
    ∃ row, row.requestId = requestId ∧ Saw log (.sql (.insertEffect row)) ()

theorem RowSeen.later {log' : History} {requestId : String} (seen : RowSeen log requestId)
    (longer : log <:+ log') : RowSeen log' requestId := by
  rcases seen with ⟨row, saw⟩ | ⟨row, same, saw⟩
  · exact .inl ⟨row, saw.later longer⟩
  · exact .inr ⟨row, same, saw.later longer⟩

/-- Why `execute` raised a `ToolError`: the call may not be admitted, or its request has a ledger
row. -/
inductive Raised (host : Host) (registry : ToolRegistry) (call : ToolCall)
    (allowedCapabilities : List String) (log : History) : Prop where
  | mishap (entry : Entry kernel Exc) (done : entry ∈ log) (failed : Mishap entry) :
      Raised host registry call allowedCapabilities log
  | refused (entered : Saw log (.enterExecute call allowedCapabilities) ())
      (inadmissible : registry.admissible host call allowedCapabilities = false) :
      Raised host registry call allowedCapabilities log
  | seen (entered : Saw log (.enterExecute call allowedCapabilities) ())
      (row : RowSeen log call.requestId) : Raised host registry call allowedCapabilities log

/-- The outcome predicate that explains a `ToolError`. -/
def raises {α : Type} (Q : History → Prop) : History → Except Exc α → Prop
  | _, .ok _ => True
  | log, .error exc => exc.isToolError = true → Q log

/-- A raising statement explains itself. -/
theorem Raised.statement {α : Type} {stmt : Stmt} {next : stmt.Result → Proc α}
    (rest : ∀ value, (next value).Obeys (fun _ _ => True)
      (raises (Raised host registry call allowed)) (⟨.sql stmt, .ok value⟩ :: log)) :
    (((Op.sql stmt).perform).bind next).Obeys (fun _ _ => True)
      (raises (Raised host registry call allowed)) log := by
  refine ⟨trivial, fun result => ?_⟩
  cases result with
  | ok value => exact rest value
  | error exc =>
      exact fun isToolError => .mishap _ List.mem_cons_self (.inl ⟨stmt, exc, rfl, isToolError⟩)

/-- What holds of every longer history explains whatever a part raises. -/
theorem raises_of {α : Type} {Q : History → Prop} {part : Proc α}
    (explained : ∀ log', log <:+ log' → Q log') :
    part.Obeys (fun _ _ => True) (raises Q) log := by
  have anything : ∀ (part : Proc α) (log : History),
      part.Obeys (fun _ _ => True) Program.anyOutcome log := by
    intro part
    induction part with
    | done value => exact fun _ => trivial
    | raise exc => exact fun _ => trivial
    | call op next ih => exact fun log => ⟨trivial, fun result => ih result _⟩
  refine (anything part log).extend.weaken fun log' outcome both => ?_
  cases outcome with
  | ok value => trivial
  | error exc => exact fun _ => explained log' both.1

theorem executeMutation_raises (entered : Saw log (.enterExecute call allowed) ()) :
    (executeMutation host spec call now).Obeys (fun _ _ => True)
      (raises (Raised host registry call allowed)) log := by
  apply Raised.statement
  intro found
  cases found with
  | some row =>
      exact raises_of fun log' longer =>
        .seen (entered.cons.later longer) (.inl ⟨row, Saw.here.later longer⟩)
  | none =>
      apply Raised.statement
      intro _
      exact raises_of fun log' longer =>
        .seen (entered.cons.cons.later longer) (.inr ⟨_, rfl, Saw.here.later longer⟩)

/-- Whenever `execute` raises a `ToolError`, the call may not be admitted or has a ledger row. -/
theorem execute_raises :
    (registry.execute host call allowed now).Obeys (fun _ _ => True)
      (raises (Raised host registry call allowed)) log := by
  rw [ToolRegistry.execute]
  simp only [Op.perform, Program.perform, Program.bind_eq_bind, Program.call_bind]
  refine ⟨trivial, fun result => ?_⟩
  cases result with
  | error exc =>
      exact fun _ => .mishap _ List.mem_cons_self (.inr ⟨call, allowed, exc, rfl⟩)
  | ok _ =>
      -- whatever happens without a look at the ledger, the call may not be admitted
      have refuses : ∀ part : Proc ToolExecution, registry.admissible host call allowed = false →
          part.Obeys (fun _ _ => True) (raises (Raised host registry call allowed))
            (⟨.enterExecute call allowed, .ok ()⟩ :: log) :=
        fun part inadmissible => raises_of fun log' longer =>
          .refused (Saw.here.later longer) inadmissible
      simp only [Program.ofExcept_ok, Program.done_bind]
      cases found : registry.find call.name with
      | none => exact refuses _ (by simp [ToolRegistry.admissible, found])
      | some spec =>
          simp only
          split
          · rename_i denied
            rw [Bool.not_eq_true'] at denied
            exact refuses _ (by rw [ToolRegistry.admissible, found, Option.any_some, denied]; simp)
          · cases valid : validateArguments host spec call.arguments with
            | error exc => exact refuses _ (by simp [ToolRegistry.admissible, found, valid])
            | ok _ =>
                simp only
                split
                · exact executeMutation_raises Saw.here
                · rename_i reading
                  exact refuses _ (by simp [ToolRegistry.admissible, found, reading])

theorem ExecuteReturns.later {log' : History} {result : ToolExecution}
    (returned : ExecuteReturns host registry call allowed log result) (longer : log <:+ log') :
    ExecuteReturns host registry call allowed log' result := by
  obtain ⟨name, spec, granted, evidence⟩ := returned
  refine ⟨name, spec, granted, ?_⟩
  rcases evidence with ⟨handled, stored⟩ | ⟨mutation, row, selected, rest⟩
  · refine .inl ⟨handled.later longer, fun mutation => ?_⟩
    obtain ⟨resultJson, resultSha256, now, committed⟩ := stored mutation
    exact ⟨resultJson, resultSha256, now, committed.later longer⟩
  · exact .inr ⟨mutation, row, selected.later longer, rest⟩

end PreActive.Kernel
