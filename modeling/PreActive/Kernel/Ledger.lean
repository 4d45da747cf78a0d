/-
Module: PreActive.Kernel.Ledger
Purpose: The documented state machine of the effect ledger, and the runs that keep to it.
Trusted boundary: human-reviewed spec
Main exports: LedgerMachine, LedgerChanges, writesPresumed, ledger_keeps_machine
-/
import PreActive.Kernel.Knowledge

namespace PreActive.Kernel

open PreActive.Foundation PreActive.Python

/-! ### The machine -/

/-- Who changes a ledger row: a process that executes the call, or a host that reconciles it. -/
inductive LedgerActor where
  | execute
  | reconcile
deriving DecidableEq

/-- The documented transitions of a ledger row. -/
inductive LedgerMachine : LedgerActor → Option EffectState → EffectState → Prop where
  | enter : LedgerMachine .execute none .executing
  | success : LedgerMachine .execute (some .executing) .committed
  | lostOutcome : LedgerMachine .execute (some .executing) .attemptedUnknown
  | effectConfirmed {state : EffectState} (unresolved : state.unresolved = true) :
      LedgerMachine .reconcile (some state) .committed
  | noEffect {state : EffectState} (unresolved : state.unresolved = true) :
      LedgerMachine .reconcile (some state) .reconciledNoEffect
  | storedRetry : LedgerMachine .execute (some .reconciledNoEffect) .executing

/-- A change of the ledger row of a request along the documented machine. -/
inductive LedgerChanges (actor : LedgerActor) : Option EffectRow → Option EffectRow → Prop where
  | entered {row : EffectRow} (documented : LedgerMachine actor none row.state) :
      LedgerChanges actor none (some row)
  | moved {old new : EffectRow} (documented : LedgerMachine actor (some old.state) new.state)
      (same : old.SameRequest new) : LedgerChanges actor (some old) (some new)

/-- The actor of an operation. -/
def Op.ledgerActor (op : Op) : LedgerActor := if op.isReconcile then .reconcile else .execute

/-- The state that an unguarded `UPDATE` of `execute` presumes of the row of a request: the one
the executing process last read or wrote. -/
def Stmt.presumes : Stmt → Option (String × EffectState)
  | .readmitEffect requestId _ => some (requestId, .reconciledNoEffect)
  | .attemptUnknown requestId _ => some (requestId, .executing)
  | .commitEffect requestId .. => some (requestId, .executing)
  | _ => none

/-- The step is no unguarded `UPDATE` of the ledger, or finds the row in the presumed state. -/
def writesPresumed (config : KernelConfig) (label : Label Answer Call) : Bool :=
  match config.performing label with
  | some (.sql stmt, answer) =>
      answer.fault.isSome ||
        stmt.presumes.all fun (requestId, state) =>
          (config.world.db.effect requestId).all fun row => row.state == state
  | _ => true

/-- The steps of a run in which no process writes the outcome or the retry of a call over a row
that another one has moved on. -/
def WritesPresumed (config : KernelConfig) (label : Label Answer Call) : Prop :=
  writesPresumed config label = true

variable {host : Host} {config config' : KernelConfig} {label : Label Answer Call}

/-! ### One step -/

/-- A row is only inserted as `EXECUTING`. -/
theorem CallRule.insertEffect_executing {call : Call} {log : History} {row : EffectRow}
    (rule : CallRule host call log (.sql (.insertEffect row))) : row.state = .executing := by
  obtain ⟨registry, enter, _, entered, allowed, spec, now, _, _, _, rfl⟩ := rule.tool rfl
  rfl

/-- A change of a row whose unguarded writes find what they presume follows the machine. -/
theorem LedgerChange.documented {requestId : String} {op : Op} {before after : Option EffectRow}
    (change : LedgerChange requestId op before after)
    (fresh : ∀ row, op = .sql (.insertEffect row) → row.state = .executing)
    (presumed : ∀ stmt state row, op = .sql stmt → stmt.presumes = some (requestId, state) →
      before = some row → row.state = state) :
    after = before ∨ LedgerChanges op.ledgerActor before after := by
  cases change with
  | keep => exact .inl rfl
  | enter named =>
      refine .inr (.entered ?_)
      rw [fresh _ rfl]
      exact .enter
  | @reenter row now =>
      have cleared := presumed _ _ row rfl rfl rfl
      refine .inr (.moved ?_ ⟨rfl, rfl, rfl, rfl, rfl⟩)
      rw [cleared]
      exact .storedRetry
  | @attempt row now =>
      have executing := presumed _ _ row rfl rfl rfl
      refine .inr (.moved ?_ ⟨rfl, rfl, rfl, rfl, rfl⟩)
      rw [executing]
      exact .lostOutcome
  | @commit row resultJson resultSha256 now =>
      have executing := presumed _ _ row rfl rfl rfl
      refine .inr (.moved ?_ ⟨rfl, rfl, rfl, rfl, rfl⟩)
      rw [executing]
      exact .success
  | @reconcile row effectOccurred _ _ _ _ unresolved =>
      cases effectOccurred with
      | true => exact .inr (.moved (.effectConfirmed unresolved) ⟨rfl, rfl, rfl, rfl, rfl⟩)
      | false => exact .inr (.moved (.noEffect unresolved) ⟨rfl, rfl, rfl, rfl, rfl⟩)

/-- What a step of a run that meets the condition does to the row of a request. -/
theorem ledger_step
    (reached : (system host).Reachable WritesPresumed KernelConfig.initial config)
    (presumed : WritesPresumed config label)
    (stepped : Steps host config label config') (requestId : String) :
    config'.world.db.effect requestId = config.world.db.effect requestId ∨
      ∃ op answer, config.performing label = some (op, answer) ∧
        LedgerChanges op.ledgerActor (config.world.db.effect requestId)
          (config'.world.db.effect requestId) := by
  cases stepped with
  | spawn call => exact .inl rfl
  | die found => exact .inl rfl
  | @act pid answer call op next log found =>
      have rule := (reachable_rule reached _ (List.mem_of_getElem? found)).head
      have change := ledgerChange host config.world answer rule.issued requestId
      have performed : config.performing (.act pid answer) = some (op, answer) :=
        KernelConfig.performing_act found
      cases fault : answer.fault with
      | some fault' =>
          -- a faulty step is no database step, or changes nothing
          left
          cases op with
          | sql stmt => simp [Op.answer, fault]
          | transaction block => simp [Op.answer, fault]
          | _ => rfl
      | none =>
          have kept := change.documented
            (fun row isInsert => by subst isInsert; exact rule.insertEffect_executing) ?_
          · rcases kept with same | documented
            · exact .inl same
            · exact .inr ⟨op, answer, performed, documented⟩
          · rintro stmt state row rfl presumes stored
            simpa [WritesPresumed, writesPresumed, performed, fault, presumes, stored] using presumed

/-! ### Runs -/

/-- No documented transition starts in `COMMITTED`. -/
theorem LedgerMachine.not_from_committed {actor : LedgerActor} {state : EffectState} :
    ¬ LedgerMachine actor (some .committed) state := by
  intro documented
  cases documented with
  | effectConfirmed unresolved => cases unresolved
  | noEffect unresolved => cases unresolved

theorem LedgerChanges.not_committed {actor : LedgerActor} {row : EffectRow}
    {after : Option EffectRow} (changes : LedgerChanges actor (some row) after) :
    row.state ≠ .committed := by
  intro committed
  cases changes with
  | moved documented same =>
      rw [committed] at documented
      exact LedgerMachine.not_from_committed documented

/-- `COMMITTED` is absorbing along the runs that meet the condition. -/
theorem committed_absorbing {requestId : String} {row : EffectRow}
    (reached : (system host).Reachable WritesPresumed KernelConfig.initial config)
    (stored : config.world.db.effect requestId = some row) (committed : row.state = .committed)
    (later : (system host).Reachable WritesPresumed config config') :
    config'.world.db.effect requestId = some row := by
  refine later.invariant (I := fun config' => config'.world.db.effect requestId = some row)
    stored ?_
  intro middle label next before held presumed stepped
  rcases ledger_step (reached.trans before) presumed (.of_step stepped) requestId with
    same | ⟨op, answer, _, changes⟩
  · exact same.trans held
  · rw [held] at changes
    exact absurd committed changes.not_committed

/-- The ledger row of a request keeps to the documented machine from here on. -/
structure KeepsMachine (host : Host) (config : KernelConfig) (requestId : String) : Prop where
  documented : ∀ label config', WritesPresumed config label →
    (system host).step config label = some config' →
      config'.world.db.effect requestId = config.world.db.effect requestId ∨
        ∃ op answer, config.performing label = some (op, answer) ∧
          LedgerChanges op.ledgerActor (config.world.db.effect requestId)
            (config'.world.db.effect requestId)
  absorbing : ∀ row config', config.world.db.effect requestId = some row →
    row.state = .committed → (system host).Reachable WritesPresumed config config' →
      config'.world.db.effect requestId = some row

/-- In every run whose unguarded ledger writes find the row in the state they presume, each change
of a row follows the documented machine, and a committed row stays as it is. -/
theorem ledger_keeps_machine (host : Host) (config : KernelConfig)
    (reached : (system host).Reachable WritesPresumed KernelConfig.initial config)
    (requestId : String) : KeepsMachine host config requestId where
  documented := by
    intro label config' presumed stepped
    exact ledger_step reached presumed (.of_step stepped) requestId
  absorbing := by
    intro row config' stored committed later
    exact committed_absorbing reached stored committed later

/-! ### A handler that fails after its effect was confirmed -/

/-- A mutation is admitted, and while its handler runs a host confirms the effect. -/
def confirmedInFlight : List (Label Answer Call) :=
  [.spawn (.execute payRegistry (payCall "q") ["money"] 0), .act 0 .quiet, .act 0 .quiet,
    .act 0 .quiet, .spawn (.reconcile "q" true someEvidence 1 (some (.dict []))), .act 1 .quiet,
    .act 1 .quiet]

/-- The handler ends with an exception, which is recorded. -/
def lateFailure : List (Label Answer Call) :=
  [.act 0 (.ofOutput (.error ⟨.other "TimeoutError", "no answer"⟩)), .act 0 .quiet]

set_option maxRecDepth 10000 in
/-- Without the condition a committed row becomes `ATTEMPTED_UNKNOWN`. -/
theorem committed_overwritten :
    ∃ config config', (system plainHost).Reachable (fun _ _ => True) KernelConfig.initial config ∧
      (system plainHost).Reachable (fun _ _ => True) config config' ∧
        config.world.db.ledgerState "q" = some .committed ∧
          config'.world.db.ledgerState "q" = some .attemptedUnknown := by
  have ran : ((system plainHost).run (fun _ _ => true) KernelConfig.initial
      confirmedInFlight).any (fun config =>
        decide (config.world.db.ledgerState "q" = some .committed) &&
          ((system plainHost).run (fun _ _ => true) config lateFailure).any fun config' =>
            decide (config'.world.db.ledgerState "q" = some .attemptedUnknown)) = true := by decide +kernel
  obtain ⟨config, config', reached, later, before, after⟩ :=
    System.Reachable.exists_of_run_then confirmedInFlight lateFailure ran
  refine ⟨config, config', reached.mono fun _ _ _ => trivial, later.mono fun _ _ _ => trivial,
    ?_, ?_⟩
  · simpa using before
  · simpa using after

set_option maxRecDepth 10000 in
/-- A run that meets the condition and commits the request by reconciliation. -/
theorem ledger_keeps_machine_confirmed :
    ∃ config, (system plainHost).Reachable WritesPresumed KernelConfig.initial config ∧
      config.world.db.ledgerState "q" = some .committed ∧ KeepsMachine plainHost config "q" := by
  have ran : ((system plainHost).run writesPresumed KernelConfig.initial confirmedInFlight).any
      (fun config => decide (config.world.db.ledgerState "q" = some .committed)) = true := by
    decide +kernel
  obtain ⟨config, reached, committed⟩ := System.Reachable.exists_of_run confirmedInFlight ran
  exact ⟨config, reached, by simpa using committed,
    ledger_keeps_machine plainHost config reached "q"⟩

end PreActive.Kernel
