/-
Module: PreActive.Kernel.Binding
Purpose: A request id is bound to one effect: one tool, one input, one ledger row.
Trusted boundary: human-reviewed spec
Main exports: BoundTo, Overtaken, EffectBinding, effect_binding
-/
import PreActive.Kernel.Dispatch
import PreActive.Kernel.Knowledge

namespace PreActive.Kernel

open PreActive.Foundation PreActive.Python

/-! ### Canonical requests -/

/-- The canonical request determines the tool and the arguments. -/
theorem requestText_injective {name name' : String} {arguments arguments' : JsonObject}
    (same : requestText name arguments = requestText name' arguments') :
    name = name' ∧ arguments = arguments' := by
  have payload := JsonObject.text_injective canonicalStyle same
  have tools := congrArg (fun object : JsonObject => object.value.get? "tool") payload
  have inputs := congrArg (fun object : JsonObject => object.value.get? "arguments") payload
  simp only [requestPayload, JsonObject.ofFields, PyVal.ofFields, PyVal.get?] at tools inputs
  constructor
  · simpa [PyVal.lookup] using tools
  · apply JsonObject.ext
    simpa [PyVal.lookup] using inputs

/-- The row was admitted for some tool and input, under their digest. -/
def EffectRow.Sealed (host : Host) (row : EffectRow) : Prop :=
  ∃ arguments, row.requestJson = some (requestText row.toolName arguments) ∧
    row.requestSha256 = requestDigest host row.toolName arguments

/-- The ledger row under the request id is that of the handler's tool and arguments. -/
def BoundTo (world : World) (handled : HandlerCall) : Prop :=
  ∃ row, world.db.effect handled.requestId = some row ∧ row.toolName = handled.spec.name ∧
    row.requestJson = some (requestText handled.spec.name handled.arguments)

variable {host : Host} {config config' : KernelConfig} {world : World}

/-! ### Rows -/

theorem EffectRow.Sealed.of_same {row row' : EffectRow} (isSealed : row.Sealed host)
    (same : row.SameRequest row') : row'.Sealed host := by
  obtain ⟨arguments, json, digest⟩ := isSealed
  refine ⟨arguments, ?_, ?_⟩
  · rw [same.requestJson, same.toolName, json]
  · rw [same.requestSha256, same.toolName, digest]

/-- Every ledger row is sealed. -/
theorem reachable_sealed {steps : KernelConfig → Label Answer Call → Prop}
    (reached : (system host).Reachable steps KernelConfig.initial config) :
    ∀ requestId row, config.world.db.effect requestId = some row → row.Sealed host := by
  refine reached.invariant (I := fun config => ∀ requestId row,
    config.world.db.effect requestId = some row → row.Sealed host) ?_ ?_
  · intro requestId row stored
    cases stored
  · intro config label config' before held _ stepped requestId row stored
    cases Steps.of_step stepped with
    | spawn call => exact held requestId row stored
    | die found => exact held requestId row stored
    | @act pid answer call op next log found =>
        have rule := (reachable_rule before _ (List.mem_of_getElem? found)).head
        have change := ledgerChange host config.world answer rule.issued requestId
        cases existing : config.world.db.effect requestId with
        | some old =>
            rw [existing] at change
            obtain ⟨row', stored', same⟩ := change.sameRequest
            obtain rfl := Option.some.inj (stored.symm.trans stored')
            exact (held requestId old existing).of_same same
        | none =>
            rw [existing, stored] at change
            cases change with
            | enter named =>
                obtain ⟨registry, enter, _, entered, allowed, spec, now, _, _, _, rfl⟩ :=
                  rule.tool rfl
                exact ⟨entered.arguments, rfl, rfl⟩

/-! ### Handlers -/

theorem BoundTo.later {handled : HandlerCall} {op : Op} (bound : BoundTo world handled)
    (host : Host) (answer : Answer) (issued : op.issued) :
    BoundTo (op.answer host answer world).2 handled := by
  obtain ⟨row, stored, name, json⟩ := bound
  obtain ⟨row', stored', same⟩ := effect_sameRequest host answer issued stored
  exact ⟨row', stored', same.toolName.trans name, same.requestJson.trans json⟩

/-- A process that is about to invoke a mutation handler has the request bound to it. -/
theorem CallRule.bound {steps : KernelConfig → Label Answer Call → Prop} {call : Call}
    {log : History} {handled : HandlerCall}
    (injective : Function.Injective host.sha256)
    (reached : (system host).Reachable steps KernelConfig.initial config)
    (learned : System.Reachable.Learned (fun _ entry world => Known entry world) config.world log)
    (rule : CallRule host call log (.handler handled)) (mutation : handled.spec.mutation = true) :
    BoundTo config.world handled := by
  obtain ⟨registry, enter, _, entered, allowed, spec, _, granted, rfl, admitted⟩ := rule.tool rfl
  cases admitted mutation with
  | fresh now rest =>
      obtain ⟨_, _, known⟩ := learned.of_mem List.mem_cons_self
      obtain ⟨row, stored, same⟩ := known.effectEntered _ rfl
      refine ⟨row, stored, same.toolName.trans granted.name.symm, same.requestJson.trans ?_⟩
      rw [granted.name]
      rfl
  | again now rest selected admits =>
      obtain ⟨row, stored, same⟩ := Saw.effect learned (selected.later (List.suffix_cons _ _))
      obtain ⟨arguments, json, digest⟩ := reachable_sealed reached _ row stored
      have name : row.toolName = spec.name :=
        same.toolName.trans (admits.2.trans granted.name.symm)
      -- equal digests are digests of the same request
      have text : requestText row.toolName arguments =
          requestText entered.name entered.arguments :=
        injective (digest.symm.trans (same.requestSha256.trans admits.1))
      refine ⟨row, stored, name, ?_⟩
      rw [json, text, granted.name]

/-- Every mutation handler that was invoked has its request bound to it. -/
theorem invoked_bound {steps : KernelConfig → Label Answer Call → Prop}
    (injective : Function.Injective host.sha256)
    (reached : (system host).Reachable steps KernelConfig.initial config) :
    ∀ run ∈ config.world.calls, run.call.spec.mutation = true → BoundTo config.world run.call := by
  refine reached.invariant (I := fun config => ∀ run ∈ config.world.calls,
    run.call.spec.mutation = true → BoundTo config.world run.call) ?_ ?_
  · intro run invoked
    cases invoked
  · intro config label config' before held _ stepped run invoked mutation
    cases Steps.of_step stepped with
    | spawn call => exact held run invoked mutation
    | die found => exact held run invoked mutation
    | @act pid answer call op next log found =>
        have member := List.mem_of_getElem? found
        have rule := (reachable_rule before _ member).head
        suffices bound : BoundTo config.world run.call from bound.later host answer rule.issued
        rcases calls_change host config.world answer op with same | ⟨handled, rfl, added⟩
        · rw [same] at invoked
          exact held run invoked mutation
        · rw [added] at invoked
          rcases List.mem_append.1 invoked with old | new
          · exact held run old mutation
          · rw [List.mem_singleton] at new
            subst new
            exact rule.bound injective before (reachable_known before _ member) mutation

/-! ### The state of the row -/

/-- The step that admits a call leaves its row `EXECUTING`. -/
theorem executing_of_admitted {answer : Answer} {call : ToolCall} {log : History} {op : Op}
    (learned : System.Reachable.Learned (fun _ entry world => Known entry world) world log)
    (admitted : AdmittedLast host (⟨op, (op.answer host answer world).1⟩ :: log) call) :
    (op.answer host answer world).2.db.ledgerState call.requestId = some .executing := by
  generalize answered : (op.answer host answer world).1 = result at admitted
  cases admitted with
  | fresh now =>
      cases fault : answer.fault with
      | some fault' => simp [Op.answer, fault] at answered
      | none =>
          simp only [Op.answer, fault, Stmt.exec] at answered ⊢
          split at answered
          · rename_i effects inserted
            have absent := effect_none_of_insert inserted
            simp only [freshEffect] at absent
            change ({ world.db with effects := effects } : Db).ledgerState call.requestId = _
            rw [Db.ledgerState, effect_insert inserted, absent]
            simp [freshEffect]
          · cases answered
  | again now older selected admits =>
      obtain ⟨row, stored, same⟩ := Saw.effect learned selected
      cases fault : answer.fault with
      | some fault' => simp [Op.answer, fault] at answered
      | none =>
          have named := (Db.effect_eq_some.1 stored).2
          have again : (Op.answer host (.sql (.readmitEffect call.requestId now)) answer
              world).2.db.effect call.requestId = some (row.readmitted now) := by
            simp only [Op.answer, fault]
            refine (effect_updateEffects call.requestId _ _ call.requestId).trans ?_
            rw [stored, Option.map_some, if_pos named]
          rw [Db.ledgerState, again]
          rfl

/-- Since the process came to where it is, another one has changed the state of the row. -/
def Overtaken (host : Host) (config : KernelConfig) (pid : Nat) (requestId : String) : Prop :=
  ∃ before after pid' answer,
    (system host).Reachable (fun _ _ => True) KernelConfig.initial before ∧
      pid' ≠ pid ∧ before.procs[pid]? = config.procs[pid]? ∧
        (system host).step before (.act pid' answer) = some after ∧
          after.world.db.ledgerState requestId ≠ before.world.db.ledgerState requestId ∧
            (system host).Reachable (fun _ _ => True) after config

/-- The row is `EXECUTING`, or was overtaken. -/
def ExecutingUnlessOvertaken (host : Host) (config : KernelConfig) (pid : Nat)
    (requestId : String) : Prop :=
  config.world.db.ledgerState requestId = some .executing ∨ Overtaken host config pid requestId

/-- A step of others keeps the row `EXECUTING`, or overtakes it. -/
theorem ExecutingUnlessOvertaken.step {label : Label Answer Call} {pid : Nat} {requestId : String}
    (either : ExecutingUnlessOvertaken host config pid requestId)
    (reached : (system host).Reachable (fun _ _ => True) KernelConfig.initial config)
    (stepped : (system host).step config label = some config')
    (same : config'.procs[pid]? = config.procs[pid]?)
    (others : config'.world.db.ledgerState requestId = config.world.db.ledgerState requestId ∨
      ∃ pid' answer, label = .act pid' answer ∧ pid' ≠ pid) :
    ExecutingUnlessOvertaken host config' pid requestId := by
  rcases either with executing | overtaken
  · by_cases kept : config'.world.db.ledgerState requestId = config.world.db.ledgerState requestId
    · exact .inl (kept.trans executing)
    · rcases others with unchanged | ⟨pid', answer, rfl, other⟩
      · exact absurd unchanged kept
      · exact .inr ⟨config, config', pid', answer, reached, other, same.symm, stepped, kept, .start⟩
  · obtain ⟨before, after, pid', answer, first, other, record, moved, changed, rest⟩ := overtaken
    exact .inr ⟨before, after, pid', answer, first, other, record.trans same.symm, moved, changed,
      .step rest trivial stepped⟩

/-- A mutation handler is about to be invoked over a row that is `EXECUTING` or was overtaken. -/
theorem executing_unless_overtaken
    (reached : (system host).Reachable (fun _ _ => True) KernelConfig.initial config) :
    ∀ pid process requestId, config.procs[pid]? = some process →
      dispatching requestId process = true →
        ExecutingUnlessOvertaken host config pid requestId := by
  refine reached.invariant (I := fun config => ∀ pid process requestId,
    config.procs[pid]? = some process → dispatching requestId process = true →
      ExecutingUnlessOvertaken host config pid requestId) ?_ ?_
  · intro pid process requestId found
    simp [KernelConfig.initial] at found
  · intro config label config' before held _ stepped pid process requestId found about
    have what := Steps.of_step stepped
    cases what with
    | spawn call =>
        rw [List.getElem?_append] at found
        split at found
        · rename_i inside
          refine (held pid process requestId found about).step before stepped ?_ (.inl rfl)
          exact List.getElem?_append_left inside
        · -- a fresh call has admitted nothing yet
          obtain rfl := List.mem_singleton.1 (List.mem_of_getElem? found)
          obtain ⟨entered, _, admitted⟩ :=
            admittedLast_of_dispatching (program_obeys host call) about
          cases admitted
    | @act pid' answer call op next log running =>
        by_cases own : pid' = pid
        · subst own
          rw [List.getElem?_set_self (List.getElem?_eq_some_iff.1 running).1] at found
          obtain rfl := Option.some.inj found
          have member := List.mem_of_getElem? running
          have rule := reachable_rule before _ member
          obtain ⟨entered, rfl, admitted⟩ := admittedLast_of_dispatching (rule.tail _) about
          exact .inl (executing_of_admitted (reachable_known before _ member) admitted)
        · rw [List.getElem?_set_ne own] at found
          refine (held pid process requestId found about).step before stepped ?_
            (.inr ⟨pid', answer, rfl, own⟩)
          exact List.getElem?_set_ne own
    | @die pid' dead running =>
        by_cases own : pid' = pid
        · subst own
          rw [List.getElem?_set_self (List.getElem?_eq_some_iff.1 running).1] at found
          obtain rfl := Option.some.inj found
          cases about
        · rw [List.getElem?_set_ne own] at found
          refine (held pid process requestId found about).step before stepped ?_ (.inl rfl)
          exact List.getElem?_set_ne own

/-! ### The binding -/

theorem BoundTo.same {handled handled' : HandlerCall} (bound : BoundTo world handled)
    (bound' : BoundTo world handled') (sameId : handled.requestId = handled'.requestId) :
    handled.spec.name = handled'.spec.name ∧ handled.arguments = handled'.arguments := by
  obtain ⟨row, stored, name, json⟩ := bound
  obtain ⟨row', stored', name', json'⟩ := bound'
  rw [sameId, stored'] at stored
  obtain rfl := Option.some.inj stored
  have text := Option.some.inj (json.symm.trans json')
  exact requestText_injective text

/-- What was admitted under a request id stays in its row. -/
theorem effect_kept {steps : KernelConfig → Label Answer Call → Prop} {requestId : String}
    {row : EffectRow} (reached : (system host).Reachable steps KernelConfig.initial config)
    (later : (system host).Reachable steps config config')
    (stored : config.world.db.effect requestId = some row) :
    ∃ row', config'.world.db.effect requestId = some row' ∧ row.SameRequest row' := by
  refine later.invariant (I := fun config' =>
    ∃ row', config'.world.db.effect requestId = some row' ∧ row.SameRequest row')
    ⟨row, stored, .refl row⟩ ?_
  rintro middle label next before ⟨row', held, same⟩ _ stepped
  cases Steps.of_step stepped with
  | spawn call => exact ⟨row', held, same⟩
  | die found => exact ⟨row', held, same⟩
  | @act pid answer call op continuation log found =>
      have rule := (reachable_rule (reached.trans before) _ (List.mem_of_getElem? found)).head
      obtain ⟨row'', held', same'⟩ := effect_sameRequest host answer rule.issued held
      exact ⟨row'', held', same.trans same'⟩

/-- Every request id is bound to one effect. -/
structure EffectBinding (host : Host) (config : KernelConfig) : Prop where
  /-- The mutations that were invoked are those of the ledger. -/
  invoked : ∀ run ∈ config.world.calls, run.call.spec.mutation = true →
    BoundTo config.world run.call
  /-- Under one request id there is one tool and one input. -/
  one : ∀ run ∈ config.world.calls, ∀ run' ∈ config.world.calls,
    run.call.spec.mutation = true → run'.call.spec.mutation = true →
      run.call.requestId = run'.call.requestId →
        run.call.spec.name = run'.call.spec.name ∧ run.call.arguments = run'.call.arguments
  /-- The request of a ledger row never changes. -/
  kept : ∀ requestId row config', config.world.db.effect requestId = some row →
    (system host).Reachable (fun _ _ => True) config config' →
      ∃ row', config'.world.db.effect requestId = some row' ∧ row'.toolName = row.toolName ∧
        row'.requestJson = row.requestJson ∧ row'.requestSha256 = row.requestSha256
  /-- A mutation begins over an `EXECUTING` row, unless another process has changed its state. -/
  executing : ∀ pid process handled, config.procs[pid]? = some process →
    process.nextOp = some (.handler handled) → handled.spec.mutation = true →
      BoundTo config.world handled ∧
        ExecutingUnlessOvertaken host config pid handled.requestId

/-- Whatever the interleaving, with an injective digest, all mutations under one request id are
one effect: that of the ledger row. -/
theorem effect_binding (host : Host) (injective : Function.Injective host.sha256)
    (config : KernelConfig)
    (reached : (system host).Reachable (fun _ _ => True) KernelConfig.initial config) :
    EffectBinding host config where
  invoked := invoked_bound injective reached
  one := by
    intro run invoked run' invoked' mutation mutation' sameId
    have bound := invoked_bound injective reached run invoked mutation
    have bound' := invoked_bound injective reached run' invoked' mutation'
    exact bound.same bound' sameId
  kept := by
    intro requestId row config' stored later
    obtain ⟨row', stored', same⟩ := effect_kept reached later stored
    exact ⟨row', stored', same.toolName, same.requestJson, same.requestSha256⟩
  executing := by
    intro pid process handled found next mutation
    have member := List.mem_of_getElem? found
    have rule : CallRule host process.call process.log (.handler handled) :=
      next_rule reached member next
    constructor
    · exact rule.bound injective reached (reachable_known reached _ member) mutation
    · refine executing_unless_overtaken reached pid process handled.requestId found ?_
      simp [dispatching, next, HandlerCall.mutates, mutation]

/-- The binding in a run that invokes one mutation three times, from three processes. -/
theorem effect_binding_race :
    Function.Injective plainHost.sha256 ∧
    ∃ config, (system plainHost).Reachable (fun _ _ => True) KernelConfig.initial config ∧
      invocations config.world "q" = 3 ∧ EffectBinding plainHost config := by
  refine ⟨Function.injective_id, ?_⟩
  have ran : ((system plainHost).run (fun _ _ => true) KernelConfig.initial racingReentries).any
      (fun config => decide (invocations config.world "q" = 3)) = true := by decide +kernel
  obtain ⟨config, reached, thrice⟩ := System.Reachable.exists_of_run racingReentries ran
  have anyRun : (system plainHost).Reachable (fun _ _ => True) KernelConfig.initial config :=
    reached.mono fun _ _ _ => trivial
  exact ⟨config, anyRun, by simpa using thrice,
    effect_binding plainHost Function.injective_id config anyRun⟩

end PreActive.Kernel
