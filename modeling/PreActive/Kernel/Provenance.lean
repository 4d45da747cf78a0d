/-
Module: PreActive.Kernel.Provenance
Purpose: Where the results in the effect ledger come from: a handler of the tool, or the report of
  a host that reconciled the request.
Trusted boundary: human-reviewed spec
Main exports: Recorded, ResultsRecorded, ResultKnown, reachable_results
-/
import PreActive.Kernel.Knowledge

namespace PreActive.Kernel

open PreActive.Foundation PreActive.Python

/-- The text is a result of the tool that was recorded for the request. -/
inductive Recorded (world : World) (toolName requestId text : String) : Prop where
  | handled (run : HandlerRun) (output : PyVal) (ran : run ∈ world.calls)
      (ofTool : run.call.spec.name = toolName) (ofRequest : run.call.requestId = requestId)
      (returned : run.output = .ok output) (printed : canonicalJson output = .ok text)
  | reported (row : ReconciliationRow) (reported : row ∈ world.db.reconciliations)
      (ofRequest : row.requestId = requestId) (occurred : row.effectOccurred = true)
      (result : row.resultJson = some text)

/-- Every committed row holds a recorded result. -/
def ResultsRecorded (world : World) : Prop :=
  ∀ requestId row, world.db.effect requestId = some row → row.state = .committed →
    ∃ text, row.resultJson = some text ∧ Recorded world row.toolName requestId text

/-- What an entry of a history says about results. -/
structure ResultKnown (entry : Entry kernel Exc) (world : World) : Prop where
  selected : ∀ requestId row, entry = ⟨.sql (.selectEffect requestId), .ok (some row)⟩ →
    row.state = .committed →
      ∃ text, row.resultJson = some text ∧ Recorded world row.toolName requestId text
  ran : ∀ handled output, entry = ⟨.handler handled, output⟩ → ⟨handled, output⟩ ∈ world.calls

variable {host : Host} {world : World} {op : Op} {log : History} {config : KernelConfig}

/-! ### One step -/

theorem calls_kept (host : Host) (answer : Answer) (op : Op) {run : HandlerRun}
    (ran : run ∈ world.calls) : run ∈ (op.answer host answer world).2.calls := by
  rcases calls_change host world answer op with same | ⟨call, _, added⟩
  · rw [same]
    exact ran
  · rw [added]
    exact List.mem_append_left _ ran

theorem reconciliations_kept (host : Host) (answer : Answer) (issued : op.issued)
    {row : ReconciliationRow} (reported : row ∈ world.db.reconciliations) :
    row ∈ (op.answer host answer world).2.db.reconciliations := by
  rcases reconciliations_change host world answer issued with
    ⟨same, _⟩ | ⟨requestId, occurred, digest, resultJson, resultDigest, now, _, _, _, _, added⟩
  · rw [same]
    exact reported
  · rw [added]
    exact List.mem_append_left _ reported

/-- What was recorded stays recorded. -/
theorem Recorded.later {toolName requestId text : String}
    (recorded : Recorded world toolName requestId text) (host : Host) (answer : Answer)
    (issued : op.issued) : Recorded (op.answer host answer world).2 toolName requestId text := by
  cases recorded with
  | handled run output ran ofTool ofRequest returned printed =>
      exact .handled run output (calls_kept host answer op ran) ofTool ofRequest returned printed
  | reported row reported ofRequest occurred result =>
      exact .reported row (reconciliations_kept host answer issued reported) ofRequest occurred
        result

theorem ResultKnown.later {entry : Entry kernel Exc} (known : ResultKnown entry world)
    (host : Host) (answer : Answer) (issued : op.issued) :
    ResultKnown entry (op.answer host answer world).2 where
  selected := by
    intro requestId row same committed
    obtain ⟨text, result, recorded⟩ := known.selected requestId row same committed
    exact ⟨text, result, recorded.later host answer issued⟩
  ran := fun handled output same => calls_kept host answer op (known.ran handled output same)

theorem ResultKnown.of_answer (host : Host) (answer : Answer) (op : Op)
    (results : ResultsRecorded world) :
    ResultKnown ⟨op, (op.answer host answer world).1⟩ (op.answer host answer world).2 where
  selected := by
    intro requestId row same committed
    obtain ⟨rfl, answered⟩ := Entry.mk.inj same
    rw [heq_eq_eq] at answered
    cases faulty : answer.fault with
    | some fault => simp [Op.answer, faulty] at answered
    | none =>
        simp only [Op.answer, faulty, Stmt.exec, Except.ok.injEq] at answered ⊢
        exact results requestId row answered committed
  ran := by
    intro handled output same
    obtain ⟨rfl, answered⟩ := Entry.mk.inj same
    rw [heq_eq_eq] at answered
    rw [← answered]
    exact List.mem_append_right _ (List.mem_singleton.2 rfl)

/-- The result a process commits is that of the handler it invoked just before. -/
theorem committing_recorded {call : Call} {requestId resultJson resultSha256 : String}
    {now : Time}
    (rule : CallRule host call log (.sql (.commitEffect requestId resultJson resultSha256 now)))
    (lawful : System.Reachable.Lawful (CallRule host call) log)
    (known : System.Reachable.Learned (fun _ entry world => Known entry world) world log)
    (learned : System.Reachable.Learned (fun _ entry world => ResultKnown entry world) world log) :
    ∃ row, world.db.effect requestId = some row ∧
      Recorded world row.toolName requestId resultJson := by
  obtain ⟨registry, enter, _, handled, output, older, rfl, mutation, rfl, printed, _⟩ :=
    rule.tool rfl
  obtain ⟨row, stored, sameTool⟩ := handled_stored known lawful List.mem_cons_self mutation
  exact ⟨row, stored, .handled ⟨handled, .ok output⟩ output (learned.1.ran _ _ rfl) sameTool.symm
    rfl rfl printed⟩

/-- A host that confirms an effect reports its result. -/
theorem CallRule.reconcile_result {call : Call} {requestId digest : String} {occurred : Bool}
    {resultJson resultDigest : Option String} {now : Time}
    (rule : CallRule host call log
      (.transaction (.reconcile requestId occurred digest resultJson resultDigest now))) :
    resultJson.isSome = occurred := by
  cases call with
  | reconcile target effectOccurred evidenceDigest started result => exact rule.2
  | _ => exact rule.elim

/-- Every step of a process keeps the results recorded. -/
theorem ResultsRecorded.answer {call : Call} {answer : Answer}
    (rule : CallRule host call log op)
    (lawful : System.Reachable.Lawful (CallRule host call) log)
    (known : System.Reachable.Learned (fun _ entry world => Known entry world) world log)
    (learned : System.Reachable.Learned (fun _ entry world => ResultKnown entry world) world log)
    (results : ResultsRecorded world) : ResultsRecorded (op.answer host answer world).2 := by
  cases faulty : answer.fault with
  | some fault =>
      intro requestId row stored committed
      rw [Op.answer_fault faulty] at stored
      obtain ⟨text, result, recorded⟩ := results requestId row stored committed
      exact ⟨text, result, recorded.later host answer rule.issued⟩
  | none =>
      intro requestId row stored committed
      have change := ledgerChange host world answer rule.issued requestId
      rw [stored] at change
      generalize before : world.db.effect requestId = old at change
      cases change with
      | keep =>
          obtain ⟨text, result, recorded⟩ := results requestId row before committed
          exact ⟨text, result, recorded.later host answer rule.issued⟩
      | enter named =>
          obtain ⟨registry, enter, _, entered, allowed, spec, now, _, _, _, rfl⟩ := rule.tool rfl
          cases committed
      | reenter => cases committed
      | attempt => cases committed
      | @commit old resultJson resultSha256 now =>
          obtain ⟨row, stored, recorded⟩ := committing_recorded rule lawful known learned
          obtain rfl := Option.some.inj (before.symm.trans stored)
          exact ⟨resultJson, rfl, recorded.later host answer rule.issued⟩
      | @reconcile old occurred digest resultJson resultDigest now unresolved =>
          have reports := rule.reconcile_result
          cases occurred with
          | false => cases committed
          | true =>
              obtain ⟨text, rfl⟩ := Option.isSome_iff_exists.1 reports
              refine ⟨text, rfl, ?_⟩
              rcases reconciliations_change host world answer rule.issued with
                ⟨_, unchanged⟩ | ⟨_, _, _, _, _, _, _, same, _, _, added⟩
              · -- a block that was rolled back leaves the row unresolved
                rw [unchanged rfl, before] at stored
                have settled := congrArg EffectRow.state (Option.some.inj stored)
                rw [settled] at unresolved
                cases unresolved
              · simp only [Op.transaction.injEq, Transaction.reconcile.injEq] at same
                obtain ⟨rfl, rfl, rfl, rfl, rfl, rfl⟩ := same
                rw [added]
                exact .reported ⟨requestId, true, digest, some text, now⟩
                  (List.mem_append_right _ (List.mem_singleton.2 rfl)) rfl rfl rfl

/-- In every reachable state the committed rows hold recorded results, and so does what any
process has seen of them. -/
theorem reachable_results {steps : KernelConfig → Label Answer Call → Prop}
    (reached : (system host).Reachable steps KernelConfig.initial config) :
    ResultsRecorded config.world ∧ ∀ process ∈ config.procs,
      System.Reachable.Learned (fun _ entry world => ResultKnown entry world) config.world
        process.log := by
  refine reached.learned_with (I := ResultsRecorded)
    (fun _ _ entry world => ResultKnown entry world) ?_ ?_ ?_ ?_ rfl
  · intro requestId row stored
    cases stored
  · intro config pid call op next log answer before found _ results learned
    have member := List.mem_of_getElem? found
    exact results.answer (reachable_rule before _ member).head (reachable_lawful before _ member)
      (reachable_known before _ member) learned
  · intro config pid call op next log answer _ _ _ results _
    exact .of_answer host answer op results
  · intro config pid call op next log answer before found _ _ _ older entry known
    exact known.later host answer (reachable_rule before _ (List.mem_of_getElem? found)).head.issued

end PreActive.Kernel
