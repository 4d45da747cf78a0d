/-
Module: PreActive.Kernel.Integrity
Purpose: What every stored row is worth: its texts read back, its references lead somewhere, and its
  columns agree with its status.
Trusted boundary: human-reviewed spec of the rows
Main exports:
  EventRow.Intact, RunRow.Intact, DecisionRow.Intact, MessageRow.Intact, EffectRow.Intact,
  ReconciliationRow.Intact, Db.Intact, store_intact
-/
import PreActive.Kernel.Binding
import PreActive.Kernel.EventSteps
import PreActive.Kernel.Hosting
import PreActive.Kernel.Recovery
import PreActive.Kernel.Requests
import PreActive.Python.JsonOrder

namespace PreActive.Kernel

open PreActive.Foundation PreActive.Python
open Program.Obeys

/-! ### Rows -/

/-- The payload of the event reads back as an object, it is leased exactly while it is claimed, and
it was tried if it is not waiting. -/
structure EventRow.Intact (row : EventRow) : Prop where
  payload : ∃ payload : JsonObject, loads row.payloadJson = .ok payload.value
  leased : row.leaseOwner.isSome = true ↔ row.status = .claimed
  expires : row.leaseUntil.isSome = row.leaseOwner.isSome
  tried : row.status ≠ .pending → 0 < row.attempts

/-- The capabilities of the run read back as a set of names, and its columns agree with its
status. -/
structure RunRow.Intact (row : RunRow) : Prop where
  capabilities : ∃ names : List String, names.Pairwise (· ≤ ·) ∧ names.Nodup ∧
    loads row.capabilitiesJson = .ok (.list (names.map .str))
  running : row.status = .running → row.blockedRequestId = none ∧ row.finalText = none
  blocked : row.status = .blockedEffect → row.blockedRequestId.isSome = true ∧ row.finalText = none
  completed : row.status = .completed → row.finalText.isSome = true
  failed : row.status = .failed → row.lastError.isSome = true

/-- The decision reads back as a response, for a step that its run has reached. -/
structure DecisionRow.Intact (host : Host) (db : Db) (row : DecisionRow) : Prop where
  response : ∃ response, decodeDecision host row.decisionJson = .ok response
  run : ∃ run, db.run row.runId = some run ∧ row.step ≤ run.stepCount

/-- The message is of a run, has a key, and is no prompt. -/
structure MessageRow.Intact (db : Db) (row : MessageRow) : Prop where
  run : ∃ run, db.run row.runId = some run
  keyed : row.messageKey.isSome = true
  role : row.role = .assistant ∨ row.role = .tool

/-- The request of the ledger row reads back as a call of its tool, under its digest, and a result,
which a committed row has, reads back under its own. -/
structure EffectRow.Intact (host : Host) (row : EffectRow) : Prop where
  request : ∃ requestJson payload call, row.requestJson = some requestJson ∧
    loads requestJson = .ok payload ∧ storedCall host row.requestId payload = .ok call ∧
      row.admits host call
  digest : row.resultSha256 = row.resultJson.map host.sha256
  result : ∀ text, row.resultJson = some text → ∃ value, loads text = .ok value
  committed : row.state = .committed → row.resultJson.isSome = true

/-- The report is of an effect in the ledger, with evidence, and has a result that reads back if the
effect occurred. -/
structure ReconciliationRow.Intact (host : Host) (db : Db) (row : ReconciliationRow) : Prop where
  effect : ∃ effect, db.effect row.requestId = some effect
  evidence : ∃ digest, isEvidenceDigest digest = true ∧ row.evidenceDigest = host.lower digest
  occurred : row.resultJson.isSome = row.effectOccurred
  result : ∀ text, row.resultJson = some text → ∃ value, loads text = .ok value

/-- Every stored row is intact. -/
structure Db.Intact (host : Host) (db : Db) : Prop where
  events : ∀ row ∈ db.events.rows, row.Intact
  runs : ∀ row ∈ db.runs.rows, row.Intact
  decisions : ∀ row ∈ db.decisions.rows, row.Intact host db
  messages : ∀ row ∈ db.messages.rows, row.Intact db
  effects : ∀ row ∈ db.effects.rows, row.Intact host
  reconciliations : ∀ row ∈ db.reconciliations, row.Intact host db

variable {host : Host} {log : History} {requestId : String} {now : Time} {world : World} {op : Op}
variable {config : KernelConfig}

/-! ### What a host reports -/

/-- A reconciliation carries evidence, and a result with its digest if the effect occurred. -/
def Reports (host : Host) (_ : History) : Op → Prop
  | .transaction (.reconcile _ occurred digest resultJson resultDigest _) =>
      (∃ evidence, isEvidenceDigest evidence = true ∧ digest = host.lower evidence) ∧
        resultJson.isSome = occurred ∧ resultDigest = resultJson.map host.sha256 ∧
          ∀ text, resultJson = some text → ∃ value, canonicalJson value = .ok text
  | _ => True

theorem reconcile_reports {effectOccurred : Bool} {evidenceDigest : String}
    {result : Option PyVal} :
    (reconcile host requestId effectOccurred evidenceDigest now result).Obeys (Reports host)
      (returns fun _ _ => True) log := by
  simp only [reconcile, Transaction.perform, Op.perform, Program.perform, Program.bind_eq_bind,
    Program.call_bind]
  split
  · exact of_raise
  · rename_i wellFormed
    have evidence : isEvidenceDigest evidenceDigest = true := by simpa using wellFormed
    apply afterCall trivial
    intro found
    cases found with
    | none => exact of_raise
    | some row =>
        simp only
        split
        · exact of_raise
        · split
          · exact of_raise
          · exact of_raise
          · rename_i value
            apply (of_ofExcept (Q := fun _ text => canonicalJson value = .ok text)
              fun _ written => written).seq
            intro log' json _ written
            refine ⟨⟨⟨_, evidence, rfl⟩, rfl, rfl, ?_⟩, fun result => ?_⟩
            · rintro text ⟨⟩
              exact ⟨value, written⟩
            · cases result <;> trivial
          · refine ⟨⟨⟨_, evidence, rfl⟩, rfl, rfl, ?_⟩, fun result => ?_⟩
            · rintro _ ⟨⟩
            · cases result <;> trivial

theorem program_reports (host : Host) (call : Call) :
    (call.program host).Obeys (Reports host) Program.anyOutcome [] := by
  have quiet : (∀ log op, CallRule host call log op → Reports host log op) →
      (call.program host).Obeys (Reports host) Program.anyOutcome [] := fun reports =>
    (program_obeys host call).mono (fun log op rule => reports log op rule) fun _ _ ends => ends
  cases call with
  | reconcile requestId effectOccurred evidenceDigest now result =>
      exact reconcile_reports.weaken fun _ _ _ => trivial
  | _ =>
      apply quiet
      intro log op rule
      cases op with
      | transaction block => cases block <;> trivial
      | _ => trivial

/-! ### Events and runs -/

/-- A fresh event is intact. -/
theorem EventRequest.intact (request : EventRequest) (eventId : String) :
    (request.row eventId).Intact where
  payload := ⟨request.payload, JsonObject.loads_text compactStyle request.payload⟩
  leased := by simp [EventRequest.row]
  expires := rfl
  tried waits := absurd rfl waits

theorem EventRow.Intact.claimedBy {row : EventRow} (intact : row.Intact) (workerId : String)
    (leaseUntil : Time) (attempts : Nat) (now : Time) :
    (row.claimedBy workerId leaseUntil (attempts + 1) now).Intact where
  payload := intact.payload
  leased := by simp [EventRow.claimedBy]
  expires := rfl
  tried _ := Nat.succ_pos attempts

theorem EventRow.Intact.acked {row : EventRow} (intact : row.Intact)
    (claimed : row.status = .claimed) (now : Time) : (row.acked now).Intact where
  payload := intact.payload
  leased := by simp [EventRow.acked]
  expires := rfl
  tried _ := intact.tried (by simp [claimed])

theorem EventRow.Intact.released {row : EventRow} (intact : row.Intact) (availableAt now : Time) :
    (row.released availableAt now).Intact where
  payload := intact.payload
  leased := by simp [EventRow.released]
  expires := rfl
  tried waits := absurd rfl waits

/-- A step keeps the events intact. -/
theorem EventsStep.intact {events events' : List EventRow} (step : EventsStep op events events')
    (held : ∀ row ∈ events, row.Intact) : ∀ row ∈ events', row.Intact := by
  intro row' stored
  cases step with
  | keep => exact held row' stored
  | insert eventId inserts fresh =>
      rcases List.mem_append.1 stored with old | new
      · exact held row' old
      · rw [List.mem_singleton.1 new]
        exact EventRequest.intact _ eventId
  | claim isClaim found =>
      obtain ⟨row, member, rfl⟩ := List.mem_map.1 stored
      split
      · exact (held row member).claimedBy _ _ _ _
      · exact held row member
  | ack isAck =>
      obtain ⟨row, member, rfl⟩ := List.mem_map.1 stored
      split
      · rename_i isHeld
        simp only [EventRow.heldBy, Bool.and_eq_true, beq_iff_eq] at isHeld
        exact (held row member).acked isHeld.1.2 _
      · exact held row member
  | release isRelease =>
      obtain ⟨row, member, rfl⟩ := List.mem_map.1 stored
      split
      · exact (held row member).released _ _
      · exact held row member

/-- The capabilities of a run read back as they were written: sorted, and without repetitions. -/
theorem loads_capabilitiesText (capabilities : List String) :
    loads (capabilitiesText capabilities) =
      .ok (.list ((capabilities.dedup.insertionSort (· ≤ ·)).map .str)) := by
  have json : ∀ names : List String, isJsonItems (names.map .str) = true := by
    intro names
    induction names with
    | nil => rfl
    | cons name names ih => simp [isJsonItems, isJson, ih]
  have isList : isJson (.list ((capabilities.dedup.insertionSort (· ≤ ·)).map .str)) = true := by
    simp only [isJson, json]
  obtain ⟨text, written, read⟩ := loads_dumps defaultStyle isList
  simpa [capabilitiesText, written, Except.toOption] using read

/-- A created run is intact. -/
theorem newRunRow_intact (task : String) (capabilities : List String) (now : Time)
    (sourceEventId : Option String) (runId : String) :
    (newRunRow task capabilities now sourceEventId runId).Intact where
  capabilities := by
    refine ⟨capabilities.dedup.insertionSort (· ≤ ·), ?_, ?_, loads_capabilitiesText capabilities⟩
    · exact List.pairwise_insertionSort (· ≤ ·) _
    · exact (List.perm_insertionSort (· ≤ ·) _).nodup_iff.2 (List.nodup_dedup capabilities)
  running _ := ⟨rfl, rfl⟩
  blocked impossible := nomatch impossible
  completed impossible := nomatch impossible
  failed impossible := nomatch impossible

theorem RunRow.Intact.updated {row : RunRow} {change : RunChange} (intact : row.Intact)
    (issued : change.Issued) : (change.apply row).Intact := by
  cases issued with
  | complete now text =>
      refine ⟨intact.capabilities, ?_, ?_, fun _ => rfl, ?_⟩ <;> intro status <;> cases status
  | fail now error =>
      refine ⟨intact.capabilities, ?_, ?_, ?_, fun _ => rfl⟩ <;> intro status <;> cases status
  | note now error =>
      refine ⟨intact.capabilities, intact.running, intact.blocked, ?_, fun _ => rfl⟩
      exact intact.completed

theorem RunRow.Intact.advanced {row : RunRow} (intact : row.Intact)
    (running : row.status = .running) (now : Time) : (row.advanced now).Intact := by
  refine ⟨intact.capabilities, intact.running, intact.blocked, intact.completed, ?_⟩
  intro failed
  cases running.symm.trans failed

theorem RunRow.Intact.blockedOn {row : RunRow} (intact : row.Intact)
    (running : row.status = .running) (requestId error : String) (now : Time) :
    (row.blocked requestId error now).Intact := by
  refine ⟨intact.capabilities, ?_, fun _ => ⟨rfl, (intact.running running).2⟩, ?_, ?_⟩ <;>
    intro status <;> cases status

theorem RunRow.Intact.resumed {row : RunRow} (intact : row.Intact)
    (blocked : row.status = .blockedEffect) (now : Time) : (row.resumed now).Intact := by
  refine ⟨intact.capabilities, fun _ => ⟨rfl, (intact.blocked blocked).2⟩, ?_, ?_, ?_⟩ <;>
    intro status <;> cases status

/-- A step keeps a run intact. -/
theorem RunStep.intact {runId : String} {before after : Option RunRow}
    (step : RunStep runId op before after) (held : ∀ run, before = some run → run.Intact) :
    ∀ run, after = some run → run.Intact := by
  cases step with
  | keep => exact held
  | create =>
      rintro _ ⟨⟩
      exact newRunRow_intact _ _ _ _ runId
  | update issued =>
      rintro _ ⟨⟩
      exact (held _ rfl).updated issued
  | block running =>
      rintro _ ⟨⟩
      exact (held _ rfl).blockedOn running _ _ _
  | advance running =>
      rintro _ ⟨⟩
      exact (held _ rfl).advanced running _
  | resume blocked =>
      rintro _ ⟨⟩
      exact (held _ rfl).resumed blocked _

/-! ### The ledger -/

/-- A text that was written as canonical JSON reads back. -/
theorem reads_of_canonicalJson {text : String} (written : ∃ value, canonicalJson value = .ok text) :
    ∃ value, loads text = .ok value := by
  obtain ⟨value, written⟩ := written
  exact ⟨reread value, loads_of_dumps written⟩

/-- A freshly admitted request is intact. -/
theorem freshEffect_intact (host : Host) (call : ToolCall) (now : Time) :
    (freshEffect host call now).Intact host where
  request := ⟨_, _, call, rfl, JsonObject.loads_text canonicalStyle _,
    storedCall_requestPayload call, rfl, rfl⟩
  digest := rfl
  result _ impossible := nomatch impossible
  committed impossible := nomatch impossible

/-- A result with its digest keeps the row intact. -/
theorem EffectRow.Intact.withResult {row : EffectRow} {text : String} (intact : row.Intact host)
    (reads : ∃ value, loads text = .ok value) (now : Time) :
    (row.committed text (host.sha256 text) now).Intact host where
  request := intact.request
  digest := rfl
  result := by
    rintro _ ⟨⟩
    exact reads
  committed _ := rfl

/-- Without a result the row is intact while it is not committed. -/
theorem EffectRow.Intact.withoutResult {row row' : EffectRow} (intact : row.Intact host)
    (same : row.SameRequest row') (json : row'.resultJson = none)
    (digest : row'.resultSha256 = none) (uncommitted : row'.state ≠ .committed) :
    row'.Intact host where
  request := by
    obtain ⟨requestJson, payload, call, stored, read, decoded, admits⟩ := intact.request
    refine ⟨requestJson, payload, call, same.requestJson.trans stored, read, ?_, same.admits admits⟩
    rw [same.requestId]
    exact decoded
  digest := by rw [json, digest]; rfl
  result text isText := by rw [json] at isText; cases isText
  committed isCommitted := absurd isCommitted uncommitted

theorem EffectRow.Intact.attempted {row : EffectRow} (intact : row.Intact host) (now : Time) :
    (row.attempted now).Intact host where
  request := intact.request
  digest := intact.digest
  result := intact.result
  committed impossible := nomatch impossible

/-- A step that keeps to the rules keeps the ledger row intact. -/
theorem LedgerChange.intact {call : Call} {before after : Option EffectRow}
    (change : LedgerChange requestId op before after) (rule : CallRule host call log op)
    (reports : Reports host log op) (held : ∀ row, before = some row → row.Intact host) :
    ∀ row, after = some row → row.Intact host := by
  cases change with
  | keep => exact held
  | enter named =>
      obtain ⟨_, _, _, entered, _, _, now, _, _, _, rfl⟩ := rule.tool rfl
      rintro _ ⟨⟩
      exact freshEffect_intact host entered now
  | @reenter row now =>
      rintro _ ⟨⟩
      exact (held row rfl).withoutResult ⟨rfl, rfl, rfl, rfl, rfl⟩ rfl rfl
        (by simp [EffectRow.readmitted])
  | @attempt row now =>
      rintro _ ⟨⟩
      exact (held row rfl).attempted now
  | @commit row text digest now =>
      obtain ⟨_, _, _, _, output, _, _, _, _, written, rfl⟩ := rule.tool rfl
      rintro _ ⟨⟩
      exact (held row rfl).withResult (reads_of_canonicalJson ⟨output, written⟩) now
  | @reconcile row occurred evidence resultJson digest now unresolved =>
      obtain ⟨_, rfl, rfl, written⟩ := reports
      rintro _ ⟨⟩
      cases resultJson with
      | none =>
          exact (held row rfl).withoutResult ⟨rfl, rfl, rfl, rfl, rfl⟩ rfl rfl
            (by simp [EffectRow.reconciled, EffectRow.cleared])
      | some text => exact (held row rfl).withResult (reads_of_canonicalJson (written text rfl)) now

/-! ### Decisions, messages and reports -/

theorem DecisionRow.Intact.later {row : DecisionRow} (intact : row.Intact host world.db)
    (answer : Answer) (issued : op.issued) :
    row.Intact host (op.answer host answer world).2.db where
  response := intact.response
  run := by
    obtain ⟨run, stored, isReached⟩ := intact.run
    obtain ⟨run', stored', evolves⟩ := run_evolves host answer issued stored
    exact ⟨run', stored', isReached.trans evolves.stepCount⟩

theorem MessageRow.Intact.later {row : MessageRow} (intact : row.Intact world.db) (answer : Answer)
    (issued : op.issued) : row.Intact (op.answer host answer world).2.db where
  run := by
    obtain ⟨run, stored⟩ := intact.run
    obtain ⟨run', stored', _⟩ := run_evolves host answer issued stored
    exact ⟨run', stored'⟩
  keyed := intact.keyed
  role := intact.role

theorem ReconciliationRow.Intact.later {row : ReconciliationRow} (intact : row.Intact host world.db)
    (answer : Answer) (issued : op.issued) :
    row.Intact host (op.answer host answer world).2.db where
  effect := by
    obtain ⟨effect, stored⟩ := intact.effect
    obtain ⟨effect', stored', _⟩ := effect_sameRequest host answer issued stored
    exact ⟨effect', stored'⟩
  evidence := intact.evidence
  occurred := intact.occurred
  result := intact.result

section Reached

variable {steps : KernelConfig → Label Answer Call → Prop}
variable (reached : (system host).Reachable steps KernelConfig.initial config)
include reached

/-- A worker decides for a run that is stored, at a step that it has reached. -/
theorem inserted_decision {call : Call} {row : DecisionRow} {next : Except Exc Unit → Proc Unit}
    (member : ⟨call, .call (F := kernel) (.sql (.insertDecision row)) next, log, true⟩ ∈
      config.procs) : row.Intact host config.world.db := by
  have rule := (reachable_rule reached _ member).head
  cases call with
  | runOnce engine now =>
      obtain ⟨claim, event, run, response, stepping, same, text, _⟩ := rule
      obtain ⟨run', stored, evolves⟩ := Saw.run (reachable_known reached _ member) stepping.selected
      constructor
      · exact ⟨response, text ▸ decodeDecision_text host response⟩
      · exact ⟨run', stored, same ▸ evolves.stepCount⟩
  | _ => exact rule.elim

/-- A message is added under a key, to a run that is stored. -/
theorem inserted_message {call : Call} {row : MessageRow} {next : Except Exc Unit → Proc Unit}
    (member : ⟨call, .call (F := kernel) (.sql (.insertMessage row)) next, log, true⟩ ∈
      config.procs) : row.Intact config.world.db := by
  have rule := (reachable_rule reached _ member).head
  have known := reachable_known reached _ member
  cases call with
  | runOnce engine now =>
      obtain ⟨claim, event, run, stepping, added⟩ := rule
      obtain ⟨run', stored, _⟩ := Saw.run known stepping.selected
      rcases added with ⟨_, _, role, _, key⟩ | ⟨_, _, role, _, key⟩ | ⟨_, _, _, role, _, _, key⟩
      · exact ⟨⟨run', stored⟩, by simp [key], .inl role⟩
      · exact ⟨⟨run', stored⟩, by simp [key], .inl role⟩
      · exact ⟨⟨run', stored⟩, by simp [key], .inr role⟩
  | resumeBlockedEffect registry runId now =>
      obtain ⟨rfl, run, _, _, resuming, _, role, _, key⟩ := rule
      obtain ⟨run', stored, _⟩ := Saw.run known resuming.selected
      exact ⟨⟨run', stored⟩, by simp [key], .inr role⟩
  | _ => exact rule.elim

/-- One operation keeps every row intact. -/
theorem intact_keeps {call : Call} {next : Except Exc op.Result → Proc Unit}
    (member : ⟨call, .call (F := kernel) op next, log, true⟩ ∈ config.procs)
    (held : config.world.db.Intact host) (answer : Answer) :
    (op.answer host answer config.world).2.db.Intact host := by
  have rule := (reachable_rule reached _ member).head
  have issued := rule.issued
  have reports := (reached.obeys (program_reports host) rfl _ member).head
  constructor
  · exact (eventsStep host config.world answer issued).intact held.events
  · intro run' stored
    have step := runStep host config.world answer issued run'.id
    refine step.intact (fun run isRun => ?_) run' (Db.run_eq_some.2 ⟨stored, rfl⟩)
    exact held.runs run (Db.run_eq_some.1 isRun).1
  · intro row stored
    rcases decisions_change host config.world answer op with same | ⟨fresh, rfl, inserted⟩
    · exact (held.decisions row (same ▸ stored)).later answer issued
    · rw [Table.rows_insert inserted, List.mem_append, List.mem_singleton] at stored
      rcases stored with old | rfl
      · exact (held.decisions row old).later answer issued
      · exact (inserted_decision reached member).later answer issued
  · intro row stored
    rcases messages_change host config.world answer op with same | ⟨fresh, rfl, inserted⟩
    · exact (held.messages row (same ▸ stored)).later answer issued
    · rw [Table.rows_insert inserted, List.mem_append, List.mem_singleton] at stored
      rcases stored with old | rfl
      · exact (held.messages row old).later answer issued
      · exact (inserted_message reached member).later answer issued
  · intro row' stored
    have change := ledgerChange host config.world answer issued row'.requestId
    refine change.intact rule reports (fun row isRow => ?_) row' (Db.effect_eq_some.2 ⟨stored, rfl⟩)
    exact held.effects row (Db.effect_eq_some.1 isRow).1
  · intro row stored
    rcases reconciliations_change host config.world answer issued with
      ⟨same, _⟩ |
        ⟨requestId, occurred, digest, resultJson, resultDigest, now, effect, rfl, isEffect, _,
          world'⟩
    · exact (held.reconciliations row (same ▸ stored)).later answer issued
    · rw [world'] at stored
      rcases List.mem_append.1 stored with old | new
      · exact (held.reconciliations row old).later answer issued
      · rw [List.mem_singleton.1 new]
        obtain ⟨evidence, same, _, written⟩ := reports
        apply ReconciliationRow.Intact.later _ answer issued
        exact ⟨⟨effect, isEffect⟩, evidence, same, fun text isText =>
          reads_of_canonicalJson (written text isText)⟩

/-- Whatever the kernel's calls do, every row stays intact. -/
theorem reachable_intact : config.world.db.Intact host := by
  refine reached.invariant (I := fun config => config.world.db.Intact host) ?_ ?_
  · constructor <;> intro row stored <;> cases stored
  · intro config label config' before held _ stepped
    cases Steps.of_step stepped with
    | spawn call => exact held
    | die found => exact held
    | act found => exact intact_keeps before (List.mem_of_getElem? found) held _

end Reached

/-- Whatever daemons, command lines, schedulers and hosts do on one database, and wherever they die,
every stored row reads back as what it was written for, refers to rows that exist, and has the
columns that its status calls for. -/
theorem store_intact (host : Host) (allowed : DaemonConfig → Label Answer DaemonCall → Prop)
    (config : DaemonConfig)
    (reached : (daemons host).Reachable allowed DaemonConfig.initial config) :
    config.world.world.db.Intact host := by
  obtain ⟨base, place, moves, served⟩ := (served_initial host allowed).run reached
  rw [← served.world]
  exact reachable_intact moves

/-- The model asks for a payment, and the payment does not answer. -/
def unanswered : Answer where
  fault := none
  response := .ok (.toolCall (payCall "q"))
  output := .error ⟨.other "TimeoutError", "no answer"⟩

/-- A daemon is blocked on a payment, which a host reports to have occurred, and a second host
resumes the run. -/
def reportedPayment : List (Label Answer DaemonCall) :=
  [.spawn (.main (.submit "task" ["money"]) 0 []), .act 0 .quiet,
    .spawn (.cycle (payEngine "a") 5)] ++ List.replicate 18 (.act 1 unanswered) ++
  [.spawn (.direct (.reconcile "q" true someEvidence 6 (some (.dict [])))), .act 2 .quiet,
    .act 2 .quiet, .spawn (.direct (.resumeBlockedEffect payRegistry "id-0" 7))] ++
  List.replicate 4 (.act 3 .quiet)

set_option maxRecDepth 10000 in
/-- By then there is a row of every kind. -/
theorem store_intact_reported :
    ∃ config, (daemons plainHost).Reachable (fun _ _ => true = true) DaemonConfig.initial config ∧
      config.world.world.db.runs.rows.map RunRow.stepCount = [1] ∧
      config.world.world.db.events.rows.map EventRow.kind = ["run.step", "run.step"] ∧
      config.world.world.db.decisions.rows.map DecisionRow.step = [0] ∧
      config.world.world.db.messages.rows.map MessageRow.role = [.assistant, .tool] ∧
      config.world.world.db.effects.rows.map EffectRow.state = [.committed] ∧
      config.world.world.db.reconciliations.map ReconciliationRow.requestId = ["q"] ∧
      config.world.world.db.Intact plainHost := by
  have ran : ((daemons plainHost).run (fun _ _ => true) DaemonConfig.initial reportedPayment).any
      (fun config => decide (config.world.world.db.runs.rows.map RunRow.stepCount = [1] ∧
        config.world.world.db.events.rows.map EventRow.kind = ["run.step", "run.step"] ∧
        config.world.world.db.decisions.rows.map DecisionRow.step = [0] ∧
        config.world.world.db.messages.rows.map MessageRow.role = [.assistant, .tool] ∧
        config.world.world.db.effects.rows.map EffectRow.state = [.committed] ∧
        config.world.world.db.reconciliations.map ReconciliationRow.requestId = ["q"])) = true := by
    decide +kernel
  obtain ⟨config, reached, checked⟩ := System.Reachable.exists_of_run _ ran
  obtain ⟨run, events, decision, messages, effect, report⟩ := of_decide_eq_true checked
  exact ⟨config, reached, run, events, decision, messages, effect, report,
    store_intact plainHost _ config reached⟩

end PreActive.Kernel
