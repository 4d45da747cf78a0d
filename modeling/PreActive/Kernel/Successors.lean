/-
Module: PreActive.Kernel.Successors
Purpose: Every running run has the event that lets a worker take its next step.
Trusted boundary: human-reviewed spec
Main exports: EventRow.IsStep, Db.Past, StepsSound, NoStrandedRun, no_stranded_run
-/
import PreActive.Kernel.Knowledge

namespace PreActive.Kernel

open PreActive.Foundation PreActive.Python

/-! ### Step events -/

/-- The event is the `run.step` event of a generation of a run, under the key of the store. -/
structure EventRow.IsStep (runId : String) (step : Nat) (row : EventRow) : Prop where
  kind : row.kind = "run.step"
  payload : row.payloadJson = (runStepPayload runId step).text compactStyle
  key : row.dedupKey = some (runStepKey runId step)

theorem runStepPayload_runId (runId : String) (step : Nat) :
    (runStepPayload runId step).value.get? "run_id" = some (.str runId) := by
  simp [runStepPayload, JsonObject.ofFields, PyVal.ofFields, PyVal.get?, PyVal.lookup]

theorem payloadStep_runStepPayload (runId : String) (step : Nat) :
    payloadStep (runStepPayload runId step).value = some (step : Int) := by
  simp [payloadStep, runStepPayload, JsonObject.ofFields, PyVal.ofFields, PyVal.get?,
    PyVal.lookup, PyVal.asInt?]

theorem runStepPayload_injective {runId runId' : String} {step step' : Nat}
    (same : runStepPayload runId step = runStepPayload runId' step') :
    runId = runId' ∧ step = step' := by
  have runs := runStepPayload_runId runId step
  have steps := payloadStep_runStepPayload runId step
  rw [same, runStepPayload_runId, Option.some.injEq, PyVal.str.injEq] at runs
  rw [same, payloadStep_runStepPayload, Option.some.injEq] at steps
  exact ⟨runs.symm, by omega⟩

/-- A payload names one generation of one run. -/
theorem EventRow.IsStep.unique {runId runId' : String} {step step' : Nat} {row row' : EventRow}
    (isStep : row.IsStep runId step) (isStep' : row'.IsStep runId' step')
    (same : row.payloadJson = row'.payloadJson) : runId = runId' ∧ step = step' := by
  rw [isStep.payload, isStep'.payload] at same
  exact runStepPayload_injective (JsonObject.text_injective _ same)

/-- The run has left the step for good. -/
def Db.Past (db : Db) (runId : String) (step : Nat) : Prop :=
  ∃ run, db.run runId = some run ∧ step ≤ run.stepCount ∧
    (step = run.stepCount → run.status ≠ .running)

/-- The step events of a store: each belongs to a generation its run has reached, an acknowledged
one to a generation its run has left, a leased one can be leased again, and a running run has the
event of its generation. -/
structure StepsSound (db : Db) : Prop where
  steps : ∀ row ∈ db.events.rows, row.kind = "run.step" → ∃ runId step run,
    row.IsStep runId step ∧ db.run runId = some run ∧ step ≤ run.stepCount ∧
      (row.status = .done → db.Past runId step)
  leased : ∀ row ∈ db.events.rows, row.status = .claimed → row.leaseUntil.isSome = true
  next : ∀ runId run, db.run runId = some run → run.status = .running →
    ∃ row ∈ db.events.rows, row.IsStep runId run.stepCount

theorem StepsSound.empty : StepsSound .empty where
  steps := fun _ member => nomatch member
  leased := fun _ member => nomatch member
  next := fun _ _ stored => nomatch stored

variable {host : Host} {db db' : Db} {world mid world' : World}

/-! ### Leaving a step -/

/-- A change of a run that starts no new generation. -/
inductive RunRow.Rests : Option RunRow → Option RunRow → Prop where
  | same {row : Option RunRow} : Rests row row
  | changed {old new : RunRow} (stepCount : old.stepCount ≤ new.stepCount)
      (running : new.status = .running →
        old.status = .running ∧ new.stepCount = old.stepCount) :
      Rests (some old) (some new)

/-- A closed generation is not opened again. -/
theorem RunStep.past {runId : String} {op : Op} {row row' : RunRow} {step : Nat}
    (change : RunStep runId op (some row) (some row')) (reached : step ≤ row.stepCount)
    (left : step = row.stepCount → row.status ≠ .running) :
    step ≤ row'.stepCount ∧ (step = row'.stepCount → row'.status ≠ .running) := by
  cases change with
  | keep => exact ⟨reached, left⟩
  | update issued =>
      cases issued with
      | complete now text => exact ⟨by simp [RunChange.apply]; omega, fun _ => by
          simp [RunChange.apply]⟩
      | fail now error => exact ⟨by simpa [RunChange.apply] using reached, fun _ => by
          simp [RunChange.apply]⟩
      | note now error => exact ⟨reached, left⟩
  | block running => exact ⟨reached, fun _ => by simp [RunRow.blocked]⟩
  | advance running =>
      refine ⟨Nat.le_succ_of_le reached, fun same => ?_⟩
      simp only [RunRow.advanced] at same
      omega
  | resume blocked =>
      refine ⟨Nat.le_succ_of_le reached, fun same => ?_⟩
      simp only [RunRow.resumed] at same
      omega

/-- What a run has left it has left for good. -/
theorem Db.Past.later {runId : String} {step : Nat} {op : Op} (past : world.db.Past runId step)
    (host : Host) (answer : Answer) (issued : op.issued) :
    (op.answer host answer world).2.db.Past runId step := by
  obtain ⟨run, stored, reached, left⟩ := past
  have change := Kernel.runStep host world answer issued runId
  rw [stored] at change
  obtain ⟨run', stored', _⟩ := change.evolves
  rw [stored'] at change
  exact ⟨run', stored', change.past reached left⟩

theorem RunStep.rests {runId : String} {stmt : Stmt} {before after : Option RunRow}
    (change : RunStep runId (.sql stmt) before after) : RunRow.Rests before after := by
  cases change with
  | keep => exact .same
  | update issued =>
      cases issued with
      | complete now text =>
          exact .changed (Nat.le_succ _) fun impossible => nomatch impossible
      | fail now error =>
          exact .changed (le_refl _) fun impossible => nomatch impossible
      | note now error => exact .changed (le_refl _) fun running => ⟨running, rfl⟩
  | block running => exact .changed (le_refl _) fun impossible => nomatch impossible

/-! ### What keeps the step events sound -/

theorem RunRow.Rests.past {before after : Option RunRow} {run : RunRow} {step : Nat}
    (rests : RunRow.Rests before after) (stored : before = some run) (reached : step ≤ run.stepCount)
    (left : step = run.stepCount → run.status ≠ .running) :
    ∃ run', after = some run' ∧ step ≤ run'.stepCount ∧
      (step = run'.stepCount → run'.status ≠ .running) := by
  cases rests with
  | same => exact ⟨run, stored, reached, left⟩
  | changed grows running =>
      obtain rfl := Option.some.inj stored
      refine ⟨_, rfl, reached.trans grows, fun same isRunning => ?_⟩
      obtain ⟨wasRunning, sameStep⟩ := running isRunning
      exact left (same.trans sameStep) wasRunning

/-- Runs that start no new generation keep the step events sound. -/
theorem StepsSound.rest (sound : StepsSound db) (sameEvents : db'.events = db.events)
    (rests : ∀ runId, RunRow.Rests (db.run runId) (db'.run runId)) : StepsSound db' where
  steps := by
    intro row member kind
    rw [sameEvents] at member
    obtain ⟨runId, step, run, isStep, stored, reached, left⟩ := sound.steps row member kind
    have grown : ∃ run', db'.run runId = some run' ∧ run.stepCount ≤ run'.stepCount := by
      have rest := rests runId
      rw [stored] at rest
      generalize db'.run runId = after at rest
      cases rest with
      | same => exact ⟨run, rfl, le_refl _⟩
      | changed grows running => exact ⟨_, rfl, grows⟩
    obtain ⟨run', stored', grows⟩ := grown
    refine ⟨runId, step, run', isStep, stored', reached.trans grows, fun done => ?_⟩
    obtain ⟨old, oldStored, oldReached, oldLeft⟩ := left done
    exact (rests runId).past oldStored oldReached oldLeft
  leased := by
    rw [sameEvents]
    exact sound.leased
  next := by
    intro runId run stored running
    have rest := rests runId
    rw [stored] at rest
    rw [sameEvents]
    generalize before : db.run runId = old at rest
    cases rest with
    | same => exact sound.next runId run before running
    | changed grows kept =>
        obtain ⟨wasRunning, sameStep⟩ := kept running
        rw [sameStep]
        exact sound.next runId _ before wasRunning

/-- An update of events that acknowledges only left generations and leases with a deadline. -/
theorem StepsSound.updateEvents (sound : StepsSound world.db) (p : EventRow → Bool)
    (f : EventRow → EventRow) (keeps : ∀ row, UniqueKeys.key (f row) = UniqueKeys.key row)
    (kind : ∀ row, (f row).kind = row.kind)
    (payload : ∀ row, (f row).payloadJson = row.payloadJson)
    (done : ∀ row ∈ world.db.events.rows, p row = true → (f row).status = .done →
      ∀ runId step, row.IsStep runId step → world.db.Past runId step)
    (leased : ∀ row, (f row).status = .claimed → (f row).leaseUntil.isSome = true) :
    StepsSound (Kernel.updateEvents world p f keeps).db where
  steps := by
    intro row' member kind'
    obtain ⟨row, old, rfl⟩ := List.mem_map.1 member
    by_cases matched : p row = true
    · rw [if_pos matched] at kind' ⊢
      obtain ⟨runId, step, run, isStep, stored, reached, left⟩ :=
        sound.steps row old ((kind row).symm.trans kind')
      refine ⟨runId, step, run, ?_, stored, reached, fun isDone => ?_⟩
      · have sameKey : (f row).dedupKey = row.dedupKey := congrArg Prod.snd (keeps row)
        exact ⟨kind', (payload row).trans isStep.payload, sameKey.trans isStep.key⟩
      · exact done row old matched isDone runId step isStep
    · rw [if_neg matched] at kind' ⊢
      exact sound.steps row old kind'
  leased := by
    intro row' member claimed
    obtain ⟨row, old, rfl⟩ := List.mem_map.1 member
    by_cases matched : p row = true
    · rw [if_pos matched] at claimed ⊢
      exact leased row claimed
    · rw [if_neg matched] at claimed ⊢
      exact sound.leased row old claimed
  next := by
    intro runId run stored running
    obtain ⟨row, member, isStep⟩ := sound.next runId run stored running
    refine ⟨_, List.mem_map_of_mem member, ?_⟩
    by_cases matched : p row = true
    · have sameKey : (f row).dedupKey = row.dedupKey := congrArg Prod.snd (keeps row)
      simp only [if_pos matched]
      exact ⟨(kind row).trans isStep.kind, (payload row).trans isStep.payload,
        sameKey.trans isStep.key⟩
    · simp only [if_neg matched]
      exact isStep

/-- An added pending event that is no step event, or one of a generation its run has reached. -/
theorem StepsSound.addEvent (sound : StepsSound db) {row : EventRow}
    (added : db'.events.rows = db.events.rows ++ [row]) (sameRuns : db'.runs = db.runs)
    (pending : row.status = .pending)
    (known : row.kind = "run.step" → ∃ runId step run,
      row.IsStep runId step ∧ db.run runId = some run ∧ step ≤ run.stepCount) :
    StepsSound db' := by
  have lookup : ∀ runId, db'.run runId = db.run runId := by
    intro runId
    rw [Db.run, sameRuns, Db.run]
  constructor
  · intro row' member kind
    rw [added, List.mem_append, List.mem_singleton] at member
    rcases member with old | rfl
    · obtain ⟨runId, step, run, isStep, stored, reached, left⟩ := sound.steps row' old kind
      refine ⟨runId, step, run, isStep, (lookup runId).trans stored, reached, fun done => ?_⟩
      obtain ⟨run', stored', rest⟩ := left done
      exact ⟨run', (lookup runId).trans stored', rest⟩
    · obtain ⟨runId, step, run, isStep, stored, reached⟩ := known kind
      refine ⟨runId, step, run, isStep, (lookup runId).trans stored, reached, fun done => ?_⟩
      rw [pending] at done
      cases done
  · intro row' member claimed
    rw [added, List.mem_append, List.mem_singleton] at member
    rcases member with old | rfl
    · exact sound.leased row' old claimed
    · rw [pending] at claimed
      cases claimed
  · intro runId run stored running
    rw [lookup] at stored
    obtain ⟨row', member, isStep⟩ := sound.next runId run stored running
    refine ⟨row', ?_, isStep⟩
    rw [added]
    exact List.mem_append_left _ member

theorem EventRequest.row_isStep (runId eventId : String) (step : Nat) (priority : Int)
    (now : Time) : ((runStepRequest runId step priority now).row eventId).IsStep runId step :=
  ⟨rfl, rfl, rfl⟩

/-- The event a step request is answered with is the step event of that generation. -/
theorem Db.existing_isStep {runId : String} {step : Nat} {priority : Int} {now : Time}
    {row : EventRow}
    (found : db.existing (runStepRequest runId step priority now).dedupKey = some row)
    (same : (runStepRequest runId step priority now).sameAs row = true) :
    row ∈ db.events.rows ∧ row.IsStep runId step := by
  have keyed : db.eventByKey (runStepKey runId step) = some row := by
    simpa [Db.existing, runStepRequest, runStepKey] using found
  obtain ⟨member, key⟩ := Db.eventByKey_eq_some.1 keyed
  simp only [EventRequest.sameAs, Bool.and_eq_true, beq_iff_eq] at same
  exact ⟨member, same.1.1, same.1.2, key⟩

/-- A request for a step that was answered has its event. -/
theorem Enqueues.hasStep {runId newId : String} {step : Nat} {priority : Int} {now : Time}
    (enqueued : Enqueues host (runStepRequest runId step priority now) mid newId world') :
    ∃ row ∈ world'.db.events.rows, row.IsStep runId step ∧ row.priority = priority := by
  cases enqueued with
  | reused row found same =>
      obtain ⟨member, isStep⟩ := Db.existing_isStep found same
      simp only [EventRequest.sameAs, Bool.and_eq_true, beq_iff_eq] at same
      exact ⟨row, member, isStep, same.2⟩
  | fresh events absent inserted =>
      refine ⟨_, ?_, EventRequest.row_isStep runId (host.uuid4 mid.drawn) step priority now, rfl⟩
      change _ ∈ events.rows
      rw [Table.rows_insert inserted]
      exact List.mem_append_right _ (List.mem_singleton.2 rfl)

/-- A run that enters a generation together with its step event. -/
theorem StepsSound.enterGeneration {runId eventId : String} {step : Nat} {priority : Int}
    {now : Time} {run : RunRow} (sound : StepsSound db)
    (enqueued : Enqueues host (runStepRequest runId step priority now) mid eventId world')
    (sameEvents : mid.db.events = db.events)
    (others : ∀ other, other ≠ runId → mid.db.run other = db.run other)
    (entered : mid.db.run runId = some run) (stands : run.stepCount = step)
    (earlier : ∀ old, db.run runId = some old → old.stepCount < step) :
    StepsSound world'.db := by
  cases enqueued with
  | reused row found same =>
      -- an event of a generation that the run has not reached yet
      obtain ⟨member, isStep⟩ := Db.existing_isStep found same
      rw [sameEvents] at member
      obtain ⟨runId', step', old, isStep', stored, reached, _⟩ := sound.steps row member isStep.kind
      obtain ⟨rfl, rfl⟩ := isStep.unique isStep' rfl
      exact absurd (earlier old stored) (Nat.not_lt_of_le reached)
  | fresh events absent inserted =>
      have added := Table.rows_insert inserted
      rw [sameEvents] at added
      have isNew := EventRequest.row_isStep runId (host.uuid4 mid.drawn) step priority now
      constructor
      · intro row' member kind
        change row' ∈ events.rows at member
        rw [added, List.mem_append, List.mem_singleton] at member
        rcases member with old | rfl
        · obtain ⟨runId', step', run', isStep, stored, reached, left⟩ := sound.steps row' old kind
          by_cases same : runId' = runId
          · subst same
            have below := earlier run' stored
            refine ⟨runId', step', run, isStep, entered, by omega, fun _ => ?_⟩
            exact ⟨run, entered, by omega, fun impossible => by omega⟩
          · refine ⟨runId', step', run', isStep, (others runId' same).trans stored, reached, ?_⟩
            intro done
            obtain ⟨run'', stored', rest⟩ := left done
            exact ⟨run'', (others runId' same).trans stored', rest⟩
        · exact ⟨runId, step, run, isNew, entered, stands.ge, fun impossible => nomatch impossible⟩
      · intro row' member claimed
        change row' ∈ events.rows at member
        rw [added, List.mem_append, List.mem_singleton] at member
        rcases member with old | rfl
        · exact sound.leased row' old claimed
        · cases claimed
      · intro runId' run' stored running
        by_cases same : runId' = runId
        · subst same
          obtain rfl := Option.some.inj (entered.symm.trans stored)
          rw [stands]
          refine ⟨_, ?_, isNew⟩
          change _ ∈ events.rows
          rw [added]
          exact List.mem_append_right _ (List.mem_singleton.2 rfl)
        · have stored' := (others runId' same).symm.trans stored
          obtain ⟨row', member, isStep⟩ := sound.next runId' run' stored' running
          refine ⟨row', ?_, isStep⟩
          change row' ∈ events.rows
          rw [added]
          exact List.mem_append_left _ member

/-- A step event enqueued again for a generation its run has reached. -/
theorem StepsSound.enqueueAgain {runId eventId : String} {step : Nat} {priority : Int}
    {now : Time} {run : RunRow} (sound : StepsSound world.db)
    (stored : world.db.run runId = some run) (reached : step ≤ run.stepCount)
    (enqueued : Enqueues host (runStepRequest runId step priority now) world eventId world') :
    StepsSound world'.db := by
  cases enqueued with
  | reused row found same => exact sound
  | fresh events absent inserted =>
      refine StepsSound.addEvent sound (Table.rows_insert inserted) ?_ ?_ ?_
      · rfl
      · rfl
      · intro _
        exact ⟨runId, step, run, EventRequest.row_isStep _ _ _ _ _, stored, reached⟩

/-- No block leaves a running run without its event. -/
theorem StepsSound.transacts {block : Transaction} {result : block.Result}
    (sound : StepsSound world.db) (transacts : Transacts host world block result world') :
    StepsSound world'.db := by
  cases transacts with
  | claimNothing idle => exact sound
  | @claim workerId now leaseSeconds row found =>
      have claimed := sound.updateEvents (fun other => other.id == row.id)
        (EventRow.claimedBy workerId (now + leaseSeconds) (row.attempts + 1) now) (fun _ => rfl)
        (fun _ => rfl) (fun _ => rfl) (fun _ _ _ impossible => nomatch impossible)
        (fun _ _ => rfl)
      exact claimed.rest rfl fun _ => .same
  | @createRun task capabilities now sourceEventId _ _ _ _ _ created enqueued =>
      cases created with
      | reused source row bound found sameTask sameSet =>
          have stored : world.db.run row.id = some row :=
            Db.run_eq_some.2 ⟨Table.mem_of_select found, rfl⟩
          exact sound.enqueueAgain stored (Nat.zero_le _) enqueued
      | fresh runs inserted =>
          have absent : world.db.run (host.uuid4 world.drawn) = none := run_none_of_insert inserted
          have entered : ({ world.db with runs := runs } : Db).run (host.uuid4 world.drawn) =
              some (newRunRow task capabilities now sourceEventId (host.uuid4 world.drawn)) := by
            rw [run_insert inserted, absent, Option.none_or]
            exact if_pos rfl
          refine sound.enterGeneration enqueued rfl ?_ entered rfl ?_
          · intro other apart
            refine (run_insert inserted other).trans ?_
            rw [if_neg (fun same => apart same.symm), Option.or_none]
          · intro old stored
            rw [absent] at stored
            cases stored
  | @advance _ _ _ now _ _ row found running stands enqueued =>
      obtain ⟨self, others⟩ := run_advancedWorld now found running stands
      refine sound.enterGeneration enqueued rfl others self ?_ ?_
      · exact congrArg Nat.succ stands
      · intro old stored
        obtain rfl := Option.some.inj (found.symm.trans stored)
        omega
  | @resume _ now _ _ _ row found blocked enqueued =>
      obtain ⟨self, others⟩ := run_resumedWorld now found blocked
      refine sound.enterGeneration enqueued rfl others self rfl ?_
      intro old stored
      obtain rfl := Option.some.inj (found.symm.trans stored)
      exact Nat.lt_succ_self _
  | @reconcile requestId effectOccurred _ _ _ _ row found unresolved =>
      cases effectOccurred with
      | true => exact sound.rest rfl fun _ => .same
      | false => exact sound.rest rfl fun _ => .same

/-- No statement leaves a running run without its event, if acknowledged step events are of left
generations and inserted events are no step events. -/
theorem StepsSound.stmt {stmt : Stmt} (sound : StepsSound world.db) (issued : (Op.sql stmt).issued)
    (acks : ∀ eventId workerId now, stmt = .ackEvent eventId workerId now →
      ∀ row ∈ world.db.events.rows, row.id = eventId →
        ∀ runId step, row.IsStep runId step → world.db.Past runId step)
    (foreign : ∀ row, stmt = .insertEvent row → row.kind ≠ "run.step") :
    StepsSound (stmt.exec host world).2.db := by
  have rests : ∀ runId, RunRow.Rests (world.db.run runId) ((stmt.exec host world).2.db.run runId) :=
    fun runId => (runStep_exec issued runId).rests
  cases stmt with
  | insertEvent row =>
      simp only [Stmt.exec]
      split
      · rename_i events inserted
        obtain ⟨request, eventId, rfl⟩ := issued
        refine StepsSound.addEvent sound (Table.rows_insert inserted) ?_ ?_ ?_
        · rfl
        · rfl
        · exact fun isStep => absurd isStep (foreign _ rfl)
      · exact sound
  | ackEvent eventId workerId now =>
      refine sound.updateEvents (EventRow.heldBy eventId workerId) (EventRow.acked now)
        (fun _ => rfl) (fun _ => rfl) (fun _ => rfl) ?_ fun _ impossible => by cases impossible
      intro row member held _ runId step isStep
      have named : row.id = eventId := by
        simp only [EventRow.heldBy, Bool.and_eq_true, beq_iff_eq] at held
        exact held.1.1
      exact acks eventId workerId now rfl row member named runId step isStep
  | releaseEvent eventId workerId availableAt now =>
      exact sound.updateEvents (EventRow.heldBy eventId workerId)
        (EventRow.released availableAt now) (fun _ => rfl) (fun _ => rfl) (fun _ => rfl)
        (fun _ _ _ impossible => by cases impossible) fun _ impossible => by cases impossible
  | claimEvent eventId workerId leaseUntil attempts now => exact issued.elim
  | insertRun row => exact issued.elim
  | insertDecision row =>
      refine sound.rest ?_ rests
      simp only [Stmt.exec]
      (repeat' split) <;> rfl
  | insertMessage row =>
      refine sound.rest ?_ rests
      simp only [Stmt.exec]
      (repeat' split) <;> rfl
  | insertMemory row =>
      refine sound.rest ?_ rests
      simp only [Stmt.exec]
      split <;> rfl
  | insertEffect row =>
      refine sound.rest ?_ rests
      simp only [Stmt.exec]
      split <;> rfl
  | insertReconciliation row => exact issued.elim
  | _ => exact sound.rest rfl rests

theorem StepsSound.answer {op : Op} (sound : StepsSound world.db) (host : Host) (answer : Answer)
    (issued : op.issued)
    (acks : ∀ eventId workerId now, op = .sql (.ackEvent eventId workerId now) →
      ∀ row ∈ world.db.events.rows, row.id = eventId →
        ∀ runId step, row.IsStep runId step → world.db.Past runId step)
    (foreign : ∀ row, op = .sql (.insertEvent row) → row.kind ≠ "run.step") :
    StepsSound (op.answer host answer world).2.db := by
  rcases op.answer_cases host answer world with
    same | ⟨stmt, rfl, same⟩ | ⟨block, rfl, ⟨drawn, same⟩ | ⟨result, transacts⟩⟩ |
      ⟨call, rfl, same⟩
  · rw [same]
    exact sound
  · rw [same]
    apply sound.stmt issued
    · intro eventId workerId now isAck
      exact acks eventId workerId now (congrArg Op.sql isAck)
    · intro row isInsert
      exact foreign row (congrArg Op.sql isInsert)
  · rw [same]
    exact sound
  · exact sound.transacts transacts
  · rw [same]
    exact sound

/-! ### What a worker knows about its step -/

/-- The event that a claim leased. -/
def ClaimedRow (entry : Entry kernel Exc) (row : EventRow) : Prop :=
  ∃ workerId now leaseSeconds claim, claim.row = row ∧
    entry = ⟨.transaction (.claimEvent workerId now leaseSeconds), .ok (some claim)⟩

/-- The entry takes a run out of a generation. -/
def Leaves (older : History) (entry : Entry kernel Exc) (runId : String) (step : Nat) : Prop :=
  (∃ run, Saw older (.sql (.selectRun runId)) (some run) ∧ run.stepCount = step ∧
    ((∃ change, change.status.isSome = true ∧ entry = ⟨.sql (.updateRun runId change), .ok ()⟩) ∨
      ∃ requestId error now,
        entry = ⟨.sql (.blockRun runId requestId error now), .ok (1 : Nat)⟩)) ∨
  ∃ priority now next,
    entry = ⟨.transaction (.advanceRunStep runId step priority now), .ok next⟩

/-- What an entry says about events and generations. -/
structure StepKnown (older : History) (entry : Entry kernel Exc) (world : World) : Prop where
  claimed : ∀ row, ClaimedRow entry row → ∃ row' ∈ world.db.events.rows,
    row'.id = row.id ∧ row'.kind = row.kind ∧ row'.payloadJson = row.payloadJson
  halted : ∀ runId run, entry = ⟨.sql (.selectRun runId), .ok (some run)⟩ →
    run.status ≠ .running → world.db.Past runId run.stepCount
  reached : ∀ runId run, entry = ⟨.sql (.selectRun runId), .ok (some run)⟩ →
    ∀ claimEntry ∈ older, ∀ row, ClaimedRow claimEntry row → ∀ step, row.kind = "run.step" →
      row.payloadJson = (runStepPayload runId step).text compactStyle → step ≤ run.stepCount
  left : ∀ runId step, Leaves older entry runId step → world.db.Past runId step

theorem StepKnown.later {older : History} {entry : Entry kernel Exc} {op : Op}
    (known : StepKnown older entry world) (host : Host) (answer : Answer) (issued : op.issued) :
    StepKnown older entry (op.answer host answer world).2 where
  claimed := by
    intro row claims
    obtain ⟨row', stored, sameId, sameKind, samePayload⟩ := known.claimed row claims
    obtain ⟨row'', stored', same⟩ := event_sameRequest host answer op stored
    exact ⟨row'', stored', same.id.trans sameId, same.kind.trans sameKind,
      same.payloadJson.trans samePayload⟩
  halted := fun runId run same halted => (known.halted runId run same halted).later host answer issued
  reached := known.reached
  left := fun runId step leaves => (known.left runId step leaves).later host answer issued

/-- What a claim leased is an event. -/
theorem claimed_of_answer {op : Op} {row : EventRow} (host : Host) (answer : Answer)
    (claims : ClaimedRow ⟨op, (op.answer host answer world).1⟩ row) :
    ∃ row' ∈ (op.answer host answer world).2.db.events.rows,
      row'.id = row.id ∧ row'.kind = row.kind ∧ row'.payloadJson = row.payloadJson := by
  obtain ⟨workerId, now, leaseSeconds, claim, rfl, same⟩ := claims
  obtain ⟨rfl, answered⟩ := Entry.mk.inj same
  rw [heq_eq_eq] at answered
  have transacts := Op.transacts_of_answer answered
  have stored : claim.row ∈ world.db.events.rows := by
    generalize (Op.answer host _ answer world).2 = world' at transacts
    cases transacts with
    | claim row found => exact List.mem_of_mem_filter (firstBy_mem found)
  obtain ⟨row', stored', sameRow⟩ := event_sameRequest host answer
    (.transaction (.claimEvent workerId now leaseSeconds)) stored
  exact ⟨row', stored', sameRow.id, sameRow.kind, sameRow.payloadJson⟩

theorem halted_of_answer {op : Op} {runId : String} {run : RunRow} (host : Host) (answer : Answer)
    (same : (⟨op, (op.answer host answer world).1⟩ : Entry kernel Exc) =
      ⟨.sql (.selectRun runId), .ok (some run)⟩) :
    world.db.run runId = some run ∧ (op.answer host answer world).2 = world := by
  obtain ⟨rfl, answered⟩ := Entry.mk.inj same
  rw [heq_eq_eq] at answered
  cases faulty : answer.fault with
  | some fault => simp [Op.answer, faulty] at answered
  | none =>
      simp only [Op.answer, faulty, Stmt.exec, Except.ok.injEq] at answered ⊢
      exact ⟨answered, trivial⟩

/-- Whoever takes a run out of a generation leaves it in the past. -/
theorem past_of_answer {op : Op} {older : History} {runId : String} {step : Nat}
    (host : Host) (answer : Answer) (issued : op.issued)
    (learned : System.Reachable.Learned (fun _ entry world => Known entry world) world older)
    (leaves : Leaves older ⟨op, (op.answer host answer world).1⟩ runId step) :
    (op.answer host answer world).2.db.Past runId step := by
  rcases leaves with ⟨run, saw, rfl, written⟩ | ⟨priority, now, next, same⟩
  · obtain ⟨row, stored, evolves⟩ := saw.run learned
    have change := Kernel.runStep host world answer issued runId
    rw [stored] at change
    rcases written with ⟨status, isStatus, same⟩ | ⟨requestId, error, now, same⟩
    · obtain ⟨rfl, answered⟩ := Entry.mk.inj same
      rw [heq_eq_eq] at answered
      cases faulty : answer.fault with
      | some fault => simp [Op.answer, faulty] at answered
      | none =>
          refine ⟨status.apply row, ?_, ?_⟩
          · simp only [Op.answer, faulty]
            refine (run_updateRuns world _ _ _ runId).trans ?_
            rw [stored, Option.map_some, if_pos]
            simpa using (Db.run_eq_some.1 stored).2
          · have grows := evolves.stepCount
            cases issued with
            | complete now text => exact ⟨Nat.le_succ_of_le grows, fun _ => by
                simp [RunChange.apply]⟩
            | fail now error => exact ⟨grows, fun _ => by simp [RunChange.apply]⟩
            | note now error => cases isStatus
    · obtain ⟨rfl, answered⟩ := Entry.mk.inj same
      rw [heq_eq_eq] at answered
      cases faulty : answer.fault with
      | some fault => simp [Op.answer, faulty] at answered
      | none =>
          simp only [Op.answer, faulty, Stmt.exec, Except.ok.injEq] at answered
          obtain ⟨row', member, matched⟩ := Table.count_pos.1 (answered ▸ Nat.one_pos)
          have isRun : row'.id = runId := by
            simp only [RunRow.isRunning, Bool.and_eq_true, beq_iff_eq] at matched
            exact matched.1
          obtain rfl := Option.some.inj (stored.symm.trans (Db.run_eq_some.2 ⟨member, isRun⟩))
          refine ⟨row.blocked requestId error now, ?_, evolves.stepCount, fun _ => by
            simp [RunRow.blocked]⟩
          simp only [Op.answer, faulty]
          refine (run_updateRuns world _ _ _ runId).trans ?_
          rw [stored, Option.map_some, if_pos matched]
  · obtain ⟨rfl, answered⟩ := Entry.mk.inj same
    rw [heq_eq_eq] at answered
    have transacts := Op.transacts_of_answer answered
    generalize (Op.answer host _ answer world).2 = world' at transacts ⊢
    cases transacts with
    | advance row found running stands enqueued =>
        obtain ⟨self, _⟩ := run_advancedWorld now found running stands
        obtain ⟨events, journal, drawn, rfl⟩ := enqueued.touches
        refine ⟨_, self, ?_, ?_⟩
        · simp only [RunRow.advanced]
          omega
        · simp only [RunRow.advanced]
          omega

/-- What a step teaches about events and generations, in a store with sound step events. -/
theorem StepKnown.of_answer {op : Op} {older : History} (sound : StepsSound world.db) (host : Host)
    (answer : Answer) (issued : op.issued)
    (learned : System.Reachable.Learned (fun _ entry world => Known entry world) world older)
    (learnedSteps : System.Reachable.Learned StepKnown world older) :
    StepKnown older ⟨op, (op.answer host answer world).1⟩ (op.answer host answer world).2 where
  claimed := fun _ claims => claimed_of_answer host answer claims
  halted := by
    intro runId run same halted
    obtain ⟨stored, kept⟩ := halted_of_answer host answer same
    rw [kept]
    exact ⟨run, stored, le_refl _, fun _ => halted⟩
  reached := by
    intro runId run same claimEntry member row claims step kind payload
    obtain ⟨stored, _⟩ := halted_of_answer host answer same
    obtain ⟨_, _, known⟩ := learnedSteps.of_mem member
    obtain ⟨row', stored', _, sameKind, samePayload⟩ := known.claimed row claims
    obtain ⟨runId', step', run', isStep, found, reached, _⟩ :=
      sound.steps row' stored' (sameKind.trans kind)
    have sameText := isStep.payload.symm.trans (samePayload.trans payload)
    obtain ⟨rfl, rfl⟩ := runStepPayload_injective (JsonObject.text_injective _ sameText)
    obtain rfl := Option.some.inj (stored.symm.trans found)
    exact reached
  left := fun _ _ leaves => past_of_answer host answer issued learned leaves

/-! ### Acknowledgements -/

section Ack

variable {engine : Engine} {log : History} {claim : Claim} {event : Event} {runId : String}
variable {run : RunRow} {step : Nat}

/-- The worker took the run out of the step it read. -/
theorem Left.past (left : Left log runId run.stepCount)
    (selected : Saw log (.sql (.selectRun runId)) (some run))
    (lawful : System.Reachable.Lawful (WorkerRule host engine) log)
    (learned : System.Reachable.Learned StepKnown world log) :
    world.db.Past runId run.stepCount := by
  rcases left with ⟨change, saw, isStatus⟩ | ⟨requestId, error, now, saw⟩ |
    ⟨priority, now, next, saw⟩
  · obtain ⟨older, longer, known⟩ := learned.of_mem saw
    obtain ⟨claim, event, run', stepping, _⟩ := lawful.of_suffix longer
    have later := stepping.selected.later ((List.suffix_cons _ _).trans longer)
    obtain ⟨_, rfl⟩ := selects_once lawful selected later
    exact known.left runId run.stepCount
      (.inl ⟨run, stepping.selected, rfl, .inl ⟨change, isStatus, rfl⟩⟩)
  · obtain ⟨older, longer, known⟩ := learned.of_mem saw
    obtain ⟨claim, event, run', call, stepping, _⟩ := lawful.of_suffix longer
    have later := stepping.selected.later ((List.suffix_cons _ _).trans longer)
    obtain ⟨_, rfl⟩ := selects_once lawful selected later
    exact known.left runId run.stepCount
      (.inl ⟨run, stepping.selected, rfl, .inr ⟨requestId, error, now, rfl⟩⟩)
  · obtain ⟨older, longer, known⟩ := learned.of_mem saw
    exact known.left runId run.stepCount (.inr ⟨priority, now, next, rfl⟩)

/-- Whoever acknowledges a step event, its generation is past. -/
theorem Finished.past (finished : Finished host engine log claim)
    (payload : claim.row.payloadJson = (runStepPayload runId step).text compactStyle)
    (claims : ∃ entry ∈ log, ClaimedRow entry claim.row)
    (lawful : System.Reachable.Lawful (WorkerRule host engine) log)
    (learned : System.Reachable.Learned (fun _ entry world => Known entry world) world log)
    (learnedSteps : System.Reachable.Learned StepKnown world log) :
    world.db.Past runId step := by
  obtain ⟨event, runId', run, working, leaves⟩ := finished
  have read : event.payload = (runStepPayload runId step).value := by
    have loaded := working.holding.payload
    rw [payload, JsonObject.loads_text, Except.ok.injEq] at loaded
    exact loaded.symm
  obtain rfl : runId' = runId := by
    obtain ⟨value, found, named⟩ := working.asks
    rw [read, runStepPayload_runId, Option.some.injEq] at found
    rw [← named, ← found]
    rfl
  rw [read, payloadStep_runStepPayload, Option.some.injEq, Nat.cast_inj] at leaves
  obtain ⟨older, longer, known⟩ := learnedSteps.of_mem working.selected
  by_cases same : step = run.stepCount
  · subst same
    by_cases running : run.status = .running
    · exact (leaves rfl running).past working.selected lawful learnedSteps
    · exact known.halted runId' run rfl running
  · -- the claim stands before the selection, so the generation was reached when the run was read
    obtain ⟨entry, member, claimed⟩ := claims
    have inOlder : entry ∈ older := by
      obtain ⟨workerId, now, leaseSeconds, claim', _, rfl⟩ := claimed
      obtain ⟨first, longer', rule⟩ := lawful.of_mem member
      obtain rfl : first = [] := rule.2.2
      have single : older.length = 1 := lawful.of_suffix longer
      have sameLength : [(⟨.transaction (.claimEvent workerId now leaseSeconds),
          .ok (some claim')⟩ : Entry kernel Exc)].length = older.length := by
        rw [single]
        rfl
      have equal := (List.suffix_of_suffix_length_le longer'
        ((List.suffix_cons _ _).trans longer) (Nat.le_of_eq sameLength)).eq_of_length sameLength
      rw [← equal]
      exact List.mem_singleton.2 rfl
    have reached := known.reached runId' run rfl entry inOlder claim.row claimed step
      working.kind payload
    obtain ⟨row, stored, evolves⟩ := working.selected.run learned
    have grows := evolves.stepCount
    exact ⟨row, stored, by omega, fun impossible => by omega⟩

end Ack

/-! ### Runs -/

/-- Producers do not enqueue `run.step` events: those come from the store alone. -/
def Call.leavesStepsToStore : Call → Bool
  | .enqueueEvent request => request.kind != "run.step"
  | _ => true

/-- The label starts no call that enqueues a `run.step` event. -/
def storeOwnsSteps (_ : KernelConfig) : Label Answer Call → Bool
  | .spawn call => call.leavesStepsToStore
  | _ => true

/-- The steps of a run in which only the store enqueues `run.step` events. -/
def StoreOwnsSteps (config : KernelConfig) (label : Label Answer Call) : Prop :=
  storeOwnsSteps config label = true

/-- Only `enqueue_event` inserts an event outside a block. -/
theorem CallRule.insertEvent {call : Call} {log : History} {row : EventRow}
    (rule : CallRule host call log (.sql (.insertEvent row))) :
    ∃ request eventId, call = .enqueueEvent request ∧ row = request.row eventId := by
  cases call with
  | enqueueEvent request =>
      obtain ⟨eventId, _, same⟩ := rule
      exact ⟨request, eventId, rfl, same⟩
  | _ => exact rule.elim

/-- Only a worker acknowledges an event. -/
theorem CallRule.ackEvent {call : Call} {log : History} {eventId workerId : String} {now : Time}
    (rule : CallRule host call log (.sql (.ackEvent eventId workerId now))) :
    ∃ engine started, call = .runOnce engine started ∧
      WorkerRule host engine log (.sql (.ackEvent eventId workerId now)) := by
  cases call with
  | runOnce engine started => exact ⟨engine, started, rfl, rule⟩
  | _ => exact rule.elim

/-- A worker that acknowledges a step event has seen its generation left. -/
theorem WorkerRule.ack_past {engine : Engine} {log : History} {eventId workerId : String}
    {now : Time} (rule : WorkerRule host engine log (.sql (.ackEvent eventId workerId now)))
    (lawful : System.Reachable.Lawful (WorkerRule host engine) log)
    (learned : System.Reachable.Learned (fun _ entry world => Known entry world) world log)
    (learnedSteps : System.Reachable.Learned StepKnown world log) {row : EventRow}
    (stored : row ∈ world.db.events.rows) (named : row.id = eventId) {runId : String} {step : Nat}
    (isStep : row.IsStep runId step) : world.db.Past runId step := by
  obtain ⟨claim, event, holding, rfl, _, finished, _⟩ := rule
  obtain ⟨claimedAt, saw⟩ := holding.claimed
  have claims : ∃ entry ∈ log, ClaimedRow entry claim.row :=
    ⟨_, saw, _, _, _, claim, rfl, rfl⟩
  obtain ⟨_, _, known⟩ := learnedSteps.of_mem saw
  obtain ⟨row', stored', sameId, sameKind, samePayload⟩ :=
    known.claimed claim.row ⟨_, _, _, claim, rfl, rfl⟩
  have same : row' = row := by
    apply Table.eq_of_clash stored' stored
    · simp [UniqueKeys.clash, UniqueKeys.key, sameId, named]
    · simp [UniqueKeys.clash, UniqueKeys.key, sameId, named]
  subst same
  have isStepEvent : claim.row.kind = "run.step" := sameKind.symm.trans isStep.kind
  exact (finished isStepEvent).past (samePayload.symm.trans isStep.payload) claims lawful learned
    learnedSteps

/-- The step events of every reachable store are sound. -/
theorem reachable_sound {config : KernelConfig}
    (reached : (system host).Reachable StoreOwnsSteps KernelConfig.initial config) :
    StepsSound config.world.db := by
  have both := reached.learned_with (I := fun world => StepsSound world.db)
    (fun _ => StepKnown) StepsSound.empty ?_ ?_ ?_ rfl
  · exact both.1
  · intro config pid call op next log answer before found _ sound learnedSteps
    have member := List.mem_of_getElem? found
    have rule := (reachable_rule before _ member).head
    have learned := reachable_known before _ member
    have lawful := reachable_lawful before _ member
    refine sound.answer host answer rule.issued ?_ ?_
    · rintro eventId workerId now rfl row stored named runId step isStep
      obtain ⟨engine, started, rfl, ackRule⟩ := CallRule.ackEvent rule
      exact ackRule.ack_past lawful learned learnedSteps stored named isStep
    · rintro row rfl
      obtain ⟨request, eventId, rfl, rfl⟩ := CallRule.insertEvent rule
      have owned := before.calls (P := fun call => call.leavesStepsToStore = true)
        (fun _ _ allowed => allowed) rfl _ member
      simpa [Call.leavesStepsToStore, EventRequest.row] using owned
  · intro config pid call op next log answer before found _ sound learnedSteps
    have member := List.mem_of_getElem? found
    have rule := (reachable_rule before _ member).head
    exact StepKnown.of_answer sound host answer rule.issued (reachable_known before _ member)
      learnedSteps
  · intro config pid call op next log answer before found _ _ _ older entry known
    have rule := (reachable_rule before _ (List.mem_of_getElem? found)).head
    exact known.later host answer rule.issued

/-- The event carries the payload of a generation of a run. -/
def EventRow.Carries (row : EventRow) (runId : String) (step : Nat) : Prop :=
  row.kind = "run.step" ∧ loads row.payloadJson = .ok (runStepPayload runId step).value

/-- A payload is read back as the generation it was written for. -/
theorem EventRow.IsStep.carries_iff {row : EventRow} {runId runId' : String} {step step' : Nat}
    (isStep : row.IsStep runId step) :
    row.Carries runId' step' ↔ runId' = runId ∧ step' = step := by
  constructor
  · rintro ⟨_, read⟩
    rw [isStep.payload, JsonObject.loads_text, Except.ok.injEq] at read
    obtain ⟨rfl, rfl⟩ := runStepPayload_injective (JsonObject.ext read)
    exact ⟨rfl, rfl⟩
  · rintro ⟨rfl, rfl⟩
    refine ⟨isStep.kind, ?_⟩
    rw [isStep.payload, JsonObject.loads_text]

/-- A running run can go on: it has exactly one event of its generation, which is pending or leased
with a deadline, and none of a later generation. -/
structure NoStrandedRun (db : Db) : Prop where
  payloads : ∀ row ∈ db.events.rows, row.kind = "run.step" →
    ∃ runId step, row.Carries runId step
  next : ∀ run ∈ db.runs.rows, run.status = .running →
    ∃ row ∈ db.events.rows, row.Carries run.id run.stepCount ∧
      (∀ row' ∈ db.events.rows, row'.Carries run.id run.stepCount → row' = row) ∧
      (row.status = .pending ∨ (row.status = .claimed ∧ row.leaseUntil.isSome = true))
  bounded : ∀ run ∈ db.runs.rows, ∀ row ∈ db.events.rows, ∀ step,
    row.Carries run.id step → step ≤ run.stepCount

theorem StepsSound.noStrandedRun {db : Db} (sound : StepsSound db) : NoStrandedRun db where
  payloads := by
    intro row member kind
    obtain ⟨runId, step, run, isStep, _⟩ := sound.steps row member kind
    exact ⟨runId, step, isStep.carries_iff.2 ⟨rfl, rfl⟩⟩
  next := by
    intro run member running
    have stored : db.run run.id = some run := Db.run_eq_some.2 ⟨member, rfl⟩
    obtain ⟨row, there, isStep⟩ := sound.next run.id run stored running
    refine ⟨row, there, isStep.carries_iff.2 ⟨rfl, rfl⟩, fun row' there' carries => ?_, ?_⟩
    · obtain ⟨runId', step', run', isStep', _⟩ := sound.steps row' there' carries.1
      obtain ⟨rfl, rfl⟩ := isStep'.carries_iff.1 carries
      apply Table.eq_of_clash there' there
      · simp [UniqueKeys.clash, UniqueKeys.key, isStep.key, isStep'.key]
      · simp [UniqueKeys.clash, UniqueKeys.key, isStep.key, isStep'.key]
    · cases status : row.status with
      | pending => exact .inl rfl
      | claimed => exact .inr ⟨rfl, sound.leased row there status⟩
      | done =>
          obtain ⟨runId', step', run', isStep', stored', _, left⟩ :=
            sound.steps row there isStep.kind
          obtain ⟨rfl, rfl⟩ := isStep.unique isStep' rfl
          obtain ⟨run'', stored'', _, halted⟩ := left status
          obtain rfl := Option.some.inj (stored.symm.trans stored'')
          exact absurd running (halted rfl)
  bounded := by
    intro run member row there step carries
    have stored : db.run run.id = some run := Db.run_eq_some.2 ⟨member, rfl⟩
    obtain ⟨runId', step', run', isStep', stored', reached, _⟩ := sound.steps row there carries.1
    obtain ⟨rfl, rfl⟩ := isStep'.carries_iff.1 carries
    obtain rfl := Option.some.inj (stored.symm.trans stored')
    exact reached

/-- In every reachable state in which only the store enqueued step events, no running run is
stranded. -/
theorem no_stranded_run (host : Host) (config : KernelConfig)
    (reached : (system host).Reachable StoreOwnsSteps KernelConfig.initial config) :
    NoStrandedRun config.world.db :=
  (reachable_sound reached).noStrandedRun

/-- A worker takes a run to its second step and dies before it acknowledges the first. -/
def secondStep : List (Label Answer Call) :=
  [.spawn (.submitTask "task" ["money"] 0 none), .act 0 .quiet,
    .spawn (.runOnce (payEngine "a") 0), .act 1 .quiet, .act 1 .quiet, .act 1 .quiet,
    .act 1 .quiet, .act 1 (.ofResponse (.toolCall (payCall "q"))), .act 1 .quiet, .act 1 .quiet,
    .act 1 .quiet, .act 1 .quiet, .act 1 .quiet, .act 1 .quiet, .act 1 .quiet, .act 1 .quiet,
    .act 1 .quiet, .die 1]

set_option maxRecDepth 10000 in
/-- A reachable state with a running run and two step events. -/
theorem no_stranded_run_second :
    ∃ config, (system plainHost).Reachable StoreOwnsSteps KernelConfig.initial config ∧
      config.world.db.runStanding "id-0" = some (.running, 1) ∧
        NoStrandedRun config.world.db := by
  have ran : ((system plainHost).run storeOwnsSteps KernelConfig.initial secondStep).any
      (fun config => decide (config.world.db.runStanding "id-0" = some (.running, 1))) = true := by
    decide +kernel
  obtain ⟨config, reached, running⟩ := System.Reachable.exists_of_run secondStep ran
  exact ⟨config, reached, by simpa using running, no_stranded_run plainHost config reached⟩

end PreActive.Kernel
