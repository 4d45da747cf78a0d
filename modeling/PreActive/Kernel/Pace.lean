/-
Module: PreActive.Kernel.Pace
Purpose: With one worker at a time every run is bounded and its decisions have no gaps.
Trusted boundary: human-reviewed spec
Main exports: OneWorker, RunRow.Paced, InPace, reachable_inPace, PaceKept, bounded_runs
-/
import PreActive.Kernel.Moves
import PreActive.Kernel.Solo
import PreActive.Kernel.Successors

namespace PreActive.Kernel

open PreActive.Foundation PreActive.Python

/-! ### The runs of the system -/

/-- A worker is started with the given bound, and while no worker is at work. -/
def oneWorker (maxSteps : Int) (config : KernelConfig) : Label Answer Call → Bool
  | .spawn (.runOnce engine _) =>
      engine.maxSteps == maxSteps &&
        config.procs.all fun process => !(process.call.isWorker && process.nextOp.isSome)
  | _ => true

/-- The steps of a run with one worker at a time and one bound on the steps of a run. -/
def OneWorker (maxSteps : Int) (config : KernelConfig) (label : Label Answer Call) : Prop :=
  oneWorker maxSteps config label = true

variable {host : Host} {engine : Engine} {maxSteps : Int} {config config' : KernelConfig}

theorem OneWorker.alone (config : KernelConfig) (label : Label Answer Call)
    (one : OneWorker maxSteps config label) : AloneWorker config label := by
  rintro call rfl isWorker process member ⟨worker, work⟩
  cases call with
  | runOnce engine now =>
      simp only [OneWorker, oneWorker, Bool.and_eq_true, List.all_eq_true] at one
      have idle := one.2 process member
      simp [worker, work] at idle
  | _ => cases isWorker

/-- Every worker has the bound. -/
theorem worker_bound
    (reached : (system host).Reachable (OneWorker maxSteps) KernelConfig.initial config) :
    ∀ process ∈ config.procs, ∀ engine now, process.call = .runOnce engine now →
      engine.maxSteps = maxSteps := by
  refine reached.calls (P := fun call => ∀ engine now, call = .runOnce engine now →
    engine.maxSteps = maxSteps) ?_ rfl
  rintro config call one engine now rfl
  simp only [OneWorker, oneWorker, Bool.and_eq_true, beq_iff_eq] at one
  exact one.1

/-! ### Runs and their decisions -/

/-- The decisions of a run are those of its first steps, up to the one it stands at or the one
before it. -/
structure RunRow.Paced (maxSteps : Int) (db : Db) (run : RunRow) (count : Nat) : Prop where
  stands : count = run.stepCount ∨ count = run.stepCount + 1
  bound : (count : Int) ≤ maxSteps
  decided : ∀ step, (db.decision run.id step).isSome = true ↔ step < count
  blocked : run.status = .blockedEffect → count = run.stepCount + 1

/-- Every run keeps its pace, and every decision belongs to a run. -/
structure InPace (maxSteps : Int) (db : Db) : Prop where
  paced : ∀ runId run, db.run runId = some run → ∃ count, run.Paced maxSteps db count
  known : ∀ runId step, (db.decision runId step).isSome = true → (db.run runId).isSome = true

theorem InPace.empty : InPace maxSteps .empty where
  paced := fun _ _ stored => nomatch stored
  known := fun _ _ stored => nomatch stored

variable {db db' : Db} {world : World} {runId : String} {run row : RunRow} {op : Op}

theorem Db.decision_congr {step : Nat} (same : db'.decisions = db.decisions) :
    db'.decision runId step = db.decision runId step := by
  rw [Db.decision, same, Db.decision]

/-- A run that stands where it stood keeps its pace, unless it becomes blocked. -/
theorem RunRow.Paced.still {count : Nat} (paced : run.Paced maxSteps db count)
    (same : db'.decisions = db.decisions) (id : row.id = run.id)
    (stepCount : row.stepCount = run.stepCount)
    (blocked : row.status = .blockedEffect → run.status = .blockedEffect) :
    row.Paced maxSteps db' count where
  stands := by rw [stepCount]; exact paced.stands
  bound := paced.bound
  decided := by
    intro step
    rw [Db.decision_congr same, id]
    exact paced.decided step
  blocked := by
    intro isBlocked
    rw [stepCount]
    exact paced.blocked (blocked isBlocked)

/-- A run whose step is decided may be blocked on it. -/
theorem RunRow.Paced.block {count : Nat} (paced : run.Paced maxSteps db count)
    (same : db'.decisions = db.decisions) (id : row.id = run.id)
    (stepCount : row.stepCount = run.stepCount)
    (decided : (db.decision run.id run.stepCount).isSome = true) :
    row.Paced maxSteps db' count := by
  have isNext : count = run.stepCount + 1 := by
    have below := (paced.decided run.stepCount).1 decided
    rcases paced.stands with stands | stands <;> omega
  refine ⟨?_, paced.bound, ?_, ?_⟩
  · rw [stepCount]
    exact paced.stands
  · intro step
    rw [Db.decision_congr same, id]
    exact paced.decided step
  · intro _
    rw [stepCount]
    exact isNext

/-- A run whose step is decided may go on to the next one. -/
theorem RunRow.Paced.advance {count : Nat} (paced : run.Paced maxSteps db count)
    (same : db'.decisions = db.decisions) (id : row.id = run.id)
    (stepCount : row.stepCount = run.stepCount + 1) (halted : row.status ≠ .blockedEffect)
    (decided : (db.decision run.id run.stepCount).isSome = true) :
    row.Paced maxSteps db' count := by
  have isNext : count = run.stepCount + 1 := by
    have below := (paced.decided run.stepCount).1 decided
    rcases paced.stands with stands | stands <;> omega
  refine ⟨.inl (isNext.trans stepCount.symm), paced.bound, ?_, fun blocked => absurd blocked halted⟩
  intro step
  rw [Db.decision_congr same, id]
  exact paced.decided step

/-- A blocked run is decided. -/
theorem RunRow.Paced.decided_of_blocked {count : Nat} (paced : run.Paced maxSteps db count)
    (blocked : run.status = .blockedEffect) :
    (db.decision run.id run.stepCount).isSome = true := by
  rw [paced.decided, paced.blocked blocked]
  exact Nat.lt_succ_self _

/-! ### Steps -/

section Step

variable {pid : Nat} {call : Call} {log : History} {answer : Answer}
variable {next : Except Exc op.Result → Proc Unit}

/-- Where a worker that has moved no run finds the run it works on. -/
theorem Stepping.stands {claim : Claim} {event : Event}
    (stepping : Stepping host engine log claim event runId run)
    (still : StandsStill world.db log) :
    ∃ row, world.db.run runId = some row ∧ row.status = .running ∧
      row.stepCount = run.stepCount :=
  still runId run stepping.selected stepping.running

theorem Decided.isSome {step : Nat} {response : ModelResponse}
    (learned : System.Reachable.Learned (fun _ entry world => Known entry world) world log)
    (decided : Decided host log runId step response) :
    (world.db.decision runId step).isSome = true := by
  obtain ⟨decisionJson, seen, _⟩ := decided
  obtain ⟨row, stored, _⟩ := seen.stored learned
  rw [stored]
  rfl

/-- What a step does to a run that keeps its pace, when no decision is added. -/
theorem RunRow.Paced.step {count : Nat} {after : RunRow}
    (paced : row.Paced maxSteps world.db count) (isRow : row.id = runId)
    (change : RunStep runId op (some row) (some after)) (same : db'.decisions = world.db.decisions)
    (rule : CallRule host call log op)
    (learned : System.Reachable.Learned (fun _ entry world => Known entry world) world log)
    (still : op.moves = true → StandsStill world.db log) (stored : world.db.run runId = some row) :
    after.Paced maxSteps db' count := by
  generalize isAfter : some after = target at change
  cases change with
  | keep =>
      obtain rfl := Option.some.inj isAfter
      exact paced.still same rfl rfl fun blocked => blocked
  | @update _ change issued =>
      obtain rfl := Option.some.inj isAfter
      cases call with
      | runOnce engine now =>
          obtain ⟨claim, event, run, stepping, updates⟩ := rule
          cases updates with
          | complete now text decided =>
              obtain ⟨row', stored', _, step⟩ := stepping.stands (still rfl)
              obtain rfl := Option.some.inj (stored.symm.trans stored')
              have isSome := decided.isSome learned
              rw [← step, ← isRow] at isSome
              exact paced.advance same rfl rfl (fun impossible => by cases impossible) isSome
          | exceed now full => exact paced.still same rfl rfl fun impossible => by cases impossible
          | refuse => exact paced.still same rfl rfl fun impossible => by cases impossible
          | note now error => exact paced.still same rfl rfl fun blocked => blocked
      | _ => exact rule.elim
  | block running =>
      obtain rfl := Option.some.inj isAfter
      cases call with
      | runOnce engine now =>
          obtain ⟨claim, event, run, call, stepping, decided, _⟩ := rule
          obtain ⟨row', stored', _, step⟩ := stepping.stands (still rfl)
          obtain rfl := Option.some.inj (stored.symm.trans stored')
          have isSome := decided.isSome learned
          rw [← step, ← isRow] at isSome
          exact paced.block same rfl rfl isSome
      | _ => exact rule.elim
  | advance running =>
      obtain rfl := Option.some.inj isAfter
      cases call with
      | runOnce engine now =>
          obtain ⟨claim, event, run, stepping, step, call, decided⟩ := rule
          have isSome := decided.isSome learned
          rw [← step, ← isRow] at isSome
          exact paced.advance same rfl rfl (by simp [RunRow.advanced, running]) isSome
      | _ => exact rule.elim
  | resume blocked =>
      obtain rfl := Option.some.inj isAfter
      exact paced.advance same rfl rfl (fun impossible => by cases impossible)
        (paced.decided_of_blocked blocked)

/-- A decision that a worker adds is the next one of its run. -/
theorem InPace.decide {row : DecisionRow} {decisions : Table DecisionRow}
    (pace : InPace maxSteps world.db) (inserted : world.db.decisions.insert row = some decisions)
    (lookup : ∀ runId, db'.run runId = world.db.run runId) (added : db'.decisions = decisions)
    {current : RunRow} (stored : world.db.run row.runId = some current)
    (stands : current.stepCount = row.step) (running : current.status = .running)
    (below : (row.step : Int) < maxSteps) : InPace maxSteps db' := by
  have decision : ∀ runId step, (db'.decision runId step).isSome = true ↔
      (world.db.decision runId step).isSome = true ∨ (runId = row.runId ∧ step = row.step) := by
    intro runId step
    have grown := decision_insert inserted runId step
    have same : db'.decision runId step =
        { world.db with decisions := decisions }.decision runId step := Db.decision_congr added
    rw [same, grown,
      Option.isSome_or, Bool.or_eq_true]
    refine or_congr Iff.rfl ?_
    split
    · rename_i same
      simp only [Bool.and_eq_true, beq_iff_eq] at same
      simp [same.1, same.2]
    · rename_i apart
      simp only [Bool.and_eq_true, beq_iff_eq] at apart
      simp only [Option.isSome_none, Bool.false_eq_true, false_iff, not_and]
      intro sameRun sameStep
      exact apart ⟨sameRun.symm, sameStep.symm⟩
  constructor
  · intro runId run found
    rw [lookup] at found
    have isRun := (Db.run_eq_some.1 found).2
    obtain ⟨count, paced⟩ := pace.paced runId run found
    by_cases own : runId = row.runId
    · rw [own] at found isRun
      obtain rfl := Option.some.inj (stored.symm.trans found)
      -- the step was not decided, so the run was one decision behind
      have undecided : ¬ row.step < count := by
        intro decided
        have isSome := (paced.decided row.step).2 decided
        rw [isRun, decision_none_of_insert inserted] at isSome
        cases isSome
      have isCount : count = row.step := by
        rcases paced.stands with same | same <;> omega
      refine ⟨row.step + 1, .inr (by rw [stands]), by omega, fun step => ?_, fun blocked => ?_⟩
      · rw [decision, paced.decided, isCount]
        constructor
        · rintro (before | ⟨_, rfl⟩) <;> omega
        · intro within
          rcases Nat.lt_succ_iff_lt_or_eq.1 within with before | same
          · exact .inl before
          · exact .inr ⟨isRun, same⟩
      · rw [running] at blocked
        cases blocked
    · refine ⟨count, paced.stands, paced.bound, fun step => ?_, paced.blocked⟩
      rw [decision, ← paced.decided, isRun]
      simp [own]
  · intro runId step decided
    rw [lookup]
    rcases (decision runId step).1 decided with before | ⟨rfl, _⟩
    · exact pace.known runId step before
    · rw [stored]
      rfl

/-- Every step of such a run of the system keeps the pace. -/
theorem InPace.step (pace : InPace maxSteps config.world.db)
    (reached : (system host).Reachable (OneWorker maxSteps) KernelConfig.initial config)
    (nonneg : 0 ≤ maxSteps)
    (found : config.procs[pid]? = some ⟨call, .call (F := kernel) op next, log, true⟩) :
    InPace maxSteps (op.answer host answer config.world).2.db := by
  have member := List.mem_of_getElem? found
  have rule := (reachable_rule reached _ member).head
  have learned := reachable_known reached _ member
  -- whoever moves a run or records a decision finds the run where it read it
  have stillFor : call.isWorker = true → (op.moves = true ∨ op.decides = true) →
      StandsStill config.world.db log := by
    intro worker once
    exact stands_still OneWorker.alone reached pid _ found ⟨worker, rfl⟩
      (next_movesOnce reached member worker once)
  rcases decisions_change host config.world answer op with same | ⟨row, rfl, inserted⟩
  · constructor
    · intro runId after stored
      have change := Kernel.runStep host config.world answer rule.issued runId
      rw [stored] at change
      cases before : config.world.db.run runId with
      | some old =>
          rw [before] at change
          obtain ⟨count, paced⟩ := pace.paced runId old before
          exact ⟨count, paced.step (Db.run_eq_some.1 before).2 change same rule learned
            (fun moves => stillFor (rule.mover moves) (.inl moves)) before⟩
      | none =>
          rw [before] at change
          generalize absent : (none : Option RunRow) = old at change
          generalize isAfter : some after = target at change
          have isNew : after.stepCount = 0 ∧ after.status = .running := by
            cases change with
            | keep =>
                rw [← absent] at isAfter
                cases isAfter
            | create =>
                obtain rfl := Option.some.inj isAfter
                exact ⟨rfl, rfl⟩
            | _ => cases absent
          have isRun := (Db.run_eq_some.1 stored).2
          refine ⟨0, .inl isNew.1.symm, nonneg, fun step => ?_, fun blocked => ?_⟩
          · simp only [Nat.not_lt_zero, iff_false]
            intro decided
            rw [Db.decision_congr same, isRun] at decided
            have known := pace.known runId step decided
            rw [before] at known
            cases known
          · rw [isNew.2] at blocked
            cases blocked
    · intro runId step decided
      rw [Db.decision_congr same] at decided
      obtain ⟨run, stored⟩ := Option.isSome_iff_exists.1 (pace.known runId step decided)
      obtain ⟨run', stored', _⟩ := run_evolves host answer rule.issued stored
      rw [stored']
      rfl
  · cases call with
    | runOnce engine now =>
        obtain ⟨claim, event, run, response, stepping, isStep, _, below⟩ := rule
        obtain ⟨current, stored, running, stands⟩ := stepping.stands (stillFor rfl (.inr rfl))
        rw [worker_bound reached _ member engine now rfl] at below
        refine pace.decide inserted ?_ rfl stored (stands.trans isStep.symm) running (isStep ▸ below)
        intro runId
        have issued : (Op.sql (.insertDecision row)).issued := trivial
        have change := Kernel.runStep host config.world answer issued runId
        generalize (Op.answer host _ answer config.world).2.db.run runId = after at change ⊢
        cases change with
        | keep => rfl
    | _ => exact rule.elim

end Step

theorem reachable_inPace (nonneg : 0 ≤ maxSteps)
    (reached : (system host).Reachable (OneWorker maxSteps) KernelConfig.initial config) :
    InPace maxSteps config.world.db := by
  refine reached.invariant (I := fun config => InPace maxSteps config.world.db) .empty ?_
  intro config label config' before pace _ stepped
  cases Steps.of_step stepped with
  | spawn call => exact pace
  | die found => exact pace
  | act found => exact pace.step before nonneg found

/-! ### The end of the budget -/

/-- A run that has used up its steps cannot go on: one step leaves it where it is, or fails it. -/
theorem exhausted_stays (nonneg : 0 ≤ maxSteps)
    (reached : (system host).Reachable (OneWorker maxSteps) KernelConfig.initial config)
    {label : Label Answer Call} (one : OneWorker maxSteps config label)
    (stepped : (system host).step config label = some config')
    (stored : config.world.db.run runId = some run) (running : run.status = .running)
    (full : (run.stepCount : Int) = maxSteps) :
    ∃ run', config'.world.db.run runId = some run' ∧ run'.stepCount = run.stepCount ∧
      (run'.status = .running ∨ run'.status = .failed) := by
  have pace' := reachable_inPace nonneg (.step reached one stepped)
  cases Steps.of_step stepped with
  | spawn call => exact ⟨run, stored, rfl, .inl running⟩
  | die found => exact ⟨run, stored, rfl, .inl running⟩
  | @act pid answer call op next log found =>
      have rule := (reachable_rule reached _ (List.mem_of_getElem? found)).head
      have change := Kernel.runStep host config.world answer rule.issued runId
      rw [stored] at change
      obtain ⟨run', stored', _⟩ := change.evolves
      rw [stored'] at change
      obtain ⟨count, paced⟩ := pace'.paced runId run' stored'
      have bound := paced.bound
      refine ⟨run', stored', ?_⟩
      generalize isRun : some run' = target at change
      cases change with
      | keep =>
          obtain rfl := Option.some.inj isRun
          exact ⟨rfl, .inl running⟩
      | update issued =>
          obtain rfl := Option.some.inj isRun
          cases issued with
          | complete now text =>
              -- a completed run would stand beyond the bound
              have beyond : ((run.stepCount + 1 : Nat) : Int) ≤ count := by
                rcases paced.stands with same | same <;> rw [same] <;> simp [RunChange.apply]
              omega
          | fail now error => exact ⟨rfl, .inr rfl⟩
          | note now error => exact ⟨rfl, .inl running⟩
      | block _ =>
          obtain rfl := Option.some.inj isRun
          have isNext := paced.blocked rfl
          simp only [RunRow.blocked] at isNext
          omega
      | advance _ =>
          obtain rfl := Option.some.inj isRun
          have beyond : ((run.stepCount + 1 : Nat) : Int) ≤ count := by
            rcases paced.stands with same | same <;> rw [same] <;> simp [RunRow.advanced]
          omega
      | resume blocked =>
          rw [running] at blocked
          cases blocked

/-- The row of a run whose steps are used up. -/
def RunRow.exceeded (now : Time) (row : RunRow) : RunRow :=
  RunChange.apply ⟨now, some .failed, none, some "max_steps exceeded", false, false⟩ row

/-- What processing its event leaves of a run that has used up its steps. -/
structure Exhausts (world world' : World) (run : RunRow) (event : EventRow) : Prop where
  failed : ∃ now, world'.db.run run.id = some (run.exceeded now)
  acknowledged : ∃ row ∈ world'.db.events.rows, event.SameRequest row ∧ row.status = .done
  decisions : world'.db.decisions = world.db.decisions
  calls : world'.calls = world.calls

/-- A worker that gets the event of a run that has used up its steps fails the run; whatever the
model would answer makes no difference. -/
theorem runOnce_exhausts {world : World} {row : EventRow} {now : Time}
    (stored : world.db.run run.id = some run) (running : run.status = .running)
    (full : engine.maxSteps ≤ (run.stepCount : Int))
    (found : firstBy host.tieBreak EventRow.before
      (world.db.events.rows.filter (EventRow.claimable now)) = some row)
    (carries : row.Carries run.id run.stepCount) :
    ∃ world', (∀ answers, Faultless answers →
      Runs host answers (engine.runOnce host now) world (.ok (some run.id)) world') ∧
        Exhausts world world' run row := by
  have member : row ∈ world.db.events.rows := List.mem_of_mem_filter (firstBy_mem found)
  let change : RunChange := ⟨now, some .failed, none, some "max_steps exceeded", false, false⟩
  let mid := leased world engine.workerId now engine.leaseSeconds row
  let failed := (Stmt.exec host (.updateRun run.id change) mid).2
  let held := row.claimedBy engine.workerId (now + engine.leaseSeconds) (row.attempts + 1) now
  have isHeld : held ∈ failed.db.events.rows := by
    have mapped := List.mem_map_of_mem (f := fun other : EventRow =>
      if (other.id == row.id) = true then other.claimedBy engine.workerId
        (now + engine.leaseSeconds) (row.attempts + 1) now else other) member
    rw [if_pos (beq_self_eq_true _)] at mapped
    exact mapped
  have storedMid : mid.db.run run.id = some run := stored
  refine ⟨acknowledged failed row.id engine.workerId now, fun answers faultless => ?_, ?_⟩
  · refine .bind (claimEvent_runs faultless found carries.2) ?_
    simp only [carries.1, Engine.runStep, runStepPayload_runId, Host.str]
    rw [if_neg (by decide), if_pos trivial]
    refine .bind (getRun_runs faultless storedMid) ?_
    have sameStep : ((runStepPayload run.id run.stepCount).value.get? "step").bind PyVal.asInt? =
        some (run.stepCount : Int) := payloadStep_runStepPayload run.id run.stepCount
    simp only [sameStep, ne_eq, not_true_eq_false, if_false, running, full, if_true]
    refine .bind (updateRun_runs faultless run.id (.fail now _)) ?_
    refine .bind (ack_runs faultless isHeld rfl rfl rfl) ?_
    exact .done _
  · constructor
    · refine ⟨now, ?_⟩
      change failed.db.run run.id = _
      refine (run_updateRuns mid _ _ _ run.id).trans ?_
      have same : mid.db.run run.id = some run := stored
      rw [same, Option.map_some, if_pos (by simp)]
      rfl
    · refine ⟨held.acked now, ?_, ⟨rfl, rfl, rfl, rfl, rfl⟩, rfl⟩
      have mapped := List.mem_map_of_mem (f := fun other : EventRow =>
        if EventRow.heldBy row.id engine.workerId other = true then other.acked now else other)
        isHeld
      have isHolder : held.heldBy row.id engine.workerId = true :=
        EventRow.heldBy_eq_true.2 ⟨rfl, rfl, rfl⟩
      rw [if_pos isHolder] at mapped
      exact mapped
    · rfl
    · rfl

/-! ### The claim -/

/-- Every run is bounded, its decisions have no gaps, and its budget ends in failure. -/
structure PaceKept (host : Host) (maxSteps : Int) (config : KernelConfig) : Prop where
  /-- No run stands beyond the bound. -/
  bounded : ∀ run ∈ config.world.db.runs.rows, (run.stepCount : Int) ≤ maxSteps
  /-- The decided steps of a run are the first ones, up to the one it stands at. -/
  gapless : ∀ run ∈ config.world.db.runs.rows, ∃ count,
    (count = run.stepCount ∨ count = run.stepCount + 1) ∧ (count : Int) ≤ maxSteps ∧
      ∀ step, (∃ row ∈ config.world.db.decisions.rows, row.runId = run.id ∧ row.step = step) ↔
        step < count
  /-- The model is asked for a step below the bound only. -/
  asks : ∀ process ∈ config.procs, ∀ messages tools,
    process.nextOp = some (.respond messages tools) → ∃ engine now runId step,
      process.call = .runOnce engine now ∧ ActsFor host engine process.log runId step ∧
        (step : Int) < maxSteps
  /-- A run that has used up its steps goes nowhere but into failure. -/
  halts : ∀ run ∈ config.world.db.runs.rows, run.status = .running →
    (run.stepCount : Int) = maxSteps → ∀ label config', OneWorker maxSteps config label →
      (system host).step config label = some config' →
        ∃ run' ∈ config'.world.db.runs.rows, run'.id = run.id ∧ run'.stepCount = run.stepCount ∧
          (run'.status = .running ∨ run'.status = .failed)
  /-- It fails the next time its event is processed, whatever the model would say. -/
  fails : ∀ run ∈ config.world.db.runs.rows, run.status = .running →
    (run.stepCount : Int) = maxSteps → ∀ (engine : Engine) now event,
      engine.maxSteps = maxSteps →
      firstBy host.tieBreak EventRow.before
        (config.world.db.events.rows.filter (EventRow.claimable now)) = some event →
      event.Carries run.id run.stepCount →
        ∃ world', (∀ answers, Faultless answers → Runs host answers (engine.runOnce host now)
          config.world (.ok (some run.id)) world') ∧ Exhausts config.world world' run event

/-- With one worker at a time and one bound, runs are bounded and their decisions have no gaps. -/
theorem bounded_runs (host : Host) (maxSteps : Int) (nonneg : 0 ≤ maxSteps) (config : KernelConfig)
    (reached : (system host).Reachable (OneWorker maxSteps) KernelConfig.initial config) :
    PaceKept host maxSteps config := by
  have pace := reachable_inPace nonneg reached
  have stored : ∀ run ∈ config.world.db.runs.rows, config.world.db.run run.id = some run :=
    fun run member => Db.run_eq_some.2 ⟨member, rfl⟩
  constructor
  · intro run member
    obtain ⟨count, paced⟩ := pace.paced run.id run (stored run member)
    have bound := paced.bound
    rcases paced.stands with same | same <;> omega
  · intro run member
    obtain ⟨count, paced⟩ := pace.paced run.id run (stored run member)
    refine ⟨count, paced.stands, paced.bound, fun step => ?_⟩
    rw [← paced.decided step, Option.isSome_iff_exists]
    constructor
    · rintro ⟨row, there, isRun, isStep⟩
      exact ⟨row, Db.decision_eq_some.2 ⟨there, isRun, isStep⟩⟩
    · rintro ⟨row, found⟩
      obtain ⟨there, isRun, isStep⟩ := Db.decision_eq_some.1 found
      exact ⟨row, there, isRun, isStep⟩
  · intro process member messages tools next
    have rule := next_rule reached member next
    obtain ⟨engine, now, isWorker⟩ : ∃ engine now, process.call = .runOnce engine now := by
      cases isCall : process.call with
      | runOnce engine now => exact ⟨engine, now, rfl⟩
      | _ =>
          rw [isCall] at rule
          exact rule.elim
    rw [isWorker] at rule
    obtain ⟨claim, event, runId, run, stepping, below⟩ := rule
    rw [worker_bound reached process member engine now isWorker] at below
    exact ⟨engine, now, runId, run.stepCount, isWorker, ⟨claim, event, run, stepping, rfl⟩, below⟩
  · intro run member running full label config' one stepped
    obtain ⟨run', found, sameStep, status⟩ :=
      exhausted_stays nonneg reached one stepped (stored run member) running full
    obtain ⟨member', isRun⟩ := Db.run_eq_some.1 found
    exact ⟨run', member', isRun, sameStep, status⟩
  · intro run member running full engine now event bound found carries
    exact runOnce_exhausts (stored run member) running (by omega) found carries

/-- A bound of one step, which the run uses up before its worker dies. -/
def usedUp : List (Label Answer Call) :=
  [.spawn (.submitTask "task" ["money"] 0 none), .act 0 .quiet,
    .spawn (.runOnce { payEngine "a" with maxSteps := 1 } 0), .act 1 .quiet, .act 1 .quiet,
    .act 1 .quiet, .act 1 .quiet, .act 1 (.ofResponse (.toolCall (payCall "q"))), .act 1 .quiet,
    .act 1 .quiet, .act 1 .quiet, .act 1 .quiet, .act 1 .quiet, .act 1 .quiet, .act 1 .quiet,
    .act 1 .quiet, .act 1 .quiet, .die 1]

set_option maxRecDepth 10000 in
/-- The pace of a run that stands, running, at its bound. -/
theorem bounded_runs_usedUp :
    ∃ config, (system plainHost).Reachable (OneWorker 1) KernelConfig.initial config ∧
      config.world.db.runStanding "id-0" = some (.running, 1) ∧ PaceKept plainHost 1 config := by
  have ran : ((system plainHost).run (oneWorker 1) KernelConfig.initial usedUp).any
      (fun config => decide (config.world.db.runStanding "id-0" = some (.running, 1))) = true := by
    decide +kernel
  obtain ⟨config, reached, standing⟩ := System.Reachable.exists_of_run usedUp ran
  exact ⟨config, reached, by simpa using standing,
    bounded_runs plainHost 1 (by decide) config reached⟩

end PreActive.Kernel
