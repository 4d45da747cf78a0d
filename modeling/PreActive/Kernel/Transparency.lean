/-
Module: PreActive.Kernel.Transparency
Purpose: The deaths of a process leave no trace in what a task comes to.
Trusted boundary: human-reviewed spec
Main exports: Attempt, Environment.after, crash_transparency
-/
import PreActive.Kernel.Attempts
import PreActive.Kernel.Solo

namespace PreActive.Kernel

open PreActive.Foundation PreActive.Python

/-! ### Schedules -/

/-- No mutation is between its `EXECUTING` and its `COMMITTED` write. -/
def World.settled (world : World) : Bool :=
  world.db.effects.rows.all fun row => row.state != .executing

/-- One `run_once` of a worker that runs alone.  A process that dies has performed so many steps,
and a block that it did not commit has drawn so many identifiers. -/
structure Attempt where
  workerId : String
  leaseSeconds : Time
  now : Time
  death : Option (Nat × Nat)

namespace Environment

variable (env : Environment)

/-- The world after one attempt. -/
def attempt (attempt : Attempt) (world : World) : World :=
  let program := (env.engine attempt.workerId attempt.leaseSeconds).runOnce env.host attempt.now
  match attempt.death with
  | none => (program.execute (kernelMachine env.host) env.answers world).2
  | some (steps, drawn) =>
      let world' := program.runFor (kernelMachine env.host) env.answers steps world
      { world' with drawn := world'.drawn + drawn }

/-- The world after a schedule of attempts. -/
def after (schedule : List Attempt) (world : World) : World :=
  schedule.foldl (fun world attempt => env.attempt attempt world) world

/-- No process dies between the `EXECUTING` and the `COMMITTED` write of a mutation. -/
def spares : List Attempt → World → Bool
  | [], _ => true
  | attempt :: rest, world =>
      (attempt.death.isNone || (env.attempt attempt world).settled) &&
        spares rest (env.attempt attempt world)

end Environment

/-- A store that a new task comes to: no event is left to do, every mutation in the ledger has its
result, and nothing in it is of the run. -/
structure Environment.Awaits (env : Environment) (world : World) : Prop where
  memories : world.db.memories = env.memories
  events : ∀ row ∈ world.db.events.rows, row.status = .done
  ledger : ∀ row ∈ world.db.effects.rows, row.state = .committed ∧
    ∃ output : JsonObject, row.resultJson = some (output.text canonicalStyle)
  run : world.db.run env.runId = none
  decisions : ∀ row ∈ world.db.decisions.rows, row.runId ≠ env.runId
  messages : ∀ row ∈ world.db.messages.rows, row.runId ≠ env.runId
  keys : ∀ row ∈ world.db.events.rows, ∀ step, row.dedupKey ≠ some (runStepKey env.runId step)
  identifiers : ∀ row ∈ world.db.events.rows, ∀ index, world.drawn ≤ index →
    row.id ≠ env.host.uuid4 index

/-- The run has a terminal status. -/
def World.terminal (runId : String) (world : World) : Bool :=
  (world.db.run runId).any fun row => row.status == .completed || row.status == .failed

variable {env : Environment} {start view : View} {world world' : World}

/-! ### One attempt -/

/-- What is left in a spared store is a view of the machine. -/
theorem Crashable.spared (crashable : Crashable env start world)
    (spared : world.settled = true) :
    ∃ view, At env view world ∧ env.Chain start view := by
  obtain ⟨view, shows, chain | ⟨row, member, executing⟩⟩ := crashable
  · exact ⟨view, shows, chain⟩
  · rw [shows.fields.2.2.1] at member
    obtain ⟨stored, inTable, rfl⟩ := List.mem_map.1 member
    have resolved := List.all_eq_true.1 spared stored inTable
    simp only [bne_iff_ne] at resolved
    exact absurd executing resolved

/-- One attempt keeps to the machine, whether the process dies in it or not. -/
theorem attempt_keeps (settled : start.Settled) (shows : At env view world)
    (chain : env.Chain start view) (attempt : Attempt)
    (spared : (attempt.death.isNone || (env.attempt attempt world).settled) = true) :
    ∃ view', At env view' (env.attempt attempt world) ∧ env.Chain start view' := by
  have passes := runOnce_does attempt.workerId attempt.leaseSeconds attempt.now settled chain world
    shows
  cases dies : attempt.death with
  | none =>
      have ends := Program.passes_execute passes
      simp only [Environment.attempt, dies]
      generalize (Program.execute _ _ _ _) = outcome at ends
      rcases outcome with ⟨exc | value, world'⟩
      · obtain ⟨view', shows', chain', _⟩ := ends
        exact ⟨view', shows', chain'⟩
      · obtain ⟨view', shows', chain', _⟩ := ends
        exact ⟨view', shows', chain'⟩
  | some death =>
      have crashed := Program.passes_runFor passes death.1
      simp only [dies, Option.isNone_some, Bool.false_or, Environment.attempt] at spared ⊢
      obtain ⟨view', shows', chain'⟩ := crashed.spared spared
      exact ⟨view', shows'.drawn _, chain'⟩

/-- A whole schedule keeps to the machine. -/
theorem after_keeps (settled : start.Settled) (schedule : List Attempt) {world : World}
    {view : View} (shows : At env view world) (chain : env.Chain start view)
    (spared : env.spares schedule world = true) :
    ∃ view', At env view' (env.after schedule world) ∧ env.Chain start view' := by
  induction schedule generalizing world view with
  | nil => exact ⟨view, shows, chain⟩
  | cons attempt rest ih =>
      rw [Environment.spares, Bool.and_eq_true] at spared
      obtain ⟨view', shows', chain'⟩ := attempt_keeps settled shows chain attempt spared.1
      exact ih shows' chain' spared.2

theorem Environment.spares_of_alive {schedule : List Attempt}
    (alive : ∀ attempt ∈ schedule, attempt.death = none) (world : World) :
    env.spares schedule world = true := by
  induction schedule generalizing world with
  | nil => rfl
  | cons attempt rest ih =>
      rw [Environment.spares, alive attempt List.mem_cons_self]
      exact ih (fun other member => alive other (List.mem_cons_of_mem _ member)) _

/-- A run with a terminal status is at the end of the machine. -/
theorem At.ended (shows : At env view world) (terminal : world.terminal env.runId = true) :
    env.next view = none := by
  obtain ⟨row, stored, ended⟩ := (Option.any_eq_true _ _).1 terminal
  simp only [Bool.or_eq_true, beq_iff_eq] at ended
  obtain ⟨row', stored', same⟩ := shows.run
  rw [stored, Option.some.injEq] at stored'
  subst stored'
  have status : view.run.status = row.status := by rw [← same]; rfl
  rw [Environment.next, if_pos]
  rw [status]
  rcases ended with ended | ended <;> rw [ended] <;> decide

/-! ### The task -/

/-- What `submit_task` leaves of a new run. -/
theorem submit_creates {task : String} {capabilities : List String} {now : Time}
    {sourceEventId : Option String} (awaits : env.Awaits world)
    (submits : (submitTask task capabilities now sourceEventId).execute (kernelMachine env.host)
      env.answers world = (.ok env.runId, world')) :
    ∃ runs middle eventId,
      world.db.runs.insert (newRunRow task capabilities now sourceEventId env.runId) = some runs ∧
        middle = { world with db := { world.db with runs := runs }, drawn := world.drawn + 1 } ∧
          Enqueues env.host (runStepRequest env.runId 0 0 now) middle eventId world' := by
  have ran : Transaction.exec env.host
      (.createRunWithInitialStep task capabilities now sourceEventId 0) world =
        (.ok env.runId, world') := by
    have alone := Op.runs env.host env.answers
      (.transaction (.createRunWithInitialStep task capabilities now sourceEventId 0)) world
    obtain ⟨outcome, last⟩ := alone.unique submits
    exact Prod.ext outcome last
  have committed := Transaction.exec_ok ran
  generalize same : env.runId = runId at committed
  cases committed with
  | createRun created enqueued =>
      cases created with
      | reused source row bound found sameTask sameSet =>
          have stored : row ∈ world.db.runs.rows := Table.mem_of_select found
          exact absurd same.symm (Db.run_eq_none.1 awaits.run row stored)
      | fresh runs inserted => exact ⟨runs, _, _, inserted, rfl, enqueued⟩

/-- A submitted task starts the machine, with a settled ledger. -/
theorem submitted_starts {task : String} {capabilities : List String} {now : Time}
    {sourceEventId : Option String} (awaits : env.Awaits world)
    (submits : (submitTask task capabilities now sourceEventId).execute (kernelMachine env.host)
      env.answers world = (.ok env.runId, world')) :
    ∃ start, At env start world' ∧ start.Settled := by
  obtain ⟨runs, middle, eventId, inserted, rfl, enqueued⟩ := submit_creates awaits submits
  have found := run_insert inserted env.runId
  have isRun : (newRunRow task capabilities now sourceEventId env.runId).id = env.runId := rfl
  rw [awaits.run, Option.none_or, if_pos isRun] at found
  have shows : At env _ { world with db := { world.db with runs := runs }, drawn := world.drawn + 1 } :=
    { seen := by rw [viewOf, found, Option.map_some]
      memories := awaits.memories
      events := fun row stored open' => absurd (awaits.events row stored) open' }
  refine ⟨_, shows.enqueues enqueued, ?_⟩
  intro row member
  obtain ⟨stored, inTable, rfl⟩ := List.mem_map.1 member
  exact awaits.ledger stored inTable

/-- Crash transparency. -/
theorem crash_transparency (env : Environment) (task : String) (capabilities : List String)
    (now : Time) (sourceEventId : Option String) (world submitted : World)
    (awaits : env.Awaits world)
    (submits : (submitTask task capabilities now sourceEventId).execute (kernelMachine env.host)
      env.answers world = (.ok env.runId, submitted))
    (schedule crashFree : List Attempt) (spared : env.spares schedule submitted = true)
    (alive : ∀ attempt ∈ crashFree, attempt.death = none)
    (ends : (env.after schedule submitted).terminal env.runId = true)
    (ends' : (env.after crashFree submitted).terminal env.runId = true) :
    viewOf env.runId (env.after schedule submitted) =
      viewOf env.runId (env.after crashFree submitted) := by
  obtain ⟨start, shows, settled⟩ := submitted_starts awaits submits
  obtain ⟨view, shown, chain⟩ := after_keeps settled schedule shows .refl spared
  obtain ⟨view', shown', chain'⟩ := after_keeps settled crashFree shows .refl
    (Environment.spares_of_alive alive submitted)
  rw [shown.seen, shown'.seen, chain.end_unique chain' (shown.ended ends) (shown'.ended ends')]

/-! ### A payment with two deaths -/

/-- A model that asks for a payment until it is told of one. -/
def payingEnvironment : Environment where
  host := plainHost
  tools := payRegistry
  context := ⟨1000, 0⟩
  systemPrompt := ""
  maxSteps := 8
  model messages _ :=
    if ContextAssembler.contentLength messages < 20 then .toolCall (payCall "q")
    else .finalText "paid"
  handler _ _ := .empty
  memories := .empty
  runId := "id-0"

/-- The task is submitted to an empty store. -/
def paymentSubmitted : Except Exc String × World :=
  (submitTask "pay" ["money"] 0 none).execute (kernelMachine plainHost) payingEnvironment.answers
    World.initial

/-- A worker dies before the admission of the payment and one after it. -/
def mortalWorkers : List Attempt :=
  [⟨"a", 10, 0, some (8, 1)⟩, ⟨"b", 10, 10, some (10, 0)⟩, ⟨"a", 10, 20, none⟩, ⟨"a", 10, 30, none⟩]

def immortalWorkers : List Attempt := [⟨"a", 10, 0, none⟩, ⟨"a", 10, 1, none⟩]

theorem paymentSubmitted_ok :
    paymentSubmitted = (.ok payingEnvironment.runId, paymentSubmitted.2) := by
  refine Prod.ext ?_ rfl
  rfl

theorem payingEnvironment_awaits : payingEnvironment.Awaits World.initial where
  memories := rfl
  events := fun _ stored => nomatch stored
  ledger := fun _ stored => nomatch stored
  run := rfl
  decisions := fun _ stored => nomatch stored
  messages := fun _ stored => nomatch stored
  keys := fun _ stored => nomatch stored
  identifiers := fun _ stored => nomatch stored

set_option maxRecDepth 10000 in
/-- Two deaths, and the task comes to what it comes to without them. -/
theorem crash_transparency_payment :
    viewOf "id-0" (payingEnvironment.after mortalWorkers paymentSubmitted.2) =
      viewOf "id-0" (payingEnvironment.after immortalWorkers paymentSubmitted.2) :=
  crash_transparency payingEnvironment "pay" ["money"] 0 none World.initial paymentSubmitted.2
    payingEnvironment_awaits paymentSubmitted_ok mortalWorkers immortalWorkers
    (by decide +kernel) (by decide) (by decide +kernel) (by decide +kernel)

end PreActive.Kernel
