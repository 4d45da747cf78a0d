/-
Module: PreActive.Kernel.Journal
Purpose: Calls of the store that a fault or the death of the process cuts short between two of
  their statements, and what the journal says about the state they leave.
Trusted boundary: human-reviewed spec
Main exports: Outages, StoreCall, StoreCall.under, StoreCall.severed, StoreRun, JournalAgrees,
  journal_agreement
-/
import PreActive.Foundation.Crash
import PreActive.Kernel.Queue

namespace PreActive.Kernel

open PreActive.Foundation PreActive.Python

/-! ### Calls that are cut short -/

/-- What befalls the statements of a process, one entry for each.  The process dies where the list
ends. -/
abbrev Outages := List (Option Fault)

/-- The database, each statement of which may fail. -/
def faultyMachine (host : Host) : Machine stmtSignature Exc World (Option Fault) where
  answer stmt fault world :=
    match fault with
    | some fault => (.error fault.exc, world)
    | none => stmt.exec host world

/-- Autocommitted statements under outages. -/
def Sql.under {α : Type} (host : Host) (sql : Sql α) (outages : Outages) (world : World) :
    Option (Except Exc α) × World × Outages :=
  sql.runThrough (faultyMachine host) outages world

/-- `BEGIN IMMEDIATE`, the statements of the block and `COMMIT` under outages.  Whatever is not
committed is rolled back, by the handler or by the recovery of the database. -/
def Transaction.under (host : Host) (block : Transaction) : Outages → World → World
  | none :: outages, world =>
      match (block.body host).under host outages world with
      | (some (.ok _), world', none :: _) => world'
      | (_, world', _) => { world with drawn := world'.drawn }
  | _, world => world

/-- The calls of the store that pair a change of an event or a run with a journal entry. -/
inductive StoreCall where
  | enqueueEvent (request : EventRequest)
  | claimEvent (workerId : String) (now leaseSeconds : Time)
  | ackEvent (eventId workerId : String) (now : Time)
  | failEvent (eventId workerId : String) (now : Time) (retryAt : Option Time)
  | createRunWithInitialStep (task : String) (capabilities : List String) (now : Time)
      (sourceEventId : Option String) (priority : Int)
  | advanceRunStep (runId : String) (expectedStep : Nat) (priority : Int) (now : Time)
  | blockRunOnEffect (runId requestId error : String) (now : Time)
  | resumeRunAfterEffect (runId : String) (now : Time) (priority : Int)

/-- The durable state that a call leaves. -/
def StoreCall.under (host : Host) (outages : Outages) : StoreCall → World → World
  | enqueueEvent request, world => ((Kernel.enqueueEvent request).under host outages world).2.1
  | claimEvent workerId now leaseSeconds, world =>
      (Transaction.claimEvent workerId now leaseSeconds).under host outages world
  | ackEvent eventId workerId now, world =>
      ((Kernel.ackEvent eventId workerId now).under host outages world).2.1
  | failEvent eventId workerId now retryAt, world =>
      ((Kernel.failEvent eventId workerId now retryAt).under host outages world).2.1
  | createRunWithInitialStep task capabilities now sourceEventId priority, world =>
      (Transaction.createRunWithInitialStep task capabilities now sourceEventId priority).under host
        outages world
  | advanceRunStep runId expectedStep priority now, world =>
      (Transaction.advanceRunStep runId expectedStep priority now).under host outages world
  | blockRunOnEffect runId requestId error now, world =>
      ((Kernel.blockRunOnEffect runId requestId error now).under host outages world).2.1
  | resumeRunAfterEffect runId now priority, world =>
      (Transaction.resumeRunAfterEffect runId now priority).under host outages world

/-! ### Calls that are cut off from their journal entry -/

def Stmt.isJournal : Stmt → Bool
  | insertJournal _ => true
  | _ => false

/-- The outages stop the statements right before a journal entry. -/
def Sql.severed {α : Type} (host : Host) : Sql α → Outages → World → Bool
  | .done _, _, _ => false
  | .raise _, _, _ => false
  | .call stmt _, [], _ => Stmt.isJournal stmt
  | .call stmt next, fault :: outages, world =>
      (Stmt.isJournal stmt && fault.isSome) ||
        Sql.severed host (next ((faultyMachine host).answer stmt fault world).1) outages
          ((faultyMachine host).answer stmt fault world).2

/-- A call outside a transaction that stops between its change and the journal entry. -/
def StoreCall.severed (host : Host) (outages : Outages) : StoreCall → World → Bool
  | enqueueEvent request, world => (Kernel.enqueueEvent request).severed host outages world
  | ackEvent eventId workerId now, world =>
      (Kernel.ackEvent eventId workerId now).severed host outages world
  | failEvent eventId workerId now retryAt, world =>
      (Kernel.failEvent eventId workerId now retryAt).severed host outages world
  | blockRunOnEffect runId requestId error now, world =>
      (Kernel.blockRunOnEffect runId requestId error now).severed host outages world
  | _, _ => false

/-- The worlds that sequences of calls under any outages lead to from an empty store, with a
condition on every call. -/
inductive StoreRun (host : Host) (allowed : Outages → StoreCall → World → Prop) : World → Prop where
  | start : StoreRun host allowed World.initial
  | call {world : World} (before : StoreRun host allowed world) (call : StoreCall)
      (outages : Outages) (allows : allowed outages call world) :
      StoreRun host allowed (call.under host outages world)

/-! ### What the journal says -/

/-- The status and the attempts of an event after one more journal entry. -/
def JournalRow.revise (eventId : String) (standing : Option (EventStatus × Nat))
    (entry : JournalRow) : Option (EventStatus × Nat) :=
  if entry.subjectId = some eventId then
    match entry.eventType with
    | .eventEnqueued => some (.pending, 0)
    | .eventClaimed => standing.map fun (_, attempts) => (.claimed, attempts + 1)
    | .eventAcked => standing.map fun (_, attempts) => (.done, attempts)
    | .eventRetryScheduled => standing.map fun (_, attempts) => (.pending, attempts)
    | _ => standing
  else standing

/-- The status and the attempts of an event as the journal tells them. -/
def journalStanding (journal : List JournalRow) (eventId : String) : Option (EventStatus × Nat) :=
  journal.foldl (JournalRow.revise eventId) none

/-- How many entries of a kind the journal has about a subject. -/
def journalCount (journal : List JournalRow) (kind : JournalKind) (subjectId : String) : Nat :=
  journal.countP fun entry => entry.eventType == kind && entry.subjectId == some subjectId

/-- The journal tells the events and the blocks of the runs as they are. -/
structure JournalAgrees (db : Db) : Prop where
  events : ∀ row ∈ db.events.rows, journalStanding db.journal row.id = some (row.status, row.attempts)
  runs : ∀ row ∈ db.runs.rows, row.status = .blockedEffect ↔
    journalCount db.journal .runBlockedEffect row.id =
      journalCount db.journal .runEffectRecovered row.id + 1

/-! ### Blocks under outages -/

variable {host : Host} {world world' : World} {outages : Outages}

/-- The exceptions of failing statements. -/
def IsFault (exc : Exc) : Prop := ∃ fault : Fault, exc = fault.exc

theorem IsFault.not_integrity {exc : Exc} (isFault : IsFault exc) : exc.isIntegrityError = false := by
  obtain ⟨fault, rfl⟩ := isFault
  cases fault <;> rfl

theorem existingForDedup_strict (dedupKey : Option String) :
    (existingForDedup dedupKey).Strict IsFault := by
  unfold existingForDedup
  split
  · split
    · trivial
    · exact .perform _
  · trivial

theorem reuseOrReject_strict (request : EventRequest) (row : EventRow) :
    (reuseOrReject request row).Strict IsFault := by
  unfold reuseOrReject
  split <;> trivial

/-- What `enqueue_event` does after its `INSERT`. -/
theorem enqueueEvent_strict (request : EventRequest) :
    (enqueueEvent request).Strict IsFault := by
  refine .bind (existingForDedup_strict _) fun existing => ?_
  split
  · exact reuseOrReject_strict request _
  · refine .bind (.perform _) fun eventId => .afterAttempt _ ?_ ?_
    · intro error isFault
      simp only [isFault.not_integrity]
      exact ⟨error, rfl⟩
    · rintro (exc | ⟨⟩)
      · simp only
        split
        · refine .bind (existingForDedup_strict _) fun raced => ?_
          split
          · trivial
          · exact reuseOrReject_strict request _
        · trivial
      · exact .bind (.perform _) fun _ => trivial

theorem reuseRun_strict (task : String) (capabilities : List String) (existing : RunRow) :
    (reuseRun task capabilities existing).Strict IsFault := by
  unfold reuseRun
  split <;> trivial

theorem insertNewRun_strict (task : String) (capabilities : List String) (now : Time)
    (sourceEventId : Option String) :
    (insertNewRun task capabilities now sourceEventId).Strict IsFault := by
  refine .bind (.perform _) fun runId => .afterAttempt _ ?_ ?_
  · intro error isFault
    simp only [isFault.not_integrity]
    exact ⟨error, rfl⟩
  · rintro (exc | ⟨⟩)
    · simp only
      split
      · split
        · trivial
        · refine .bind (.perform _) fun existing => ?_
          split
          · trivial
          · exact reuseRun_strict _ _ _
      · trivial
    · trivial

theorem createRun_strict (task : String) (capabilities : List String) (now : Time)
    (sourceEventId : Option String) :
    (createRun task capabilities now sourceEventId).Strict IsFault := by
  unfold createRun
  split
  · exact insertNewRun_strict _ _ _ _
  · refine .bind (.perform _) fun existing => ?_
    split
    · exact reuseRun_strict _ _ _
    · exact insertNewRun_strict _ _ _ _

/-- No statement of a block survives its own failure. -/
theorem Transaction.body_strict (host : Host) (block : Transaction) :
    (block.body host).Strict IsFault := by
  cases block with
  | claimEvent workerId now leaseSeconds =>
      refine .bind (.perform _) fun row => ?_
      split
      · trivial
      · exact .bind (.perform _) fun _ => .bind (.perform _) fun _ => trivial
  | createRunWithInitialStep task capabilities now sourceEventId priority =>
      refine .bind (createRun_strict _ _ _ _) fun runId => ?_
      exact .bind (enqueueEvent_strict _) fun _ => trivial
  | advanceRunStep runId expectedStep priority now =>
      refine .bind (.perform _) fun rowcount => ?_
      split
      · trivial
      · exact .bind (enqueueEvent_strict _) fun _ => trivial
  | resumeRunAfterEffect runId now priority =>
      refine .bind (.perform _) fun row => ?_
      split
      · trivial
      · split
        · trivial
        · refine .bind (.perform _) fun rowcount => ?_
          split
          · trivial
          · refine .bind (.perform _) fun _ => ?_
            exact .bind (enqueueEvent_strict _) fun _ => trivial
  | reconcile requestId effectOccurred evidenceDigest resultJson resultDigest now =>
      refine .bind (.perform _) fun row => ?_
      split
      · trivial
      · split
        · trivial
        · refine .bind (.perform _) fun _ => ?_
          split
          · exact .perform _
          · exact .perform _

/-- A block leaves the database as it was, or commits with all its statements done. -/
theorem Transaction.under_cases (block : Transaction) :
    (block.under host outages world).db = world.db ∨
      ∃ result, Transacts host world block result (block.under host outages world) := by
  cases outages with
  | nil => exact .inl rfl
  | cons first outages =>
      cases first with
      | some fault => exact .inl rfl
      | none =>
          simp only [Transaction.under]
          split
          · rename_i result world' rest ran
            right
            have body : (block.body host).run host world = (.ok result, world') := by
              refine (block.body_strict host).execute_of_runThrough (sqlMachine host) _ ?_ ran
              intro stmt fault world
              cases fault with
              | none => exact .inl rfl
              | some fault => exact .inr ⟨fault.exc, ⟨fault, rfl⟩, rfl⟩
            refine ⟨result, Transaction.exec_ok ?_⟩
            rw [Transaction.exec, body]
          · exact .inl rfl

/-! ### Autocommitted calls under outages -/

/-- Statements that are cut off nowhere from their journal entry. -/
structure Sql.Endures {α : Type} (host : Host) (sql : Sql α) (world : World)
    (P : World → Prop) : Prop where
  ends : ∀ outages, sql.severed host outages world = false → P (sql.under host outages world).2.1

namespace Sql.Endures

variable {α β : Type} {P : World → Prop}

theorem done (value : α) (holds : P world) : Sql.Endures host (.done value) world P :=
  ⟨fun _ _ => holds⟩

theorem raise (exc : Exc) (holds : P world) : Sql.Endures host (.raise exc : Sql α) world P :=
  ⟨fun _ _ => holds⟩

/-- A statement that is no journal entry. -/
theorem call {stmt : Stmt} {next : Except Exc stmt.Result → Sql α} (holds : P world)
    (faulty : ∀ fault : Fault, Sql.Endures host (next (.error fault.exc)) world P)
    (calm : Sql.Endures host (next (stmt.exec host world).1) (stmt.exec host world).2 P) :
    Sql.Endures host (.call (F := stmtSignature) stmt next) world P := by
  refine ⟨fun outages whole => ?_⟩
  cases outages with
  | nil => exact holds
  | cons fault outages =>
      simp only [Sql.severed, Bool.or_eq_false_iff] at whole
      cases fault with
      | none => exact calm.ends outages whole.2
      | some fault => exact (faulty fault).ends outages whole.2

/-- A journal entry is always written, and what came before it is not seen. -/
theorem journal {row : JournalRow} {next : Except Exc Nat → Sql α}
    (calm : Sql.Endures host (next (.ok (world.db.journal.length + 1)))
      { world with db := { world.db with journal := world.db.journal ++ [row] } } P) :
    Sql.Endures host (.call (F := stmtSignature) (.insertJournal row) next) world P := by
  refine ⟨fun outages whole => ?_⟩
  cases outages with
  | nil => cases whole
  | cons fault outages =>
      cases fault with
      | none =>
          simp only [Sql.severed, Bool.or_eq_false_iff] at whole
          exact calm.ends outages whole.2
      | some fault => simp [Sql.severed, Stmt.isJournal] at whole

end Sql.Endures

/-! ### One call -/

/-- The run is blocked on an effect. -/
def Db.blocks (db : Db) (runId : String) : Bool :=
  (db.run runId).any fun row => row.status == .blockedEffect

/-- What the journal says, as an invariant of the calls: entries about runs that are not stored
are balanced too. -/
structure Journalled (db : Db) : Prop where
  events : ∀ row ∈ db.events.rows, journalStanding db.journal row.id = some (row.status, row.attempts)
  runs : ∀ runId, journalCount db.journal .runBlockedEffect runId =
    journalCount db.journal .runEffectRecovered runId + if db.blocks runId then 1 else 0

theorem journalStanding_append (journal : List JournalRow) (entry : JournalRow) (eventId : String) :
    journalStanding (journal ++ [entry]) eventId =
      entry.revise eventId (journalStanding journal eventId) := by
  simp [journalStanding, List.foldl_append]

theorem journalCount_append (journal : List JournalRow) (entry : JournalRow) (kind : JournalKind)
    (subjectId : String) :
    journalCount (journal ++ [entry]) kind subjectId = journalCount journal kind subjectId +
      if entry.eventType = kind ∧ entry.subjectId = some subjectId then 1 else 0 := by
  simp [journalCount, List.countP_append, List.countP_singleton]

theorem Journalled.agrees {db : Db} (journalled : Journalled db) : JournalAgrees db where
  events := journalled.events
  runs := by
    intro row stored
    have found : db.run row.id = some row := Db.run_eq_some.2 ⟨stored, rfl⟩
    have counts := journalled.runs row.id
    simp only [Db.blocks, found, Option.any_some] at counts
    constructor
    · intro blocked
      simpa [blocked] using counts
    · intro more
      by_contra running
      have unblocked : (row.status == .blockedEffect) = false := by simpa using running
      rw [unblocked, if_neg Bool.false_ne_true] at counts
      omega

/-- Entries about events and nothing else leave the blocks of the runs alone. -/
theorem Journalled.runs_of_event {db : Db} (journalled : Journalled db) {entry : JournalRow}
    (notBlocked : entry.eventType ≠ .runBlockedEffect)
    (notRecovered : entry.eventType ≠ .runEffectRecovered) {runId : String} :
    journalCount (db.journal ++ [entry]) .runBlockedEffect runId =
      journalCount (db.journal ++ [entry]) .runEffectRecovered runId +
        if db.blocks runId then 1 else 0 := by
  rw [journalCount_append, journalCount_append, if_neg fun both => notBlocked both.1,
    if_neg fun both => notRecovered both.1]
  exact journalled.runs runId

/-- A change of one event with its journal entry. -/
theorem Journalled.revised (journalled : Journalled world.db) {row : EventRow}
    (stored : row ∈ world.db.events.rows) (p : EventRow → Bool) (f : EventRow → EventRow)
    (keeps : ∀ row, UniqueKeys.key (f row) = UniqueKeys.key row) (hits : p row = true)
    (only : ∀ other, p other = true → other.id = row.id) (entry : JournalRow)
    (about : entry.subjectId = some row.id)
    (tells : entry.revise row.id (some (row.status, row.attempts)) =
      some ((f row).status, (f row).attempts))
    (notBlocked : entry.eventType ≠ .runBlockedEffect)
    (notRecovered : entry.eventType ≠ .runEffectRecovered) :
    Journalled { (updateEvents world p f keeps).db with journal := world.db.journal ++ [entry] } where
  events := by
    intro row' stored'
    simp only [updateEvents, Table.rows_update, List.mem_map] at stored'
    obtain ⟨old, member, rfl⟩ := stored'
    have sameId : (f row).id = row.id := congrArg Prod.fst (keeps row)
    rw [journalStanding_append]
    by_cases hit : p old = true
    · have same : old = row := Table.eq_of_clash member stored
        (by simp [UniqueKeys.clash, UniqueKeys.key, only old hit])
        (by simp [UniqueKeys.clash, UniqueKeys.key, only old hit])
      rw [if_pos hit, same, sameId, journalled.events row stored]
      exact tells
    · rw [if_neg hit, journalled.events old member, JournalRow.revise, if_neg]
      rw [about]
      intro sameRow
      have same : old = row := Table.eq_of_clash member stored
        (by simp [UniqueKeys.clash, UniqueKeys.key, Option.some.inj sameRow])
        (by simp [UniqueKeys.clash, UniqueKeys.key, Option.some.inj sameRow])
      exact hit (same ▸ hits)
  runs runId := journalled.runs_of_event notBlocked notRecovered

theorem Journalled.enqueued {request : EventRequest} {eventId : String}
    (journalled : Journalled world.db) (enqueued : Enqueues host request world eventId world') :
    Journalled world'.db := by
  cases enqueued with
  | reused row found same => exact journalled
  | fresh events absent inserted =>
      constructor
      · intro row stored
        rw [journalStanding_append]
        rw [Table.rows_insert inserted] at stored
        rcases List.mem_append.1 stored with old | new
        · have apart := Table.fresh_of_insert inserted row old
          rw [journalled.events row old, JournalRow.revise, if_neg]
          intro same
          simp only [EventRequest.journalRow, Option.some.injEq] at same
          simp [UniqueKeys.clash, UniqueKeys.key, EventRequest.row, ← same] at apart
        · rw [List.mem_singleton] at new
          subst new
          simp [JournalRow.revise, EventRequest.journalRow, EventRequest.row]
      · intro runId
        refine journalled.runs_of_event ?_ ?_ <;> simp [EventRequest.journalRow]

/-- A change of the runs that blocks and unblocks nothing. -/
theorem Journalled.ofRuns (journalled : Journalled world.db) {db : Db}
    (sameEvents : db.events = world.db.events) (sameJournal : db.journal = world.db.journal)
    (sameBlocks : ∀ runId, db.blocks runId = world.db.blocks runId) : Journalled db where
  events := by
    rw [sameEvents, sameJournal]
    exact journalled.events
  runs := by
    intro runId
    rw [sameJournal, sameBlocks]
    exact journalled.runs runId

theorem Journalled.created {task : String} {capabilities : List String} {now : Time}
    {sourceEventId : Option String} {runId : String} (journalled : Journalled world.db)
    (created : CreatesRun host task capabilities now sourceEventId world runId world') :
    Journalled world'.db := by
  cases created with
  | reused source row bound found sameTask sameSet => exact journalled
  | fresh runs inserted =>
      refine journalled.ofRuns rfl rfl fun runId => ?_
      simp only [Db.blocks, Db.run, Table.select_insert _ inserted, newRunRow]
      cases Table.select world.db.runs fun row => row.id == runId with
      | some row => rfl
      | none => by_cases named : host.uuid4 world.drawn = runId <;> simp [named]

theorem Journalled.advanced {runId : String} {step : Nat} {now : Time}
    (journalled : Journalled world.db) : Journalled (advancedWorld world runId step now).db := by
  refine journalled.ofRuns rfl rfl fun other => ?_
  have updated := run_updateRuns world (RunRow.standsAt runId .running step) (RunRow.advanced now)
    fun _ => rfl
  unfold Db.blocks
  refine (congrArg (Option.any _) (updated other)).trans ?_
  cases world.db.run other with
  | none => rfl
  | some row =>
      simp only [Option.map_some, Option.any_some]
      split <;> rfl

/-- A change of one run that blocks or unblocks it, with its journal entry. -/
theorem Journalled.turned (journalled : Journalled world.db) {runId : String} {db : Db}
    {entry : JournalRow} (sameEvents : db.events = world.db.events)
    (appended : db.journal = world.db.journal ++ [entry]) (about : entry.subjectId = some runId)
    (others : ∀ other, other ≠ runId → db.blocks other = world.db.blocks other)
    (turns : (entry.eventType = .runBlockedEffect ∧ world.db.blocks runId = false ∧
        db.blocks runId = true) ∨
      (entry.eventType = .runEffectRecovered ∧ world.db.blocks runId = true ∧
        db.blocks runId = false)) : Journalled db where
  events := by
    intro row stored
    rw [sameEvents] at stored
    rw [appended, journalStanding_append, journalled.events row stored, JournalRow.revise]
    split
    · rcases turns with ⟨kind, _⟩ | ⟨kind, _⟩ <;> rw [kind]
    · rfl
  runs := by
    intro other
    have counts := journalled.runs other
    rw [appended, journalCount_append, journalCount_append, about]
    by_cases same : other = runId
    · subst same
      rcases turns with ⟨kind, before, after⟩ | ⟨kind, before, after⟩
      · simp only [kind, before, after] at counts ⊢
        simp at counts ⊢
        omega
      · simp only [kind, before, after] at counts ⊢
        simp at counts ⊢
        omega
    · have apart : ¬ some runId = some other := fun both => same (Option.some.inj both).symm
      rw [if_neg fun both => apart both.2, if_neg fun both => apart both.2, others other same]
      exact counts

theorem Journalled.resumed {runId : String} {now : Time} {row : RunRow}
    (journalled : Journalled world.db) (found : world.db.run runId = some row)
    (blocked : row.status = .blockedEffect) :
    Journalled (resumedWorld world runId row.stepCount now).db := by
  have rows := run_resumedWorld now found blocked
  refine journalled.turned rfl rfl rfl ?_ (.inr ⟨rfl, ?_, ?_⟩)
  · intro other apart
    rw [Db.blocks, rows.2 other apart, Db.blocks]
  · simp [Db.blocks, found, blocked]
  · rw [Db.blocks, rows.1]
    rfl

/-- A block under outages. -/
theorem Journalled.transacts {block : Transaction} {result : block.Result}
    (journalled : Journalled world.db) (committed : Transacts host world block result world') :
    Journalled world'.db := by
  cases committed with
  | claimNothing idle => exact journalled
  | @claim workerId now leaseSeconds row found =>
      obtain ⟨stored, _⟩ := List.mem_filter.1 (firstBy_mem found)
      refine journalled.revised stored (fun other => other.id == row.id)
        (EventRow.claimedBy workerId (now + leaseSeconds) (row.attempts + 1) now) (fun _ => rfl)
        (beq_self_eq_true _) (fun other same => eq_of_beq same)
        ⟨.eventClaimed, some row.id, _, now⟩ rfl ?_ (nofun) (nofun)
      simp [JournalRow.revise, EventRow.claimedBy]
  | createRun created enqueued => exact (journalled.created created).enqueued enqueued
  | advance row found running stands enqueued => exact journalled.advanced.enqueued enqueued
  | resume row found blocked enqueued => exact (journalled.resumed found blocked).enqueued enqueued
  | reconcile row found unresolved =>
      rename_i effectOccurred _ _ _ _
      cases effectOccurred <;> exact journalled.ofRuns rfl rfl fun runId => rfl

theorem Journalled.underTransaction (journalled : Journalled world.db) (block : Transaction) :
    Journalled (block.under host outages world).db := by
  obtain same | ⟨result, committed⟩ : (block.under host outages world).db = world.db ∨
      ∃ result, Transacts host world block result (block.under host outages world) :=
    block.under_cases
  · rw [same]
    exact journalled
  · exact journalled.transacts committed

/-- An update by the holder of a lease with its journal entry, if the lease is held. -/
theorem Journalled.held (journalled : Journalled world.db) {eventId workerId : String}
    (f : EventRow → EventRow) (keeps : ∀ row, UniqueKeys.key (f row) = UniqueKeys.key row)
    (entry : JournalRow) (about : entry.subjectId = some eventId)
    (tells : ∀ row : EventRow, entry.revise eventId (some (row.status, row.attempts)) =
      some ((f row).status, (f row).attempts))
    (notBlocked : entry.eventType ≠ .runBlockedEffect)
    (notRecovered : entry.eventType ≠ .runEffectRecovered)
    (counted : world.db.events.count (EventRow.heldBy eventId workerId) = 1) :
    Journalled { (updateEvents world (EventRow.heldBy eventId workerId) f keeps).db with
      journal := world.db.journal ++ [entry] } := by
  obtain ⟨row, stored, rfl, claimed, owner⟩ := (count_heldBy _ _ _).1 counted
  exact journalled.revised stored _ f keeps (EventRow.heldBy_eq_true.2 ⟨rfl, claimed, owner⟩)
    (fun other held => (EventRow.heldBy_eq_true.1 held).1) entry about (tells row) notBlocked
    notRecovered

theorem Journalled.missed (journalled : Journalled world.db) {eventId workerId : String}
    {f : EventRow → EventRow} {keeps : ∀ row, UniqueKeys.key (f row) = UniqueKeys.key row}
    (missed : world.db.events.count (EventRow.heldBy eventId workerId) ≠ 1) :
    Journalled (updateEvents world (EventRow.heldBy eventId workerId) f keeps).db := by
  rw [updateEvents_heldBy_eq_self missed]
  exact journalled

theorem Journalled.ackEvent (journalled : Journalled world.db) (eventId workerId : String)
    (now : Time) :
    (Kernel.ackEvent eventId workerId now).Endures host world fun world => Journalled world.db := by
  simp only [Kernel.ackEvent, Stmt.perform, Program.perform, Program.bind_eq_bind, Program.call_bind]
  refine .call journalled (fun fault => .raise _ journalled) ?_
  simp only [Stmt.exec, Program.ofExcept_ok, Program.done_bind]
  split
  · rename_i missed
    exact .raise _ (journalled.missed missed)
  · rename_i counted
    refine .journal (.done _ ?_)
    exact journalled.held (EventRow.acked now) (fun _ => rfl)
      ⟨.eventAcked, some eventId, [("worker_id", .text workerId)], now⟩ rfl
      (fun row => by simp [JournalRow.revise, EventRow.acked]) (by simp) (by simp)
      (not_not.1 counted)

theorem Journalled.failEvent (journalled : Journalled world.db) (eventId workerId : String)
    (now : Time) (retryAt : Option Time) :
    (Kernel.failEvent eventId workerId now retryAt).Endures host world
      fun world => Journalled world.db := by
  simp only [Kernel.failEvent, Stmt.perform, Program.perform, Program.bind_eq_bind,
    Program.call_bind]
  refine .call journalled (fun fault => .raise _ journalled) ?_
  simp only [Stmt.exec, Program.ofExcept_ok, Program.done_bind]
  split
  · rename_i missed
    exact .raise _ (journalled.missed missed)
  · rename_i counted
    refine .journal (.done _ ?_)
    exact journalled.held (EventRow.released (retryAt.getD now) now) (fun _ => rfl)
      ⟨.eventRetryScheduled, some eventId,
        [("worker_id", .text workerId), ("retry_at", .time (retryAt.getD now))], now⟩ rfl
      (fun row => by simp [JournalRow.revise, EventRow.released]) (by simp) (by simp)
      (not_not.1 counted)

theorem any_isRunning (db : Db) (runId other : String) :
    (db.run other).any (RunRow.isRunning runId) =
      (decide (other = runId) && (db.run runId).any fun row => row.status == .running) := by
  by_cases same : other = runId
  · subst same
    cases found : db.run other with
    | none => simp
    | some row => simp [RunRow.isRunning, (Db.run_eq_some.1 found).2]
  · cases found : db.run other with
    | none => simp [same]
    | some row => simp [RunRow.isRunning, (Db.run_eq_some.1 found).2, same]

/-- The blocks after the update that blocks a run. -/
theorem blocks_blockRun (world : World) (runId requestId error : String) (now : Time)
    (other : String) :
    (updateRuns world (RunRow.isRunning runId) (RunRow.blocked requestId error now)
        fun _ => rfl).db.blocks other =
      (world.db.blocks other ||
        (decide (other = runId) && (world.db.run runId).any fun row => row.status == .running)) := by
  have updated := run_updateRuns world (RunRow.isRunning runId)
    (RunRow.blocked requestId error now) fun _ => rfl
  rw [← any_isRunning]
  unfold Db.blocks
  refine (congrArg (Option.any _) (updated other)).trans ?_
  cases world.db.run other with
  | none => rfl
  | some row =>
      simp only [Option.map_some, Option.any_some]
      split
      · rename_i matched
        rw [matched, Bool.or_true]
        rfl
      · rename_i unmatched
        rw [Bool.eq_false_of_not_eq_true unmatched, Bool.or_false]

theorem Journalled.blockRunOnEffect (journalled : Journalled world.db)
    (runId requestId error : String) (now : Time) :
    (Kernel.blockRunOnEffect runId requestId error now).Endures host world
      fun world => Journalled world.db := by
  have blocks := blocks_blockRun world runId requestId error now
  simp only [Kernel.blockRunOnEffect, Stmt.perform, Program.perform, Program.bind_eq_bind,
    Program.call_bind]
  refine .call journalled (fun fault => .raise _ journalled) ?_
  simp only [Stmt.exec, Program.ofExcept_ok, Program.done_bind]
  split
  · rename_i missed
    refine .raise _ (journalled.ofRuns rfl rfl fun other => (blocks other).trans ?_)
    cases found : world.db.run runId with
    | none => simp
    | some row =>
        have notRunning : row.status ≠ .running := fun running =>
          missed ((count_isRunning _ _).2 ⟨row, found, running⟩)
        simp [notRunning]
  · rename_i counted
    obtain ⟨row, found, running⟩ := (count_isRunning _ _).1 (not_not.1 counted)
    refine .journal (.done _ ?_)
    refine journalled.turned rfl rfl rfl ?_ (.inl ⟨rfl, ?_, ?_⟩)
    · intro other apart
      refine (blocks other).trans ?_
      simp [apart]
    · simp [Db.blocks, found, running]
    · refine (blocks runId).trans ?_
      simp [found, running]

theorem Sql.Endures.afterLookup {α : Type} {P : World → Prop} {dedupKey : Option String}
    {next : Option EventRow → Sql α} (holds : P world)
    (rest : (next (world.db.existing dedupKey)).Endures host world P) :
    Sql.Endures host ((existingForDedup dedupKey).bind next) world P := by
  cases dedupKey with
  | none => exact rest
  | some key =>
      by_cases empty : key = ""
      · simpa [existingForDedup, Db.existing, empty] using rest
      · simp only [existingForDedup, empty, if_false]
        refine .call holds (fun fault => .raise _ holds) ?_
        simpa [Stmt.exec, Db.existing, empty] using rest

theorem Sql.Endures.reuseOrReject {P : World → Prop} (holds : P world) (request : EventRequest)
    (row : EventRow) : (Kernel.reuseOrReject request row).Endures host world P := by
  unfold Kernel.reuseOrReject
  split
  · exact .done _ holds
  · exact .raise _ holds

theorem Journalled.enqueueEvent (journalled : Journalled world.db) (request : EventRequest) :
    (Kernel.enqueueEvent request).Endures host world fun world => Journalled world.db := by
  refine .afterLookup journalled ?_
  split
  · exact .reuseOrReject journalled request _
  · rename_i absent
    simp only [Stmt.perform, Program.perform, Program.bind_eq_bind, Program.call_bind,
      Program.call_attempt, Program.ofExcept_attempt]
    refine .call journalled (fun fault => .raise _ journalled) ?_
    simp only [Stmt.exec, Program.ofExcept_ok, Program.done_bind]
    refine .call journalled (fun fault => ?_) ?_
    · simp only [IsFault.not_integrity ⟨fault, rfl⟩]
      exact .raise _ journalled
    · cases inserted : world.db.events.insert (request.row (host.uuid4 world.drawn)) with
      | none =>
          simp only [Stmt.exec, inserted]
          split
          · refine .afterLookup journalled ?_
            split
            · exact .raise _ journalled
            · exact .reuseOrReject journalled request _
          · exact .raise _ journalled
      | some events =>
          have fresh := journalled.enqueued (@Enqueues.fresh host _ _ events absent inserted)
          simp only [Stmt.exec, inserted, appendJournal, Stmt.perform, Program.perform,
            Program.call_bind]
          exact .journal (.done _ fresh)

/-- A call that is not cut off from its journal entry. -/
theorem Journalled.under (journalled : Journalled world.db) {call : StoreCall}
    (whole : call.severed host outages world = false) :
    Journalled (call.under host outages world).db := by
  cases call with
  | enqueueEvent request => exact (journalled.enqueueEvent request).ends outages whole
  | claimEvent workerId now leaseSeconds => exact journalled.underTransaction _
  | ackEvent eventId workerId now =>
      exact (journalled.ackEvent eventId workerId now).ends outages whole
  | failEvent eventId workerId now retryAt =>
      exact (journalled.failEvent eventId workerId now retryAt).ends outages whole
  | createRunWithInitialStep task capabilities now sourceEventId priority =>
      exact journalled.underTransaction _
  | advanceRunStep runId expectedStep priority now => exact journalled.underTransaction _
  | blockRunOnEffect runId requestId error now =>
      exact (journalled.blockRunOnEffect runId requestId error now).ends outages whole
  | resumeRunAfterEffect runId now priority => exact journalled.underTransaction _

/-! ### Runs -/

/-- The calls that are not cut off from their journal entry. -/
def Whole (host : Host) (outages : Outages) (call : StoreCall) (world : World) : Prop :=
  call.severed host outages world = false

theorem journalled_of_run (run : StoreRun host (Whole host) world) : Journalled world.db := by
  induction run with
  | start =>
      constructor
      · intro row stored
        cases stored
      · intro runId
        rfl
  | call before call outages whole ih => exact ih.under whole

/-- Whatever faults and deaths cut the calls short, the journal agrees with the events and the runs
if no call outside a transaction is stopped between its change and its journal entry. -/
theorem journal_agreement (host : Host) (world : World) (run : StoreRun host (Whole host) world) :
    JournalAgrees world.db :=
  (journalled_of_run run).agrees

theorem StoreRun.mono {allowed allowed' : Outages → StoreCall → World → Prop}
    (run : StoreRun host allowed world)
    (wider : ∀ outages call world, allowed outages call world → allowed' outages call world) :
    StoreRun host allowed' world := by
  induction run with
  | start => exact .start
  | call before call outages allows ih => exact ih.call call outages (wider _ _ _ allows)

/-- Calls in their order, each of which passes a guard. -/
def storeTrace (host : Host) (guard : Outages → StoreCall → World → Bool) :
    List (Outages × StoreCall) → World → Option World
  | [], world => some world
  | (outages, call) :: calls, world =>
      if guard outages call world then storeTrace host guard calls (call.under host outages world)
      else none

theorem StoreRun.of_trace {guard : Outages → StoreCall → World → Bool}
    {calls : List (Outages × StoreCall)}
    (run : StoreRun host (fun outages call world => guard outages call world = true) world)
    (traced : storeTrace host guard calls world = some world') :
    StoreRun host (fun outages call world => guard outages call world = true) world' := by
  induction calls generalizing world with
  | nil =>
      simp only [storeTrace, Option.some.injEq] at traced
      exact traced ▸ run
  | cons entry calls ih =>
      simp only [storeTrace] at traced
      split at traced
      · rename_i passed
        exact ih (run.call entry.2 entry.1 passed) traced
      · cases traced

/-- What a guarded trace shows about the world it ends in. -/
theorem StoreRun.exists_of_trace {guard : Outages → StoreCall → World → Bool}
    {check : World → Bool} (calls : List (Outages × StoreCall))
    (traced : (storeTrace host guard calls World.initial).any check = true) :
    ∃ world, StoreRun host (fun outages call world => guard outages call world = true) world ∧
      check world = true := by
  cases ended : storeTrace host guard calls World.initial with
  | none => simp [ended] at traced
  | some world => exact ⟨world, .of_trace .start ended, by simpa [ended] using traced⟩

/-- Ten statements without a fault. -/
def calmly : Outages := List.replicate 10 none

/-- A process acknowledges the event it leased and dies before the journal entry. -/
def unrecordedAck : List (Outages × StoreCall) :=
  [(calmly, .enqueueEvent noticeRequest), (calmly, .claimEvent "a" 0 10),
    ([none], .ackEvent "id-0" "a" 1)]

set_option maxRecDepth 10000 in
/-- The event is `DONE`, and the journal ends with its lease. -/
theorem ack_unrecorded :
    ∃ world, StoreRun plainHost (fun _ _ _ => True) world ∧ ¬ JournalAgrees world.db := by
  have traced : (storeTrace plainHost (fun _ _ _ => true) unrecordedAck World.initial).any
      (fun world => world.db.events.rows.any fun row => decide
        (journalStanding world.db.journal row.id ≠ some (row.status, row.attempts))) = true := by
    decide +kernel
  obtain ⟨world, run, differs⟩ := StoreRun.exists_of_trace unrecordedAck traced
  obtain ⟨row, stored, apart⟩ := List.any_eq_true.1 differs
  refine ⟨world, run.mono fun _ _ _ _ => trivial, fun agrees => ?_⟩
  exact of_decide_eq_true apart (agrees.events row stored)

/-- A run is created and its step leased by a worker that died once before it could commit the
lease; the run is blocked, resumed by a host that died inside the block and by one that did not,
and blocked again by a worker whose acknowledgement then fails. -/
def interruptedSteps : List (Outages × StoreCall) :=
  [(calmly, .createRunWithInitialStep "task" [] 0 none 0),
    ([none, none, none, none], .claimEvent "a" 0 10), (calmly, .claimEvent "a" 0 10),
    (calmly, .blockRunOnEffect "id-0" "q" "no answer" 1),
    ([none, none, none], .resumeRunAfterEffect "id-0" 2 0),
    (calmly, .resumeRunAfterEffect "id-0" 2 0), (calmly, .blockRunOnEffect "id-0" "q2" "no" 3),
    ([some (.operational "locked")], .ackEvent "id-1" "a" 4)]

set_option maxRecDepth 10000 in
/-- The journal in a run with faults and deaths at other places. -/
theorem journal_agreement_interrupted :
    ∃ world, StoreRun plainHost (Whole plainHost) world ∧ world.db.blocks "id-0" = true ∧
      journalCount world.db.journal .runBlockedEffect "id-0" = 2 ∧ JournalAgrees world.db := by
  have traced : (storeTrace plainHost (fun outages call world =>
      !call.severed plainHost outages world) interruptedSteps World.initial).any
        (fun world => world.db.blocks "id-0" &&
          decide (journalCount world.db.journal .runBlockedEffect "id-0" = 2)) = true := by
    decide +kernel
  obtain ⟨world, run, checked⟩ := StoreRun.exists_of_trace interruptedSteps traced
  rw [Bool.and_eq_true] at checked
  have whole : StoreRun plainHost (Whole plainHost) world :=
    run.mono fun outages call world passed => by simpa [Whole] using passed
  exact ⟨world, whole, checked.1, of_decide_eq_true checked.2,
    journal_agreement plainHost world whole⟩

end PreActive.Kernel
