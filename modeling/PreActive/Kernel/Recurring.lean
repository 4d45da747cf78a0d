/-
Module: PreActive.Kernel.Recurring
Purpose: Every occurrence of a recurring task becomes one run of that task, while daemons, command
  lines, schedulers and hosts work on one database.
Trusted boundary: human-reviewed spec
Main exports:
  EventRow.Announces, ScheduleWorld.Recurs, ScheduleWorld.Keeps, enqueueEvent_relies, tick_relies,
  DaemonCall.Adds, daemon_relies, Unforged, AskedFor, RecurringServed, recurring_served
-/
import PreActive.Kernel.CatchUp
import PreActive.Kernel.EventSteps
import PreActive.Kernel.Hosting
import PreActive.Kernel.Requests
import PreActive.Foundation.Rely

namespace PreActive.Kernel

open PreActive.Foundation PreActive.Python
open Program (Relies)

/-! ### Keys of occurrences -/

/-- A key of the form that the events of occurrences have. -/
def isScheduleKey (key : String) : Bool := "schedule:".toList.isPrefixOf key.toList

theorem isScheduleKey_scheduleKey (scheduleId : String) (time : Time) :
    isScheduleKey (scheduleKey scheduleId time) = true := by
  simp only [isScheduleKey, scheduleKey, String.toList_append, List.append_assoc]
  exact List.isPrefixOf_iff_prefix.2 (List.prefix_append _ _)

theorem isScheduleKey_runStepKey (runId : String) (step : Nat) :
    isScheduleKey (runStepKey runId step) = false := by
  simp [isScheduleKey, runStepKey, String.toList_append, List.isPrefixOf]

/-- The call gives no event the key of an occurrence, and names no event as the source of a run. -/
def Call.unforged : Call → Bool
  | enqueueEvent request => request.dedupKey.all fun key => !isScheduleKey key
  | submitTask _ _ _ sourceEventId => sourceEventId.isNone
  | _ => true

def DaemonCall.unforged : DaemonCall → Bool
  | direct call => call.unforged
  | _ => true

variable {host : Host} {op : Op} {log : History} {call : Call}

/-- Calls of the kernel put no event under the key of an occurrence. -/
theorem CallRule.notSchedule (rule : CallRule host call log op) (unforged : call.unforged = true)
    {request : EventRequest} (inserts : op.Inserts request) {key : String}
    (keyed : request.dedupKey = some key) : isScheduleKey key = false := by
  cases inserts with
  | direct request eventId =>
      cases call with
      | enqueueEvent asked =>
          obtain ⟨drawn, _, same⟩ := rule
          have sameKey : request.dedupKey = asked.dedupKey := congrArg EventRow.dedupKey same
          rw [sameKey] at keyed
          simpa [Call.unforged, keyed] using unforged
      | _ => exact rule.elim
  | _ =>
      obtain rfl := Option.some.inj keyed
      exact isScheduleKey_runStepKey _ _

/-! ### Schedules and their events -/

/-- The event is the one of an occurrence of the schedule: it was not stored before its time, and
is for that time until a worker has it. -/
structure EventRow.Announces (event : EventRow) (made : ScheduleRow) : Prop where
  occurrence : ∃ index, event.dedupKey = some (scheduleKey made.id (made.occurrence index)) ∧
    made.occurrence index ≤ event.createdAt ∧ event.Timed (made.occurrence index)
  kind : event.kind = made.kind
  payloadJson : event.payloadJson = made.payloadJson

/-- The row is the schedule, at some time. -/
structure ScheduleRow.VersionOf (row made : ScheduleRow) : Prop where
  id : row.id = made.id
  kind : row.kind = made.kind
  payloadJson : row.payloadJson = made.payloadJson
  everySeconds : row.everySeconds = made.everySeconds
  text : ∃ payload : JsonObject, row.payloadJson = payload.text compactStyle

/-- The row is a version of an added schedule, all of whose occurrences before `next_at` have their
events. -/
def ScheduleWorld.Knows (world : ScheduleWorld) (row : ScheduleRow) : Prop :=
  ∃ made ∈ world.added, row.VersionOf made ∧ made.Reaches world row.nextAt

/-- The schedules are the ones that were asked for, each is where its events are, and the events
under keys of occurrences are theirs. -/
structure ScheduleWorld.Recurs (asked : ScheduleRow → Prop) (world : ScheduleWorld) : Prop where
  asked : ∀ made ∈ world.added, asked made
  repeats : ∀ made ∈ world.added, ∃ interval, made.everySeconds = some interval ∧ 0 < interval
  distinct : ∀ made ∈ world.added, ∀ made' ∈ world.added, made.id = made'.id → made = made'
  origin : ∀ row ∈ world.schedules.rows, world.Knows row
  kept : ∀ made ∈ world.added, ∃ row ∈ world.schedules.rows, row.id = made.id
  events : ∀ event ∈ world.world.db.events.rows, ∀ key, event.dedupKey = some key →
    isScheduleKey key = true → ∃ made ∈ world.added, event.Announces made

/-- No event and no schedule is taken back or made another one. -/
structure ScheduleWorld.Keeps (world world' : ScheduleWorld) : Prop where
  events : ∀ event ∈ world.world.db.events.rows, ∃ event' ∈ world'.world.db.events.rows,
    event.Lasting event'
  added : ∀ made ∈ world.added, made ∈ world'.added

variable {asked : ScheduleRow → Prop} {world world' seen : ScheduleWorld} {row made : ScheduleRow}

namespace ScheduleWorld

theorem Keeps.refl (world : ScheduleWorld) : world.Keeps world :=
  ⟨fun event stored => ⟨event, stored, .refl event⟩, fun _ added => added⟩

theorem Keeps.trans (a b c : ScheduleWorld) (first : a.Keeps b) (second : b.Keeps c) :
    a.Keeps c where
  events event stored := by
    obtain ⟨event', stored', lasting⟩ := first.events event stored
    obtain ⟨event'', stored'', lasting'⟩ := second.events event' stored'
    exact ⟨event'', stored'', lasting.trans lasting'⟩
  added made added := second.added made (first.added made added)

theorem hasKey.keeps {key : String} (has : world.hasKey key) (keeps : world.Keeps world') :
    world'.hasKey key := by
  obtain ⟨event, stored, isKey⟩ := has
  obtain ⟨event', stored', lasting⟩ := keeps.events event stored
  exact ⟨event', stored', lasting.dedupKey.trans isKey⟩

end ScheduleWorld

theorem ScheduleRow.Reaches.keeps {time : Time} (reaches : made.Reaches world time)
    (keeps : world.Keeps world') : made.Reaches world' time := by
  obtain ⟨index, isTime, earlier⟩ := reaches
  exact ⟨index, isTime, fun other below => (earlier other below).keeps keeps⟩

theorem EventRow.Announces.lasting {event event' : EventRow} (announces : event.Announces made)
    (lasting : event.Lasting event') : event'.Announces made where
  occurrence := by
    obtain ⟨index, isKey, due, timed⟩ := announces.occurrence
    exact ⟨index, lasting.dedupKey.trans isKey, lasting.createdAt ▸ due, lasting.timed _ timed⟩
  kind := lasting.kind.trans announces.kind
  payloadJson := lasting.payloadJson.trans announces.payloadJson

namespace ScheduleWorld

theorem Knows.keeps (knows : world.Knows row) (keeps : world.Keeps world') : world'.Knows row := by
  obtain ⟨made, added, version, reaches⟩ := knows
  exact ⟨made, keeps.added made added, version, reaches.keeps keeps⟩

/-- What a step of the kernel does to the schedules and their events. -/
theorem Recurs.ofEvents (recurs : world.Recurs asked) {store : World}
    (step : EventsStep op world.world.db.events.rows store.db.events.rows)
    (new : ∀ request, op.Inserts request → ∀ eventId key, request.dedupKey = some key →
      isScheduleKey key = true → ∃ made ∈ world.added, (request.row eventId).Announces made) :
    ({ world with world := store } : ScheduleWorld).Recurs asked ∧
      world.Keeps { world with world := store } := by
  have keeps : world.Keeps { world with world := store } :=
    ⟨fun event stored => step.lasting stored, fun _ added => added⟩
  refine ⟨{ recurs with origin := fun row stored => (recurs.origin row stored).keeps keeps,
                        events := ?_ }, keeps⟩
  intro event stored key isKey isSchedule
  rcases step.origin stored with ⟨old, there, lasting⟩ | ⟨request, eventId, inserts, rfl⟩
  · obtain ⟨made, added, announces⟩ :=
      recurs.events old there key (lasting.dedupKey.symm.trans isKey) isSchedule
    exact ⟨made, added, announces.lasting lasting⟩
  · exact new request inserts eventId key isKey isSchedule

/-- A schedule is only added under an identifier that is free. -/
theorem Recurs.insert (recurs : world.Recurs asked) {schedules : Table ScheduleRow}
    (inserted : world.schedules.insert made = some schedules) (isAsked : asked made)
    (repeats : ∃ interval, made.everySeconds = some interval ∧ 0 < interval)
    (text : ∃ payload : JsonObject, made.payloadJson = payload.text compactStyle) :
    ({ world with schedules := schedules, added := world.added ++ [made] } :
      ScheduleWorld).Recurs asked ∧
      world.Keeps { world with schedules := schedules, added := world.added ++ [made] } := by
  have keeps : world.Keeps { world with schedules := schedules, added := world.added ++ [made] } :=
    ⟨fun event stored => ⟨event, stored, .refl event⟩, fun _ => List.mem_append_left _⟩
  have free (other : ScheduleRow) (added : other ∈ world.added) : other.id ≠ made.id := by
    obtain ⟨row, stored, sameId⟩ := recurs.kept other added
    have apart := Table.fresh_of_insert inserted row stored
    rw [← sameId]
    simpa [UniqueKeys.clash, UniqueKeys.key] using apart
  have forAll {P : ScheduleRow → Prop} (old : ∀ made ∈ world.added, P made) (new : P made) :
      ∀ made' ∈ world.added ++ [made], P made' := by
    intro made' member
    rcases List.mem_append.1 member with added | isNew
    · exact old made' added
    · rw [List.mem_singleton.1 isNew]
      exact new
  refine ⟨?_, keeps⟩
  constructor
  · exact forAll recurs.asked isAsked
  · exact forAll recurs.repeats repeats
  · apply forAll
    · intro one isOne
      exact forAll (recurs.distinct one isOne) fun same => absurd same (free one isOne)
    · exact forAll (fun other isOther same => absurd same.symm (free other isOther)) fun _ => rfl
  · intro row stored
    simp only [Table.rows_insert inserted, List.mem_append, List.mem_singleton] at stored
    rcases stored with old | rfl
    · exact (recurs.origin row old).keeps keeps
    · refine ⟨row, List.mem_append_right _ (List.mem_singleton.2 rfl), ⟨rfl, rfl, rfl, rfl, text⟩,
        0, ?_, nofun⟩
      exact row.occurrence_zero.symm
  · simp only [Table.rows_insert inserted]
    apply forAll
    · intro other added
      obtain ⟨row, stored, sameId⟩ := recurs.kept other added
      exact ⟨row, List.mem_append_left _ stored, sameId⟩
    · exact ⟨made, List.mem_append_right _ (List.mem_singleton.2 rfl), rfl⟩
  · intro event stored key isKey isSchedule
    obtain ⟨other, added, announces⟩ := recurs.events event stored key isKey isSchedule
    exact ⟨other, List.mem_append_left _ added, announces⟩

/-- A row may be moved to any time before which all its occurrences have their events. -/
theorem Recurs.moveNext (recurs : world.Recurs asked) {nextAt now : Time} (added : made ∈ world.added)
    (sameId : row.id = made.id) (reaches : made.Reaches world nextAt) :
    (updateSchedules world row.id (ScheduleRow.movedTo nextAt now) fun _ => rfl).Recurs asked where
  asked := recurs.asked
  repeats := recurs.repeats
  distinct := recurs.distinct
  origin := by
    intro moved stored
    obtain ⟨old, there, rfl⟩ := List.mem_map.1 stored
    obtain ⟨made', added', version, reaches'⟩ := recurs.origin old there
    split
    · rename_i isRow
      obtain rfl := recurs.distinct made' added' made added
        (version.id.symm.trans ((eq_of_beq isRow).trans sameId))
      exact ⟨made', added', ⟨version.id, version.kind, version.payloadJson, version.everySeconds,
        version.text⟩, reaches⟩
    · exact ⟨made', added', version, reaches'⟩
  kept := by
    intro made' added'
    obtain ⟨old, there, isMade⟩ := recurs.kept made' added'
    refine ⟨_, List.mem_map_of_mem there, ?_⟩
    split <;> exact isMade
  events := recurs.events

end ScheduleWorld

/-! ### What a scheduler does among others -/

/-- The statements of the store, on a database with schedules. -/
def storeMachine (host : Host) : Machine stmtSignature Exc ScheduleWorld (Option Fault) where
  answer stmt := ScheduleOp.answer host (.sql stmt)

/-- What a method of the store does while other processes only keep things. -/
abbrev StoreRelies (host : Host) (asked : ScheduleRow → Prop) {α : Type}
    (Q : α → ScheduleWorld → Prop) (program : Sql α) (seen : ScheduleWorld) : Prop :=
  program.Relies (storeMachine host) (fun _ => True) (ScheduleWorld.Recurs asked)
    ScheduleWorld.Keeps (Program.Returning Q) seen

/-- What a program of a scheduler does while other processes only keep things. -/
abbrev TickRelies (host : Host) (asked : ScheduleRow → Prop) {α : Type}
    (Q : α → ScheduleWorld → Prop) (program : Scheduling α) (seen : ScheduleWorld) : Prop :=
  program.Relies (scheduleMachine host) (fun _ => True) (ScheduleWorld.Recurs asked)
    ScheduleWorld.Keeps (Program.Returning Q) seen

section Tick

variable {now : Time} {α : Type}

theorem sql_relies {Q : α → ScheduleWorld → Prop} {sql : Sql α}
    (relies : StoreRelies host asked Q sql seen) : TickRelies host asked Q sql.scheduled seen := by
  have same (stmt : Stmt) (fault : Option Fault) (world : ScheduleWorld) (_ : True) :
      (storeMachine host).answer stmt (id fault) world =
        (((scheduleMachine host).answer (.sql stmt) fault world).1.map id,
          ((scheduleMachine host).answer (.sql stmt) fault world).2) :=
    Prod.ext (congrFun Except.map_id _).symm rfl
  exact Relies.lift same (fun _ _ => trivial) relies

/-- A statement whose new events are those of occurrences. -/
theorem stmt_keeps (recurs : world.Recurs asked) (stmt : Stmt) (fault : Option Fault)
    (issued : (Op.sql stmt).issued)
    (new : ∀ request, (Op.sql stmt).Inserts request → ∀ eventId key,
      request.dedupKey = some key → isScheduleKey key = true →
        ∃ made ∈ world.added, (request.row eventId).Announces made) :
    ((storeMachine host).answer stmt fault world).2.Recurs asked ∧
      world.Keeps ((storeMachine host).answer stmt fault world).2 := by
  cases fault with
  | some fault => exact ⟨recurs, .refl world⟩
  | none => exact recurs.ofEvents (eventsStep host world.world .quiet issued) new

/-- A statement that inserts no event. -/
theorem quiet_keeps (recurs : world.Recurs asked) (stmt : Stmt) (fault : Option Fault)
    (issued : (Op.sql stmt).issued) (quiet : ∀ request, ¬ (Op.sql stmt).Inserts request) :
    ((storeMachine host).answer stmt fault world).2.Recurs asked ∧
      world.Keeps ((storeMachine host).answer stmt fault world).2 :=
  stmt_keeps recurs stmt fault issued fun request inserts => absurd inserts (quiet request)

theorem quiet_relies (stmt : Stmt) (issued : (Op.sql stmt).issued)
    (quiet : ∀ request, ¬ (Op.sql stmt).Inserts request) :
    StoreRelies host asked (fun _ _ => True) stmt.perform seen := by
  apply Relies.perform
  intro world _ recurs fault _
  obtain ⟨kept, keeps⟩ := quiet_keeps recurs stmt fault issued quiet
  refine ⟨kept, keeps, ?_⟩
  cases ((storeMachine host).answer stmt fault world).1 <;> trivial

theorem lookup_relies {key : String} (nonempty : key ≠ "") :
    StoreRelies host asked (fun found world => found.isSome → world.hasKey key)
      (existingForDedup (some key)) seen := by
  simp only [existingForDedup, if_neg nonempty]
  apply Relies.perform
  intro world changed recurs fault _
  obtain ⟨kept, keeps⟩ := quiet_keeps recurs (.selectEventByDedup key) fault trivial
    fun _ inserts => by cases inserts
  refine ⟨kept, keeps, ?_⟩
  cases fault with
  | some fault => trivial
  | none =>
      intro isSome
      obtain ⟨event, found⟩ := Option.isSome_iff_exists.1 isSome
      obtain ⟨stored, isKey⟩ := Db.eventByKey_eq_some.1 found
      exact ⟨event, stored, isKey⟩

theorem reuse_relies {request : EventRequest} {event : EventRow} {key : String}
    (has : seen.hasKey key) :
    StoreRelies host asked (fun _ world => world.hasKey key) (reuseOrReject request event) seen := by
  unfold reuseOrReject
  split
  · exact has
  · trivial

/-- The event of an occurrence is inserted, or its key is taken. -/
theorem insert_relies {request : EventRequest} {key eventId : String}
    (isKey : request.dedupKey = some key)
    (announced : ∃ made ∈ seen.added, ∀ eventId, (request.row eventId).Announces made) :
    StoreRelies host asked (fun _ world => world.hasKey key)
      (Stmt.insertEvent (request.row eventId)).perform seen := by
  apply Relies.perform
  intro world changed recurs fault _
  obtain ⟨made, added, announces⟩ := announced
  have new (request' : EventRequest)
      (inserts : (Op.sql (.insertEvent (request.row eventId))).Inserts request') (eventId' key' : String)
      (isKey' : request'.dedupKey = some key') (_ : isScheduleKey key' = true) :
      ∃ made ∈ world.added, (request'.row eventId').Announces made := by
    generalize isOp : Op.sql (.insertEvent (request.row eventId)) = op at inserts
    cases inserts with
    | direct request' eventId'' =>
        have same : request.row eventId = request'.row eventId'' := by
          injection isOp with isStmt
          injection isStmt
        obtain ⟨index, keyed, due, timed⟩ := (announces eventId).occurrence
        have isTime : request.now = request'.now := congrArg EventRow.createdAt same
        have isFor : request.availableAt.getD request.now =
            request'.availableAt.getD request'.now := congrArg EventRow.availableAt same
        refine ⟨made, changed.added made added, ⟨index, ?_, ?_, ?_⟩, ?_, ?_⟩
        · exact (congrArg EventRow.dedupKey same).symm.trans keyed
        · exact le_of_le_of_eq due isTime
        · rw [← timed.time rfl]
          change EventRow.Timed _ (request.availableAt.getD request.now)
          rw [isFor]
          exact .inserted request' eventId'
        · exact (congrArg EventRow.kind same).symm.trans (announces eventId).kind
        · exact (congrArg EventRow.payloadJson same).symm.trans (announces eventId).payloadJson
    | _ => cases isOp
  obtain ⟨kept, keeps⟩ := stmt_keeps recurs (.insertEvent (request.row eventId)) fault
    ⟨request, eventId, rfl⟩ new
  refine ⟨kept, keeps, ?_⟩
  cases fault with
  | some fault => trivial
  | none =>
      simp only [storeMachine, ScheduleOp.answer, Stmt.exec]
      split
      · rename_i events inserted
        refine ⟨request.row eventId, ?_, isKey⟩
        change _ ∈ events.rows
        rw [Table.rows_insert inserted]
        exact List.mem_append_right _ (List.mem_singleton.2 rfl)
      · trivial

/-- `enqueue_event` leaves an event under the key, whoever stored it. -/
theorem enqueueEvent_relies {request : EventRequest} {key : String} (nonempty : key ≠ "")
    (isKey : request.dedupKey = some key)
    (announced : ∃ made ∈ seen.added, ∀ eventId, (request.row eventId).Announces made) :
    StoreRelies host asked (fun _ world => world.hasKey key) (enqueueEvent request) seen := by
  simp only [enqueueEvent, isKey, Program.bind_eq_bind]
  apply ((lookup_relies nonempty).changed ScheduleWorld.Keeps.refl ScheduleWorld.Keeps.trans).seq
  rintro found first ⟨changed, has⟩
  cases found with
  | some existing => exact reuse_relies (has rfl)
  | none =>
      apply ((quiet_relies .uuid4 trivial fun _ inserts => by cases inserts).changed
        ScheduleWorld.Keeps.refl ScheduleWorld.Keeps.trans).seq
      rintro eventId second ⟨changed', _⟩
      obtain ⟨made, added, announces⟩ := announced
      have announced' : ∃ made ∈ second.added, ∀ eventId, (request.row eventId).Announces made :=
        ⟨made, changed'.added made (changed.added made added), announces⟩
      apply Relies.seq (M := fun result world => result = .ok () → world.hasKey key)
      · apply Relies.attempt
        refine (insert_relies isKey announced').weaken fun outcome world has => ?_
        rintro rfl
        exact has
      · intro result third inserted
        cases result with
        | ok _ =>
            apply ((quiet_relies (.insertJournal _) trivial fun _ inserts => by cases inserts).changed
              ScheduleWorld.Keeps.refl ScheduleWorld.Keeps.trans).seq
            rintro _ fourth ⟨changed'', _⟩
            exact (inserted rfl).keeps changed''
        | error exc =>
            simp only
            split
            · apply (lookup_relies nonempty).seq
              intro raced fourth has
              cases raced with
              | none => trivial
              | some existing => exact reuse_relies (has rfl)
            · trivial

/-- The event for an occurrence of a version of a schedule announces it. -/
theorem ScheduleWorld.Knows.announces (knows : seen.Knows row) {payload : JsonObject}
    (read : row.payload = .ok payload) {index : Nat} (due : row.occurrence index ≤ now) :
    ∃ made ∈ seen.added, ∀ eventId,
      ((occurrenceRequest row payload (row.occurrence index) now).row eventId).Announces made := by
  obtain ⟨made, added, version, start, isStart, _⟩ := knows
  have same := ScheduleRow.occurrence_of_version version.everySeconds isStart index
  obtain ⟨stored, isText⟩ := version.text
  refine ⟨made, added, fun eventId => ⟨⟨start + index, ?_, ?_, ?_⟩, version.kind, ?_⟩⟩
  · rw [← same, ← version.id]
    rfl
  · rw [← same]
    exact due
  · rw [← same]
    exact .inserted _ eventId
  · have isPayload : stored = payload := by
      simp only [ScheduleRow.payload, isText, JsonObject.loads_text,
        JsonObject.ofVal?_value] at read
      exact Except.ok.inj read
    rw [← version.payloadJson, isText, isPayload]
    rfl

theorem emitOccurrences_relies (knows : seen.Knows row) (occurrences : List Time)
    (each : ∀ time ∈ occurrences, time ≤ now ∧ ∃ index : Nat, time = row.occurrence index) :
    TickRelies host asked
      (fun _ world => ∀ time ∈ occurrences, world.hasKey (scheduleKey row.id time))
      (emitOccurrences row now occurrences) seen := by
  induction occurrences generalizing seen with
  | nil => exact nofun
  | cons occurrence rest ih =>
      unfold emitOccurrences
      cases read : row.payload with
      | error exc => trivial
      | ok payload =>
          obtain ⟨due, index, rfl⟩ := each occurrence List.mem_cons_self
          apply ((sql_relies (enqueueEvent_relies (scheduleKey_ne_empty _ _) rfl
            (knows.announces read due))).changed ScheduleWorld.Keeps.refl
              ScheduleWorld.Keeps.trans).seq
          rintro _ world ⟨changed, has⟩
          have later := ih (knows.keeps changed) fun time member =>
            each time (List.mem_cons_of_mem _ member)
          refine (later.changed ScheduleWorld.Keeps.refl ScheduleWorld.Keeps.trans).weaken
            fun outcome last ends => ?_
          cases outcome with
          | error exc => trivial
          | ok _ =>
              intro time member
              rcases List.mem_cons.1 member with rfl | inRest
              · exact has.keeps ends.1
              · exact ends.2 time inRest

/-- A row is left where all its earlier occurrences have their events, however far others have
moved it in the meantime. -/
theorem close_relies (knows : seen.Knows row) {nextAt : Time} {count : Nat}
    (left : row.everySeconds.isSome → nextAt = row.occurrence count ∧
      ∀ index < count, seen.hasKey (scheduleKey row.id (row.occurrence index))) :
    TickRelies host asked (fun _ _ => True) (row.close nextAt now) seen := by
  obtain ⟨made, added, version, start, isStart, earlier⟩ := knows
  unfold ScheduleRow.close
  cases every : row.everySeconds with
  | none =>
      apply Relies.perform
      intro world changed recurs fault _
      -- every schedule has an interval
      obtain ⟨interval, isEvery, _⟩ := recurs.repeats made (changed.added made added)
      rw [← version.everySeconds, every] at isEvery
      cases isEvery
  | some interval =>
      obtain ⟨rfl, emitted⟩ := left (by simp [every])
      have reaches : made.Reaches seen (row.occurrence count) := by
        refine ⟨start + count,
          ScheduleRow.occurrence_of_version version.everySeconds isStart count, ?_⟩
        intro index below
        by_cases before : index < start
        · exact earlier index before
        · obtain ⟨later, rfl⟩ := Nat.exists_eq_add_of_le (not_lt.1 before)
          rw [← ScheduleRow.occurrence_of_version version.everySeconds isStart later, ← version.id]
          exact emitted later (by omega)
      apply Relies.perform
      intro world changed recurs fault _
      cases fault with
      | some fault => exact ⟨recurs, .refl world, trivial⟩
      | none =>
          refine ⟨recurs.moveNext (changed.added made added) version.id (reaches.keeps changed), ?_,
            trivial⟩
          exact ⟨fun event stored => ⟨event, stored, .refl event⟩, fun _ added => added⟩

theorem tickRows_relies (maxOccurrences : Int) (rows : List ScheduleRow) (emitted : Int)
    (known : ∀ row ∈ rows, row.nextAt ≤ now ∧ seen.Knows row) :
    TickRelies host asked (fun _ _ => True) (tickRows now maxOccurrences rows emitted) seen := by
  induction rows generalizing seen emitted with
  | nil => trivial
  | cons row rows ih =>
      obtain ⟨isDue, knows⟩ := known row List.mem_cons_self
      have batch := row.batch_spec now (maxOccurrences - emitted).toNat
      unfold tickRows
      simp only [Program.bind_eq_bind]
      apply ((emitOccurrences_relies knows _ fun time member =>
        ⟨(batch.2 time member).1 isDue, (batch.2 time member).2⟩).changed ScheduleWorld.Keeps.refl
          ScheduleWorld.Keeps.trans).seq
      rintro _ first ⟨changed, all⟩
      have closes : ∃ count : Nat, row.everySeconds.isSome →
          (row.batch now (maxOccurrences - emitted).toNat).2 = row.occurrence count ∧
            ∀ index < count, first.hasKey (scheduleKey row.id (row.occurrence index)) := by
        cases every : row.everySeconds with
        | none => exact ⟨0, fun isSome => by cases isSome⟩
        | some interval =>
            obtain ⟨count, last, inside⟩ := batch.1 (by simp [every])
            exact ⟨count, fun _ => ⟨last, fun index below => all _ (inside index below)⟩⟩
      obtain ⟨count, left⟩ := closes
      apply ((close_relies (knows.keeps changed) left).changed ScheduleWorld.Keeps.refl
        ScheduleWorld.Keeps.trans).seq
      rintro _ second ⟨changed', _⟩
      split
      · trivial
      · apply ih
        intro other member
        obtain ⟨isDue', knows'⟩ := known other (List.mem_cons_of_mem _ member)
        exact ⟨isDue', (knows'.keeps changed).keeps changed'⟩

/-- A tick emits due occurrences only, and moves a schedule past none that has no event. -/
theorem tick_relies (maxOccurrences : Int) :
    TickRelies host asked (fun _ _ => True) (tick now maxOccurrences) seen := by
  simp only [tick, Program.bind_eq_bind]
  apply Relies.seq (M := fun rows world => ∀ row ∈ rows, row.nextAt ≤ now ∧ world.Knows row)
  · apply Relies.perform
    intro world _ recurs fault _
    cases fault with
    | some fault => exact ⟨recurs, .refl world, trivial⟩
    | none =>
        refine ⟨recurs, .refl world, fun row member => ?_⟩
        obtain ⟨stored, isDue⟩ := List.mem_filter.1 ((List.mem_insertionSort _).1 member)
        simp only [ScheduleRow.due, Bool.and_eq_true, decide_eq_true_eq] at isDue
        exact ⟨isDue.2, recurs.origin row stored⟩
  · intro rows world known
    exact tickRows_relies maxOccurrences rows 0 known

theorem addInterval_relies {kind : String} {payload : JsonObject} {everySeconds firstAt : Time}
    (isAsked : ∀ scheduleId,
      asked (newScheduleRow kind payload everySeconds firstAt now scheduleId)) :
    TickRelies host asked (fun _ _ => True) (addInterval kind payload everySeconds firstAt now)
      seen := by
  unfold addInterval
  split
  · trivial
  · rename_i positive
    simp only [Program.bind_eq_bind]
    have drawn : (ScheduleOp.sql .uuid4).perform = Sql.scheduled Stmt.uuid4.perform := by
      simp [ScheduleOp.perform, Stmt.perform, Program.perform]
    apply Relies.seq (M := fun _ _ => True)
    · rw [drawn]
      exact sql_relies (quiet_relies .uuid4 trivial fun _ inserts => by cases inserts)
    · intro scheduleId _ _
      apply Relies.seq (M := fun _ _ => True)
      · apply Relies.perform
        intro world _ recurs fault _
        cases fault with
        | some fault => exact ⟨recurs, .refl world, trivial⟩
        | none =>
            simp only [scheduleMachine, ScheduleOp.answer]
            split
            · rename_i schedules inserted
              obtain ⟨kept, keeps⟩ := recurs.insert inserted (isAsked scheduleId)
                ⟨everySeconds, rfl, not_le.1 positive⟩ ⟨payload, rfl⟩
              exact ⟨kept, keeps, trivial⟩
            · exact ⟨recurs, .refl world, trivial⟩
      · exact fun _ _ _ => trivial

end Tick

/-! ### What a process does among others -/

/-- The process adds the schedule. -/
inductive DaemonCall.Adds : DaemonCall → ScheduleRow → Prop where
  | scheduler (kind : String) (payload : JsonObject) (everySeconds firstAt now : Time)
      (scheduleId : String) :
      Adds (.schedule (.addInterval kind payload everySeconds firstAt now))
        (newScheduleRow kind payload everySeconds firstAt now scheduleId)
  | command (task : String) (every : Time) (firstAt : Option Time) (capability : List String)
      (now : Time) (clock : List Time) (scheduleId : String) :
      Adds (.main (.schedule task every firstAt capability) now clock)
        (newScheduleRow "task.requested" (taskPayload task capability) every
          (firstAt.getD (now + every)) now scheduleId)

/-- A worker reads the task and the capabilities of the command line out of the payload. -/
theorem requestedTask_taskPayload (task : String) (capability : List String) :
    requestedTask (taskPayload task capability).value =
      if pyStrip task = "" then none
      else some (pyStrip task, capability.dedup.insertionSort (· ≤ ·)) := by
  have names : asStrings? (.list ((capability.dedup.insertionSort (· ≤ ·)).map PyVal.str)) =
      some (capability.dedup.insertionSort (· ≤ ·)) := by
    rw [asStrings?, List.mapM_map]
    exact (List.mapM_pure (m := Option) (f := id)).trans (by simp)
  have isTask : (taskPayload task capability).value.get? "task" = some (.str task) := rfl
  have isList : (taskPayload task capability).value.get? "capabilities" =
      some (.list ((capability.dedup.insertionSort (· ≤ ·)).map PyVal.str)) := rfl
  simp [requestedTask, isTask, isList, PyVal.asStr?, names]

/-- What a program of a process does while other processes only keep things. -/
abbrev HostingRelies (host : Host) (asked : ScheduleRow → Prop) {α : Type} (program : Hosting α)
    (seen : ScheduleWorld) : Prop :=
  program.Relies (daemons host).toMachine (fun _ => True) (ScheduleWorld.Recurs asked)
    ScheduleWorld.Keeps (fun _ _ => True) seen

section Processes

variable {now : Time} {α β : Type}

theorem HostingRelies.bind {first : Hosting α} {next : α → Hosting β}
    (relies : HostingRelies host asked first seen)
    (rest : ∀ value world, HostingRelies host asked (next value) world) :
    HostingRelies host asked (first.bind next) seen :=
  Relies.bind relies (fun _ _ _ => trivial) fun value world _ => rest value world

/-- The scheduler of a process is a scheduler. -/
theorem hosted_relies {Q : α → ScheduleWorld → Prop} {program : Scheduling α}
    (relies : TickRelies host asked Q program seen) :
    HostingRelies host asked (Scheduling.hosted program) seen := by
  have same (op : ScheduleOp) (answer : Answer) (world : ScheduleWorld) (_ : True) :
      (scheduleMachine host).answer op answer.fault world =
        (((daemons host).answer op.hosted answer world).1.map op.hostedResult,
          ((daemons host).answer op.hosted answer world).2) := by
    cases op with
    | sql stmt =>
        change ScheduleOp.answer host (.sql stmt) answer.fault world =
          (((Op.sql stmt).answer host answer world.world).1.map id,
            { world with world := ((Op.sql stmt).answer host answer world.world).2 })
        simp only [Op.answer]
        cases answer.fault with
        | some fault => rfl
        | none => exact Prod.ext (congrFun Except.map_id _).symm rfl
    | _ => exact Prod.ext (congrFun Except.map_id _).symm rfl
  exact (Relies.lift same (fun _ _ => trivial) relies).weaken fun _ _ _ => trivial

/-- A call of the kernel, or its beginning, puts no event under the key of an occurrence. -/
theorem body_relies {body : Proc α} {after : α → Proc Unit}
    (isBody : call.program host = body.bind after) (unforged : call.unforged = true) :
    HostingRelies host asked body.hosted seen := by
  have obeys := (isBody ▸ program_obeys host call).first
  refine Relies.inside obeys fun log op rule world recurs answer _ => ?_
  refine recurs.ofEvents (eventsStep host world.world answer rule.issued) ?_
  intro request inserts eventId key keyed isSchedule
  rw [rule.notSchedule unforged inserts keyed] at isSchedule
  cases isSchedule

theorem reading_relies (op : HostOp) (reads : ∀ answer world,
    ((daemons host).answer (.inr op) answer world).2 = world) :
    HostingRelies host asked op.perform seen := by
  apply Relies.perform
  intro world _ recurs answer _
  rw [reads]
  exact ⟨recurs, .refl world, trivial⟩

theorem cycle_relies (engine : Engine) : HostingRelies host asked (cycle host engine now) seen := by
  simp only [cycle, Program.bind_eq_bind]
  refine (hosted_relies (tick_relies 100)).bind fun _ world => ?_
  have isBody : (Call.runOnce engine now).program host =
      (engine.runOnce host now).bind fun _ => .done () := rfl
  exact (body_relies isBody rfl).bind fun _ _ => trivial

theorem poll_relies (engine : Engine) (clock : List Time) :
    HostingRelies host asked (poll host engine clock) seen := by
  induction clock generalizing seen with
  | nil => trivial
  | cons now clock ih =>
      simp only [poll, Program.bind_eq_bind]
      apply HostingRelies.bind (Relies.attempt (Q := fun _ _ => True) (cycle_relies engine))
      intro outcome world
      cases outcome with
      | ok result => exact ih
      | error exc =>
          simp only
          split
          · exact ih
          · trivial

theorem runForever_relies (engine : Engine) (pollSeconds : ℚ) (clock : List Time) :
    HostingRelies host asked (runForever host engine pollSeconds clock) seen := by
  unfold runForever
  split
  · trivial
  · exact poll_relies engine clock

theorem main_relies (command : Command) (clock : List Time)
    (isAsked : ∀ made, (DaemonCall.main command now clock).Adds made → asked made) :
    HostingRelies host asked (command.program host now clock) seen := by
  cases command with
  | submit task capability =>
      have isBody : (Call.submitTask task capability now none).program host =
          (submitTask task capability now none).bind fun _ => .done () := rfl
      exact (body_relies isBody rfl).bind fun _ _ => trivial
  | schedule task every firstAt capability =>
      exact (hosted_relies (addInterval_relies fun scheduleId =>
        isAsked _ (.command task every firstAt capability now clock scheduleId))).bind
          fun _ _ => trivial
  | remember content kind salience =>
      have isBody : (Call.addMemory kind content salience now).program host =
          (addMemory kind content salience now).proc.bind fun _ => .done () := rfl
      exact (body_relies isBody rfl).bind fun _ _ => trivial
  | status =>
      have counts (op : HostOp) (answered : op = .countRuns ∨ op = .countPending) :
          ∀ answer world, ((daemons host).answer (.inr op) answer world).2 = world := by
        intro answer world
        change (op.answer host answer.fault world).2 = world
        rcases answered with rfl | rfl <;> cases answer.fault <;> rfl
      exact (reading_relies .countRuns (counts _ (.inl rfl))).bind fun _ _ =>
        (reading_relies .countPending (counts _ (.inr rfl))).bind fun _ _ => trivial
  | runOnce args =>
      simp only [Command.program, Program.bind_eq_bind]
      cases built : runtime args with
      | error exc => trivial
      | ok engine => exact (cycle_relies engine).bind fun _ _ => trivial
  | daemon args pollSeconds =>
      simp only [Command.program, Program.bind_eq_bind]
      cases built : runtime args with
      | error exc => trivial
      | ok engine => exact (runForever_relies engine pollSeconds clock).bind fun _ _ => trivial

/-- No process takes an event or a schedule back, or moves a schedule past an occurrence that has
no event. -/
theorem daemon_relies (daemon : DaemonCall) (unforged : daemon.unforged = true)
    (isAsked : ∀ made, daemon.Adds made → asked made) :
    HostingRelies host asked (daemon.program host) seen := by
  cases daemon with
  | direct call =>
      exact body_relies (Program.bind_done (call.program host)).symm unforged
  | schedule call =>
      cases call with
      | addInterval kind payload everySeconds firstAt now =>
          apply hosted_relies (Q := fun _ _ => True)
          exact (addInterval_relies fun scheduleId =>
            isAsked _ (.scheduler kind payload everySeconds firstAt now scheduleId)).seq
              fun _ _ _ => trivial
      | tick now maxOccurrences =>
          apply hosted_relies (Q := fun _ _ => True)
          exact (tick_relies maxOccurrences).seq fun _ _ _ => trivial
  | cycle engine now => exact (cycle_relies engine).bind fun _ _ => trivial
  | runForever engine pollSeconds clock => exact runForever_relies engine pollSeconds clock
  | main command now clock => exact (main_relies command clock isAsked).bind fun _ _ => trivial

end Processes

/-! ### Runs -/

/-- The steps allow no process that forges an occurrence. -/
def Unforged (allowed : DaemonConfig → Label Answer DaemonCall → Prop) : Prop :=
  ∀ config daemon, allowed config (.spawn daemon) → daemon.unforged = true

/-- One of the processes that may start adds the schedule. -/
def AskedFor (allowed : DaemonConfig → Label Answer DaemonCall → Prop) (made : ScheduleRow) : Prop :=
  ∃ config daemon, allowed config (.spawn daemon) ∧ daemon.Adds made

variable {allowed : DaemonConfig → Label Answer DaemonCall → Prop} {config : DaemonConfig}

theorem daemons_recur (unforged : Unforged allowed)
    (reached : (daemons host).Reachable allowed DaemonConfig.initial config) :
    config.world.Recurs (AskedFor allowed) := by
  have empty : DaemonConfig.initial.world.Recurs (AskedFor allowed) := by
    constructor <;> intro _ member <;> cases member
  have run := System.Reachable.relied (A := fun _ => True) ScheduleWorld.Keeps.refl
    ScheduleWorld.Keeps.trans
    (fun config daemon admitted world _ => daemon_relies daemon (unforged config daemon admitted)
      fun made adds => ⟨config, daemon, admitted, adds⟩)
    (fun _ _ _ _ => trivial) empty rfl reached .start
  exact run.1

/-- No call of the kernel that unforged processes make names an event as the source of a run. -/
theorem ServedBy.onlyDelivered (unforged : Unforged allowed) (eventId : String)
    (base : KernelConfig) (label : Label Answer Call) (served : ServedBy allowed base label) :
    OnlyDelivered eventId base label := by
  cases label with
  | spawn call =>
      obtain ⟨config, daemon, admitted, makes⟩ := served
      cases makes with
      | direct call =>
          cases call with
          | submitTask task capabilities now source =>
              have none : source.isNone = true := unforged config _ admitted
              obtain rfl := Option.isNone_iff_eq_none.1 none
              rfl
          | _ => rfl
      | _ => rfl
  | _ => rfl

theorem daemons_requestSound (unforged : Unforged allowed)
    (reached : (daemons host).Reachable allowed DaemonConfig.initial config) (eventId : String) :
    RequestSound eventId config.world.world.db := by
  obtain ⟨base, place, first, served⟩ := (served_initial host allowed).run reached
  rw [← served.world]
  exact reachable_requestSound (first.mono (ServedBy.onlyDelivered unforged eventId))

/-- Recurring tasks are served: in every state of daemons. -/
structure RecurringServed (allowed : DaemonConfig → Label Answer DaemonCall → Prop)
    (config : DaemonConfig) : Prop where
  asked : ∀ made ∈ config.world.added, AskedFor allowed made
  /-- A schedule is due next at an occurrence, and every earlier one has its event. -/
  announced : ∀ made ∈ config.world.added, ∃ row ∈ config.world.schedules.rows, row.VersionOf made ∧
    ∃ index, row.nextAt = made.occurrence index ∧ ∀ earlier < index,
      ∃ event ∈ config.world.world.db.events.rows,
        event.dedupKey = some (scheduleKey made.id (made.occurrence earlier)) ∧
          event.Announces made
  /-- Nothing else has the key of an occurrence. -/
  events : ∀ event ∈ config.world.world.db.events.rows, ∀ key, event.dedupKey = some key →
    isScheduleKey key = true → ∃ made ∈ config.world.added, event.Announces made
  unique : ∀ event ∈ config.world.world.db.events.rows,
    ∀ event' ∈ config.world.world.db.events.rows, event.dedupKey ≠ none →
      event.dedupKey = event'.dedupKey → event = event'
  /-- Keys write a time in microseconds: above that, an event is that of one occurrence. -/
  apart : ∀ made ∈ config.world.added, ∀ interval, made.everySeconds = some interval →
    1 / 10 ^ 6 < interval → ∀ index index',
      scheduleKey made.id (made.occurrence index) = scheduleKey made.id (made.occurrence index') →
        index = index'
  punctual : ∀ made ∈ config.world.added, ∀ interval, made.everySeconds = some interval →
    1 / 10 ^ 6 < interval → ∀ event ∈ config.world.world.db.events.rows, ∀ index,
      event.dedupKey = some (scheduleKey made.id (made.occurrence index)) →
        made.occurrence index ≤ event.createdAt ∧ event.Timed (made.occurrence index)
  /-- An occurrence has one run at most, of the task and with the capabilities of its schedule. -/
  runs : ∀ made ∈ config.world.added, ∀ event ∈ config.world.world.db.events.rows,
    event.Announces made → ∀ run ∈ config.world.world.db.runs.rows,
      run.sourceEventId = some event.id →
        (∀ run' ∈ config.world.world.db.runs.rows, run'.sourceEventId = some event.id → run' = run) ∧
        made.kind = "task.requested" ∧
        ∃ payload capabilities, loads made.payloadJson = .ok payload ∧
          requestedTask payload = some (run.task, capabilities) ∧
            ∀ capability, capability ∈ run.capabilities ↔ capability ∈ capabilities
  /-- Once its event is done, it has that run, or the payload asks for none and is rejected. -/
  served : ∀ made ∈ config.world.added, made.kind = "task.requested" →
    ∀ event ∈ config.world.world.db.events.rows, event.Announces made → event.status = .done →
      (∃ run ∈ config.world.world.db.runs.rows, run.sourceEventId = some event.id) ∨
      ∃ payload, loads made.payloadJson = .ok payload ∧ requestedTask payload = none ∧
        ∃ entry ∈ config.world.world.db.journal,
          entry.eventType = .eventRejected ∧ entry.subjectId = some event.id
  /-- A schedule with the payload of the command line gets runs of its task, stripped; a blank task
  gets none. -/
  commanded : ∀ made ∈ config.world.added, ∀ task capability,
    made.payloadJson = (taskPayload task capability).text compactStyle →
      ∀ event ∈ config.world.world.db.events.rows, event.Announces made →
        ∀ run ∈ config.world.world.db.runs.rows, run.sourceEventId = some event.id →
          pyStrip task ≠ "" ∧ run.task = pyStrip task ∧
            ∀ name, name ∈ run.capabilities ↔ name ∈ capability

section Served

variable (unforged : Unforged allowed)
variable (reached : (daemons host).Reachable allowed DaemonConfig.initial config)
include unforged reached

/-- The run of an occurrence was made for its schedule. -/
theorem run_of_announces {event : EventRow} (stored : event ∈ config.world.world.db.events.rows)
    (announces : event.Announces made) {run : RunRow}
    (isRun : run ∈ config.world.world.db.runs.rows) (source : run.sourceEventId = some event.id) :
    made.kind = "task.requested" ∧
      ∃ payload capabilities, loads made.payloadJson = .ok payload ∧
        requestedTask payload = some (run.task, capabilities) ∧
          ∀ capability, capability ∈ run.capabilities ↔ capability ∈ capabilities := by
  have sound := daemons_requestSound unforged reached event.id
  obtain ⟨event', stored', capabilities, requests, text⟩ := (sound.made run isRun source).request
  obtain rfl := event_unique stored stored' requests.id.symm
  obtain ⟨payload, read, asks⟩ := requests.payload
  refine ⟨announces.kind.symm.trans requests.kind, payload, capabilities, ?_, asks,
    run.capabilities_of_stored text⟩
  rw [← announces.payloadJson]
  exact read

theorem announces_of_key (added : made ∈ config.world.added) {event : EventRow} {time : Time}
    (stored : event ∈ config.world.world.db.events.rows)
    (isKey : event.dedupKey = some (scheduleKey made.id time)) : event.Announces made := by
  have recurs := daemons_recur unforged reached
  obtain ⟨made', added', announces⟩ :=
    recurs.events event stored _ isKey (isScheduleKey_scheduleKey _ _)
  obtain ⟨index, isKey', _⟩ := announces.occurrence
  have sameId := (scheduleKey_inj (Option.some.inj (isKey.symm.trans isKey'))).1
  obtain rfl := recurs.distinct made added made' added' sameId
  exact announces

end Served

/-- Whatever daemons, command lines, schedulers and hosts do on one database, and wherever they
die, recurring tasks are served. -/
theorem recurring_served (host : Host)
    (allowed : DaemonConfig → Label Answer DaemonCall → Prop) (config : DaemonConfig)
    (unforged : Unforged allowed)
    (reached : (daemons host).Reachable allowed DaemonConfig.initial config) :
    RecurringServed allowed config where
  asked := (daemons_recur unforged reached).asked
  announced := by
    intro made added
    have recurs := daemons_recur unforged reached
    obtain ⟨row, stored, sameId⟩ := recurs.kept made added
    obtain ⟨made', added', version, index, isNext, earlier⟩ := recurs.origin row stored
    obtain rfl := recurs.distinct made added made' added' (sameId.symm.trans version.id)
    refine ⟨row, stored, version, index, isNext, fun before below => ?_⟩
    obtain ⟨event, there, isKey⟩ := earlier before below
    exact ⟨event, there, isKey, announces_of_key unforged reached added there isKey⟩
  events := (daemons_recur unforged reached).events
  unique := by
    intro event stored event' stored' keyed same
    obtain ⟨key, isKey⟩ := Option.ne_none_iff_exists'.1 keyed
    rw [isKey] at same
    apply Table.eq_of_clash stored stored'
    · simp [UniqueKeys.clash, UniqueKeys.key, isKey, ← same]
    · simp [UniqueKeys.clash, UniqueKeys.key, isKey, ← same]
  apart _ _ _ every apart _ _ := ScheduleRow.occurrence_key_inj every apart
  punctual := by
    intro made added interval every apart event stored index isKey
    obtain ⟨index', isKey', due, timed⟩ :=
      (announces_of_key unforged reached added stored isKey).occurrence
    obtain rfl := ScheduleRow.occurrence_key_inj every apart
      (Option.some.inj (isKey.symm.trans isKey'))
    exact ⟨due, timed⟩
  runs := by
    intro made _ event stored announces run isRun source
    refine ⟨fun run' isRun' source' => run_of_source_unique isRun' isRun source' source, ?_⟩
    exact run_of_announces unforged reached stored announces isRun source
  served := by
    intro made _ kind event stored announces done
    have sound := daemons_requestSound unforged reached event.id
    rcases sound.done event stored rfl (announces.kind.trans kind) done with
      isRun | ⟨payload, read, malformed, rejected⟩
    · exact .inl isRun
    · rw [announces.payloadJson] at read
      exact .inr ⟨payload, read, malformed, rejected⟩
  commanded := by
    intro made _ task capability isText event stored announces run isRun source
    obtain ⟨_, payload, capabilities, read, asks, same⟩ :=
      run_of_announces unforged reached stored announces isRun source
    rw [isText, JsonObject.loads_text, Except.ok.injEq] at read
    rw [← read, requestedTask_taskPayload] at asks
    split at asks
    · cases asks
    · rename_i notBlank
      obtain ⟨isTask, rfl⟩ := Prod.mk.inj (Option.some.inj asks)
      refine ⟨notBlank, isTask.symm, fun name => ?_⟩
      rw [same, List.mem_insertionSort, List.mem_dedup]

/-- The steps that start no process which forges an occurrence. -/
def unforgedLabel : Label Answer DaemonCall → Bool
  | .spawn daemon => daemon.unforged
  | _ => true

set_option maxRecDepth 10000 in
/-- The first occurrence of a schedule of the command line becomes a run. -/
theorem recurring_served_rent :
    ∃ config, (daemons plainHost).Reachable (fun _ label => unforgedLabel label = true)
      DaemonConfig.initial config ∧
      config.world.schedules.rows.map ScheduleRow.nextAt = [60] ∧
      (config.world.world.db.events.rows.any fun event => event.status == .done) = true ∧
      config.world.world.db.runs.rows.map RunRow.task = ["pay the rent"] ∧
      RecurringServed (fun _ label => unforgedLabel label = true) config := by
  have ran : ((daemons plainHost).run (fun _ label => unforgedLabel label) DaemonConfig.initial
      (rentEmitted ++ List.replicate 4 (.act 1 .quiet))).any (fun config =>
        decide (config.world.schedules.rows.map ScheduleRow.nextAt = [60]) &&
          ((config.world.world.db.events.rows.any fun event => event.status == .done) &&
            decide (config.world.world.db.runs.rows.map RunRow.task = ["pay the rent"]))) =
      true := by
    decide +kernel
  obtain ⟨config, reached, ended⟩ := System.Reachable.exists_of_run _ ran
  rw [Bool.and_eq_true, Bool.and_eq_true, decide_eq_true_eq, decide_eq_true_eq] at ended
  exact ⟨config, reached, ended.1, ended.2.1, ended.2.2,
    recurring_served plainHost _ config (fun _ _ admitted => admitted) reached⟩

end PreActive.Kernel
