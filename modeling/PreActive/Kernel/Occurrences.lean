/-
Module: PreActive.Kernel.Occurrences
Purpose: No occurrence of a schedule is lost, duplicated or early, however schedulers interleave.
Trusted boundary: human-reviewed spec
Main exports: ScheduleRow.occurrence, ScheduleRow.Reaches, OccurrencesKept, occurrences_kept
-/
import Mathlib.Tactic.Ring
import PreActive.Kernel.Rows
import PreActive.Kernel.Scheduler
import PreActive.Kernel.System

namespace PreActive.Kernel

open PreActive.Foundation PreActive.Python
open Program.Obeys

/-! ### Occurrences -/

/-- The occurrence of a schedule with the given index, counted from the `next_at` of the row. -/
def ScheduleRow.occurrence (row : ScheduleRow) (index : Nat) : Time :=
  row.nextAt + index * row.everySeconds.getD 0

/-- Some event has the key. -/
def ScheduleWorld.hasKey (world : ScheduleWorld) (key : String) : Prop :=
  ∃ event ∈ world.world.db.events.rows, event.dedupKey = some key

/-- The time is that of an occurrence, and every earlier occurrence has an event under its key. -/
def ScheduleRow.Reaches (row : ScheduleRow) (world : ScheduleWorld) (time : Time) : Prop :=
  ∃ index, time = row.occurrence index ∧
    ∀ earlier < index, world.hasKey (scheduleKey row.id (row.occurrence earlier))

variable {host : Host} {world world' : ScheduleWorld} {row : ScheduleRow} {now : Time}

@[simp] theorem ScheduleRow.occurrence_zero (row : ScheduleRow) : row.occurrence 0 = row.nextAt := by
  simp [ScheduleRow.occurrence]

/-- Occurrences of a version of the schedule are occurrences of the schedule. -/
theorem ScheduleRow.occurrence_of_version {made : ScheduleRow}
    (interval : row.everySeconds = made.everySeconds) {index : Nat}
    (version : row.nextAt = made.occurrence index) (later : Nat) :
    row.occurrence later = made.occurrence (index + later) := by
  simp only [ScheduleRow.occurrence, interval, version]
  push_cast
  ring

/-- The occurrences that `tick` selects are consecutive, due, and followed by the time it leaves. -/
theorem dueOccurrences_spec (interval now : Time) (room : Nat) (nextAt : Time) :
    ∃ count : Nat, (dueOccurrences interval now room nextAt).2 = nextAt + count * interval ∧
      (∀ index < count, nextAt + index * interval ∈ (dueOccurrences interval now room nextAt).1) ∧
        ∀ time ∈ (dueOccurrences interval now room nextAt).1,
          time ≤ now ∧ ∃ index : Nat, time = nextAt + index * interval := by
  induction room generalizing nextAt with
  | zero => exact ⟨0, by simp [dueOccurrences], by simp, by simp [dueOccurrences]⟩
  | succ room ih =>
      by_cases isDue : nextAt ≤ now
      · obtain ⟨count, last, all, each⟩ := ih (nextAt + interval)
        simp only [dueOccurrences, isDue, if_true]
        refine ⟨count + 1, ?_, ?_, ?_⟩
        · rw [last]
          push_cast
          ring
        · intro index below
          cases index with
          | zero => simp
          | succ index =>
              have member := all index (Nat.lt_of_succ_lt_succ below)
              have same : nextAt + ((index + 1 : Nat) : Time) * interval =
                  nextAt + interval + index * interval := by
                push_cast
                ring
              rw [same]
              exact List.mem_cons_of_mem _ member
        · intro time member
          rcases List.mem_cons.1 member with rfl | later
          · exact ⟨isDue, 0, by simp⟩
          · obtain ⟨early, index, rfl⟩ := each time later
            refine ⟨early, index + 1, ?_⟩
            push_cast
            ring
      · exact ⟨0, by simp [dueOccurrences, isDue], by simp, by simp [dueOccurrences, isDue]⟩

/-- What `tick` emits for a due row, and where it leaves the row. -/
theorem ScheduleRow.batch_spec (row : ScheduleRow) (now : Time) (room : Nat) :
    (row.everySeconds.isSome → ∃ count : Nat, (row.batch now room).2 = row.occurrence count ∧
      ∀ index < count, row.occurrence index ∈ (row.batch now room).1) ∧
        ∀ time ∈ (row.batch now room).1, (row.nextAt ≤ now → time ≤ now) ∧
          ∃ index : Nat, time = row.occurrence index := by
  unfold ScheduleRow.batch
  cases every : row.everySeconds with
  | none =>
      refine ⟨nofun, fun time member => ?_⟩
      rw [List.mem_singleton.1 member]
      exact ⟨fun isDue => isDue, 0, by simp⟩
  | some interval =>
      obtain ⟨count, last, all, each⟩ := dueOccurrences_spec interval now room row.nextAt
      refine ⟨fun _ => ⟨count, ?_, ?_⟩, ?_⟩
      · simpa [ScheduleRow.occurrence, every] using last
      · simpa [ScheduleRow.occurrence, every] using all
      · intro time member
        obtain ⟨early, index, rfl⟩ := each time member
        exact ⟨fun _ => early, index, by simp [ScheduleRow.occurrence, every]⟩

/-! ### What a scheduler does -/

namespace Sql

variable {α β : Type}

@[simp] theorem scheduled_done (value : α) : Sql.scheduled (.done value) = .done value := rfl

@[simp] theorem scheduled_raise (exc : Exc) :
    Sql.scheduled (.raise exc : Sql α) = .raise exc := rfl

@[simp] theorem scheduled_ofExcept (outcome : Except Exc α) :
    Sql.scheduled (Program.ofExcept outcome) = Program.ofExcept outcome := by
  cases outcome <;> rfl

@[simp] theorem scheduled_call (stmt : Stmt) (next : Except Exc stmt.Result → Sql α) :
    Sql.scheduled (.call (F := stmtSignature) stmt next) =
      .call (F := scheduling) (ScheduleOp.sql stmt) fun result => (next result).scheduled := by
  unfold Sql.scheduled
  rw [Program.lift]
  congr 1
  funext result
  cases result <;> rfl

theorem scheduled_bind (first : Sql α) (next : α → Sql β) :
    Sql.scheduled (first.bind next) =
      first.scheduled.bind fun value => (next value).scheduled :=
  Program.lift_bind _ _ first next

theorem scheduled_attempt (sql : Sql α) :
    Sql.scheduled sql.attempt = sql.scheduled.attempt :=
  Program.lift_attempt _ _ sql

end Sql

/-- What one scheduler has done, latest statement first. -/
abbrev ScheduleHistory := Log scheduling Exc

/-- The event of the key was inserted, or one was found under it. -/
def Emitted (log : ScheduleHistory) (key : String) : Prop :=
  (∃ event : EventRow, (⟨.sql (.insertEvent event), .ok ()⟩ : Entry scheduling Exc) ∈ log ∧
      event.dedupKey = some key) ∨
    ∃ event, (⟨.sql (.selectEventByDedup key), .ok (some event)⟩ : Entry scheduling Exc) ∈ log

theorem Emitted.later {log log' : ScheduleHistory} {key : String} (emitted : Emitted log key)
    (longer : log <:+ log') : Emitted log' key := by
  rcases emitted with ⟨event, inserted, isKey⟩ | ⟨event, found⟩
  · exact .inl ⟨event, longer.subset inserted, isKey⟩
  · exact .inr ⟨event, longer.subset found⟩

/-- The row is one that `tick` selected. -/
def Selected (log : ScheduleHistory) (now : Time) (row : ScheduleRow) : Prop :=
  ∃ rows, (⟨.selectDue now, .ok rows⟩ : Entry scheduling Exc) ∈ log ∧ row ∈ rows

theorem Selected.later {log log' : ScheduleHistory} (selected : Selected log now row)
    (longer : log <:+ log') : Selected log' now row := by
  obtain ⟨rows, entry, member⟩ := selected
  exact ⟨rows, longer.subset entry, member⟩

/-- The event of an occurrence of a row that was selected, due if the row was. -/
def Emits (log : ScheduleHistory) (now : Time) (event : EventRow) : Prop :=
  ∃ (row : ScheduleRow) (payload : JsonObject) (index : Nat) (eventId : String),
    Selected log now row ∧ (row.nextAt ≤ now → row.occurrence index ≤ now) ∧
      event = (occurrenceRequest row payload (row.occurrence index) now).row eventId

/-- The statements of a scheduler and what comes before each. -/
def ScheduleRule : ScheduleCall → ScheduleHistory → ScheduleOp → Prop
  | _, _, .sql .uuid4 => True
  | .addInterval kind payload everySeconds firstAt now, _, .insertSchedule row =>
      0 < everySeconds ∧
        ∃ scheduleId, row = newScheduleRow kind payload everySeconds firstAt now scheduleId
  | .tick now _, _, .selectDue now' => now' = now
  | .tick .., _, .sql (.selectEventByDedup _) => True
  | .tick .., _, .sql (.insertJournal _) => True
  | .tick now _, log, .sql (.insertEvent event) => Emits log now event
  | .tick now _, log, .disable scheduleId _ => ∃ row, Selected log now row ∧
      row.everySeconds = none ∧ scheduleId = row.id
  | .tick now _, log, .moveNext scheduleId nextAt _ => ∃ row count, Selected log now row ∧
      scheduleId = row.id ∧ nextAt = row.occurrence count ∧
        ∀ index < count, Emitted log (scheduleKey row.id (row.occurrence index))
  | _, _, _ => False

/-- The statements of the store that a scheduler performs. -/
inductive StoreStmt (log : ScheduleHistory) : Stmt → Prop where
  | uuid4 : StoreStmt log .uuid4
  | lookup (key : String) : StoreStmt log (.selectEventByDedup key)
  | journal (entry : JournalRow) : StoreStmt log (.insertJournal entry)
  | event {now : Time} {event : EventRow} (emits : Emits log now event) :
      StoreStmt log (.insertEvent event)

theorem ScheduleRule.store {call : ScheduleCall} {log : ScheduleHistory} {stmt : Stmt}
    (rule : ScheduleRule call log (.sql stmt)) : StoreStmt log stmt := by
  cases stmt with
  | uuid4 => exact .uuid4
  | selectEventByDedup key => exact .lookup key
  | insertJournal entry => exact .journal entry
  | insertEvent event =>
      cases call with
      | addInterval => exact rule.elim
      | tick now maxOccurrences => exact .event rule
  | _ => cases call <;> exact rule.elim

theorem addInterval_obeys (kind : String) (payload : JsonObject) (everySeconds firstAt now : Time) :
    (addInterval kind payload everySeconds firstAt now).Obeys
      (ScheduleRule (.addInterval kind payload everySeconds firstAt now)) (returns fun _ _ => True)
      [] := by
  unfold addInterval
  split
  · exact of_raise
  · rename_i positive
    simp only [ScheduleOp.perform, Program.perform, Program.bind_eq_bind, Program.call_bind]
    apply afterCall
    · trivial
    · intro scheduleId
      apply afterCall
      · exact ⟨not_le.1 positive, scheduleId, rfl⟩
      · intro _
        exact of_done trivial

section Tick

variable {log : ScheduleHistory} {maxOccurrences : Int}

theorem existingForDedup_scheduled_obeys (key : String) :
    (existingForDedup (some key)).scheduled.Obeys (ScheduleRule (.tick now maxOccurrences))
      (returns fun log' found => ∀ event, found = some event → Emitted log' key) log := by
  simp only [existingForDedup]
  split
  · exact of_done fun event impossible => nomatch impossible
  · simp only [Stmt.perform, Program.perform, Sql.scheduled_call, Sql.scheduled_ofExcept]
    refine ⟨trivial, fun result => ?_⟩
    cases result with
    | error exc => trivial
    | ok found =>
        intro event isFound
        rw [isFound]
        exact .inr ⟨event, List.mem_cons_self⟩

theorem reuseOrReject_scheduled_obeys {request : EventRequest} {event : EventRow} {key : String}
    (emitted : Emitted log key) :
    (reuseOrReject request event).scheduled.Obeys (ScheduleRule (.tick now maxOccurrences))
      (returns fun log' _ => Emitted log' key) log := by
  unfold reuseOrReject
  split
  · exact of_done emitted
  · exact of_raise

/-- `enqueue_event` leaves an event under its key. -/
theorem enqueueEvent_scheduled_obeys (request : EventRequest) {key : String}
    (isKey : request.dedupKey = some key)
    (allowed : ∀ log' eventId, log <:+ log' → Emits log' now (request.row eventId)) :
    (enqueueEvent request).scheduled.Obeys (ScheduleRule (.tick now maxOccurrences))
      (returns fun log' _ => Emitted log' key) log := by
  unfold enqueueEvent
  rw [isKey, Program.bind_eq_bind, Sql.scheduled_bind]
  refine (existingForDedup_scheduled_obeys key).seq fun log' found longer seen => ?_
  cases found with
  | some existing => exact reuseOrReject_scheduled_obeys (seen existing rfl)
  | none =>
      simp only [Stmt.perform, Program.perform, Program.bind_eq_bind, Program.call_attempt,
        Program.call_bind, Sql.scheduled_call, Sql.scheduled_bind, Sql.scheduled_attempt,
        Sql.scheduled_ofExcept]
      apply afterCall
      · trivial
      · intro eventId
        apply afterAttempt
        · exact allowed _ eventId (longer.trans (List.suffix_cons _ _))
        · intro result
          cases result with
          | ok _ =>
              simp only [appendJournal, Stmt.perform, Program.perform, Sql.scheduled_bind,
                Sql.scheduled_call, Sql.scheduled_ofExcept, Program.call_bind]
              apply afterCall
              · trivial
              · intro _
                exact of_done (.inl ⟨_, List.mem_cons_of_mem _ List.mem_cons_self, isKey⟩)
          | error exc =>
              simp only
              split
              · rw [Sql.scheduled_bind]
                refine (existingForDedup_scheduled_obeys key).seq fun log' raced _ seen => ?_
                cases raced with
                | none => exact of_raise
                | some event => exact reuseOrReject_scheduled_obeys (seen event rfl)
              · exact of_raise

theorem emitOccurrences_obeys (selected : Selected log now row) (occurrences : List Time)
    (each : ∀ time ∈ occurrences, (row.nextAt ≤ now → time ≤ now) ∧
      ∃ index : Nat, time = row.occurrence index) :
    (emitOccurrences row now occurrences).Obeys (ScheduleRule (.tick now maxOccurrences))
      (returns fun log' _ => ∀ time ∈ occurrences, Emitted log' (scheduleKey row.id time)) log := by
  induction occurrences generalizing log with
  | nil => exact of_done (nofun)
  | cons occurrence rest ih =>
      unfold emitOccurrences
      cases row.payload with
      | error exc => exact of_raise
      | ok payload =>
          obtain ⟨early, index, rfl⟩ := each occurrence List.mem_cons_self
          refine (enqueueEvent_scheduled_obeys _ rfl ?_).seq fun log' _ longer emitted => ?_
          · intro log' eventId longer
            exact ⟨row, payload, index, eventId, selected.later longer, early, rfl⟩
          · refine (ih (selected.later longer) fun time member =>
              each time (List.mem_cons_of_mem _ member)).returning fun log'' _ longer' all => ?_
            intro time member
            rcases List.mem_cons.1 member with rfl | later
            · exact emitted.later longer'
            · exact all time later

theorem close_obeys {count : Nat} {nextAt : Time} (selected : Selected log now row)
    (left : row.everySeconds.isSome → nextAt = row.occurrence count ∧
      ∀ index < count, Emitted log (scheduleKey row.id (row.occurrence index))) :
    (row.close nextAt now).Obeys (ScheduleRule (.tick now maxOccurrences))
      (returns fun _ _ => True) log := by
  unfold ScheduleRow.close
  cases every : row.everySeconds with
  | none =>
      refine ⟨⟨row, selected, every, rfl⟩, fun result => ?_⟩
      cases result <;> trivial
  | some interval =>
      obtain ⟨moved, emitted⟩ := left (by simp [every])
      refine ⟨⟨row, count, selected, rfl, moved, emitted⟩, fun result => ?_⟩
      cases result <;> trivial

theorem tickRows_obeys (rows : List ScheduleRow) (emitted : Int)
    (selected : ∀ row ∈ rows, Selected log now row) :
    (tickRows now maxOccurrences rows emitted).Obeys (ScheduleRule (.tick now maxOccurrences))
      (returns fun _ _ => True) log := by
  induction rows generalizing log emitted with
  | nil => exact of_done trivial
  | cons row rows ih =>
      have isSelected := selected row List.mem_cons_self
      have batch := row.batch_spec now (maxOccurrences - emitted).toNat
      unfold tickRows
      simp only [Program.bind_eq_bind]
      refine (emitOccurrences_obeys isSelected _ batch.2).seq fun log' _ longer all => ?_
      have closes : ∃ count : Nat, row.everySeconds.isSome →
          (row.batch now (maxOccurrences - emitted).toNat).2 = row.occurrence count ∧
            ∀ index < count, Emitted log' (scheduleKey row.id (row.occurrence index)) := by
        cases every : row.everySeconds with
        | none => exact ⟨0, nofun⟩
        | some interval =>
            obtain ⟨count, last, inside⟩ := batch.1 (by simp [every])
            exact ⟨count, fun _ => ⟨last, fun index below => all _ (inside index below)⟩⟩
      obtain ⟨count, left⟩ := closes
      refine (close_obeys (isSelected.later longer) left).seq fun log'' _ longer' _ => ?_
      split
      · exact of_done trivial
      · refine ih _ fun other member => ?_
        exact (selected other (List.mem_cons_of_mem _ member)).later (longer.trans longer')

theorem tick_obeys :
    (tick now maxOccurrences).Obeys (ScheduleRule (.tick now maxOccurrences))
      (returns fun _ _ => True) [] := by
  simp only [tick, ScheduleOp.perform, Program.perform, Program.bind_eq_bind, Program.call_bind]
  apply afterCall
  · rfl
  · intro rows
    exact tickRows_obeys rows 0 fun row member => ⟨rows, List.mem_cons_self, member⟩

end Tick

theorem scheduleProgram_obeys (call : ScheduleCall) :
    call.program.Obeys (ScheduleRule call) Program.anyOutcome [] := by
  cases call with
  | addInterval kind payload everySeconds firstAt now =>
      exact (addInterval_obeys kind payload everySeconds firstAt now).bind
        (fun _ _ _ => trivial) fun _ _ _ => trivial
  | tick now maxOccurrences =>
      exact tick_obeys.bind (fun _ _ _ => trivial) fun _ _ _ => trivial

/-! ### What schedulers never take back -/

/-- Events stay, schedules stay, and a schedule is only added under an id that is not taken. -/
structure ScheduleWorld.Grows (world world' : ScheduleWorld) : Prop where
  events : ∀ event ∈ world.world.db.events.rows, event ∈ world'.world.db.events.rows
  schedules : ∀ row ∈ world.schedules.rows, ∃ row' ∈ world'.schedules.rows, row'.id = row.id
  added : ∀ made ∈ world.added, made ∈ world'.added
  fresh : ∀ made ∈ world'.added, made ∈ world.added ∨ ∀ row ∈ world.schedules.rows, row.id ≠ made.id

theorem ScheduleWorld.Grows.refl (world : ScheduleWorld) : world.Grows world where
  events _ member := member
  schedules row member := ⟨row, member, rfl⟩
  added _ member := member
  fresh _ member := .inl member

theorem ScheduleWorld.hasKey.mono {key : String} (has : world.hasKey key)
    (grows : world.Grows world') : world'.hasKey key := by
  obtain ⟨event, stored, isKey⟩ := has
  exact ⟨event, grows.events event stored, isKey⟩

theorem ScheduleRow.Reaches.mono {time : Time} (reaches : row.Reaches world time)
    (grows : world.Grows world') : row.Reaches world' time := by
  obtain ⟨index, isTime, earlier⟩ := reaches
  exact ⟨index, isTime, fun other below => (earlier other below).mono grows⟩

theorem updateSchedules_grows (scheduleId : String) (f : ScheduleRow → ScheduleRow)
    (keeps : ∀ row, UniqueKeys.key (f row) = UniqueKeys.key row) :
    world.Grows (updateSchedules world scheduleId f keeps) where
  events _ member := member
  schedules row member := by
    refine ⟨_, List.mem_map_of_mem member, ?_⟩
    split
    · exact keeps row
    · rfl
  added _ member := member
  fresh _ member := .inl member

/-- Inserting an event keeps the others. -/
theorem insertEvent_grows (host : Host) (event : EventRow) :
    world.Grows { world with world := ((Stmt.insertEvent event).exec host world.world).2 } where
  events old member := by
    simp only [Stmt.exec]
    split
    · rename_i events inserted
      change old ∈ events.rows
      rw [Table.rows_insert inserted]
      exact List.mem_append_left _ member
    · exact member
  schedules row member := ⟨row, member, rfl⟩
  added _ member := member
  fresh _ member := .inl member

theorem answer_grows {call : ScheduleCall} {log : ScheduleHistory} {op : ScheduleOp}
    (host : Host) (fault : Option Fault) (world : ScheduleWorld) (rule : ScheduleRule call log op) :
    world.Grows (op.answer host fault world).2 := by
  cases fault with
  | some fault => cases op <;> exact .refl world
  | none =>
      cases op with
      | sql stmt =>
          cases rule.store with
          | uuid4 => exact ⟨fun _ => id, fun row member => ⟨row, member, rfl⟩, fun _ => id,
              fun _ => .inl⟩
          | lookup key => exact .refl world
          | journal entry => exact ⟨fun _ => id, fun row member => ⟨row, member, rfl⟩,
              fun _ => id, fun _ => .inl⟩
          | event emits => exact insertEvent_grows host _
      | insertSchedule row =>
          simp only [ScheduleOp.answer]
          split
          · rename_i schedules inserted
            constructor
            · exact fun _ member => member
            · intro old member
              refine ⟨old, ?_, rfl⟩
              rw [Table.rows_insert inserted]
              exact List.mem_append_left _ member
            · exact fun made member => List.mem_append_left _ member
            · intro made member
              rcases List.mem_append.1 member with old | new
              · exact .inl old
              · right
                intro other stored
                rw [List.mem_singleton.1 new]
                have apart := Table.fresh_of_insert inserted other stored
                simpa [UniqueKeys.clash, UniqueKeys.key] using apart
          · exact .refl world
      | selectDue now => exact .refl world
      | disable scheduleId now => exact updateSchedules_grows _ _ _
      | moveNext scheduleId nextAt now => exact updateSchedules_grows _ _ _

/-! ### What a scheduler knows -/

/-- What a statement has taught the scheduler that performed it. -/
structure ScheduleKnown (entry : Entry scheduling Exc) (world : ScheduleWorld) : Prop where
  selected : ∀ now rows, entry = ⟨.selectDue now, .ok rows⟩ → ∀ row ∈ rows,
    row.nextAt ≤ now ∧ (∃ stored ∈ world.schedules.rows, stored.id = row.id) ∧
      ∀ made ∈ world.added, made.id = row.id →
        row.everySeconds = made.everySeconds ∧ made.Reaches world row.nextAt
  found : ∀ key event, entry = ⟨.sql (.selectEventByDedup key), .ok (some event)⟩ →
    world.hasKey key
  inserted : ∀ event key, entry = ⟨.sql (.insertEvent event), .ok ()⟩ →
    event.dedupKey = some key → world.hasKey key
  added : ∀ row, entry = ⟨.insertSchedule row, .ok ()⟩ → row ∈ world.added

theorem ScheduleKnown.mono {entry : Entry scheduling Exc} (known : ScheduleKnown entry world)
    (grows : world.Grows world') : ScheduleKnown entry world' where
  selected := by
    intro now rows same row member
    obtain ⟨isDue, ⟨stored, there, sameId⟩, reaches⟩ := known.selected now rows same row member
    obtain ⟨stored', there', sameId'⟩ := grows.schedules stored there
    refine ⟨isDue, ⟨stored', there', sameId'.trans sameId⟩, fun made added isMade => ?_⟩
    rcases grows.fresh made added with old | apart
    · obtain ⟨interval, reached⟩ := reaches made old isMade
      exact ⟨interval, reached.mono grows⟩
    · exact absurd (sameId.trans isMade.symm) (apart stored there)
  found key event same := (known.found key event same).mono grows
  inserted event key same isKey := (known.inserted event key same isKey).mono grows
  added row same := grows.added row (known.added row same)

/-- The event is that of an occurrence, under its key, and neither was stored before its time. -/
def ScheduleWorld.Timely (world : ScheduleWorld) (event : EventRow) : Prop :=
  ∃ made ∈ world.added, ∃ index, event.dedupKey = some (scheduleKey made.id (made.occurrence index)) ∧
    event.availableAt = made.occurrence index ∧ event.availableAt ≤ event.createdAt

/-- The schedules and the events of a database that only schedulers write. -/
structure ScheduleWorld.Sound (world : ScheduleWorld) : Prop where
  positive : ∀ made ∈ world.added, ∃ interval, made.everySeconds = some interval ∧ 0 < interval
  origin : ∀ row ∈ world.schedules.rows, ∃ made ∈ world.added, made.id = row.id
  kept : ∀ made ∈ world.added, ∃ row ∈ world.schedules.rows, row.id = made.id ∧
    row.everySeconds = made.everySeconds ∧ made.Reaches world row.nextAt
  events : ∀ event ∈ world.world.db.events.rows, world.Timely event

theorem ScheduleWorld.Timely.mono {event : EventRow} (timely : world.Timely event)
    (grows : world.Grows world') : world'.Timely event := by
  obtain ⟨made, added, rest⟩ := timely
  exact ⟨made, grows.added made added, rest⟩

/-- Only one row has the id of a schedule. -/
theorem ScheduleWorld.Sound.reaches (sound : world.Sound) {row made : ScheduleRow}
    (stored : row ∈ world.schedules.rows) (added : made ∈ world.added) (isMade : made.id = row.id) :
    row.everySeconds = made.everySeconds ∧ made.Reaches world row.nextAt := by
  obtain ⟨row', stored', sameId, interval, reached⟩ := sound.kept made added
  have same : row' = row := Table.eq_of_clash stored' stored
    (by simp [UniqueKeys.clash, UniqueKeys.key, sameId, isMade])
    (by simp [UniqueKeys.clash, UniqueKeys.key, sameId, isMade])
  exact ⟨same ▸ interval, same ▸ reached⟩

theorem ScheduleKnown.of_answer (host : Host) (fault : Option Fault) (op : ScheduleOp)
    (sound : world.Sound) :
    ScheduleKnown ⟨op, (op.answer host fault world).1⟩ (op.answer host fault world).2 where
  selected := by
    intro now rows same
    obtain ⟨rfl, answered⟩ := Entry.mk.inj same
    rw [heq_eq_eq] at answered
    cases fault with
    | some fault => cases answered
    | none =>
        simp only [ScheduleOp.answer, Except.ok.injEq] at answered ⊢
        intro row member
        rw [← answered, List.mem_insertionSort, List.mem_filter] at member
        obtain ⟨stored, isDue⟩ := member
        simp only [ScheduleRow.due, Bool.and_eq_true, decide_eq_true_eq] at isDue
        exact ⟨isDue.2, ⟨row, stored, rfl⟩, fun made added => sound.reaches stored added⟩
  found := by
    intro key event same
    obtain ⟨rfl, answered⟩ := Entry.mk.inj same
    rw [heq_eq_eq] at answered
    cases fault with
    | some fault => cases answered
    | none =>
        simp only [ScheduleOp.answer, Stmt.exec, Except.ok.injEq] at answered ⊢
        obtain ⟨stored, isKey⟩ := Db.eventByKey_eq_some.1 answered
        exact ⟨event, stored, isKey⟩
  inserted := by
    intro event key same isKey
    obtain ⟨rfl, answered⟩ := Entry.mk.inj same
    rw [heq_eq_eq] at answered
    cases fault with
    | some fault => cases answered
    | none =>
        simp only [ScheduleOp.answer, Stmt.exec] at answered ⊢
        split at answered
        · rename_i events inserted
          refine ⟨event, ?_, isKey⟩
          change event ∈ events.rows
          rw [Table.rows_insert inserted]
          exact List.mem_append_right _ (List.mem_singleton.2 rfl)
        · cases answered
  added := by
    intro row same
    obtain ⟨rfl, answered⟩ := Entry.mk.inj same
    rw [heq_eq_eq] at answered
    cases fault with
    | some fault => cases answered
    | none =>
        simp only [ScheduleOp.answer] at answered ⊢
        split at answered
        · exact List.mem_append_right _ (List.mem_singleton.2 rfl)
        · cases answered

/-! ### One statement -/

section Step

variable {log : ScheduleHistory}
variable (sound : world.Sound)
variable (learned : System.Reachable.Learned (fun _ entry world => ScheduleKnown entry world)
  world log)
include sound learned

/-- A selected row is a version of a schedule that was added. -/
theorem Selected.version (selected : Selected log now row) :
    row.nextAt ≤ now ∧ ∃ made ∈ world.added, made.id = row.id ∧
      row.everySeconds = made.everySeconds ∧ made.Reaches world row.nextAt := by
  obtain ⟨rows, entry, member⟩ := selected
  obtain ⟨_, _, known⟩ := learned.of_mem entry
  obtain ⟨isDue, ⟨stored, there, sameId⟩, reaches⟩ := known.selected now rows rfl row member
  obtain ⟨made, added, isMade⟩ := sound.origin stored there
  obtain ⟨interval, reached⟩ := reaches made added (isMade.trans sameId)
  exact ⟨isDue, made, added, isMade.trans sameId, interval, reached⟩

omit sound in
theorem Emitted.hasKey {key : String} (emitted : Emitted log key) : world.hasKey key := by
  rcases emitted with ⟨event, inserted, isKey⟩ | ⟨event, found⟩
  · obtain ⟨_, _, known⟩ := learned.of_mem inserted
    exact known.inserted event key rfl isKey
  · obtain ⟨_, _, known⟩ := learned.of_mem found
    exact known.found key event rfl

/-- The event that a scheduler inserts is in time. -/
theorem Emits.timely {event : EventRow} (emits : Emits log now event) : world.Timely event := by
  obtain ⟨row, payload, index, eventId, selected, early, rfl⟩ := emits
  obtain ⟨isDue, made, added, isMade, interval, start, version, _⟩ :=
    selected.version sound learned
  have same := ScheduleRow.occurrence_of_version interval version index
  refine ⟨made, added, start + index, ?_, ?_, early isDue⟩
  · rw [isMade, ← same]
    rfl
  · rw [← same]
    rfl

omit sound in
/-- Where a scheduler leaves a row, every earlier occurrence of the schedule has an event, however
far others have moved the row in the meantime. -/
theorem Selected.reaches (selected : Selected log now row) {count : Nat}
    (emitted : ∀ index < count, Emitted log (scheduleKey row.id (row.occurrence index)))
    {made : ScheduleRow} (added : made ∈ world.added) (isMade : made.id = row.id) :
    made.Reaches world (row.occurrence count) := by
  obtain ⟨rows, entry, member⟩ := selected
  obtain ⟨_, _, known⟩ := learned.of_mem entry
  obtain ⟨_, _, reaches⟩ := known.selected now rows rfl row member
  obtain ⟨interval, start, version, earlier⟩ := reaches made added isMade
  refine ⟨start + count, ScheduleRow.occurrence_of_version interval version count, ?_⟩
  intro index below
  by_cases before : index < start
  · exact earlier index before
  · obtain ⟨later, rfl⟩ := Nat.exists_eq_add_of_le (not_lt.1 before)
    rw [← ScheduleRow.occurrence_of_version interval version later, isMade]
    exact (emitted later (by omega)).hasKey learned

end Step

/-- A statement of the store, all of whose new events are in time. -/
theorem ScheduleWorld.Sound.ofStore (sound : world.Sound) {store : World}
    (grows : world.Grows { world with world := store })
    (timely : ∀ event ∈ store.db.events.rows, world.Timely event) :
    ({ world with world := store } : ScheduleWorld).Sound where
  positive := sound.positive
  origin := sound.origin
  kept made added := by
    obtain ⟨row, stored, sameId, interval, reached⟩ := sound.kept made added
    exact ⟨row, stored, sameId, interval, reached.mono grows⟩
  events event stored := (timely event stored).mono grows

theorem ScheduleWorld.Sound.insertSchedule (sound : world.Sound) {made : ScheduleRow}
    {schedules : Table ScheduleRow} (inserted : world.schedules.insert made = some schedules)
    (positive : ∃ interval, made.everySeconds = some interval ∧ 0 < interval)
    (grows : world.Grows { world with schedules := schedules, added := world.added ++ [made] }) :
    ({ world with schedules := schedules, added := world.added ++ [made] } : ScheduleWorld).Sound where
  positive := by
    intro other added
    rcases List.mem_append.1 added with old | new
    · exact sound.positive other old
    · rw [List.mem_singleton.1 new]
      exact positive
  origin := by
    intro row stored
    simp only [Table.rows_insert inserted] at stored
    rcases List.mem_append.1 stored with old | new
    · obtain ⟨origin, added, isRow⟩ := sound.origin row old
      exact ⟨origin, List.mem_append_left _ added, isRow⟩
    · rw [List.mem_singleton.1 new]
      exact ⟨made, List.mem_append_right _ (List.mem_singleton.2 rfl), rfl⟩
  kept := by
    intro other added
    simp only [Table.rows_insert inserted]
    rcases List.mem_append.1 added with old | new
    · obtain ⟨row, stored, sameId, interval, reached⟩ := sound.kept other old
      exact ⟨row, List.mem_append_left _ stored, sameId, interval, reached.mono grows⟩
    · rw [List.mem_singleton.1 new]
      refine ⟨made, List.mem_append_right _ (List.mem_singleton.2 rfl), rfl, rfl, 0, ?_, nofun⟩
      exact made.occurrence_zero.symm
  events event stored := (sound.events event stored).mono grows

theorem ScheduleWorld.Sound.moveNext (sound : world.Sound) {scheduleId : String} {nextAt : Time}
    (reaches : ∀ made ∈ world.added, made.id = scheduleId → made.Reaches world nextAt) :
    (updateSchedules world scheduleId (ScheduleRow.movedTo nextAt now) fun _ => rfl).Sound where
  positive := sound.positive
  origin := by
    intro row stored
    obtain ⟨old, there, rfl⟩ := List.mem_map.1 stored
    obtain ⟨made, added, isMade⟩ := sound.origin old there
    refine ⟨made, added, isMade.trans ?_⟩
    split <;> rfl
  kept := by
    intro made added
    obtain ⟨row, stored, sameId, interval, reached⟩ := sound.kept made added
    refine ⟨_, List.mem_map_of_mem stored, ?_⟩
    split
    · rename_i moved
      exact ⟨sameId, interval, reaches made added (sameId.symm.trans (eq_of_beq moved))⟩
    · exact ⟨sameId, interval, reached⟩
  events := sound.events

theorem sound_step {call : ScheduleCall} {log : ScheduleHistory} {op : ScheduleOp}
    (host : Host) (fault : Option Fault) (sound : world.Sound)
    (learned : System.Reachable.Learned (fun _ entry world => ScheduleKnown entry world) world log)
    (rule : ScheduleRule call log op) : (op.answer host fault world).2.Sound := by
  have grows := answer_grows host fault world rule
  cases fault with
  | some fault => cases op <;> exact sound
  | none =>
      cases op with
      | sql stmt =>
          cases rule.store with
          | uuid4 => exact sound.ofStore grows sound.events
          | lookup key => exact sound
          | journal entry => exact sound.ofStore grows sound.events
          | event emits =>
              refine sound.ofStore grows fun other stored => ?_
              simp only [Stmt.exec] at stored
              split at stored
              · rename_i events inserted
                change other ∈ events.rows at stored
                rw [Table.rows_insert inserted] at stored
                rcases List.mem_append.1 stored with old | new
                · exact sound.events other old
                · rw [List.mem_singleton.1 new]
                  exact emits.timely sound learned
              · exact sound.events other stored
      | insertSchedule row =>
          cases call with
          | tick => exact rule.elim
          | addInterval kind payload everySeconds firstAt now =>
              obtain ⟨positive, scheduleId, rfl⟩ := rule
              simp only [ScheduleOp.answer] at grows ⊢
              split
              · rename_i schedules inserted
                simp only [inserted] at grows
                exact sound.insertSchedule inserted ⟨everySeconds, rfl, positive⟩ grows
              · exact sound
      | selectDue now => exact sound
      | disable scheduleId now =>
          cases call with
          | addInterval => exact rule.elim
          | tick now maxOccurrences =>
              -- every schedule has an interval
              obtain ⟨row, selected, once, _⟩ := rule
              obtain ⟨_, made, added, _, interval, _⟩ := selected.version sound learned
              obtain ⟨every, isEvery, _⟩ := sound.positive made added
              rw [once, isEvery] at interval
              cases interval
      | moveNext scheduleId nextAt now =>
          cases call with
          | addInterval => exact rule.elim
          | tick now maxOccurrences =>
              obtain ⟨row, count, selected, rfl, rfl, emitted⟩ := rule
              exact sound.moveNext fun made added isMade =>
                selected.reaches learned emitted added isMade

/-! ### Runs -/

variable {config : ScheduleConfig} {steps : ScheduleConfig → Label (Option Fault) ScheduleCall → Prop}

theorem schedulers_rule (reached : (schedulers host).Reachable steps ScheduleConfig.initial config) :
    ∀ process ∈ config.procs,
      process.rest.Obeys (ScheduleRule process.call) Program.anyOutcome process.log :=
  reached.obeys scheduleProgram_obeys rfl

theorem schedulers_sound (reached : (schedulers host).Reachable steps ScheduleConfig.initial config) :
    config.world.Sound ∧ ∀ process ∈ config.procs,
      System.Reachable.Learned (fun _ entry world => ScheduleKnown entry world) config.world
        process.log := by
  refine reached.learned_with (I := ScheduleWorld.Sound)
    (fun _ _ entry world => ScheduleKnown entry world) ?_ ?_ ?_ ?_ rfl
  · constructor
    · intro made added
      cases added
    · intro row stored
      cases stored
    · intro made added
      cases added
    · intro event stored
      cases stored
  · intro config pid call op next log fault before found _ sound learned
    have rule := (schedulers_rule before _ (List.mem_of_getElem? found)).head
    exact sound_step host fault sound learned rule
  · intro config pid call op next log fault _ _ _ sound _
    exact ScheduleKnown.of_answer host fault op sound
  · intro config pid call op next log fault before found _ _ _ older entry known
    have rule := (schedulers_rule before _ (List.mem_of_getElem? found)).head
    exact known.mono (answer_grows host fault config.world rule)

/-- A call of `add_interval` stored the schedule. -/
def AddedBy (config : ScheduleConfig) (made : ScheduleRow) : Prop :=
  ∃ process ∈ config.procs, ∃ kind payload everySeconds firstAt now scheduleId,
    process.call = .addInterval kind payload everySeconds firstAt now ∧ 0 < everySeconds ∧
      made = newScheduleRow kind payload everySeconds firstAt now scheduleId

theorem AddedBy.mono {config config' : ScheduleConfig} {made : ScheduleRow}
    (added : AddedBy config made)
    (calls : ∀ process ∈ config.procs, ∃ process' ∈ config'.procs, process'.call = process.call) :
    AddedBy config' made := by
  obtain ⟨process, member, kind, payload, everySeconds, firstAt, now, scheduleId, isCall, rest⟩ :=
    added
  obtain ⟨process', member', same⟩ := calls process member
  exact ⟨process', member', kind, payload, everySeconds, firstAt, now, scheduleId,
    same.trans isCall, rest⟩

theorem added_of_answer {op : ScheduleOp} {fault : Option Fault} {made : ScheduleRow}
    (added : made ∈ (op.answer host fault world).2.added) :
    made ∈ world.added ∨ op = .insertSchedule made := by
  cases fault with
  | some fault => cases op <;> exact .inl added
  | none =>
      cases op with
      | insertSchedule row =>
          simp only [ScheduleOp.answer] at added
          split at added
          · rcases List.mem_append.1 added with old | new
            · exact .inl old
            · rw [List.mem_singleton.1 new]
              exact .inr rfl
          · exact .inl added
      | _ => exact .inl added

theorem schedulers_added (reached : (schedulers host).Reachable steps ScheduleConfig.initial config) :
    ∀ made ∈ config.world.added, AddedBy config made := by
  refine reached.invariant (I := fun config => ∀ made ∈ config.world.added, AddedBy config made)
    ?_ ?_
  · intro made added
    cases added
  · intro config label config' before held _ stepped made added
    rcases System.step_cases stepped with
      ⟨call, rfl, rfl⟩ | ⟨pid, fault, call, op, next, log, rfl, found, rfl⟩ |
        ⟨pid, process, rfl, found, rfl⟩
    · exact (held made added).mono fun process member => ⟨process, List.mem_append_left _ member, rfl⟩
    · rcases added_of_answer added with old | rfl
      · exact (held made old).mono (System.calls_of_set found rfl)
      · have rule := (schedulers_rule before _ (List.mem_of_getElem? found)).head
        cases call with
        | tick => exact rule.elim
        | addInterval kind payload everySeconds firstAt now =>
            obtain ⟨positive, scheduleId, isRow⟩ := rule
            exact ⟨_, List.mem_set (List.getElem?_eq_some_iff.1 found).1 _, kind, payload, everySeconds,
              firstAt, now, scheduleId, rfl, positive, isRow⟩
    · exact (held made added).mono (System.calls_of_set found rfl)

/-- The occurrences of the schedules are neither lost, nor duplicated, nor early. -/
structure OccurrencesKept (config : ScheduleConfig) : Prop where
  /-- The schedules are those that `add_interval` stored. -/
  added : ∀ made ∈ config.world.added, AddedBy config made
  all : ∀ process ∈ config.procs, ∀ row,
    (⟨.insertSchedule row, .ok ()⟩ : Entry scheduling Exc) ∈ process.log → row ∈ config.world.added
  schedules : ∀ row ∈ config.world.schedules.rows, ∃ made ∈ config.world.added, made.id = row.id
  /-- `next_at` is the time of an occurrence, and all earlier ones have their events. -/
  nextAt : ∀ made ∈ config.world.added, ∃ row ∈ config.world.schedules.rows, row.id = made.id ∧
    made.Reaches config.world row.nextAt
  unique : ∀ event ∈ config.world.world.db.events.rows,
    ∀ event' ∈ config.world.world.db.events.rows, event.dedupKey = event'.dedupKey → event = event'
  /-- An event is that of an occurrence with its key, and is not created before its time. -/
  events : ∀ event ∈ config.world.world.db.events.rows, config.world.Timely event

/-- In every run of schedulers, whoever is slow and whoever dies, the occurrences are kept. -/
theorem occurrences_kept (host : Host) (config : ScheduleConfig)
    (reached : (schedulers host).Reachable (fun _ _ => True) ScheduleConfig.initial config) :
    OccurrencesKept config where
  added := schedulers_added reached
  all := by
    intro process member row inserted
    obtain ⟨_, _, known⟩ := ((schedulers_sound reached).2 process member).of_mem inserted
    exact known.added row rfl
  schedules := (schedulers_sound reached).1.origin
  nextAt := by
    intro made added
    obtain ⟨row, stored, sameId, _, reaches⟩ := (schedulers_sound reached).1.kept made added
    exact ⟨row, stored, sameId, reaches⟩
  unique := by
    intro event stored event' stored' same
    obtain ⟨made, _, index, isKey, _⟩ := (schedulers_sound reached).1.events event stored
    rw [isKey] at same
    apply Table.eq_of_clash stored stored'
    · simp [UniqueKeys.clash, UniqueKeys.key, isKey, ← same]
    · simp [UniqueKeys.clash, UniqueKeys.key, isKey, ← same]
  events := (schedulers_sound reached).1.events

/-- A ticker selects the due schedules and is slow; another one emits six occurrences; then the
first one goes on with its three and moves the schedule back. -/
def slowTicker : List (Label (Option Fault) ScheduleCall) :=
  [.spawn (.addInterval "heartbeat" .empty 1 0 0), .act 0 none, .act 0 none,
    .spawn (.tick 2 100), .act 1 none, .spawn (.tick 5 100)] ++
  List.replicate 26 (.act 2 none) ++ List.replicate 4 (.act 1 none)

set_option maxRecDepth 10000 in
/-- The occurrences in a run in which `next_at` goes back. -/
theorem occurrences_kept_slow :
    ∃ config, (schedulers plainHost).Reachable (fun _ _ => True) ScheduleConfig.initial config ∧
      config.world.schedules.rows.map ScheduleRow.nextAt = [3] ∧
        config.world.world.db.events.rows.length = 6 ∧ OccurrencesKept config := by
  have ran : ((schedulers plainHost).run (fun _ _ => true) ScheduleConfig.initial slowTicker).any
      (fun config => decide (config.world.schedules.rows.map ScheduleRow.nextAt = [3]) &&
        decide (config.world.world.db.events.rows.length = 6)) = true := by decide +kernel
  obtain ⟨config, reached, ended⟩ := System.Reachable.exists_of_run slowTicker ran
  rw [Bool.and_eq_true, decide_eq_true_eq, decide_eq_true_eq] at ended
  have anyRun : (schedulers plainHost).Reachable (fun _ _ => True) ScheduleConfig.initial config :=
    reached.mono fun _ _ _ => trivial
  exact ⟨config, anyRun, ended.1, ended.2, occurrences_kept plainHost config anyRun⟩

end PreActive.Kernel
