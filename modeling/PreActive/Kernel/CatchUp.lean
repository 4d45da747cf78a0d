/-
Module: PreActive.Kernel.CatchUp
Purpose: Ticks with budgets, repeated at one time, do what one tick without a bound does.
Trusted boundary: human-reviewed spec
Main exports: ScheduleRow.backlog, ScheduleWorld.backlog, ScheduleWorld.Ready, ScheduleWorld.tick,
  CatchesUp, budgeted_catch_up
-/
import Mathlib.Data.Set.Card
import Mathlib.Algebra.Order.BigOperators.Group.List
import Mathlib.Algebra.Order.Floor.Semiring
import PreActive.Kernel.Occurrences
import PreActive.Kernel.Recovery

namespace PreActive.Kernel

open PreActive.Foundation PreActive.Python

variable {host : Host} {now : Time} {row : ScheduleRow}

/-! ### The backlog of a schedule -/

/-- The number of occurrences at or before the time, from the `next_at` of the row on. -/
noncomputable def ScheduleRow.backlog (now : Time) (row : ScheduleRow) : Nat :=
  if row.enabled then {index : Nat | row.occurrence index ≤ now}.ncard else 0

/-- A schedule that repeats. -/
def ScheduleRow.Repeats (row : ScheduleRow) : Prop :=
  ∃ interval, row.everySeconds = some interval ∧ 0 < interval

theorem ScheduleRow.Repeats.exists_bound (repeats : row.Repeats) (now : Time) :
    ∃ bound : Nat, ∀ index, row.occurrence index ≤ now ↔ index < bound := by
  obtain ⟨interval, every, positive⟩ := repeats
  by_cases isDue : row.nextAt ≤ now
  · refine ⟨⌊(now - row.nextAt) / interval⌋₊ + 1, fun index => ?_⟩
    have quotient : 0 ≤ (now - row.nextAt) / interval :=
      div_nonneg (sub_nonneg.2 isDue) positive.le
    rw [Nat.lt_succ_iff, Nat.le_floor_iff quotient, le_div_iff₀ positive, ScheduleRow.occurrence,
      every, Option.getD_some, le_sub_iff_add_le, add_comm]
  · refine ⟨0, fun index => ?_⟩
    have later : (0 : Time) ≤ index * interval := by positivity
    simp only [ScheduleRow.occurrence, every, Option.getD_some, Nat.not_lt_zero, iff_false]
    linarith

/-- The due occurrences are the first ones. -/
theorem ScheduleRow.Repeats.lt_backlog (repeats : row.Repeats) (enabled : row.enabled = true)
    (index : Nat) : index < row.backlog now ↔ row.occurrence index ≤ now := by
  obtain ⟨bound, due⟩ := repeats.exists_bound now
  have below : {index : Nat | row.occurrence index ≤ now} = ↑(Finset.range bound) := by
    ext index
    simp [due]
  rw [ScheduleRow.backlog, if_pos enabled, below, Set.ncard_coe_finset, Finset.card_range, due]

theorem ScheduleRow.backlog_of_disabled (disabled : row.enabled = false) : row.backlog now = 0 := by
  simp [ScheduleRow.backlog, disabled]

/-- A row is selected exactly if it has a backlog. -/
theorem ScheduleRow.Repeats.due_iff (repeats : row.Repeats) :
    row.due now = true ↔ 0 < row.backlog now := by
  cases enabled : row.enabled with
  | false => simp [ScheduleRow.due, enabled, ScheduleRow.backlog_of_disabled enabled]
  | true => simp [ScheduleRow.due, enabled, repeats.lt_backlog enabled]

/-- The loop stops at the end of the backlog or of the room. -/
theorem dueOccurrences_eq (interval now : Time) (room : Nat) (nextAt : Time) (bound : Nat)
    (due : ∀ index : Nat, nextAt + index * interval ≤ now ↔ index < bound) :
    dueOccurrences interval now room nextAt =
      ((List.range (min room bound)).map fun index : Nat => nextAt + index * interval,
        nextAt + (min room bound : Nat) * interval) := by
  induction room generalizing nextAt bound with
  | zero => simp [dueOccurrences]
  | succ room ih =>
      cases bound with
      | zero =>
          have later : ¬ nextAt ≤ now := by simpa using due 0
          simp [dueOccurrences, later]
      | succ bound =>
          have isDue : nextAt ≤ now := by simpa using due 0
          have rest : ∀ index : Nat, nextAt + interval + index * interval ≤ now ↔ index < bound := by
            intro index
            have step := due (index + 1)
            rw [Nat.add_lt_add_iff_right] at step
            rw [← step]
            push_cast
            ring_nf
          rw [dueOccurrences, if_pos isDue, ih (nextAt + interval) bound rest,
            Nat.succ_min_succ, List.range_succ_eq_map, List.map_cons, List.map_map]
          refine Prod.ext ?_ ?_
          · simp only [Nat.cast_zero, zero_mul, add_zero, List.cons.injEq, true_and]
            refine List.map_congr_left fun index _ => ?_
            simp only [Function.comp_apply, Nat.cast_succ]
            ring
          · simp only [Nat.cast_succ]
            ring

/-- What one row contributes to a tick. -/
theorem ScheduleRow.Repeats.batch_eq (repeats : row.Repeats) (enabled : row.enabled = true)
    (now : Time) (room : Nat) :
    row.batch now room = ((List.range (min room (row.backlog now))).map row.occurrence,
      row.occurrence (min room (row.backlog now))) := by
  have due : ∀ index, row.occurrence index ≤ now ↔ index < row.backlog now :=
    fun index => (repeats.lt_backlog enabled index).symm
  obtain ⟨interval, every, _⟩ := repeats
  have times : row.occurrence = fun index : Nat => row.nextAt + index * interval := by
    funext index
    rw [ScheduleRow.occurrence, every, Option.getD_some]
  simp only [times] at due ⊢
  simp only [ScheduleRow.batch, every]
  exact dueOccurrences_eq interval now room row.nextAt _ due

/-- After some of its occurrences the row has the later ones before it. -/
theorem ScheduleRow.occurrence_movedTo (row : ScheduleRow) (count index : Nat) :
    (row.movedTo (row.occurrence count) now).occurrence index = row.occurrence (count + index) := by
  simp only [ScheduleRow.movedTo, ScheduleRow.occurrence]
  push_cast
  ring

theorem ScheduleRow.Repeats.backlog_movedTo (repeats : row.Repeats) (now : Time) (count : Nat) :
    (row.movedTo (row.occurrence count) now).backlog now = row.backlog now - count := by
  cases enabled : row.enabled with
  | false =>
      rw [ScheduleRow.backlog_of_disabled enabled, ScheduleRow.backlog_of_disabled]
      · simp
      · exact enabled
  | true =>
      have repeats' : (row.movedTo (row.occurrence count) now).Repeats := repeats
      refine eq_of_forall_lt_iff fun index => ?_
      rw [repeats'.lt_backlog enabled, ScheduleRow.occurrence_movedTo,
        ← repeats.lt_backlog enabled, Nat.lt_sub_iff_add_lt']

/-! ### Keys of occurrences -/

/-- The number that `fixed6` writes, in millionths. -/
def millionths (value : ℚ) : Nat := (roundHalfEven (|value| * 10 ^ 6)).toNat

theorem fixed6_toList (value : ℚ) : (fixed6 value).toList =
    ((if value < 0 then ['-'] else []) ++ Nat.toDigits 10 (millionths value / 10 ^ 6)) ++
      '.' :: (List.replicate (6 - (toString (millionths value % 10 ^ 6)).length) '0' ++
        Nat.toDigits 10 (millionths value % 10 ^ 6)) := by
  have digits : ∀ n : Nat, (toString n).toList = Nat.toDigits 10 n := fun n => by
    change (Nat.repr n).toList = _
    rw [Nat.repr_eq_ofList_toDigits, String.toList_ofList]
  have sign : (if value < 0 then "-" else "").toList = if value < 0 then ['-'] else [] := by
    split <;> rfl
  simp only [fixed6, String.toList_append, String.toList_ofList, digits, sign, millionths,
    List.append_assoc]
  rfl

theorem colon_notMem_fixed6 (time : Time) : ':' ∉ (fixed6 time).toList := by
  intro member
  simp only [fixed6_toList, List.mem_append, List.mem_cons] at member
  rcases member with (sign | whole) | point | zeros | fraction
  · split at sign <;> simp at sign
  · exact colon_notMem_digits _ whole
  · cases point
  · exact absurd (List.eq_of_mem_replicate zeros) (by decide)
  · exact colon_notMem_digits _ fraction

/-- What `fixed6` writes tells the sign and the millionths. -/
theorem fixed6_inj {x y : ℚ} (same : fixed6 x = fixed6 y) :
    (x < 0 ↔ y < 0) ∧ millionths x = millionths y := by
  have letters := congrArg String.toList same
  rw [fixed6_toList, fixed6_toList] at letters
  have noPoint : ∀ value : ℚ, '.' ∉ (if value < 0 then ['-'] else []) ++
      Nat.toDigits 10 (millionths value / 10 ^ 6) := by
    intro value member
    rcases List.mem_append.1 member with sign | digit
    · split at sign <;> simp at sign
    · exact notMem_digits rfl _ digit
  obtain ⟨whole, fraction⟩ := append_cons_inj (noPoint x) (noPoint y) letters
  have fractions := congrArg (fun digits => Nat.ofDigitChars 10 digits 0) fraction
  simp only [Nat.ofDigitChars_append, Nat.ofDigitChars_replicate_zero, Nat.mul_zero,
    Nat.ofDigitChars_ten_toDigits] at fractions
  have wholes : (x < 0 ↔ y < 0) ∧ millionths x / 10 ^ 6 = millionths y / 10 ^ 6 := by
    by_cases negative : x < 0 <;> by_cases negative' : y < 0
    · rw [if_pos negative, if_pos negative'] at whole
      exact ⟨iff_of_true negative negative', digits_inj (List.append_cancel_left whole)⟩
    · rw [if_pos negative, if_neg negative'] at whole
      have sign : '-' ∈ Nat.toDigits 10 (millionths y / 10 ^ 6) := by
        rw [← List.nil_append (Nat.toDigits 10 _), ← whole]
        exact List.mem_cons_self
      exact absurd sign (notMem_digits rfl _)
    · rw [if_neg negative, if_pos negative'] at whole
      have sign : '-' ∈ Nat.toDigits 10 (millionths x / 10 ^ 6) := by
        rw [← List.nil_append (Nat.toDigits 10 _), whole]
        exact List.mem_cons_self
      exact absurd sign (notMem_digits rfl _)
    · rw [if_neg negative, if_neg negative'] at whole
      exact ⟨iff_of_false negative negative', digits_inj whole⟩
  exact ⟨wholes.1, by omega⟩

/-- Times that are more than a microsecond apart are written apart. -/
theorem fixed6_separates {x y : ℚ} (apart : x + 1 / 10 ^ 6 < y) : fixed6 x ≠ fixed6 y := by
  intro same
  obtain ⟨signs, sizes⟩ := fixed6_inj same
  have nonneg : ∀ value : ℚ, 0 ≤ roundHalfEven (|value| * 10 ^ 6) := fun value =>
    roundHalfEven_nonneg (by positivity)
  have equal : roundHalfEven (|x| * 10 ^ 6) = roundHalfEven (|y| * 10 ^ 6) := by
    have := nonneg x
    have := nonneg y
    unfold millionths at sizes
    omega
  by_cases negative : y < 0
  · have earlier := signs.2 negative
    rw [abs_of_neg earlier, abs_of_neg negative] at equal
    exact (roundHalfEven_separates (by linarith)).ne' equal
  · have earlier : ¬x < 0 := signs.not.2 negative
    rw [abs_of_nonneg (not_lt.1 earlier), abs_of_nonneg (not_lt.1 negative)] at equal
    exact (roundHalfEven_separates (by linarith)).ne equal

/-- The key of an occurrence tells the schedule and the time as it is written. -/
theorem scheduleKey_inj {scheduleId scheduleId' : String} {time time' : Time}
    (same : scheduleKey scheduleId time = scheduleKey scheduleId' time') :
    scheduleId = scheduleId' ∧ fixed6 time = fixed6 time' := by
  -- the time is what follows the last colon
  have letters := congrArg (fun key : String => key.toList.reverse) same
  simp only [scheduleKey, String.toList_append, List.append_assoc, List.reverse_append] at letters
  obtain ⟨times, rest⟩ := append_cons_inj
    (fun member => colon_notMem_fixed6 time (List.mem_reverse.1 member))
    (fun member => colon_notMem_fixed6 time' (List.mem_reverse.1 member)) letters
  have names : scheduleId.toList.reverse ++ "schedule:".toList.reverse =
    scheduleId'.toList.reverse ++ "schedule:".toList.reverse := rest
  exact ⟨String.toList_inj.1 (List.reverse_injective (List.append_cancel_right names)),
    String.toList_inj.1 (List.reverse_injective times)⟩

/-- Occurrences of a schedule that repeats less than once in a microsecond have different keys. -/
theorem ScheduleRow.occurrence_key_inj {interval : Time} (every : row.everySeconds = some interval)
    (apart : 1 / 10 ^ 6 < interval) {index index' : Nat}
    (same : scheduleKey row.id (row.occurrence index) = scheduleKey row.id (row.occurrence index')) :
    index = index' := by
  have later : ∀ {earlier later : Nat}, earlier < later →
      fixed6 (row.occurrence earlier) ≠ fixed6 (row.occurrence later) := by
    intro earlier later less
    apply fixed6_separates
    have steps : ((earlier + 1 : Nat) : Time) ≤ later := by exact_mod_cast less
    have reach : ((earlier + 1 : Nat) : Time) * interval ≤ later * interval :=
      mul_le_mul_of_nonneg_right steps (by linarith)
    simp only [ScheduleRow.occurrence, every, Option.getD_some]
    push_cast at reach
    linarith
  obtain ⟨_, times⟩ := scheduleKey_inj same
  rcases lt_trichotomy index index' with less | equal | more
  · exact absurd times (later less)
  · exact equal
  · exact absurd times.symm (later more)

/-! ### Requests -/

/-- What an event was asked for with. -/
def EventRow.content (event : EventRow) : String × String × Option String × Time :=
  (event.kind, event.payloadJson, event.dedupKey, event.availableAt)

/-- The request for the event of one occurrence. -/
def ScheduleRow.request (row : ScheduleRow) (now : Time) (occurrence : Time) :
    Option EventRequest :=
  match row.payload with
  | .ok payload => some (occurrenceRequest row payload occurrence now)
  | .error _ => none

/-- The requests that the loop of `tick` makes, in order. -/
def tickRequests (now : Time) (maxOccurrences : Int) : List ScheduleRow → Int → List EventRequest
  | [], _ => []
  | row :: rows, emitted =>
      let occurrences := (row.batch now (maxOccurrences - emitted).toNat).1
      let emitted' := emitted + occurrences.length
      occurrences.filterMap (row.request now) ++
        if maxOccurrences ≤ emitted' then [] else tickRequests now maxOccurrences rows emitted'

/-- Enqueue one request after the other. -/
def enqueueAll (host : Host) (requests : List EventRequest) (world : World) : World :=
  requests.foldl (fun world request => ((enqueueEvent request).run host world).2) world

@[simp] theorem enqueueAll_nil (world : World) : enqueueAll host [] world = world := rfl

@[simp] theorem enqueueAll_cons (request : EventRequest) (requests : List EventRequest)
    (world : World) : enqueueAll host (request :: requests) world =
      enqueueAll host requests ((enqueueEvent request).run host world).2 := rfl

theorem enqueueAll_append (requests requests' : List EventRequest) (world : World) :
    enqueueAll host (requests ++ requests') world =
      enqueueAll host requests' (enqueueAll host requests world) :=
  List.foldl_append

/-- The events under the keys of the schedules are those of the schedules. -/
def KeysBound (schedules : List ScheduleRow) (world : World) : Prop :=
  ∀ event ∈ world.db.events.rows, ∀ row ∈ schedules, ∀ time now request,
    row.request now time = some request → event.dedupKey = request.dedupKey →
      request.sameAs event = true

/-- Schedules that repeat and whose payload can be read, in a database in which nobody else has
used their keys and every identifier was drawn. -/
structure ScheduleWorld.Ready (host : Host) (world : ScheduleWorld) : Prop where
  repeats : ∀ row ∈ world.schedules.rows, row.Repeats
  readable : ∀ row ∈ world.schedules.rows, ∃ payload, row.payload = .ok payload
  bound : KeysBound world.schedules.rows world.world
  drawn : EventsDrawn host world.world

/-! ### Progress of the schedules -/

/-- A schedule of which some occurrences were emitted. -/
def ScheduleRow.advanced (now : Time) (count : Nat) (row : ScheduleRow) : ScheduleRow :=
  if count = 0 then row else row.movedTo (row.occurrence count) now

@[simp] theorem ScheduleRow.advanced_id (count : Nat) : (row.advanced now count).id = row.id := by
  unfold ScheduleRow.advanced
  split <;> rfl

@[simp] theorem ScheduleRow.advanced_enabled (count : Nat) :
    (row.advanced now count).enabled = row.enabled := by
  unfold ScheduleRow.advanced
  split <;> rfl

@[simp] theorem ScheduleRow.advanced_nextAt (count : Nat) :
    (row.advanced now count).nextAt = row.occurrence count := by
  unfold ScheduleRow.advanced
  split
  · rename_i zero
    rw [zero, ScheduleRow.occurrence_zero]
  · rfl

@[simp] theorem ScheduleRow.advanced_request (count : Nat) (time : Time) :
    (row.advanced now count).request now time = row.request now time := by
  unfold ScheduleRow.advanced
  split <;> rfl

@[simp] theorem ScheduleRow.advanced_payload (count : Nat) :
    (row.advanced now count).payload = row.payload := by
  unfold ScheduleRow.advanced
  split <;> rfl

theorem ScheduleRow.occurrenceRequest_advanced (count : Nat) (payload : JsonObject)
    (time : Time) : occurrenceRequest (row.advanced now count) payload time now =
      occurrenceRequest row payload time now := by
  unfold ScheduleRow.advanced
  split <;> rfl

theorem ScheduleRow.Repeats.advanced (repeats : row.Repeats) (count : Nat) :
    (row.advanced now count).Repeats := by
  unfold ScheduleRow.advanced
  split
  · exact repeats
  · exact repeats

theorem ScheduleRow.occurrence_advanced (row : ScheduleRow) (count index : Nat) :
    (row.advanced now count).occurrence index = row.occurrence (count + index) := by
  unfold ScheduleRow.advanced
  split
  · rename_i zero
    rw [zero, Nat.zero_add]
  · exact row.occurrence_movedTo count index

theorem ScheduleRow.Repeats.backlog_advanced (repeats : row.Repeats) (now : Time) (count : Nat) :
    (row.advanced now count).backlog now = row.backlog now - count := by
  unfold ScheduleRow.advanced
  split
  · rename_i zero
    rw [zero, Nat.sub_zero]
  · exact repeats.backlog_movedTo now count

/-- Moving an advanced schedule on advances it further. -/
theorem ScheduleRow.movedTo_advanced (row : ScheduleRow) (now : Time) (count : Nat) {more : Nat}
    (positive : 0 < more) :
    (row.advanced now count).movedTo (row.occurrence (count + more)) now =
      row.advanced now (count + more) := by
  have later : count + more ≠ 0 := by omega
  rw [ScheduleRow.advanced, ScheduleRow.advanced, if_neg later]
  split <;> rfl

/-- No event and no earlier occurrence has the key of the occurrence. -/
structure ScheduleWorld.First (start : ScheduleWorld) (row : ScheduleRow) (index : Nat) : Prop where
  absent : ¬ start.hasKey (scheduleKey row.id (row.occurrence index))
  apart : ∀ earlier < index,
    scheduleKey row.id (row.occurrence earlier) ≠ scheduleKey row.id (row.occurrence index)

/-- The request is for one of the occurrences counted for the schedules. -/
def ScheduleWorld.Requested (start : ScheduleWorld) (now : Time) (counts : String → Nat)
    (request : EventRequest) : Prop :=
  ∃ row ∈ start.schedules.rows, ∃ index < counts row.id,
    row.request now (row.occurrence index) = some request

/-- The events once the counted occurrences of each schedule were enqueued. -/
structure ScheduleWorld.Stored (host : Host) (start : ScheduleWorld) (now : Time)
    (counts : String → Nat) (store : World) : Prop where
  contents : ∀ content, content ∈ store.db.events.rows.map EventRow.content ↔
    content ∈ start.world.db.events.rows.map EventRow.content ∨
      ∃ row ∈ start.schedules.rows, ∃ index < counts row.id, start.First row index ∧
        ∃ request, row.request now (row.occurrence index) = some request ∧
          content = (request.row "").content
  bound : KeysBound start.schedules.rows store
  drawn : EventsDrawn host store

/-- The schedules once the counted occurrences of each were closed. -/
def ScheduleWorld.Moved (start : ScheduleWorld) (now : Time) (counts : String → Nat)
    (schedules : Table ScheduleRow) : Prop :=
  schedules.rows = start.schedules.rows.map fun row => row.advanced now (counts row.id)

section Progress

variable {start world : ScheduleWorld} {store store' : World} {counts : String → Nat}
variable {request : EventRequest}

theorem ScheduleRow.request_eq_some {time : Time} :
    row.request now time = some request ↔
      ∃ payload, row.payload = .ok payload ∧ request = occurrenceRequest row payload time now := by
  unfold ScheduleRow.request
  cases row.payload with
  | ok payload => simp [eq_comm]
  | error exc => simp

/-- The rows of the table of schedules have different ids. -/
theorem schedule_eq_of_id {schedules : Table ScheduleRow} {row row' : ScheduleRow}
    (stored : row ∈ schedules.rows) (stored' : row' ∈ schedules.rows) (same : row.id = row'.id) :
    row = row' := by
  apply Table.eq_of_clash stored stored'
  · simp [UniqueKeys.clash, UniqueKeys.key, same]
  · simp [UniqueKeys.clash, UniqueKeys.key, same]

theorem ScheduleWorld.Ready.stored (ready : start.Ready host) :
    start.Stored host now (fun _ => 0) start.world where
  contents content := by simp
  bound := ready.bound
  drawn := ready.drawn

theorem ScheduleWorld.moved_start : start.Moved now (fun _ => 0) start.schedules := by
  simp [ScheduleWorld.Moved, ScheduleRow.advanced]

/-- The key of the next occurrence is taken exactly if the occurrence is not the first under it. -/
theorem ScheduleWorld.Stored.hasKey_iff (stored : start.Stored host now counts store)
    (ready : start.Ready host) (member : row ∈ start.schedules.rows) :
    (∃ event ∈ store.db.events.rows,
        event.dedupKey = some (scheduleKey row.id (row.occurrence (counts row.id)))) ↔
      ¬ start.First row (counts row.id) := by
  constructor
  · rintro ⟨event, inStore, keyed⟩ first
    rcases (stored.contents event.content).1 (List.mem_map_of_mem inStore) with
      old | ⟨row', member', index, below, _, request, asked, same⟩
    · obtain ⟨event', inStart, same⟩ := List.mem_map.1 old
      have sameKey : event'.dedupKey = event.dedupKey := congrArg (fun c => c.2.2.1) same
      exact first.absent ⟨event', inStart, sameKey.trans keyed⟩
    · obtain ⟨payload, _, rfl⟩ := ScheduleRow.request_eq_some.1 asked
      have sameKey : event.dedupKey = some (scheduleKey row'.id (row'.occurrence index)) :=
        congrArg (fun c => c.2.2.1) same
      have keys := Option.some.inj (sameKey.symm.trans keyed)
      obtain rfl := schedule_eq_of_id member' member (scheduleKey_inj keys).1
      exact first.apart index below keys
  · intro notFirst
    by_cases old : start.hasKey (scheduleKey row.id (row.occurrence (counts row.id)))
    · obtain ⟨event, inStart, keyed⟩ := old
      obtain ⟨event', inStore, same⟩ := List.mem_map.1
        ((stored.contents event.content).2 (.inl (List.mem_map_of_mem inStart)))
      have sameKey : event'.dedupKey = event.dedupKey := congrArg (fun c => c.2.2.1) same
      exact ⟨event', inStore, sameKey.trans keyed⟩
    · -- the first of the earlier occurrences under the key was stored
      obtain ⟨earlier, below, sameKey⟩ : ∃ earlier < counts row.id,
          scheduleKey row.id (row.occurrence earlier) =
            scheduleKey row.id (row.occurrence (counts row.id)) := by
        by_contra none
        push Not at none
        exact notFirst ⟨old, none⟩
      classical
      have some' : ∃ index, scheduleKey row.id (row.occurrence index) =
          scheduleKey row.id (row.occurrence (counts row.id)) := ⟨earlier, sameKey⟩
      have least := Nat.find_spec some'
      have before : Nat.find some' < counts row.id := (Nat.find_min' some' sameKey).trans_lt below
      have first : start.First row (Nat.find some') := by
        refine ⟨by rwa [least], fun index lower same => ?_⟩
        exact Nat.find_min some' lower (same.trans least)
      obtain ⟨payload, readable⟩ := ready.readable row member
      obtain ⟨event, inStore, same⟩ := List.mem_map.1 ((stored.contents _).2
        (.inr ⟨row, member, Nat.find some', before, first, _,
          ScheduleRow.request_eq_some.2 ⟨payload, readable, rfl⟩, rfl⟩))
      have keyed : event.dedupKey = some (scheduleKey row.id (row.occurrence (Nat.find some'))) :=
        congrArg (fun c => c.2.2.1) same
      exact ⟨event, inStore, by rw [keyed, least]⟩

/-- Counting one more occurrence of a schedule adds that occurrence. -/
theorem ScheduleWorld.counted_succ (member : row ∈ start.schedules.rows)
    (P : ScheduleRow → Nat → Prop) :
    (∃ row' ∈ start.schedules.rows,
        ∃ index < Function.update counts row.id (counts row.id + 1) row'.id, P row' index) ↔
      (∃ row' ∈ start.schedules.rows, ∃ index < counts row'.id, P row' index) ∨
        P row (counts row.id) := by
  constructor
  · rintro ⟨row', member', index, below, holds⟩
    by_cases same : row'.id = row.id
    · obtain rfl := schedule_eq_of_id member' member same
      rw [Function.update_self] at below
      rcases Nat.lt_succ_iff_lt_or_eq.1 below with earlier | rfl
      · exact .inl ⟨row', member', index, earlier, holds⟩
      · exact .inr holds
    · rw [Function.update_of_ne same] at below
      exact .inl ⟨row', member', index, below, holds⟩
  · rintro (⟨row', member', index, below, holds⟩ | holds)
    · refine ⟨row', member', index, below.trans_le ?_, holds⟩
      by_cases same : row'.id = row.id
      · rw [same, Function.update_self]
        exact Nat.le_succ _
      · rw [Function.update_of_ne same]
    · exact ⟨row, member, counts row.id, by simp, holds⟩

theorem scheduleKey_ne_empty (scheduleId : String) (time : Time) :
    scheduleKey scheduleId time ≠ "" := by
  simp [scheduleKey]

/-- The event of an occurrence binds its key to the schedule. -/
theorem KeysBound.insert (bound : KeysBound start.schedules.rows store)
    (member : row ∈ start.schedules.rows) {time : Time}
    (asked : row.request now time = some request) {eventId : String}
    (rows : store'.db.events.rows = store.db.events.rows ++ [request.row eventId]) :
    KeysBound start.schedules.rows store' := by
  intro event inStore row' member' time' now' request' asked' keyed
  rw [rows, List.mem_append, List.mem_singleton] at inStore
  rcases inStore with old | rfl
  · exact bound event old row' member' time' now' request' asked' keyed
  · obtain ⟨payload, readable, rfl⟩ := ScheduleRow.request_eq_some.1 asked
    obtain ⟨payload', readable', rfl⟩ := ScheduleRow.request_eq_some.1 asked'
    obtain rfl := schedule_eq_of_id member member' (scheduleKey_inj (Option.some.inj keyed)).1
    obtain rfl := Except.ok.inj (readable.symm.trans readable')
    simp [EventRequest.sameAs, EventRequest.row, occurrenceRequest, EventRequest.payloadJson]

/-- Enqueueing the next occurrence of a schedule counts it. -/
theorem ScheduleWorld.Stored.enqueue (distinct : Function.Injective host.uuid4)
    (stored : start.Stored host now counts store) (ready : start.Ready host)
    (member : row ∈ start.schedules.rows)
    (asked : row.request now (row.occurrence (counts row.id)) = some request) :
    ∃ eventId store', (enqueueEvent request).run host store = (.ok eventId, store') ∧
      start.Stored host now (Function.update counts row.id (counts row.id + 1)) store' := by
  obtain ⟨payload, readable, isRequest⟩ := ScheduleRow.request_eq_some.1 asked
  have keyed : request.dedupKey = some (scheduleKey row.id (row.occurrence (counts row.id))) := by
    rw [isRequest]
    rfl
  have lookup : store.db.existing request.dedupKey =
      store.db.eventByKey (scheduleKey row.id (row.occurrence (counts row.id))) := by
    rw [keyed, Db.existing, Option.bind_some, if_neg (scheduleKey_ne_empty _ _)]
  have taken := stored.hasKey_iff ready member
  cases found : store.db.existing request.dedupKey with
  | some event =>
      obtain ⟨inStore, named⟩ := Db.eventByKey_eq_some.1 (lookup.symm.trans found)
      have same : request.sameAs event = true :=
        stored.bound event inStore row member _ now request asked (named.trans keyed.symm)
      have notFirst := taken.1 ⟨event, inStore, named⟩
      refine ⟨event.id, store, ?_, fun content => ?_, stored.bound, stored.drawn⟩
      · rw [run_enqueueEvent_found found, reuseOrReject, if_pos same, Sql.run_done]
      · rw [stored.contents content, ScheduleWorld.counted_succ member]
        simp [notFirst]
  | none =>
      obtain ⟨store', ran, enqueues, _⟩ := run_enqueueEvent_fresh distinct stored.drawn found
        (by rw [keyed]; exact fun empty => scheduleKey_ne_empty _ _ (Option.some.inj empty))
      generalize host.uuid4 store.drawn = eventId at ran enqueues
      refine ⟨eventId, store', ran, ?_⟩
      have first : start.First row (counts row.id) := by
        rw [← not_not (a := start.First row (counts row.id)), ← taken]
        rintro ⟨event, inStore, named⟩
        have apart := Table.select_eq_none.1 (lookup.symm.trans found) event inStore
        simp [named] at apart
      have drawn := (stored.drawn.enqueues enqueues).1
      cases enqueues with
      | fresh events absent inserted =>
          have rows := Table.rows_insert inserted
          refine ⟨fun content => ?_, stored.bound.insert member asked rows, drawn⟩
          simp only [rows, List.map_append, List.map_singleton, List.mem_append,
            List.mem_singleton, stored.contents content, ScheduleWorld.counted_succ member, or_assoc]
          refine or_congr_right (or_congr_right ?_)
          constructor
          · rintro rfl
            exact ⟨first, request, asked, rfl⟩
          · rintro ⟨_, request', asked', rfl⟩
            rw [asked] at asked'
            cases asked'
            rfl
      | reused event there =>
          rw [found] at there
          cases there

end Progress

/-! ### One scheduler alone -/

/-- The statements of a scheduler, without faults, one after the other. -/
def scheduleMachine (host : Host) : Machine scheduling Exc ScheduleWorld (Option Fault) where
  answer := ScheduleOp.answer host

/-- The program of one scheduler, run alone. -/
abbrev Ticks (host : Host) {α : Type} (program : Scheduling α) (world : ScheduleWorld)
    (outcome : Except Exc α) (world' : ScheduleWorld) : Prop :=
  program.RunsTo (scheduleMachine host) (fun _ => none) world outcome world'

/-- What one tick returns and leaves behind. -/
def ScheduleWorld.tick (host : Host) (now : Time) (maxOccurrences : Int) (world : ScheduleWorld) :
    Except Exc Int × ScheduleWorld :=
  (Kernel.tick now maxOccurrences).execute (scheduleMachine host) (fun _ => none) world

/-- The rows that a tick selects. -/
def ScheduleWorld.dueRows (now : Time) (world : ScheduleWorld) : List ScheduleRow :=
  (world.schedules.rows.filter (ScheduleRow.due now)).insertionSort fun a b => a.nextAt ≤ b.nextAt

section Runs

variable {start world world' : ScheduleWorld} {store store' : World} {counts : String → Nat}
variable {request : EventRequest} {α : Type}

theorem ScheduleOp.ticks (op : ScheduleOp) (world : ScheduleWorld) :
    Ticks host op.perform world (op.answer host none world).1 (op.answer host none world).2 :=
  Program.RunsTo.perform (F := scheduling) op

/-- A method of the store does in a scheduler what it does alone. -/
theorem scheduled_ticks (sql : Sql α) {outcome : Except Exc α}
    (ran : sql.run host world.world = (outcome, store')) :
    Ticks host sql.scheduled world outcome { world with world := store' } := by
  induction sql generalizing world with
  | done value =>
      obtain ⟨rfl, rfl⟩ := Prod.mk.inj ran
      exact .done value
  | raise exc =>
      obtain ⟨rfl, rfl⟩ := Prod.mk.inj ran
      exact .raise exc
  | call stmt next ih =>
      rw [Sql.run_call] at ran
      have rest := @ih _ { world with world := (stmt.exec host world.world).2 } ran
      rw [Sql.scheduled_call]
      unfold Ticks Program.RunsTo at rest ⊢
      simp only [Program.execute, scheduleMachine, ScheduleOp.answer]
      exact rest

/-- The requests for the next occurrences of a schedule. -/
def ScheduleRow.requests (row : ScheduleRow) (now : Time) (first count : Nat) :
    List EventRequest :=
  ((List.range' first count).map row.occurrence).filterMap (row.request now)

/-- Emitting the next occurrences of a schedule enqueues and counts them. -/
theorem emitOccurrences_ticks (distinct : Function.Injective host.uuid4)
    (ready : start.Ready host) (member : row ∈ start.schedules.rows) (shown count : Nat)
    (stored : start.Stored host now counts world.world) :
    ∃ store', Ticks host (emitOccurrences (row.advanced now shown) now
        ((List.range' (counts row.id) count).map row.occurrence)) world (.ok ())
        { world with world := store' } ∧
      store' = enqueueAll host (row.requests now (counts row.id) count) world.world ∧
        start.Stored host now (Function.update counts row.id (counts row.id + count)) store' := by
  induction count generalizing counts world with
  | zero => exact ⟨world.world, .done (), rfl, by simpa using stored⟩
  | succ count ih =>
      obtain ⟨payload, readable⟩ := ready.readable row member
      have asked : row.request now (row.occurrence (counts row.id)) =
          some (occurrenceRequest row payload (row.occurrence (counts row.id)) now) :=
        ScheduleRow.request_eq_some.2 ⟨payload, readable, rfl⟩
      obtain ⟨eventId, store', ran, stored'⟩ := stored.enqueue distinct ready member asked
      obtain ⟨last, rest, all, counted⟩ := @ih { world with world := store' } _ stored'
      simp only [Function.update_self, Function.update_idem] at rest all counted
      refine ⟨last, ?_, ?_, ?_⟩
      · simp only [List.range'_succ, List.map_cons, emitOccurrences, ScheduleRow.advanced_payload,
          readable, Program.bind_eq_bind]
        rw [ScheduleRow.occurrenceRequest_advanced]
        exact .bind (scheduled_ticks _ ran) rest
      · rw [all, ScheduleRow.requests, ScheduleRow.requests, List.range'_succ, List.map_cons,
          List.filterMap_cons_some asked, enqueueAll_cons, ran]
      · rw [Nat.add_assoc, Nat.add_comm 1] at counted
        exact counted

/-- Moving a schedule behind the occurrences that were emitted counts them. -/
theorem ScheduleWorld.Moved.next {schedules : Table ScheduleRow}
    (moved : start.Moved now counts schedules) (member : row ∈ start.schedules.rows) {count : Nat}
    (positive : 0 < count) :
    start.Moved now (Function.update counts row.id (counts row.id + count))
      (schedules.update (fun stored => stored.id == row.id)
        (ScheduleRow.movedTo (row.occurrence (counts row.id + count)) now) fun _ => rfl) := by
  unfold ScheduleWorld.Moved at moved ⊢
  change (schedules.rows.map fun stored => if stored.id == row.id then
    stored.movedTo (row.occurrence (counts row.id + count)) now else stored) = _
  rw [moved, List.map_map]
  refine List.map_congr_left fun row' member' => ?_
  simp only [Function.comp_apply, ScheduleRow.advanced_id, beq_iff_eq]
  by_cases same : row'.id = row.id
  · obtain rfl := schedule_eq_of_id member' member same
    rw [if_pos rfl, Function.update_self, ScheduleRow.movedTo_advanced _ _ _ positive]
  · rw [if_neg same, Function.update_of_ne same]

theorem close_ticks (repeats : row.Repeats) (nextAt : Time) :
    Ticks host (row.close nextAt now) world (.ok ())
      (updateSchedules world row.id (ScheduleRow.movedTo nextAt now) fun _ => rfl) := by
  obtain ⟨interval, every, _⟩ := repeats
  simp only [ScheduleRow.close, every]
  exact ScheduleOp.ticks (.moveNext row.id nextAt now) world

/-- What is due of the schedules after the counted occurrences. -/
noncomputable def ScheduleWorld.left (start : ScheduleWorld) (now : Time) (counts : String → Nat) :
    Nat :=
  (start.schedules.rows.map fun row => row.backlog now - counts row.id).sum

theorem ids_nodup (schedules : Table ScheduleRow) : (schedules.rows.map ScheduleRow.id).Nodup := by
  rw [List.Nodup, List.pairwise_map]
  exact schedules.unique.imp fun apart same => by
    simp [UniqueKeys.clash, UniqueKeys.key, same] at apart

/-- The occurrences counted for one schedule are no longer left. -/
theorem left_update {rows : List ScheduleRow} (apart : (rows.map ScheduleRow.id).Nodup)
    (member : row ∈ rows) {count : Nat} (fits : counts row.id + count ≤ row.backlog now) :
    (rows.map fun row' => row'.backlog now - counts row'.id).sum =
      (rows.map fun row' => row'.backlog now -
        Function.update counts row.id (counts row.id + count) row'.id).sum + count := by
  induction rows with
  | nil => cases member
  | cons head rows ih =>
      rw [List.map_cons, List.nodup_cons] at apart
      simp only [List.map_cons, List.sum_cons]
      rcases List.mem_cons.1 member with rfl | later
      · have others : ∀ row' ∈ rows, row'.backlog now -
            Function.update counts row.id (counts row.id + count) row'.id =
              row'.backlog now - counts row'.id := by
          intro row' member'
          have different : row'.id ≠ row.id := fun same =>
            apart.1 (same ▸ List.mem_map_of_mem member')
          rw [Function.update_of_ne different]
        rw [List.map_congr_left others, Function.update_self]
        omega
      · have different : head.id ≠ row.id := fun same =>
          apart.1 (same ▸ List.mem_map_of_mem later)
        rw [ih apart.2 later, Function.update_of_ne different]
        omega

/-- The step from one count of occurrences to a later one. -/
structure ScheduleWorld.Advance (host : Host) (start : ScheduleWorld) (now : Time)
    (counts counts' : String → Nat) (requests : List EventRequest) (taken : Nat)
    (world world' : ScheduleWorld) : Prop where
  stored : start.Stored host now counts' world'.world
  moved : start.Moved now counts' world'.schedules
  within : ∀ row ∈ start.schedules.rows, counts' row.id ≤ row.backlog now
  grows : ∀ scheduleId, counts scheduleId ≤ counts' scheduleId
  taken : start.left now counts = start.left now counts' + taken
  enqueued : world'.world = enqueueAll host requests world.world
  requests : ∀ request, request ∈ requests ↔ ∃ row ∈ start.schedules.rows, ∃ index,
    counts row.id ≤ index ∧ index < counts' row.id ∧
      row.request now (row.occurrence index) = some request

theorem ScheduleWorld.Advance.refl (stored : start.Stored host now counts world.world)
    (moved : start.Moved now counts world.schedules)
    (within : ∀ row ∈ start.schedules.rows, counts row.id ≤ row.backlog now) :
    start.Advance host now counts counts [] 0 world world where
  stored := stored
  moved := moved
  within := within
  grows _ := Nat.le_refl _
  taken := rfl
  enqueued := rfl
  requests request := by
    constructor
    · exact fun impossible => nomatch impossible
    · rintro ⟨row, _, index, reached, below, _⟩
      omega

theorem ScheduleWorld.Advance.trans {counts₁ counts₂ : String → Nat} {world₁ world₂ : ScheduleWorld}
    {requests₁ requests₂ : List EventRequest} {taken₁ taken₂ : Nat}
    (first : start.Advance host now counts counts₁ requests₁ taken₁ world world₁)
    (second : start.Advance host now counts₁ counts₂ requests₂ taken₂ world₁ world₂) :
    start.Advance host now counts counts₂ (requests₁ ++ requests₂) (taken₁ + taken₂) world
      world₂ where
  stored := second.stored
  moved := second.moved
  within := second.within
  grows scheduleId := (first.grows scheduleId).trans (second.grows scheduleId)
  taken := by
    rw [first.taken, second.taken]
    omega
  enqueued := by rw [second.enqueued, first.enqueued, enqueueAll_append]
  requests request := by
    rw [List.mem_append, first.requests, second.requests]
    constructor
    · rintro (⟨row, member, index, reached, below, asked⟩ | ⟨row, member, index, reached, below, asked⟩)
      · exact ⟨row, member, index, reached, below.trans_le (second.grows _), asked⟩
      · exact ⟨row, member, index, (first.grows _).trans reached, below, asked⟩
    · rintro ⟨row, member, index, reached, below, asked⟩
      by_cases early : index < counts₁ row.id
      · exact .inl ⟨row, member, index, reached, early, asked⟩
      · exact .inr ⟨row, member, index, Nat.le_of_not_lt early, below, asked⟩

theorem ScheduleRow.mem_requests {first count : Nat} :
    request ∈ row.requests now first count ↔ ∃ index, first ≤ index ∧ index < first + count ∧
      row.request now (row.occurrence index) = some request := by
  simp only [ScheduleRow.requests, List.mem_filterMap, List.mem_map, List.mem_range'_1]
  constructor
  · rintro ⟨_, ⟨index, ⟨reached, below⟩, rfl⟩, asked⟩
    exact ⟨index, reached, below, asked⟩
  · rintro ⟨index, reached, below, asked⟩
    exact ⟨_, ⟨index, ⟨reached, below⟩, rfl⟩, asked⟩

/-- Handling one selected row advances its schedule. -/
theorem emitRow_ticks (distinct : Function.Injective host.uuid4) (ready : start.Ready host)
    (member : row ∈ start.schedules.rows) (stored : start.Stored host now counts world.world)
    (moved : start.Moved now counts world.schedules)
    (within : ∀ row ∈ start.schedules.rows, counts row.id ≤ row.backlog now) {count : Nat}
    (positive : 0 < count) (fits : counts row.id + count ≤ row.backlog now) :
    ∃ mid world', Ticks host (emitOccurrences (row.advanced now (counts row.id)) now
        ((List.range' (counts row.id) count).map row.occurrence)) world (.ok ()) mid ∧
      Ticks host ((row.advanced now (counts row.id)).close
        (row.occurrence (counts row.id + count)) now) mid (.ok ()) world' ∧
      start.Advance host now counts (Function.update counts row.id (counts row.id + count))
        (row.requests now (counts row.id) count) count world world' := by
  obtain ⟨store', emits, all, stored'⟩ :=
    emitOccurrences_ticks distinct ready member (counts row.id) count stored
  refine ⟨_, _, emits, close_ticks ((ready.repeats row member).advanced _) _, ?_⟩
  refine ⟨stored', ?_, fun row' member' => ?_, fun scheduleId => ?_, ?_, all, fun request => ?_⟩
  · rw [ScheduleRow.advanced_id]
    exact moved.next member positive
  · by_cases same : row'.id = row.id
    · obtain rfl := schedule_eq_of_id member' member same
      rwa [Function.update_self]
    · rw [Function.update_of_ne same]
      exact within row' member'
  · by_cases same : scheduleId = row.id
    · rw [same, Function.update_self]
      exact Nat.le_add_right _ _
    · rw [Function.update_of_ne same]
  · exact left_update (ids_nodup start.schedules) member fits
  · rw [ScheduleRow.mem_requests]
    constructor
    · rintro ⟨index, reached, below, asked⟩
      exact ⟨row, member, index, reached, by rwa [Function.update_self], asked⟩
    · rintro ⟨row', member', index, reached, below, asked⟩
      by_cases same : row'.id = row.id
      · obtain rfl := schedule_eq_of_id member' member same
        rw [Function.update_self] at below
        exact ⟨index, reached, below, asked⟩
      · rw [Function.update_of_ne same] at below
        omega

/-- The rows are those the schedules show after the counted occurrences, and all of them are due. -/
def ScheduleWorld.Shows (start : ScheduleWorld) (now : Time) (counts : String → Nat)
    (rows : List ScheduleRow) : Prop :=
  ∀ shown ∈ rows, ∃ row ∈ start.schedules.rows, shown = row.advanced now (counts row.id) ∧
    row.enabled = true ∧ counts row.id < row.backlog now

/-- Nothing is left of the schedules of the rows. -/
def ScheduleWorld.Drained (start : ScheduleWorld) (now : Time) (counts : String → Nat)
    (rows : List ScheduleRow) : Prop :=
  ∀ shown ∈ rows, ∀ row ∈ start.schedules.rows, row.id = shown.id → counts row.id = row.backlog now

/-- What a row shown by an advanced schedule contributes to a tick. -/
theorem batch_advanced (ready : start.Ready host) (member : row ∈ start.schedules.rows)
    (enabled : row.enabled = true) (count room : Nat) :
    (row.advanced now count).batch now room =
      ((List.range' count (min room (row.backlog now - count))).map row.occurrence,
        row.occurrence (count + min room (row.backlog now - count))) := by
  have repeats := ready.repeats row member
  rw [(repeats.advanced count).batch_eq (by simpa using enabled), repeats.backlog_advanced]
  refine Prod.ext ?_ (row.occurrence_advanced count _)
  rw [List.range'_eq_map_range, List.map_map]
  exact List.map_congr_left fun index _ => row.occurrence_advanced count index

/-- The loop of a tick stops at its budget, or leaves nothing of its rows. -/
theorem tickRows_ticks (distinct : Function.Injective host.uuid4) (ready : start.Ready host)
    (rows : List ScheduleRow) (apart : (rows.map ScheduleRow.id).Nodup) {maxOccurrences emitted : Int}
    (room : emitted < maxOccurrences) (shows : start.Shows now counts rows)
    (stored : start.Stored host now counts world.world)
    (moved : start.Moved now counts world.schedules)
    (within : ∀ row ∈ start.schedules.rows, counts row.id ≤ row.backlog now) :
    ∃ (taken : Nat) (counts' : String → Nat) (world' : ScheduleWorld),
      Ticks host (tickRows now maxOccurrences rows emitted) world (.ok (emitted + taken)) world' ∧
      start.Advance host now counts counts' (tickRequests now maxOccurrences rows emitted) taken
        world world' ∧
      emitted + taken ≤ maxOccurrences ∧
      (emitted + taken = maxOccurrences ∨ start.Drained now counts' rows) := by
  induction rows generalizing counts emitted world with
  | nil =>
      refine ⟨0, counts, world, ?_, .refl stored moved within, ?_, .inr ?_⟩
      · rw [Nat.cast_zero, add_zero]
        exact .done emitted
      · rw [Nat.cast_zero, add_zero]
        exact room.le
      · exact fun shown impossible => nomatch impossible
  | cons shown rows ih =>
      obtain ⟨row, member, rfl, enabled, behind⟩ := shows shown List.mem_cons_self
      have batch := @batch_advanced host now row start ready member enabled (counts row.id)
        (maxOccurrences - emitted).toNat
      generalize isCount : min (maxOccurrences - emitted).toNat (row.backlog now - counts row.id) =
        count at batch
      have positive : 0 < count := by omega
      have fits : counts row.id + count ≤ row.backlog now := by omega
      obtain ⟨mid, world₁, emits, closes, first⟩ :=
        emitRow_ticks distinct ready member stored moved within positive fits
      rw [List.map_cons, List.nodup_cons, ScheduleRow.advanced_id] at apart
      have asks : (row.advanced now (counts row.id)).request now = row.request now :=
        funext fun time => row.advanced_request (counts row.id) time
      have requests : tickRequests now maxOccurrences (row.advanced now (counts row.id) :: rows)
          emitted = row.requests now (counts row.id) count ++
            if maxOccurrences ≤ emitted + count then []
            else tickRequests now maxOccurrences rows (emitted + count) := by
        simp only [tickRequests, batch, List.length_map, List.length_range', asks]
        rfl
      have runs : ∀ {outcome : Except Exc Int} {world' : ScheduleWorld},
          Ticks host (if maxOccurrences ≤ emitted + count then .done (emitted + count)
            else tickRows now maxOccurrences rows (emitted + count)) world₁ outcome world' →
          Ticks host (tickRows now maxOccurrences (row.advanced now (counts row.id) :: rows) emitted)
            world outcome world' := by
        intro outcome world' rest
        simp only [tickRows, batch, Program.bind_eq_bind, List.length_map, List.length_range']
        exact .bind emits (.bind closes rest)
      rw [requests]
      by_cases full : maxOccurrences ≤ emitted + count
      · -- the budget ends within this row
        simp only [if_pos full] at runs ⊢
        rw [List.append_nil]
        exact ⟨count, _, world₁, runs (.done _), first, by omega, .inl (by omega)⟩
      · -- the row is drained, and the rest of the rows is as it was
        simp only [if_neg full] at runs ⊢
        have drained : counts row.id + count = row.backlog now := by omega
        have shows' : start.Shows now (Function.update counts row.id (counts row.id + count))
            rows := by
          intro shown later
          obtain ⟨row', member', rfl, enabled', behind'⟩ := shows shown (List.mem_cons_of_mem _ later)
          have different : row'.id ≠ row.id := fun same =>
            apart.1 (same ▸ @ScheduleRow.advanced_id now row' (counts row'.id) ▸
              List.mem_map_of_mem later)
          refine ⟨row', member', ?_, enabled', ?_⟩
          · rw [Function.update_of_ne different]
          · rwa [Function.update_of_ne different]
        obtain ⟨taken, counts', world', ran, rest, bounded, ended⟩ :=
          ih apart.2 (not_le.1 full) shows' first.stored first.moved first.within
        refine ⟨count + taken, counts', world', ?_, first.trans rest, ?_, ?_⟩
        · rw [Nat.cast_add, ← add_assoc]
          exact runs ran
        · rw [Nat.cast_add, ← add_assoc]
          exact bounded
        · rw [Nat.cast_add, ← add_assoc]
          refine ended.imp_right fun all shown inRows row' member' same => ?_
          rcases List.mem_cons.1 inRows with rfl | later
          · obtain rfl := schedule_eq_of_id member' member (same.trans (row.advanced_id _))
            have grows := rest.grows row'.id
            rw [Function.update_self] at grows
            have within' := rest.within row' member'
            omega
          · exact all shown later row' member' same

/-- The number of occurrences that are due. -/
noncomputable def ScheduleWorld.backlog (now : Time) (world : ScheduleWorld) : Nat :=
  (world.schedules.rows.map (ScheduleRow.backlog now)).sum

/-- What is due in the database is what is left of the schedules. -/
theorem ScheduleWorld.Moved.backlog_eq (ready : start.Ready host)
    (moved : start.Moved now counts world.schedules) :
    world.backlog now = start.left now counts := by
  rw [ScheduleWorld.backlog, ScheduleWorld.left, moved, List.map_map]
  exact congrArg List.sum (List.map_congr_left fun row member =>
    (ready.repeats row member).backlog_advanced now (counts row.id))

theorem ScheduleWorld.Moved.shows (ready : start.Ready host)
    (moved : start.Moved now counts world.schedules) :
    start.Shows now counts (world.dueRows now) := by
  intro shown selected
  rw [ScheduleWorld.dueRows, (List.perm_insertionSort _ _).mem_iff, List.mem_filter, moved,
    List.mem_map] at selected
  obtain ⟨⟨row, member, rfl⟩, isDue⟩ := selected
  have repeats := ready.repeats row member
  rw [(repeats.advanced _).due_iff, repeats.backlog_advanced] at isDue
  refine ⟨row, member, rfl, ?_, by omega⟩
  by_contra disabled
  rw [ScheduleRow.backlog_of_disabled (by simpa using disabled)] at isDue
  omega

/-- When nothing is left of the rows that are due, nothing is left. -/
theorem ScheduleWorld.Drained.left_eq {counts' : String → Nat} (ready : start.Ready host)
    (moved : start.Moved now counts world.schedules)
    (grows : ∀ scheduleId, counts scheduleId ≤ counts' scheduleId)
    (drained : start.Drained now counts' (world.dueRows now)) : start.left now counts' = 0 := by
  refine List.sum_eq_zero fun left isLeft => ?_
  obtain ⟨row, member, rfl⟩ := List.mem_map.1 isLeft
  have repeats := ready.repeats row member
  by_cases isDue : (row.advanced now (counts row.id)).due now = true
  · have selected : row.advanced now (counts row.id) ∈ world.dueRows now := by
      rw [ScheduleWorld.dueRows, (List.perm_insertionSort _ _).mem_iff, List.mem_filter, moved]
      exact ⟨List.mem_map_of_mem member, isDue⟩
    rw [drained _ selected row member (row.advanced_id _).symm, Nat.sub_self]
  · rw [(repeats.advanced _).due_iff, repeats.backlog_advanced] at isDue
    have more := grows row.id
    omega

/-- Nothing is selected when nothing is due. -/
theorem ScheduleWorld.dueRows_eq_nil (ready : start.Ready host)
    (moved : start.Moved now counts world.schedules) (nothing : world.backlog now = 0) :
    world.dueRows now = [] := by
  rw [moved.backlog_eq ready] at nothing
  refine List.eq_nil_iff_forall_not_mem.2 fun shown selected => ?_
  obtain ⟨row, member, _, _, behind⟩ := moved.shows ready shown selected
  have zero := List.sum_eq_zero_iff.1 nothing _ (List.mem_map_of_mem member)
  omega

/-- One tick, from any count of occurrences. -/
theorem tick_advances (distinct : Function.Injective host.uuid4) (ready : start.Ready host)
    {maxOccurrences : Int} (room : 0 < maxOccurrences ∨ world.backlog now = 0)
    (stored : start.Stored host now counts world.world)
    (moved : start.Moved now counts world.schedules)
    (within : ∀ row ∈ start.schedules.rows, counts row.id ≤ row.backlog now) :
    ∃ (taken : Nat) (counts' : String → Nat),
      (world.tick host now maxOccurrences).1 = .ok (taken : Int) ∧
      start.Advance host now counts counts' (tickRequests now maxOccurrences (world.dueRows now) 0)
        taken world (world.tick host now maxOccurrences).2 ∧
      (taken : Int) = min (max maxOccurrences 0) (world.backlog now) := by
  have ticks : ∀ {value : Int} {world' : ScheduleWorld},
      Ticks host (tickRows now maxOccurrences (world.dueRows now) 0) world (.ok value) world' →
        world.tick host now maxOccurrences = (.ok value, world') := by
    intro value world' ran
    exact Program.RunsTo.bind (ScheduleOp.ticks (.selectDue now) world) ran
  rcases Nat.eq_zero_or_pos (world.backlog now) with nothing | due
  · have none := ScheduleWorld.dueRows_eq_nil ready moved nothing
    rw [none] at ticks ⊢
    rw [ticks (.done 0)]
    refine ⟨0, counts, rfl, .refl stored moved within, ?_⟩
    rw [nothing]
    omega
  · have positive : 0 < maxOccurrences := room.resolve_right due.ne'
    have apart : ((world.dueRows now).map ScheduleRow.id).Nodup :=
      ((List.perm_insertionSort _ _).map _).nodup_iff.2
        ((ids_nodup world.schedules).sublist (List.filter_sublist.map _))
    obtain ⟨taken, counts', world', ran, advance, bounded, ended⟩ :=
      tickRows_ticks distinct ready (world.dueRows now) apart positive (moved.shows ready) stored
        moved within
    rw [zero_add] at ran bounded ended
    rw [ticks ran]
    refine ⟨taken, counts', rfl, advance, ?_⟩
    have before := moved.backlog_eq ready
    have taken' := advance.taken
    rcases ended with full | drained
    · omega
    · have nothing := drained.left_eq ready moved advance.grows
      omega

end Runs

/-! ### Catching up -/

/-- The database after the given number of ticks at one time, each with its own budget. -/
def ScheduleWorld.ticked (host : Host) (now : Time) (budgets : Nat → Int) (world : ScheduleWorld) :
    Nat → ScheduleWorld
  | 0 => world
  | count + 1 => ((world.ticked host now budgets count).tick host now (budgets count)).2

/-- The requests that these ticks make. -/
def ScheduleWorld.ticksRequests (host : Host) (now : Time) (budgets : Nat → Int)
    (world : ScheduleWorld) : Nat → List EventRequest
  | 0 => []
  | count + 1 =>
      world.ticksRequests host now budgets count ++
        tickRequests now (budgets count) ((world.ticked host now budgets count).dueRows now) 0

/-- The two databases have the same `next_at` for every schedule and the same events, apart from
their identifiers. -/
structure ScheduleWorld.Agree (world world' : ScheduleWorld) : Prop where
  nextAt : world.schedules.rows.map (fun row => (row.id, row.nextAt)) =
    world'.schedules.rows.map fun row => (row.id, row.nextAt)
  events : ∀ content, content ∈ world.world.db.events.rows.map EventRow.content ↔
    content ∈ world'.world.db.events.rows.map EventRow.content

/-- What ticks at one time come to, whatever their budgets. -/
structure CatchesUp (host : Host) (now : Time) (world : ScheduleWorld) : Prop where
  /-- One tick emits as much as its budget allows, and leaves the rest due. -/
  one : ∀ budget : Int, 1 ≤ budget →
    (world.tick host now budget).1 = .ok (min budget (world.backlog now)) ∧
      ((world.tick host now budget).2.backlog now : Int) =
        world.backlog now - min budget (world.backlog now)
  /-- A tick enqueues the requests it makes, and does nothing else to the events. -/
  enqueues : ∀ budget : Int, 1 ≤ budget →
    (world.tick host now budget).2.world =
      enqueueAll host (tickRequests now budget (world.dueRows now) 0) world.world
  /-- Repeated ticks return at last 0, and something positive before. -/
  ends : ∀ budgets : Nat → Int, (∀ index, 1 ≤ budgets index) → ∃ count,
    (∀ earlier < count, ∃ emitted : Int, 0 < emitted ∧
      ((world.ticked host now budgets earlier).tick host now (budgets earlier)).1 = .ok emitted) ∧
    ((world.ticked host now budgets count).tick host now (budgets count)).1 = .ok 0
  /-- When they do, they have done what a single tick with room for all does. -/
  agrees : ∀ budgets : Nat → Int, (∀ index, 1 ≤ budgets index) → ∀ count,
    ((world.ticked host now budgets count).tick host now (budgets count)).1 = .ok 0 →
      ∀ enough : Int, world.backlog now ≤ enough →
        (world.ticked host now budgets (count + 1)).Agree (world.tick host now enough).2 ∧
          ∀ request, request ∈ world.ticksRequests host now budgets (count + 1) ↔
            request ∈ tickRequests now enough (world.dueRows now) 0

section Agreement

variable {world world' world'' : ScheduleWorld} {counts counts' : String → Nat}
variable {requests requests' : List EventRequest} {taken taken' : Nat}

/-- Nothing has been counted yet. -/
abbrev noneYet : String → Nat := fun _ => 0

theorem ScheduleWorld.Ready.advance (ready : world.Ready host) (now : Time) :
    world.Advance host now noneYet noneYet [] 0 world world :=
  .refl ready.stored ScheduleWorld.moved_start fun _ _ => Nat.zero_le _

theorem ScheduleWorld.Advance.tick (advance : world.Advance host now noneYet counts requests taken
    world world') (distinct : Function.Injective host.uuid4) (ready : world.Ready host)
    {budget : Int} (room : 0 < budget ∨ world'.backlog now = 0) :
    ∃ (emitted : Nat) (counts' : String → Nat),
      (world'.tick host now budget).1 = .ok (emitted : Int) ∧
      world.Advance host now counts counts' (tickRequests now budget (world'.dueRows now) 0)
        emitted world' (world'.tick host now budget).2 ∧
      (emitted : Int) = min (max budget 0) (world'.backlog now) :=
  tick_advances distinct ready room advance.stored advance.moved advance.within

/-- Each of the repeated ticks goes on from what the ones before it counted. -/
theorem ticked_advances (distinct : Function.Injective host.uuid4) (ready : world.Ready host)
    (now : Time) {budgets : Nat → Int} (positive : ∀ index, 1 ≤ budgets index) (count : Nat) :
    ∃ taken counts, world.Advance host now noneYet counts
      (world.ticksRequests host now budgets count) taken world
        (world.ticked host now budgets count) := by
  induction count with
  | zero => exact ⟨0, noneYet, ready.advance now⟩
  | succ count ih =>
      obtain ⟨taken, counts, before⟩ := ih
      obtain ⟨emitted, counts', _, step, _⟩ :=
        before.tick distinct ready (.inl (positive count))
      exact ⟨taken + emitted, counts', before.trans step⟩

/-- What is due is what was due less what was emitted. -/
theorem ScheduleWorld.Advance.backlog_eq (ready : world.Ready host)
    (advance : world.Advance host now noneYet counts requests taken world world') :
    world.backlog now = world'.backlog now + taken := by
  rw [advance.moved.backlog_eq ready, ← advance.taken]
  exact ScheduleWorld.moved_start.backlog_eq ready

/-- When nothing is due any more, every schedule was counted to its end. -/
theorem ScheduleWorld.Advance.counts_eq (ready : world.Ready host)
    (advance : world.Advance host now noneYet counts requests taken world world')
    (nothing : world'.backlog now = 0) {row : ScheduleRow} (member : row ∈ world.schedules.rows) :
    counts row.id = row.backlog now := by
  rw [advance.moved.backlog_eq ready] at nothing
  have zero := List.sum_eq_zero_iff.1 nothing _ (List.mem_map_of_mem member)
  have within := advance.within row member
  omega

/-- Two ways of catching up leave the same behind. -/
theorem ScheduleWorld.Advance.agree (ready : world.Ready host)
    (one : world.Advance host now noneYet counts requests taken world world')
    (two : world.Advance host now noneYet counts' requests' taken' world world'')
    (nothing : world'.backlog now = 0) (nothing' : world''.backlog now = 0) :
    world'.Agree world'' ∧ ∀ request, request ∈ requests ↔ request ∈ requests' := by
  have same : ∀ row ∈ world.schedules.rows, counts row.id = counts' row.id := by
    intro row member
    rw [one.counts_eq ready nothing member, two.counts_eq ready nothing' member]
  refine ⟨⟨?_, fun content => ?_⟩, fun request => ?_⟩
  · rw [one.moved, two.moved, List.map_map, List.map_map]
    refine List.map_congr_left fun row member => ?_
    simp [same row member]
  · rw [one.stored.contents, two.stored.contents]
    refine or_congr_right (exists_congr fun row => and_congr_right fun member => ?_)
    rw [same row member]
  · rw [one.requests, two.requests]
    refine exists_congr fun row => and_congr_right fun member => ?_
    rw [same row member]

end Agreement

/-- Ticks with any budgets at one time emit what one tick without a bound emits, and leave the
schedules where it leaves them. -/
theorem budgeted_catch_up (host : Host) (distinct : Function.Injective host.uuid4) (now : Time)
    (world : ScheduleWorld) (ready : world.Ready host) : CatchesUp host now world where
  one := by
    intro budget positive
    obtain ⟨emitted, counts, returned, advance, isMin⟩ :=
      (ready.advance now).tick distinct ready (.inl positive)
    have rest := advance.backlog_eq ready
    rw [max_eq_left (by omega)] at isMin
    rw [returned, isMin]
    exact ⟨rfl, by omega⟩
  enqueues := by
    intro budget positive
    obtain ⟨_, _, _, advance, _⟩ := (ready.advance now).tick distinct ready (.inl positive)
    exact advance.enqueued
  ends := by
    intro budgets positive
    have returns : ∀ count, ∃ emitted : Nat,
        ((world.ticked host now budgets count).tick host now (budgets count)).1 =
          .ok (emitted : Int) ∧
        (world.ticked host now budgets count).backlog now =
          (world.ticked host now budgets (count + 1)).backlog now + emitted := by
      intro count
      obtain ⟨taken, counts, before⟩ := ticked_advances distinct ready now positive count
      obtain ⟨emitted, counts', returned, step, _⟩ :=
        before.tick distinct ready (.inl (positive count))
      have first := before.backlog_eq ready
      have last := (before.trans step).backlog_eq ready
      exact ⟨emitted, returned, by rw [ScheduleWorld.ticked]; omega⟩
    have reached : ∃ count,
        ((world.ticked host now budgets count).tick host now (budgets count)).1 = .ok 0 := by
      -- else the backlog would shrink forever
      by_contra never
      have shrinks : ∀ count,
          (world.ticked host now budgets count).backlog now + count ≤ world.backlog now := by
        intro count
        induction count with
        | zero => exact Nat.le_refl _
        | succ count ih =>
            obtain ⟨emitted, returned, rest⟩ := returns count
            have some' : emitted ≠ 0 := by
              rintro rfl
              exact never ⟨count, returned⟩
            omega
      have tooMany := shrinks (world.backlog now + 1)
      omega
    classical
    refine ⟨Nat.find reached, fun earlier before => ?_, Nat.find_spec reached⟩
    obtain ⟨emitted, returned, _⟩ := returns earlier
    refine ⟨emitted, ?_, returned⟩
    have notYet := Nat.find_min reached before
    rw [returned] at notYet
    have some' : emitted ≠ 0 := by
      rintro rfl
      exact notYet rfl
    omega
  agrees := by
    intro budgets positive count returned enough all
    obtain ⟨taken, counts, before⟩ := ticked_advances distinct ready now positive count
    obtain ⟨emitted, counts', returned', step, isMin⟩ :=
      before.tick distinct ready (.inl (positive count))
    have isZero : (emitted : Int) = 0 := Except.ok.inj (returned'.symm.trans returned)
    have bound := positive count
    have last : world.backlog now =
        (world.ticked host now budgets (count + 1)).backlog now + (taken + emitted) :=
      (before.trans step).backlog_eq ready
    have first := before.backlog_eq ready
    have starts := @ScheduleWorld.Ready.advance host world ready now
    have room : 0 < enough ∨ world.backlog now = 0 := by omega
    obtain ⟨emitted', counts'', _, single, isMin'⟩ := starts.tick distinct ready room
    have rest := single.backlog_eq ready
    exact (before.trans step).agree ready single
      (show (world.ticked host now budgets (count + 1)).backlog now = 0 by omega) (by omega)

/-- A heartbeat that is four occurrences behind at the time 3, and a slower report. -/
def lateSchedules : ScheduleWorld where
  world := .initial
  schedules :=
    ⟨[⟨"a", "heartbeat", "\x7b\x7d", some 1, 0, true, 0, 0⟩,
      ⟨"b", "report", "\x7b\"n\":1\x7d", some 2, 1 / 2, true, 0, 0⟩], by decide⟩
  added := []

theorem lateSchedules_ready : lateSchedules.Ready plainHost where
  repeats := by
    intro row member
    rcases List.mem_pair.1 member with rfl | rfl
    · exact ⟨1, rfl, by norm_num⟩
    · exact ⟨2, rfl, by norm_num⟩
  readable := by
    have all : lateSchedules.schedules.rows.all (fun row => row.payload.toBool) = true := by
      decide +kernel
    intro row member
    have read := List.all_eq_true.1 all row member
    cases payload : row.payload with
    | ok value => exact ⟨value, rfl⟩
    | error exc => simp [payload, Except.toBool] at read
  bound := fun _ impossible => nomatch impossible
  drawn := fun _ impossible => nomatch impossible

/-- Six occurrences that are due. -/
theorem budgeted_catch_up_late :
    lateSchedules.dueRows 3 ≠ [] ∧ CatchesUp plainHost 3 lateSchedules :=
  ⟨by decide +kernel,
    budgeted_catch_up plainHost plainHost_uuid4_injective 3 lateSchedules lateSchedules_ready⟩

end PreActive.Kernel
