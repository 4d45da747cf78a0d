/-
Module: PreActive.Kernel.DedupKeys
Purpose: A dedup key is bound to one event request, however enqueueing processes interleave.
Trusted boundary: human-reviewed spec
Main exports: FaultFree, IdsApart, EnqueueEnds, KeyBound, KeyBinds, dedup_key_binds,
  enqueueEvent_empty_refused
-/
import PreActive.Foundation.Trace
import PreActive.Kernel.Recovery

namespace PreActive.Kernel

open PreActive.Foundation PreActive.Python
open Program Program.Obeys

variable {host : Host} {world world' : World} {config config' : KernelConfig} {log : History}
variable {op : Op} {request : EventRequest} {key : String}

/-- No statement meets a fault of the database. -/
def FaultFree (_ : KernelConfig) (label : Label Answer Call) : Prop :=
  ∀ pid answer, label = .act pid answer → answer.fault = none

/-! ### Identifiers of new events -/

/-- Where the identifier of an event comes from: it was there, a process inserted it, or a
transaction drew it. -/
inductive EventIdFrom (host : Host) (world : World) (op : Op) (answer : Answer) (eventId : String) :
    Prop where
  | old (row : EventRow) (stored : row ∈ world.db.events.rows) (named : row.id = eventId) :
      EventIdFrom host world op answer eventId
  | inserted (row : EventRow) (isInsert : op = .sql (.insertEvent row)) (named : row.id = eventId)
      (done : answer.fault = none ∧ (world.db.events.insert row).isSome = true) :
      EventIdFrom host world op answer eventId
  | drawn (index : Nat) (unused : world.drawn ≤ index) (named : eventId = host.uuid4 index) :
      EventIdFrom host world op answer eventId

theorem Enqueues.eventIdFrom {answer : Answer} {eventId : String} {row : EventRow}
    {mid : World} (enqueues : Enqueues host request mid eventId world')
    (before : mid.db.events = world.db.events) (more : world.drawn ≤ mid.drawn)
    (stored : row ∈ world'.db.events.rows) : EventIdFrom host world op answer row.id := by
  cases enqueues with
  | reused found same => exact .old row (before ▸ stored) rfl
  | fresh events absent inserted =>
      change row ∈ events.rows at stored
      rw [Table.rows_insert inserted, List.mem_append, List.mem_singleton] at stored
      rcases stored with old | rfl
      · exact .old row (before ▸ old) rfl
      · exact .drawn mid.drawn more rfl

theorem eventIdFrom_updateEvents {answer : Answer} {row : EventRow} {p : EventRow → Bool}
    {f : EventRow → EventRow} (keeps : ∀ row, UniqueKeys.key (f row) = UniqueKeys.key row)
    (stored : row ∈ (updateEvents world p f keeps).db.events.rows) :
    EventIdFrom host world op answer row.id := by
  obtain ⟨earlier, member, rfl⟩ := List.mem_map.1 stored
  refine .old earlier member ?_
  split
  · exact (congrArg Prod.fst (keeps earlier)).symm
  · rfl

theorem Transacts.eventIdFrom {answer : Answer} {block : Transaction} {result : block.Result}
    {row : EventRow} (transacts : Transacts host world block result world')
    (stored : row ∈ world'.db.events.rows) : EventIdFrom host world op answer row.id := by
  cases transacts with
  | claimNothing idle => exact .old row stored rfl
  | @claim workerId now leaseSeconds chosen found =>
      exact eventIdFrom_updateEvents
        (f := EventRow.claimedBy workerId (now + leaseSeconds) (chosen.attempts + 1) now)
        (fun _ => rfl) stored
  | createRun created enqueued =>
      cases created with
      | reused source run bound found sameTask sameSet =>
          exact enqueued.eventIdFrom rfl (Nat.le_refl _) stored
      | fresh runs inserted => exact enqueued.eventIdFrom rfl (Nat.le_succ _) stored
  | advance run found running stands enqueued =>
      exact enqueued.eventIdFrom rfl (Nat.le_refl _) stored
  | resume run found blocked enqueued => exact enqueued.eventIdFrom rfl (Nat.le_refl _) stored
  | @reconcile requestId effectOccurred _ _ _ _ effect found unresolved =>
      cases effectOccurred <;> exact .old row stored rfl

/-- The identifier of an event after a step. -/
theorem eventIdFrom_answer (host : Host) (answer : Answer) (op : Op) {row : EventRow}
    (stored : row ∈ (op.answer host answer world).2.db.events.rows) :
    EventIdFrom host world op answer row.id := by
  rcases op.answer_cases host answer world with
    same | ⟨stmt, rfl, same⟩ | ⟨block, rfl, ⟨_, same⟩ | ⟨result, transacts⟩⟩ | ⟨call, rfl, same⟩
  · rw [same] at stored
    exact .old row stored rfl
  · cases fault : answer.fault with
    | some fault' =>
        simp only [Op.answer, fault] at stored
        exact .old row stored rfl
    | none =>
        rw [same] at stored
        have writes := Stmt.writes host stmt world
        generalize (stmt.exec host world).2 = after at writes stored
        cases writes with
        | event added events inserted =>
            change row ∈ events.rows at stored
            rw [Table.rows_insert inserted, List.mem_append, List.mem_singleton] at stored
            rcases stored with old | rfl
            · exact .old row old rfl
            · exact .inserted row rfl rfl ⟨fault, by rw [inserted]; rfl⟩
        | events p f keeps => exact eventIdFrom_updateEvents keeps stored
        | _ => exact .old row stored rfl
  · rw [same] at stored
    exact .old row stored rfl
  · exact transacts.eventIdFrom stored
  · rw [same] at stored
    exact .old row stored rfl

/-- The identifier was drawn and no event was stored under it. -/
def HoldsId (log : History) (eventId : String) : Prop :=
  Saw log (.sql .uuid4) eventId ∧ ∀ row : EventRow, row.id = eventId →
    ¬ Saw log (.sql (.insertEvent row)) ()

/-- No two processes have drawn the same identifier, and none that a process still holds is in
the queue. -/
structure IdsApart (host : Host) (config : KernelConfig) : Prop where
  drawn : ∀ pid eventId, Saw (config.logOf pid) (.sql .uuid4) eventId →
    ∃ index < config.world.drawn, eventId = host.uuid4 index
  apart : ∀ pid other eventId, Saw (config.logOf pid) (.sql .uuid4) eventId →
    Saw (config.logOf other) (.sql .uuid4) eventId → pid = other
  unstored : ∀ pid eventId, HoldsId (config.logOf pid) eventId →
    ∀ event ∈ config.world.db.events.rows, event.id ≠ eventId

theorem saw_cons {entry : Entry kernel Exc} {value : op.Result} (saw : Saw (entry :: log) op value) :
    entry = ⟨op, .ok value⟩ ∨ Saw log op value := by
  rcases List.mem_cons.1 saw with same | old
  · exact .inl same.symm
  · exact .inr old

theorem HoldsId.older {entry : Entry kernel Exc} {eventId : String}
    (held : HoldsId (entry :: log) eventId) (seen : Saw log (.sql .uuid4) eventId) :
    HoldsId log eventId :=
  ⟨seen, fun row named saw => held.2 row named saw.cons⟩

/-- A drawn identifier is the next one of the host. -/
theorem uuid4_answer {answer : Answer} {eventId : String}
    (same : (⟨op, (op.answer host answer world).1⟩ : Entry kernel Exc) = ⟨.sql .uuid4, .ok eventId⟩) :
    op = .sql .uuid4 ∧ eventId = host.uuid4 world.drawn ∧
      (op.answer host answer world).2 = { world with drawn := world.drawn + 1 } := by
  obtain ⟨rfl, answered⟩ := Entry.mk.inj same
  rw [heq_eq_eq] at answered
  cases faulty : answer.fault with
  | some fault => simp [Op.answer, faulty] at answered
  | none =>
      simp only [Op.answer, faulty, Stmt.exec, Except.ok.injEq] at answered ⊢
      exact ⟨trivial, answered.symm, trivial⟩

/-- In every reachable state identifiers are apart. -/
theorem reachable_idsApart {steps : KernelConfig → Label Answer Call → Prop}
    (distinct : Function.Injective host.uuid4)
    (reached : (system host).Reachable steps KernelConfig.initial config) :
    IdsApart host config := by
  refine reached.invariant ?_ ?_
  · have nothing : ∀ pid, KernelConfig.initial.logOf pid = [] := fun pid => by
      simp [Config.logOf, KernelConfig.initial]
    constructor
    · intro pid eventId saw
      rw [nothing] at saw
      cases saw
    · intro pid other eventId saw _
      rw [nothing] at saw
      cases saw
    · intro pid eventId held
      rw [nothing] at held
      cases held.1
  · intro config label config' before ids _ stepped
    rcases System.step_logs stepped with ⟨sameWorld, sameLogs⟩ |
      ⟨pid, answer, call, op, next, log, rfl, found, world', grows, others⟩
    · constructor
      · simpa only [sameWorld, sameLogs] using ids.drawn
      · simpa only [sameLogs] using ids.apart
      · simpa only [sameWorld, sameLogs] using ids.unstored
    · have eventsDrawn := reachable_drawn before
      have own := Config.logOf_of_found found
      have rule := (reachable_rule before _ (List.mem_of_getElem? found)).head
      change config'.world = (op.answer host answer config.world).2 at world'
      change config'.logOf pid = ⟨op, (op.answer host answer config.world).1⟩ :: _ at grows
      -- an identifier is new in a history only when it was just drawn
      have seen : ∀ other eventId, Saw (config'.logOf other) (.sql .uuid4) eventId →
          Saw (config.logOf other) (.sql .uuid4) eventId ∨
            other = pid ∧ eventId = host.uuid4 config.world.drawn ∧
              config'.world = { config.world with drawn := config.world.drawn + 1 } := by
        intro other eventId saw
        by_cases same : other = pid
        · subst same
          rw [grows] at saw
          rcases saw_cons saw with last | old
          · obtain ⟨_, named, after⟩ := uuid4_answer last
            exact .inr ⟨rfl, named, world'.trans after⟩
          · exact .inl old
        · rw [others other same] at saw
          exact .inl saw
      have more : config.world.drawn ≤ config'.world.drawn :=
        world' ▸ op.drawn_le host answer config.world
      constructor
      · intro other eventId saw
        rcases seen other eventId saw with old | ⟨_, named, after⟩
        · obtain ⟨index, below, named⟩ := ids.drawn other eventId old
          exact ⟨index, below.trans_le more, named⟩
        · exact ⟨config.world.drawn, by rw [after]; exact Nat.lt_succ_self _, named⟩
      · intro one other eventId saw saw'
        rcases seen one eventId saw with old | ⟨rfl, named, _⟩
        · rcases seen other eventId saw' with old' | ⟨rfl, named, _⟩
          · exact ids.apart one other eventId old old'
          · obtain ⟨index, below, named'⟩ := ids.drawn one eventId old
            have same := distinct (named'.symm.trans named)
            omega
        · rcases seen other eventId saw' with old' | ⟨rfl, _, _⟩
          · obtain ⟨index, below, named'⟩ := ids.drawn other eventId old'
            have same := distinct (named'.symm.trans named)
            omega
          · rfl
      · intro other eventId held event stored named
        rcases seen other eventId held.1 with old | ⟨rfl, fresh, after⟩
        · have holds : HoldsId (config.logOf other) eventId := by
            by_cases same : other = pid
            · subst same
              rw [grows] at held
              exact held.older old
            · rwa [others other same] at held
          rw [world'] at stored
          cases eventIdFrom_answer host answer op stored with
          | old row there same => exact ids.unstored other eventId holds row there (same.trans named)
          | drawn index unused same =>
              obtain ⟨index', below, named'⟩ := ids.drawn other eventId old
              have equal := distinct (named'.symm.trans (named.symm.trans same))
              omega
          | inserted row isInsert same done =>
              subst isInsert
              have origin : Saw (config.logOf pid) (.sql .uuid4) row.id := by
                rw [own]
                cases call with
                | enqueueEvent request =>
                    obtain ⟨drawnId, saw, rfl⟩ := rule
                    exact saw
                | execute => simp only [CallRule] at rule; exact rule.elim
                | recoverReconciled => simp only [CallRule] at rule; exact rule.elim
                | _ => exact rule.elim
              rw [same, named] at origin
              obtain rfl := ids.apart pid other eventId origin old
              -- the process inserted the event itself, so it no longer holds the identifier
              refine held.2 row (same.trans named) ?_
              rw [grows]
              obtain ⟨events, inserted⟩ := Option.isSome_iff_exists.1 done.2
              have answered : (Op.answer host (.sql (.insertEvent row)) answer config.world).1 =
                  .ok () := by
                simp only [Op.answer, done.1, Stmt.exec, inserted]
              rw [answered]
              exact Saw.here
        · rw [after] at stored
          obtain ⟨index, below, named'⟩ := eventsDrawn event stored
          have equal := distinct (named'.symm.trans (named.trans fresh))
          omega

/-! ### How a call ends -/

/-- The exception of a key that is bound to another request. -/
def dedupConflict (key : String) : Exc :=
  runtimeError ("dedup_key is already bound to a different event request: " ++ key)

/-- The kinds of steps of `enqueue_event` before anything is written. -/
inductive Entry.Searching (key : String) : Entry kernel Exc → Prop where
  | lookup (result) : Searching key ⟨.sql (.selectEventByDedup key), result⟩
  | draw (result) : Searching key ⟨.sql .uuid4, result⟩
  | refused (row exc) (keyed : row.dedupKey = some key) :
      Searching key ⟨.sql (.insertEvent row), .error exc⟩

/-- How a call under a key can have ended, read from its history. -/
inductive EnqueueEnds (request : EventRequest) (key : String) (log : History) :
    Except Exc String → Prop where
  | found (row : EventRow) (saw : Saw log (.sql (.selectEventByDedup key)) (some row))
      (searching : ∀ entry ∈ log, Entry.Searching key entry) :
      EnqueueEnds request key log
        (if request.sameAs row then .ok row.id else .error (dedupConflict key))
  | added (eventId : String) (inserted : Saw log (.sql (.insertEvent (request.row eventId))) ()) :
      EnqueueEnds request key log (.ok eventId)
  | lost (older : History) (row : EventRow) (exc exc' : Exc) (keyed : row.dedupKey = some key)
      (refused : (⟨.sql (.insertEvent row), .error exc⟩ : Entry kernel Exc) ∈ older)
      (missed : log = ⟨.sql (.selectEventByDedup key), .ok none⟩ :: older) :
      EnqueueEnds request key log (.error exc')
  | failed (stmt : Stmt) (exc exc' : Exc)
      (raised : (⟨.sql stmt, .error exc⟩ : Entry kernel Exc) ∈ log)
      (other : ∀ row, stmt = .insertEvent row → exc.isIntegrityError = false) :
      EnqueueEnds request key log (.error exc')

theorem reuseOrReject_ends {rule : History → Op → Prop} (keyed : request.dedupKey = some key)
    {row : EventRow} (saw : Saw log (.sql (.selectEventByDedup key)) (some row))
    (searching : ∀ entry ∈ log, Entry.Searching key entry) :
    (reuseOrReject request row).proc.Obeys rule (EnqueueEnds request key) log := by
  have ends := @EnqueueEnds.found request key log row saw searching
  unfold reuseOrReject
  by_cases same : request.sameAs row = true
  · rw [if_pos same] at ends ⊢
    exact ends
  · rw [if_neg same] at ends ⊢
    rw [keyed]
    exact ends

/-- An event is inserted only by a call that has inserted none. -/
def InsertsOnce (log : History) (op : Op) : Prop :=
  ∀ row, op = .sql (.insertEvent row) → ∀ row', ¬ Saw log (.sql (.insertEvent row')) ()

theorem enqueueEvent_ends (keyed : request.dedupKey = some key) (nonempty : key ≠ "") :
    (enqueueEvent request).proc.Obeys InsertsOnce (EnqueueEnds request key) [] := by
  have plain : ∀ (log : History) (op : Op), (∀ row, op ≠ .sql (.insertEvent row)) →
      InsertsOnce log op := fun _ _ other row same => absurd same (other row)
  have lookup : existingForDedup request.dedupKey = (Stmt.selectEventByDedup key).perform := by
    rw [keyed, existingForDedup, if_neg nonempty]
  simp only [enqueueEvent, lookup, Program.bind_eq_bind, Sql.proc_bind]
  simp only [Stmt.perform, Program.perform, Sql.proc_call, Sql.proc_ofExcept, Program.call_bind]
  refine ⟨plain _ _ fun row impossible => (by cases impossible), fun first => ?_⟩
  rcases first with exc | found
  · exact .failed (.selectEventByDedup key) exc exc List.mem_cons_self
      fun row impossible => by cases impossible
  have searching : ∀ entry ∈ [(⟨.sql (.selectEventByDedup key), .ok found⟩ : Entry kernel Exc)],
      Entry.Searching key entry := by
    intro entry member
    rw [List.mem_singleton] at member
    exact member ▸ .lookup _
  cases found with
  | some row => exact reuseOrReject_ends keyed Saw.here searching
  | none =>
      simp only [Program.ofExcept_ok, Program.done_bind, Sql.proc_bind, Sql.proc_call,
        Sql.proc_ofExcept]
      refine ⟨plain _ _ fun row impossible => (by cases impossible), fun second => ?_⟩
      rcases second with exc | eventId
      · exact .failed .uuid4 exc exc List.mem_cons_self fun row impossible => by cases impossible
      simp only [Program.ofExcept_ok, Program.done_bind, Sql.proc_attempt,
        Sql.proc_call, Sql.proc_ofExcept, Program.call_attempt, Program.call_bind]
      have none : InsertsOnce [⟨.sql .uuid4, .ok eventId⟩,
          ⟨.sql (.selectEventByDedup key), .ok Option.none⟩]
            (.sql (.insertEvent (request.row eventId))) := by
        intro row _ row' saw
        simp [Saw] at saw
      refine ⟨none, fun third => ?_⟩
      rcases third with exc | inserted
      · simp only [Program.ofExcept_error, Program.raise_attempt, Program.done_bind]
        by_cases clashes : exc.isIntegrityError = true
        · simp only [clashes, if_true, Sql.proc_bind, Sql.proc_call, Sql.proc_ofExcept]
          refine ⟨plain _ _ fun row impossible => (by cases impossible), fun fourth => ?_⟩
          rcases fourth with exc' | raced
          · exact .failed (.selectEventByDedup key) exc' exc' List.mem_cons_self
              fun row impossible => by cases impossible
          cases raced with
          | none => exact .lost _ _ exc exc keyed List.mem_cons_self rfl
          | some row =>
              refine reuseOrReject_ends keyed Saw.here fun entry member => ?_
              rcases List.mem_cons.1 member with rfl | member
              · exact .lookup _
              · rcases List.mem_cons.1 member with rfl | member
                · exact .refused _ _ keyed
                · rcases List.mem_cons.1 member with rfl | member
                  · exact .draw _
                  · exact searching entry member
        · rw [if_neg clashes]
          exact .failed _ exc exc List.mem_cons_self fun _ _ => Bool.eq_false_iff.2 clashes
      · simp only [Program.ofExcept_ok, Program.done_attempt, Program.done_bind, Sql.proc_bind,
          appendJournal, Stmt.perform, Program.perform, Sql.proc_call, Sql.proc_ofExcept,
          Program.call_bind]
        refine ⟨plain _ _ fun row impossible => (by cases impossible), fun last => ?_⟩
        rcases last with exc | seq
        · exact .failed _ exc exc List.mem_cons_self fun row impossible => by cases impossible
        · exact .added eventId (List.mem_cons_of_mem _ List.mem_cons_self)

/-! ### What the processes know -/

/-- What an entry of a history says about the events under a key. -/
structure QueueKnown (key : String) (older : History) (entry : Entry kernel Exc) (world : World) :
    Prop where
  found : ∀ row, entry = ⟨.sql (.selectEventByDedup key), .ok (some row)⟩ →
    row.dedupKey = some key ∧ ∃ event ∈ world.db.events.rows, row.SameRequest event
  added : ∀ row, entry = ⟨.sql (.insertEvent row), .ok ()⟩ →
    ∃ event ∈ world.db.events.rows, row.SameRequest event
  refused : ∀ row exc, entry = ⟨.sql (.insertEvent row), .error exc⟩ → row.dedupKey = some key →
    exc.isIntegrityError = true ∧ ∃ event ∈ world.db.events.rows, event.dedupKey = some key
  missed : entry = ⟨.sql (.selectEventByDedup key), .ok none⟩ → ∀ row exc,
    (⟨.sql (.insertEvent row), .error exc⟩ : Entry kernel Exc) ∈ older → row.dedupKey ≠ some key
  steady : ∀ stmt exc, entry = ⟨.sql stmt, .error exc⟩ →
    stmt ≠ .uuid4 ∧ (∀ key, stmt ≠ .selectEventByDedup key) ∧ ∀ row, stmt ≠ .insertJournal row

theorem QueueKnown.later {older : History} {entry : Entry kernel Exc}
    (known : QueueKnown key older entry world) (host : Host) (answer : Answer) (op : Op) :
    QueueKnown key older entry (op.answer host answer world).2 where
  found row same := by
    obtain ⟨keyed, event, stored, kept⟩ := known.found row same
    obtain ⟨event', stored', kept'⟩ := event_sameRequest host answer op stored
    exact ⟨keyed, event', stored', kept.trans kept'⟩
  added row same := by
    obtain ⟨event, stored, kept⟩ := known.added row same
    obtain ⟨event', stored', kept'⟩ := event_sameRequest host answer op stored
    exact ⟨event', stored', kept.trans kept'⟩
  refused row exc same keyed := by
    obtain ⟨clashes, event, stored, named⟩ := known.refused row exc same keyed
    obtain ⟨event', stored', kept⟩ := event_sameRequest host answer op stored
    exact ⟨clashes, event', stored', kept.dedupKey.trans named⟩
  missed := known.missed
  steady := known.steady

/-- A statement that meets no fault answers as it does alone. -/
theorem answer_of_faultless {answer : Answer} (faultless : answer.fault = none) {stmt : Stmt}
    {result : Except Exc stmt.Result}
    (same : (⟨op, (op.answer host answer world).1⟩ : Entry kernel Exc) = ⟨.sql stmt, result⟩) :
    op = .sql stmt ∧ (stmt.exec host world).1 = result ∧
      (op.answer host answer world).2 = (stmt.exec host world).2 := by
  obtain ⟨rfl, answered⟩ := Entry.mk.inj same
  rw [heq_eq_eq] at answered
  simp only [Op.answer, faultless] at answered ⊢
  exact ⟨trivial, answered, trivial⟩

/-- A refused insert under a fresh identifier met an event with its key. -/
theorem insert_refused {row : EventRow} (refused : world.db.events.insert row = none)
    (fresh : ∀ event ∈ world.db.events.rows, event.id ≠ row.id) (keyed : row.dedupKey = some key) :
    ∃ event ∈ world.db.events.rows, event.dedupKey = some key := by
  obtain ⟨old, stored, clash⟩ := Table.exists_clash_of_insert_none refused
  simp only [UniqueKeys.clash, UniqueKeys.key, Bool.or_eq_true, beq_iff_eq,
    Bool.and_eq_true] at clash
  rcases clash with sameId | ⟨_, sameKey⟩
  · exact absurd sameId (fresh old stored)
  · exact ⟨old, stored, sameKey.trans keyed⟩

theorem QueueKnown.of_answer {answer : Answer} (faultless : answer.fault = none)
    (fresh : ∀ row, op = .sql (.insertEvent row) → row.dedupKey = some key →
      ∀ event ∈ world.db.events.rows, event.id ≠ row.id)
    (learned : System.Reachable.Learned (QueueKnown key) world log) :
    QueueKnown key log ⟨op, (op.answer host answer world).1⟩ (op.answer host answer world).2 where
  found row same := by
    obtain ⟨rfl, answered, after⟩ := answer_of_faultless faultless same
    simp only [Stmt.exec, Except.ok.injEq] at answered
    rw [after]
    obtain ⟨stored, keyed⟩ := Db.eventByKey_eq_some.1 answered
    exact ⟨keyed, row, stored, .refl row⟩
  added row same := by
    obtain ⟨rfl, answered, after⟩ := answer_of_faultless faultless same
    rw [after]
    simp only [Stmt.exec] at answered ⊢
    split at answered
    · rename_i events inserted
      refine ⟨row, ?_, .refl row⟩
      change row ∈ events.rows
      rw [Table.rows_insert inserted]
      exact List.mem_append_right _ (List.mem_singleton.2 rfl)
    · cases answered
  refused row exc same keyed := by
    obtain ⟨rfl, answered, after⟩ := answer_of_faultless faultless same
    rw [after]
    simp only [Stmt.exec] at answered ⊢
    split at answered
    · cases answered
    · rename_i refused
      cases answered
      exact ⟨rfl, insert_refused refused (fresh row rfl keyed) keyed⟩
  missed same := by
    intro row exc refused keyed
    obtain ⟨rfl, answered, _⟩ := answer_of_faultless faultless same
    simp only [Stmt.exec, Except.ok.injEq] at answered
    obtain ⟨_, _, known⟩ := learned.of_mem refused
    obtain ⟨_, event, stored, named⟩ := known.refused row exc rfl keyed
    have apart := Table.select_eq_none.1 answered event stored
    simp [named] at apart
  steady stmt exc same := by
    obtain ⟨rfl, answered, _⟩ := answer_of_faultless faultless same
    refine ⟨?_, ?_, ?_⟩
    · rintro rfl
      cases answered
    · rintro key rfl
      cases answered
    · rintro row rfl
      cases answered

/-- In every state reached without faults, the processes know the events under the key. -/
theorem reachable_queueKnown (distinct : Function.Injective host.uuid4) (nonempty : key ≠ "")
    (reached : (system host).Reachable FaultFree KernelConfig.initial config) :
    ∀ process ∈ config.procs,
      System.Reachable.Learned (QueueKnown key) config.world process.log := by
  refine reached.learned (fun _ => QueueKnown key) ?_ ?_ rfl
  · intro config pid call op next log answer before found admitted learned
    have faultless : answer.fault = none := admitted pid answer rfl
    refine .of_answer faultless ?_ learned
    rintro row rfl keyed
    have member := List.mem_of_getElem? found
    have rule := (reachable_rule before _ member).head
    have after := before.after rfl _ member
    cases call with
    | enqueueEvent request =>
        obtain ⟨eventId, saw, rfl⟩ := rule
        obtain ⟨first, left, same⟩ := after.of_discard
        cases first with
        | done value => cases same
        | raise error => cases same
        | call op' next' =>
            rw [Program.call_bind] at same
            cases same
            have once := (left.obeys (enqueueEvent_ends keyed nonempty)).head
            have ids := reachable_idsApart distinct before
            have holds : HoldsId (config.logOf pid) eventId := by
              rw [Config.logOf_of_found found]
              exact ⟨saw, fun row' _ => once _ rfl row'⟩
            exact ids.unstored pid eventId holds
    | execute => simp only [CallRule] at rule; exact rule.elim
    | recoverReconciled => simp only [CallRule] at rule; exact rule.elim
    | _ => exact rule.elim
  · intro config pid call op next log answer _ _ _ _ older entry known
    exact known.later host answer op

/-! ### The binding of a key -/

/-- The operation, with the result it had, changes neither the events nor the journal. -/
def LeavesQueue (host : Host) (entry : Entry kernel Exc) : Prop :=
  ∀ (answer : Answer) (world : World), (entry.op.answer host answer world).1 = entry.result →
    (entry.op.answer host answer world).2.db.events = world.db.events ∧
      (entry.op.answer host answer world).2.db.journal = world.db.journal

theorem Entry.Searching.leavesQueue {entry : Entry kernel Exc}
    (searching : Entry.Searching key entry) (host : Host) : LeavesQueue host entry := by
  intro answer world answered
  cases fault : answer.fault with
  | some fault' => cases searching <;> simp [Op.answer, fault]
  | none =>
      cases searching with
      | lookup result => simp [Op.answer, fault, Stmt.exec]
      | draw result => simp [Op.answer, fault, Stmt.exec]
      | refused row exc keyed =>
          simp only [Op.answer, fault, Stmt.exec] at answered ⊢
          split at answered
          · cases answered
          · exact ⟨rfl, rfl⟩

/-- What a call under the key has come to: there is one event under the key, and the call either
asked for that event and has its id, or asked for another one and changed nothing. -/
structure KeyBound (host : Host) (request : EventRequest) (key : String) (world : World)
    (log : History) (outcome : Except Exc String) : Prop where
  event : ∃ event ∈ world.db.events.rows, event.dedupKey = some key ∧
    outcome =
      if event.kind = request.kind ∧ event.payloadJson = request.payloadJson ∧
          event.priority = request.priority then .ok event.id
      else .error (dedupConflict key)
  unchanged : ∀ exc, outcome = .error exc → ∀ entry ∈ log, LeavesQueue host entry

theorem sameAs_iff {row event : EventRow} (same : row.SameRequest event) :
    request.sameAs row = true ↔ event.kind = request.kind ∧
      event.payloadJson = request.payloadJson ∧ event.priority = request.priority := by
  simp [EventRequest.sameAs, same.kind, same.payloadJson, same.priority, and_assoc]

/-- There is at most one event under the key, and the calls under it that are over have ended and
come to what the key is bound to. -/
structure KeyBinds (host : Host) (key : String) (config : KernelConfig) : Prop where
  unique : ∀ event ∈ config.world.db.events.rows, ∀ event' ∈ config.world.db.events.rows,
    event.dedupKey = some key → event'.dedupKey = some key → event = event'
  ends : ∀ process ∈ config.procs, ∀ request, process.call = .enqueueEvent request →
    process.alive = true → process.nextOp = none →
      ∃ outcome, (enqueueEvent request).proc.Ended process.log outcome
  bound : ∀ process ∈ config.procs, ∀ request, process.call = .enqueueEvent request →
    request.dedupKey = some key →
      ∀ outcome, (enqueueEvent request).proc.Ended process.log outcome →
        KeyBound host request key config.world process.log outcome

/-- However the calls interleave, whoever dies and whatever else happens to the store, a key that
is not empty is bound to one event request. -/
theorem dedup_key_binds (host : Host) (distinct : Function.Injective host.uuid4)
    (config : KernelConfig) (reached : (system host).Reachable FaultFree KernelConfig.initial config)
    (key : String) (nonempty : key ≠ "") : KeyBinds host key config where
  unique := by
    intro event stored event' stored' named named'
    apply Table.eq_of_clash stored stored'
    · simp [UniqueKeys.clash, UniqueKeys.key, named, named']
    · simp [UniqueKeys.clash, UniqueKeys.key, named, named']
  ends := by
    intro process member request isCall alive idle
    refine reached.ended rfl member ?_ alive idle
    rw [isCall]
    rfl
  bound := by
    intro process member request isCall keyed outcome ended
    have learned := reachable_queueKnown distinct nonempty reached process member
    cases After.ends ended (enqueueEvent_ends keyed nonempty) with
    | found row saw searching =>
        obtain ⟨_, _, known⟩ := learned.of_mem saw
        obtain ⟨named, event, stored, same⟩ := known.found row rfl
        refine ⟨⟨event, stored, same.dedupKey.trans named, ?_⟩,
          fun _ _ entry there => (searching entry there).leavesQueue host⟩
        rw [same.id]
        exact if_congr (sameAs_iff same) rfl rfl
    | added eventId inserted =>
        obtain ⟨_, _, known⟩ := learned.of_mem inserted
        obtain ⟨event, stored, same⟩ := known.added _ rfl
        refine ⟨⟨event, stored, same.dedupKey.trans keyed, ?_⟩,
          fun _ impossible => nomatch impossible⟩
        rw [if_pos ⟨same.kind, same.payloadJson, same.priority⟩, same.id]
        rfl
    | lost older row exc exc' named refused missed =>
        rw [missed] at learned
        exact absurd named (learned.1.missed rfl row exc refused)
    | failed stmt exc exc' raised other =>
        obtain ⟨_, _, known⟩ := learned.of_mem raised
        obtain ⟨notDraw, notLookup, notJournal⟩ := known.steady stmt exc rfl
        obtain ⟨_, _, rule⟩ := (reachable_lawful reached process member).of_mem raised
        rw [isCall] at rule
        cases stmt with
        | uuid4 => exact absurd rfl notDraw
        | selectEventByDedup key' => exact absurd rfl (notLookup key')
        | insertJournal row => exact absurd rfl (notJournal row)
        | insertEvent row =>
            obtain ⟨eventId, _, rfl⟩ := rule
            have clashes := (known.refused _ exc rfl keyed).1
            rw [other _ rfl] at clashes
            cases clashes
        | _ => exact rule.elim

/-- Two calls race under one key: both look before either inserts. -/
def racingKeys : List (Label Answer Call) :=
  let request : EventRequest := ⟨"notice", .empty, 0, some "k", 0, none⟩
  [.spawn (.enqueueEvent request), .spawn (.enqueueEvent { request with priority := 1 }),
    .act 0 .quiet, .act 1 .quiet, .act 0 .quiet, .act 1 .quiet, .act 1 .quiet, .act 0 .quiet,
    .act 0 .quiet, .act 1 .quiet]

/-- Nothing but calls of `enqueue_event`, and no faults. -/
def enqueuesOnly : Label Answer Call → Bool
  | .spawn (.enqueueEvent _) => true
  | .act _ answer => answer.fault.isNone
  | _ => false

theorem faultFree_of_enqueuesOnly
    (reached : (system host).Reachable (fun _ label => enqueuesOnly label = true) config config') :
    (system host).Reachable FaultFree config config' := by
  refine reached.mono fun _ label only pid answer acts => ?_
  subst acts
  simpa [enqueuesOnly] using only

set_option maxRecDepth 10000 in
/-- The key after a race in which one of two different requests was refused. -/
theorem dedup_key_binds_race :
    ∃ config, (system plainHost).Reachable FaultFree KernelConfig.initial config ∧
      config.procs.all (fun process => process.nextOp.isNone) = true ∧
        KeyBinds plainHost "k" config := by
  have ran : ((system plainHost).run (fun _ label => enqueuesOnly label) KernelConfig.initial
      racingKeys).any (fun config => config.procs.all fun process => process.nextOp.isNone) =
        true := by decide +kernel
  obtain ⟨config, reached, ended⟩ := System.Reachable.exists_of_run racingKeys ran
  have faultFree := faultFree_of_enqueuesOnly reached
  exact ⟨config, faultFree, ended,
    dedup_key_binds plainHost plainHost_uuid4_injective config faultFree "k" (by decide)⟩

/-! ### The empty key -/

/-- The code takes an empty key for an absent one when it looks for the event, so the exception of
a refused insert is the outcome of the call. -/
theorem enqueueEvent_empty_refused (keyed : request.dedupKey = some "") :
    (enqueueEvent request).proc.Obeys (fun _ _ => True) (fun log outcome => ∀ row exc,
      (⟨.sql (.insertEvent row), .error exc⟩ : Entry kernel Exc) ∈ log → outcome = .error exc)
      [] := by
  have lookup : existingForDedup request.dedupKey = .done none := by rw [keyed]; rfl
  simp only [enqueueEvent, lookup, Program.bind_eq_bind, Program.done_bind, Sql.proc_bind]
  simp only [Stmt.perform, Program.perform, Sql.proc_call, Sql.proc_ofExcept, Program.call_bind]
  refine ⟨trivial, fun first => ?_⟩
  rcases first with exc | eventId
  · rintro row exc' member
    simp at member
  simp only [Program.ofExcept_ok, Program.done_bind, Sql.proc_attempt,
    Sql.proc_call, Sql.proc_ofExcept, Program.call_attempt, Program.call_bind]
  refine ⟨trivial, fun second => ?_⟩
  rcases second with exc | inserted
  · have raises : ∀ row exc', (⟨.sql (.insertEvent row), .error exc'⟩ : Entry kernel Exc) ∈
        [(⟨.sql (.insertEvent (request.row eventId)), .error exc⟩ : Entry kernel Exc),
          ⟨.sql .uuid4, .ok eventId⟩] → exc = exc' := by
      intro row exc' member
      simp at member
      exact member.2.symm
    by_cases clashes : exc.isIntegrityError = true
    · simp only [clashes, Program.ofExcept_error, Program.raise_attempt, Program.done_bind, if_true]
      exact fun row exc' member => congrArg _ (raises row exc' member)
    · simp only [clashes, Program.ofExcept_error, Program.raise_attempt, Program.done_bind,
        Bool.false_eq_true, if_false]
      exact fun row exc' member => congrArg _ (raises row exc' member)
  · simp only [Program.ofExcept_ok, Program.done_attempt, Program.done_bind, appendJournal]
    simp only [Stmt.perform, Program.perform, Sql.proc_bind, Sql.proc_call, Sql.proc_ofExcept,
      Program.call_bind]
    refine ⟨trivial, fun third => ?_⟩
    rcases third with exc | done <;> · intro row exc' member; simp at member

def emptyKeyed : EventRequest where
  kind := "notice"
  payload := .empty
  priority := 0
  dedupKey := some ""
  now := 0
  availableAt := none

/-- The process is a call under the empty key that has ended, with an insert of an event refused
for a clash. -/
def endedInClash (process : Process kernel Exc Call) : Bool :=
  process.alive && process.nextOp.isNone &&
    match process.call with
    | .enqueueEvent request => request.dedupKey == some "" && process.log.any fun
        | ⟨.sql (.insertEvent _), .error exc⟩ => exc.isIntegrityError
        | _ => false
    | _ => false

/-- Two calls with the same request under the empty key. -/
def emptyKeyTwice : List (Label Answer Call) :=
  [.spawn (.enqueueEvent emptyKeyed), .act 0 .quiet, .act 0 .quiet, .act 0 .quiet,
    .spawn (.enqueueEvent emptyKeyed), .act 1 .quiet, .act 1 .quiet]

set_option maxRecDepth 10000 in
/-- The second call with one request under the empty key raises the error of the database. -/
theorem empty_key_refused :
    ∃ config, (system plainHost).Reachable FaultFree KernelConfig.initial config ∧
      ∃ process ∈ config.procs, ∃ request, process.call = .enqueueEvent request ∧
        request.dedupKey = some "" ∧
          ∃ outcome, (enqueueEvent request).proc.Ended process.log outcome ∧
            ¬ KeyBound plainHost request "" config.world process.log outcome := by
  have ran : ((system plainHost).run (fun _ label => enqueuesOnly label) KernelConfig.initial
      emptyKeyTwice).any (fun config => (config.procs[1]?).any endedInClash) = true := by
    decide +kernel
  obtain ⟨config, reached, clash⟩ := System.Reachable.exists_of_run emptyKeyTwice ran
  have faultFree := faultFree_of_enqueuesOnly reached
  rw [Option.any_eq_true] at clash
  obtain ⟨process, found, clash⟩ := clash
  have member := List.mem_of_getElem? found
  rw [endedInClash, Bool.and_eq_true, Bool.and_eq_true, Option.isNone_iff_eq_none] at clash
  obtain ⟨⟨alive, idle⟩, clash⟩ := clash
  split at clash
  · rename_i request isCall
    rw [Bool.and_eq_true, beq_iff_eq, List.any_eq_true] at clash
    obtain ⟨keyed, ⟨op, result⟩, logged, refused⟩ := clash
    split at refused
    · rename_i row exc same
      cases same
      obtain ⟨outcome, ended⟩ := faultFree.ended rfl member (by rw [isCall]; rfl) alive idle
      have raised := After.ends ended (enqueueEvent_empty_refused keyed) row exc logged
      refine ⟨config, faultFree, process, member, request, isCall, keyed, outcome, ended, ?_⟩
      intro bound
      obtain ⟨_, _, _, outcomes⟩ := bound.event
      rw [raised] at outcomes
      split at outcomes
      · cases outcomes
      · cases outcomes
        cases refused
    · cases refused
  · cases clash

end PreActive.Kernel
