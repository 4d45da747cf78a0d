/-
Module: PreActive.Kernel.Hosting
Purpose: Daemons and command lines only ever show the kernel states that its own calls show.
Trusted boundary: human-reviewed spec
Main exports:
  HostOp.own, DaemonCall.Makes, daemonCall_session, ServedBy, Served, Served.run, DaemonsRefine,
  daemons_refine
-/
import PreActive.Kernel.Daemon
import PreActive.Kernel.Occurrences

namespace PreActive.Kernel

open PreActive.Foundation PreActive.Python

variable {host : Host} {α β : Type}

/-! ### Programs of a scheduler inside a process -/

namespace Scheduling

@[simp] theorem hosted_done (value : α) :
    Scheduling.hosted (.done value : Scheduling α) = .done value := rfl

@[simp] theorem hosted_raise (exc : Exc) :
    Scheduling.hosted (.raise exc : Scheduling α) = .raise exc := rfl

theorem hosted_bind (first : Scheduling α) (next : α → Scheduling β) :
    Scheduling.hosted (first.bind next) =
      (Scheduling.hosted first).bind fun value => Scheduling.hosted (next value) :=
  Program.lift_bind _ _ first next

theorem hosted_perform (op : ScheduleOp) :
    Scheduling.hosted op.perform =
      .call (F := hosting) op.hosted fun result =>
        Program.ofExcept (result.map op.hostedResult) := by
  unfold Scheduling.hosted ScheduleOp.perform Program.perform
  rw [Program.lift]
  congr 1
  funext result
  cases result <;> rfl

/-- A method of the store is the same kernel program for a scheduler as for anyone else. -/
theorem hosted_scheduled (sql : Sql α) : Scheduling.hosted sql.scheduled = Proc.hosted sql.proc := by
  induction sql with
  | done value => rfl
  | raise exc => rfl
  | call stmt next ih =>
      rw [Sql.scheduled_call, Sql.proc_call, Proc.hosted, Program.inside_call]
      unfold Scheduling.hosted
      rw [Program.lift]
      congr 1
      funext result
      have same : result.map (ScheduleOp.hostedResult (.sql stmt)) = result := by
        cases result <;> rfl
      rw [same]
      exact ih result

end Scheduling

/-! ### What a process does besides its kernel calls -/

/-- Statements of the store are the kernel's. -/
def HostOp.own : HostOp → Prop
  | .schedule (.sql _) => False
  | _ => True

/-- A process works on the kernel's state through the kernel's operations only. -/
theorem hosting_extends (host : Host) :
    (kernelMachine host).Extends (daemons host).toMachine ScheduleWorld.world id HostOp.own where
  result _ _ _ := rfl
  inner _ _ _ := rfl
  outer op isOwn answer world := by
    change (op.answer host answer.fault world).2.world = world.world
    cases fault : answer.fault with
    | some fault =>
        cases op with
        | schedule op => cases op <;> rfl
        | _ => rfl
    | none =>
        cases op with
        | schedule op =>
            cases op with
            | sql stmt => exact isOwn.elim
            | insertSchedule row =>
                simp only [HostOp.answer, ScheduleOp.answer]
                split <;> rfl
            | _ => rfl
        | _ => rfl

/-! ### Sessions -/

/-- The process emits due occurrences. -/
def DaemonCall.ticks : DaemonCall → Bool
  | schedule (.tick ..) | cycle .. | runForever .. | main (.runOnce _) .. | main (.daemon ..) .. =>
      true
  | _ => false

/-- The process makes steps of a worker at a reading of the clock. -/
def DaemonCall.Works (engine : Engine) (now : Time) : DaemonCall → Prop
  | cycle engine' now' => engine' = engine ∧ now' = now
  | runForever engine' _ clock => engine' = engine ∧ now ∈ clock
  | main (.runOnce args) now' _ => runtime args = .ok engine ∧ now' = now
  | main (.daemon args _) _ clock => runtime args = .ok engine ∧ now ∈ clock
  | _ => False

/-- The kernel calls that a process makes, or begins and abandons. -/
inductive DaemonCall.Makes : DaemonCall → Call → Prop where
  | direct (call : Call) : Makes (.direct call) call
  | occurrence {daemon : DaemonCall} (ticks : daemon.ticks = true) (row : ScheduleRow)
      (payload : JsonObject) (occurrence now : Time) :
      Makes daemon (.enqueueEvent (occurrenceRequest row payload occurrence now))
  | work {daemon : DaemonCall} {engine : Engine} {now : Time} (works : daemon.Works engine now) :
      Makes daemon (.runOnce engine now)
  | submit (task : String) (capability : List String) (now : Time) (clock : List Time) :
      Makes (.main (.submit task capability) now clock) (.submitTask task capability now none)
  | remember (content kind : String) (salience : ℚ) (now : Time) (clock : List Time) :
      Makes (.main (.remember content kind salience) now clock)
        (.addMemory kind content salience now)
  /-- The identifier of a schedule is drawn as that of a memory that is never stored. -/
  | identifier (daemon : DaemonCall) : Makes daemon (.addMemory "" "" 0 0)

section Sessions

variable {starts : Call → Prop}

/-- A program of a process that makes kernel calls of a kind. -/
abbrev HostingSession (host : Host) (starts : Call → Prop) (program : Hosting α) : Prop :=
  Session (system host) HostOp.own starts program

theorem HostOp.perform_session (op : HostOp) (isOwn : op.own) :
    HostingSession host starts op.perform :=
  Session.perform isOwn

theorem scheduleOp_session (op : ScheduleOp) (isOwn : HostOp.own (.schedule op)) :
    HostingSession host starts (Scheduling.hosted op.perform) := by
  rw [Scheduling.hosted_perform]
  cases op with
  | sql stmt => exact isOwn.elim
  | _ => exact .own isOwn fun result => .ofExcept _

theorem uuid4_session (draws : starts (.addMemory "" "" 0 0)) :
    HostingSession host starts (Scheduling.hosted (ScheduleOp.sql .uuid4).perform) := by
  have drawn : (ScheduleOp.sql .uuid4).perform = Sql.scheduled Stmt.uuid4.perform := by
    simp [ScheduleOp.perform, Stmt.perform, Program.perform]
  rw [drawn, Scheduling.hosted_scheduled]
  have isBody : (system host).program (.addMemory "" "" 0 0) =
      Stmt.uuid4.perform.proc.bind fun memoryId =>
        (Stmt.insertMemory ⟨memoryId, "", "", 0, 0⟩).perform.proc.bind fun _ => .done () := by
    simp only [system, Call.program, discard, addMemory, Program.bind_eq_bind, Sql.proc_bind,
      Program.bind_assoc]
    rfl
  exact .call draws isBody

theorem addInterval_session (kind : String) (payload : JsonObject)
    (everySeconds firstAt now : Time) (draws : starts (.addMemory "" "" 0 0)) :
    HostingSession host starts
      (Scheduling.hosted (addInterval kind payload everySeconds firstAt now)) := by
  unfold addInterval
  split
  · exact .raise _
  · simp only [Program.bind_eq_bind, Scheduling.hosted_bind]
    refine (uuid4_session draws).bind fun scheduleId => ?_
    exact (scheduleOp_session (.insertSchedule _) trivial).bind fun _ => .done _

variable (enqueues : ∀ row payload occurrence now,
  starts (.enqueueEvent (occurrenceRequest row payload occurrence now)))
include enqueues

theorem emitOccurrences_session (row : ScheduleRow) (now : Time) (occurrences : List Time) :
    HostingSession host starts (Scheduling.hosted (emitOccurrences row now occurrences)) := by
  induction occurrences with
  | nil => exact .done _
  | cons occurrence rest ih =>
      unfold emitOccurrences
      cases row.payload with
      | error exc => exact .raise _
      | ok payload =>
          simp only [Program.bind_eq_bind, Scheduling.hosted_bind, Scheduling.hosted_scheduled]
          have isBody : (system host).program
              (.enqueueEvent (occurrenceRequest row payload occurrence now)) =
                (enqueueEvent (occurrenceRequest row payload occurrence now)).proc.bind
                  fun _ => .done () := rfl
          exact (Session.call (enqueues row payload occurrence now) isBody).bind fun _ => ih

theorem tickRows_session (now : Time) (maxOccurrences : Int) (rows : List ScheduleRow)
    (emitted : Int) :
    HostingSession host starts
      (Scheduling.hosted (tickRows now maxOccurrences rows emitted)) := by
  induction rows generalizing emitted with
  | nil => exact .done _
  | cons row rows ih =>
      simp only [tickRows, Program.bind_eq_bind, Scheduling.hosted_bind]
      refine (emitOccurrences_session enqueues row now _).bind fun _ => .bind ?_ fun _ => ?_
      · unfold ScheduleRow.close
        split
        · exact scheduleOp_session (.disable _ _) trivial
        · exact scheduleOp_session (.moveNext _ _ _) trivial
      · split
        · exact .done _
        · exact ih _

theorem tick_session (now : Time) (maxOccurrences : Int) :
    HostingSession host starts (Scheduling.hosted (tick now maxOccurrences)) := by
  simp only [tick, Program.bind_eq_bind, Scheduling.hosted_bind]
  exact (scheduleOp_session (.selectDue now) trivial).bind fun rows => tickRows_session enqueues now _ rows 0

variable {engine : Engine}

theorem cycle_session {now : Time} (works : starts (.runOnce engine now)) :
    HostingSession host starts (cycle host engine now) := by
  simp only [cycle, Program.bind_eq_bind]
  have isBody : (system host).program (.runOnce engine now) =
      (engine.runOnce host now).bind fun _ => .done () := rfl
  exact (tick_session enqueues now 100).bind fun _ =>
    (Session.call works isBody).bind fun _ => .done _

theorem poll_session {clock : List Time} (works : ∀ now ∈ clock, starts (.runOnce engine now)) :
    HostingSession host starts (poll host engine clock) := by
  induction clock with
  | nil => exact .done _
  | cons now clock ih =>
      simp only [poll, Program.bind_eq_bind]
      have later := ih fun time member => works time (List.mem_cons_of_mem _ member)
      refine (cycle_session enqueues (works now List.mem_cons_self)).attempt.bind fun outcome => ?_
      cases outcome with
      | ok result => exact later
      | error exc =>
          simp only
          split
          · exact later
          · exact .raise _

theorem runForever_session {pollSeconds : ℚ} {clock : List Time}
    (works : ∀ now ∈ clock, starts (.runOnce engine now)) :
    HostingSession host starts (runForever host engine pollSeconds clock) := by
  unfold runForever
  split
  · exact .raise _
  · exact poll_session enqueues works

end Sessions

/-- Every process makes calls of the kernel, one at a time. -/
theorem daemonCall_session (host : Host) (daemon : DaemonCall) :
    HostingSession host daemon.Makes (daemon.program host) := by
  have identifier := DaemonCall.Makes.identifier daemon
  cases daemon with
  | direct call =>
      exact Session.call (.direct call) (Program.bind_done (call.program host)).symm
  | schedule call =>
      cases call with
      | addInterval kind payload everySeconds firstAt now =>
          simp only [DaemonCall.program, ScheduleCall.program, Scheduling.hosted_bind]
          exact (addInterval_session kind payload everySeconds firstAt now identifier).bind
            fun _ => .done _
      | tick now maxOccurrences =>
          simp only [DaemonCall.program, ScheduleCall.program, Scheduling.hosted_bind]
          exact (tick_session (.occurrence rfl) now maxOccurrences).bind fun _ => .done _
  | cycle engine now =>
      exact (cycle_session (.occurrence rfl) (.work ⟨rfl, rfl⟩)).bind fun _ => .done _
  | runForever engine pollSeconds clock =>
      exact runForever_session (.occurrence rfl) fun now member => .work ⟨rfl, member⟩
  | main command now clock =>
      refine Session.bind ?_ fun _ => .done _
      cases command with
      | submit task capability =>
          have isBody : (system host).program (.submitTask task capability now none) =
              (submitTask task capability now none).bind fun _ => .done () := rfl
          exact (Session.call (.submit task capability now clock) isBody).bind fun _ => .done _
      | schedule task every firstAt capability =>
          exact (addInterval_session _ _ _ _ _ identifier).bind fun _ => .done _
      | remember content kind salience =>
          have isBody : (system host).program (.addMemory kind content salience now) =
              (addMemory kind content salience now).proc.bind fun _ => .done () := rfl
          exact (Session.call (.remember content kind salience now clock) isBody).bind
            fun _ => .done _
      | status =>
          exact (HostOp.perform_session .countRuns trivial).bind fun _ =>
            (HostOp.perform_session .countPending trivial).bind fun _ => .done _
      | runOnce args =>
          simp only [Command.program, Program.bind_eq_bind]
          cases built : runtime args with
          | error exc => exact .raise _
          | ok engine =>
              exact (cycle_session (.occurrence rfl) (.work ⟨built, rfl⟩)).bind fun _ => .done _
      | daemon args pollSeconds =>
          simp only [Command.program, Program.bind_eq_bind]
          cases built : runtime args with
          | error exc => exact .raise _
          | ok engine =>
              exact (runForever_session (.occurrence rfl)
                fun time member => .work ⟨built, member⟩).bind fun _ => .done _

/-! ### Refinement -/

/-- A step of the kernel that a run of daemons accounts for: a call that one of the started
processes makes, or an answer that one of them got. -/
def ServedBy (allowed : DaemonConfig → Label Answer DaemonCall → Prop) :
    KernelConfig → Label Answer Call → Prop := fun _ label =>
  label.Within (fun call => ∃ config daemon, allowed config (.spawn daemon) ∧ daemon.Makes call)
    fun answer => ∃ config pid, allowed config (.act pid answer)

/-- The kernel under a configuration of daemons. -/
abbrev Served (host : Host) (allowed : DaemonConfig → Label Answer DaemonCall → Prop)
    (config : DaemonConfig) (base : KernelConfig) (place : Nat → Option Nat) : Prop :=
  Matched (system host) HostOp.own
    (fun call => ∃ config daemon, allowed config (.spawn daemon) ∧ daemon.Makes call)
    ScheduleWorld.world config base place

variable {allowed : DaemonConfig → Label Answer DaemonCall → Prop} {config config' : DaemonConfig}

/-- A run of daemons is a run of the kernel's calls that they make. -/
theorem Served.run {base : KernelConfig} {place : Nat → Option Nat}
    (served : Served host allowed config base place)
    (later : (daemons host).Reachable allowed config config') :
    ∃ base' place', (system host).Reachable (ServedBy allowed) base base' ∧
      Served host allowed config' base' place' := by
  let hears (answer : Answer) := ∃ config pid, allowed config (.act pid answer)
  refine Matched.run (hosting_extends host) ?_ ?_ served later
  · intro config daemon admitted
    exact (daemonCall_session host daemon).mono fun call makes => ⟨config, daemon, admitted, makes⟩
  · intro config pid answer admitted
    exact (⟨config, pid, admitted⟩ : hears (id answer))

theorem served_initial (host : Host) (allowed : DaemonConfig → Label Answer DaemonCall → Prop) :
    Served host allowed DaemonConfig.initial KernelConfig.initial fun _ => none :=
  Matched.initial ScheduleWorld.initial

/-- Between two states of daemons the kernel goes through a run of its own calls, which they
make. -/
structure DaemonsRefine (host : Host) (allowed : DaemonConfig → Label Answer DaemonCall → Prop)
    (config config' : DaemonConfig) (base base' : KernelConfig) : Prop where
  reached : (system host).Reachable (ServedBy allowed) KernelConfig.initial base
  moves : (system host).Reachable (ServedBy allowed) base base'
  shows : base.world = config.world.world
  then_shows : base'.world = config'.world.world

/-- Whatever daemons, command lines, schedulers and hosts do on one database, and wherever they
die, the kernel's state takes only steps that its own calls take one by one. -/
theorem daemons_refine (host : Host) (allowed : DaemonConfig → Label Answer DaemonCall → Prop)
    (config config' : DaemonConfig)
    (reached : (daemons host).Reachable allowed DaemonConfig.initial config)
    (later : (daemons host).Reachable allowed config config') :
    ∃ base base', DaemonsRefine host allowed config config' base base' := by
  obtain ⟨base, place, first, served⟩ := (served_initial host allowed).run reached
  obtain ⟨base', place', second, served'⟩ := served.run later
  exact ⟨base, base', first, second, served.world, served'.world⟩

/-- A command line adds a schedule, and a daemon emits its first occurrence. -/
def rentEmitted : List (Label Answer DaemonCall) :=
  [.spawn (.main (.schedule "pay the rent" 60 (some 0) ["money"]) 0 []), .act 0 .quiet,
    .act 0 .quiet, .spawn (.cycle (payEngine "a") 5), .act 1 .quiet, .act 1 .quiet,
    .act 1 .quiet, .act 1 .quiet, .act 1 .quiet, .act 1 .quiet]

set_option maxRecDepth 10000 in
/-- The cycle goes on to make the run of that occurrence. -/
theorem daemons_refine_rent :
    ∃ config config' base base',
      (daemons plainHost).Reachable (fun _ _ => true = true) DaemonConfig.initial config ∧
      (daemons plainHost).Reachable (fun _ _ => true = true) config config' ∧
      config.world.world.db.runs.rows = [] ∧
      config'.world.world.db.runs.rows.map RunRow.task = ["pay the rent"] ∧
      DaemonsRefine plainHost (fun _ _ => true = true) config config' base base' := by
  have ran : ((daemons plainHost).run (fun _ _ => true) DaemonConfig.initial rentEmitted).any
      (fun config => decide (config.world.world.db.runs.rows = []) &&
        ((daemons plainHost).run (fun _ _ => true) config [.act 1 .quiet, .act 1 .quiet]).any
          fun config' => decide
            (config'.world.world.db.runs.rows.map RunRow.task = ["pay the rent"])) = true := by
    decide +kernel
  obtain ⟨config, config', reached, later, emitted, made⟩ :=
    System.Reachable.exists_of_run_then _ _ ran
  obtain ⟨base, base', refines⟩ := daemons_refine plainHost _ config config' reached later
  exact ⟨config, config', base, base', reached, later, of_decide_eq_true emitted,
    of_decide_eq_true made, refines⟩

end PreActive.Kernel
