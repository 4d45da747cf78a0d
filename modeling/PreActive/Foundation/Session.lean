/-
Module: PreActive.Foundation.Session
Purpose: Processes that make whole calls of a system one after another, with operations of their
  own in between, and that such processes reach no state which the calls on their own do not reach.
Trusted boundary: none
Main exports:
  Signature.extend, Program.inside, Session, Session.bind, Session.attempt, Machine.Extends,
  Matched, Matched.step, Matched.run
-/
import PreActive.Foundation.System

namespace PreActive.Foundation

/-- The operations of a system together with operations of another kind. -/
abbrev Signature.extend (F E : Signature) : Signature where
  Op := F.Op ⊕ E.Op
  Result
    | .inl op => F.Result op
    | .inr op => E.Result op

namespace Program

variable {F E : Signature} {ε α β γ : Type}

/-- A program of a system, as a program of a larger one. -/
def inside (program : Program F ε α) : Program (F.extend E) ε α :=
  program.lift Sum.inl fun _ result => result

@[simp] theorem inside_done (value : α) :
    (Program.done value : Program F ε α).inside (E := E) = .done value := rfl

@[simp] theorem inside_raise (error : ε) :
    (Program.raise error : Program F ε α).inside (E := E) = .raise error := rfl

@[simp] theorem inside_call (op : F.Op) (next : Except ε (F.Result op) → Program F ε α) :
    (Program.call op next).inside (E := E) =
      .call (F := F.extend E) (.inl op) fun result => (next result).inside := by
  unfold inside
  rw [lift]
  congr 1
  funext result
  cases result <;> rfl

/-- What follows a captured outcome is captured with it. -/
theorem attempt_bind (first : Program F ε α) (next : Except ε α → Program F ε β) :
    (first.attempt.bind next).attempt = first.attempt.bind fun outcome => (next outcome).attempt := by
  induction first with
  | done value => rfl
  | raise error => rfl
  | call op rest ih =>
      simp only [call_attempt, call_bind]
      congr 1
      funext result
      exact ih result

/-- Capturing an outcome and passing it on does nothing. -/
theorem attempt_bind_ofExcept (program : Program F ε α) :
    program.attempt.bind ofExcept = program := by
  induction program with
  | done value => rfl
  | raise error => rfl
  | call op rest ih =>
      simp only [call_attempt, call_bind]
      congr 1
      funext result
      exact ih result

/-- Dropping a value that says nothing does nothing. -/
theorem bind_done (program : Program F ε Unit) : (program.bind fun _ => .done ()) = program := by
  induction program with
  | done value => rfl
  | raise error => rfl
  | call op rest ih =>
      rw [call_bind]
      congr 1
      funext result
      exact ih result

end Program

/-! ### Sessions -/

section Sessions

variable {F E : Signature} {ε V A W B Call : Type}

/-- A program that makes calls of a system, one at a time, and performs operations of its own in
between.  A call is made to its end or, when `after` has anything left to do, abandoned. -/
inductive Session (S : System F ε V A Call) (own : E.Op → Prop) (starts : Call → Prop) {α : Type} :
    Program (F.extend E) ε α → Prop where
  | done (value : α) : Session S own starts (.done value)
  | raise (error : ε) : Session S own starts (.raise error)
  | own {op : E.Op} {next : Except ε (E.Result op) → Program (F.extend E) ε α} (isOwn : own op)
      (rest : ∀ result, Session S own starts (next result)) :
      Session S own starts (.call (F := F.extend E) (.inr op) next)
  | calls {β : Type} {call : Call} {body : Program F ε β} {after : β → Program F ε Unit}
      {next : Except ε β → Program (F.extend E) ε α} (started : starts call)
      (isBody : S.program call = body.bind after)
      (rest : ∀ outcome, Session S own starts (next outcome)) :
      Session S own starts (body.inside.attempt.bind next)

namespace Session

variable {S : System F ε V A Call} {own : E.Op → Prop} {starts : Call → Prop} {α β : Type}

/-- More calls may be allowed. -/
theorem mono {starts' : Call → Prop} {program : Program (F.extend E) ε α}
    (session : Session S own starts program) (wider : ∀ call, starts call → starts' call) :
    Session S own starts' program := by
  induction session with
  | done value => exact .done value
  | raise error => exact .raise error
  | own isOwn _ ih => exact .own isOwn ih
  | calls started isBody _ ih => exact .calls (wider _ started) isBody ih

/-- A session followed by sessions. -/
theorem bind {first : Program (F.extend E) ε α} {next : α → Program (F.extend E) ε β}
    (session : Session S own starts first) (rest : ∀ value, Session S own starts (next value)) :
    Session S own starts (first.bind next) := by
  induction session with
  | done value => exact rest value
  | raise error => exact .raise error
  | own isOwn _ ih => exact .own isOwn ih
  | calls started isBody _ ih =>
      rw [Program.bind_assoc]
      exact .calls started isBody ih

/-- A session whose outcome is captured. -/
theorem attempt {program : Program (F.extend E) ε α} (session : Session S own starts program) :
    Session S own starts program.attempt := by
  induction session with
  | done value => exact .done _
  | raise error => exact .done _
  | own isOwn _ ih => exact .own isOwn ih
  | calls started isBody _ ih =>
      rw [Program.attempt_bind]
      exact .calls started isBody ih

theorem ofExcept (outcome : Except ε α) :
    Session S own starts (Program.ofExcept outcome : Program (F.extend E) ε α) := by
  cases outcome with
  | ok value => exact .done value
  | error error => exact .raise error

/-- One own operation. -/
theorem perform {op : E.Op} (isOwn : own op) :
    Session S own starts (Program.perform (F := F.extend E) (.inr op) : Program _ ε _) :=
  .own isOwn fun result => ofExcept result

/-- One call. -/
theorem call {call : Call} {body : Program F ε α} {after : α → Program F ε Unit}
    (started : starts call) (isBody : S.program call = body.bind after) :
    Session S own starts (body.inside (E := E)) := by
  rw [← Program.attempt_bind_ofExcept (body.inside (E := E))]
  exact .calls started isBody ofExcept

/-- The next operation of a session is one of its own, or the first one of its next call. -/
theorem next {op : (F.extend E).Op} {rest : Except ε ((F.extend E).Result op) → Program _ ε α}
    (session : Session S own starts (.call (F := F.extend E) op rest)) :
    (∃ mine, op = .inr mine ∧ own mine ∧ ∀ result, Session S own starts (rest result)) ∨
      ∃ (β : Type) (call : Call) (first : F.Op) (body : Except ε (F.Result first) → Program F ε β)
        (after : β → Program F ε Unit) (later : Except ε β → Program (F.extend E) ε α),
        starts call ∧ S.program call = (Program.call first body).bind after ∧
        Program.call (F := F.extend E) op rest =
          (Program.call first body).inside.attempt.bind later ∧
        ∀ outcome, Session S own starts (later outcome) := by
  generalize whole : Program.call (F := F.extend E) op rest = program at session
  induction session with
  | done value => cases whole
  | raise error => cases whole
  | own isOwn sessions _ =>
      cases whole
      exact .inl ⟨_, rfl, isOwn, sessions⟩
  | @calls β call body after later started isBody sessions ih =>
      cases body with
      | done value => exact ih _ whole
      | raise error => exact ih _ whole
      | call first body =>
          exact .inr ⟨β, call, first, body, after, later, started, isBody, rfl, sessions⟩

end Session

/-- A machine of the larger system answers the operations of the system as the system's own
machine does, and the other ones without touching what that machine works on. -/
structure Machine.Extends (base : Machine F ε V A) (machine : Machine (F.extend E) ε W B)
    (view : W → V) (heard : B → A) (own : E.Op → Prop) : Prop where
  result : ∀ (op : F.Op) answer world, (machine.answer (.inl op) answer world).1 =
    (base.answer op (heard answer) (view world)).1
  inner : ∀ (op : F.Op) answer world, view (machine.answer (.inl op) answer world).2 =
    (base.answer op (heard answer) (view world)).2
  outer : ∀ op, own op → ∀ answer world,
    view (machine.answer (.inr op) answer world).2 = view world

/-- A label that starts an allowed call or brings an allowed answer. -/
def Label.Within (starts : Call → Prop) (hears : A → Prop) : Label A Call → Prop
  | .spawn call => starts call
  | .act _ answer => hears answer
  | .die _ => True

/-- What is left of a session is about to make its next call, or is within the call that the
process at the place makes. -/
inductive Follows (S : System F ε V A Call) (own : E.Op → Prop) (starts : Call → Prop)
    (procs : List (Process F ε Call)) : Option Nat → Program (F.extend E) ε Unit → Prop where
  | between {rest : Program (F.extend E) ε Unit} (session : Session S own starts rest) :
      Follows S own starts procs none rest
  | within {β : Type} {pid : Nat} {call : Call} {log : Log F ε} {body : Program F ε β}
      {after : β → Program F ε Unit} {next : Except ε β → Program (F.extend E) ε Unit}
      (found : procs[pid]? = some ⟨call, body.bind after, log, true⟩)
      (rest : ∀ outcome, Session S own starts (next outcome)) :
      Follows S own starts procs (some pid) (body.inside.attempt.bind next)

theorem Follows.congr {S : System F ε V A Call} {own : E.Op → Prop} {starts : Call → Prop}
    {procs procs' : List (Process F ε Call)} {place : Option Nat}
    {rest : Program (F.extend E) ε Unit} (follows : Follows S own starts procs place rest)
    (same : ∀ pid, place = some pid → procs'[pid]? = procs[pid]?) :
    Follows S own starts procs' place rest := by
  cases follows with
  | between session => exact .between session
  | within found rest => exact .within ((same _ rfl).trans found) rest

/-- A configuration of the larger system next to one of the system: they show the same state, and
every live process is where `place` says. -/
structure Matched {Call' : Type} (S : System F ε V A Call) (own : E.Op → Prop)
    (starts : Call → Prop) (view : W → V) (config : Config (F.extend E) ε W Call')
    (base : Config F ε V Call) (place : Nat → Option Nat) : Prop where
  world : base.world = view config.world
  follows : ∀ index process, config.procs[index]? = some process → process.alive = true →
    Follows S own starts base.procs (place index) process.rest
  inside : ∀ index pid, place index = some pid → pid < base.procs.length
  apart : ∀ index other pid, place index = some pid → place other = some pid → index = other

namespace Matched

variable {Call' : Type} {S : System F ε V A Call} {T : System (F.extend E) ε W B Call'}
variable {own : E.Op → Prop} {starts : Call → Prop} {hears : A → Prop} {view : W → V}
variable {heard : B → A}
variable {config config' : Config (F.extend E) ε W Call'} {base : Config F ε V Call}
variable {place : Nat → Option Nat}

/-- Nothing is started yet. -/
theorem initial (world : W) :
    Matched S own starts view (⟨world, []⟩ : Config (F.extend E) ε W Call') ⟨view world, []⟩
      fun _ => none where
  world := rfl
  follows index process found := by simp at found
  inside _ _ placed := by cases placed
  apart _ _ _ placed := by cases placed

/-- One process and its place are replaced; the other processes stay where they are. -/
theorem replace (matched : Matched S own starts view config base place) (index : Nat)
    (fresh : Process (F.extend E) ε Call') (at' : Option Nat) {world : W}
    {base' : Config F ε V Call} (shows : base'.world = view world)
    (follows : fresh.alive = true → Follows S own starts base'.procs at' fresh.rest)
    (others : ∀ other pid, other ≠ index → place other = some pid →
      base'.procs[pid]? = base.procs[pid]?)
    (grows : base.procs.length ≤ base'.procs.length)
    (room : ∀ pid, at' = some pid → pid < base'.procs.length)
    (free : ∀ other pid, other ≠ index → place other = some pid → at' ≠ some pid)
    {procs : List (Process (F.extend E) ε Call')}
    (same : ∀ other, other ≠ index → procs[other]? = config.procs[other]?)
    (here : ∀ process, procs[index]? = some process → process = fresh) :
    Matched S own starts view ⟨world, procs⟩ base' (Function.update place index at') where
  world := shows
  follows other process found alive := by
    by_cases isIndex : other = index
    · subst isIndex
      obtain rfl := here process found
      rw [Function.update_self]
      exact follows alive
    · rw [Function.update_of_ne isIndex]
      rw [same other isIndex] at found
      exact (matched.follows other process found alive).congr fun pid placed =>
        others other pid isIndex placed
  inside other pid placed := by
    by_cases isIndex : other = index
    · subst isIndex
      rw [Function.update_self] at placed
      exact room pid placed
    · rw [Function.update_of_ne isIndex] at placed
      exact Nat.lt_of_lt_of_le (matched.inside other pid placed) grows
  apart one other pid isOne isOther := by
    by_cases first : one = index
    · by_cases second : other = index
      · exact first.trans second.symm
      · subst first
        rw [Function.update_self] at isOne
        rw [Function.update_of_ne second] at isOther
        exact absurd isOne (free other pid second isOther)
    · by_cases second : other = index
      · subst second
        rw [Function.update_self] at isOther
        rw [Function.update_of_ne first] at isOne
        exact absurd isOther (free one pid first isOne)
      · rw [Function.update_of_ne first] at isOne
        rw [Function.update_of_ne second] at isOther
        exact matched.apart one other pid isOne isOther

variable {op : (F.extend E).Op}
variable {rest : Except ε ((F.extend E).Result op) → Program (F.extend E) ε Unit}
variable {index : Nat} {call' : Call'} {log : Log (F.extend E) ε} {answer : B}

/-- The configuration after a process has acted. -/
private abbrev acted (T : System (F.extend E) ε W B Call')
    (config : Config (F.extend E) ε W Call') (index : Nat) (call' : Call') (op : (F.extend E).Op)
    (rest : Except ε ((F.extend E).Result op) → Program (F.extend E) ε Unit)
    (log : Log (F.extend E) ε) (answer : B) : Config (F.extend E) ε W Call' where
  world := (T.answer op answer config.world).2
  procs := config.procs.set index
    ⟨call', rest (T.answer op answer config.world).1,
      ⟨op, (T.answer op answer config.world).1⟩ :: log, true⟩

private theorem replaced (fresh : Process (F.extend E) ε Call')
    (process : Process (F.extend E) ε Call')
    (found : (config.procs.set index fresh)[index]? = some process) : process = fresh := by
  rw [List.getElem?_set_self'] at found
  cases there : config.procs[index]? with
  | none => simp [there] at found
  | some old =>
      rw [there] at found
      exact (Option.some.inj found).symm

/-- A process between two calls performs an operation of its own, or starts its next call. -/
private theorem step_between (extends_ : S.toMachine.Extends T.toMachine view heard own)
    (matched : Matched S own starts view config base place)
    (hearing : hears (heard answer))
    (session : Session S own starts (.call (F := F.extend E) op rest)) :
    ∃ base' place', S.Reachable (fun _ label => label.Within starts hears) base base' ∧
      Matched S own starts view (acted T config index call' op rest log answer) base' place' := by
  rcases session.next with ⟨mine, rfl, isOwn, sessions⟩ |
    ⟨β, call, first, body, after, later, started, isBody, whole, sessions⟩
  · refine ⟨base, _, .start, matched.replace index _ none ?_ (fun _ => .between (sessions _))
      (fun _ _ _ _ => rfl) (Nat.le_refl _) nofun (fun _ _ _ _ => nofun)
      (fun other isOther => List.getElem?_set_ne (Ne.symm isOther)) (replaced _)⟩
    exact matched.world.trans (extends_.outer mine isOwn answer config.world).symm
  · rw [Program.inside_call] at whole
    cases whole
    -- the call is started and performs its first operation
    let started' : Config F ε V Call :=
      { base with procs := base.procs ++ [⟨call, S.program call, [], true⟩] }
    have there : started'.procs[base.procs.length]? = some ⟨call, .call first fun result =>
        (body result).bind after, [], true⟩ := by
      simp [started', isBody]
    have acts : S.step started' (.act base.procs.length (heard answer)) = some
        { world := (S.answer first (heard answer) base.world).2
          procs := started'.procs.set base.procs.length
            ⟨call, (body (S.answer first (heard answer) base.world).1).bind after,
              [⟨first, (S.answer first (heard answer) base.world).1⟩], true⟩ } := by
      simp only [System.step, there]
      rfl
    have reached : S.Reachable (fun _ label => label.Within starts hears) base started' :=
      .step .start (show (Label.spawn call).Within starts hears from started) rfl
    refine ⟨_, _, .step reached
        (show (Label.act base.procs.length (heard answer)).Within starts hears from hearing) acts,
      matched.replace index _ (some base.procs.length) ?_ (fun _ => ?_) ?_ ?_ ?_ ?_
        (fun other isOther => List.getElem?_set_ne (Ne.symm isOther)) (replaced _)⟩
    · rw [matched.world]
      exact (extends_.inner first answer config.world).symm
    · change Follows S own starts _ _
        ((body (T.answer (.inl first) answer config.world).1).inside.attempt.bind later)
      rw [extends_.result, ← matched.world]
      have now : (started'.procs.set base.procs.length
          ⟨call, (body (S.answer first (heard answer) base.world).1).bind after,
            [⟨first, (S.answer first (heard answer) base.world).1⟩], true⟩)[base.procs.length]? =
          some _ := List.getElem?_set_self (by simp [started'])
      exact .within now sessions
    · intro other pid _ placed
      have before := matched.inside other pid placed
      rw [List.getElem?_set_ne (Nat.ne_of_gt before), List.getElem?_append_left before]
    · simp [started']
    · rintro pid ⟨⟩
      simp [started']
    · rintro other pid _ placed ⟨⟩
      exact absurd (matched.inside other _ placed) (Nat.lt_irrefl _)

/-- A process within a call performs its next operation there. -/
private theorem step_within (extends_ : S.toMachine.Extends T.toMachine view heard own)
    (matched : Matched S own starts view config base place) (hearing : hears (heard answer))
    {β : Type} {pid : Nat} {call : Call} {older : Log F ε} {first : F.Op}
    {body : Except ε (F.Result first) → Program F ε β}
    {after : β → Program F ε Unit} {later : Except ε β → Program (F.extend E) ε Unit}
    (placed : place index = some pid)
    (found : base.procs[pid]? = some ⟨call, (Program.call first body).bind after, older, true⟩)
    (whole : Program.call (F := F.extend E) op rest =
      (Program.call first body).inside.attempt.bind later)
    (sessions : ∀ outcome, Session S own starts (later outcome)) :
    ∃ base' place', S.Reachable (fun _ label => label.Within starts hears) base base' ∧
      Matched S own starts view (acted T config index call' op rest log answer) base' place' := by
  rw [Program.inside_call] at whole
  cases whole
  have acts : S.step base (.act pid (heard answer)) = some
      { world := (S.answer first (heard answer) base.world).2
        procs := base.procs.set pid
          ⟨call, (body (S.answer first (heard answer) base.world).1).bind after,
            ⟨first, (S.answer first (heard answer) base.world).1⟩ :: older, true⟩ } := by
    simp only [System.step, found, Program.call_bind]
  have inside := matched.inside index pid placed
  refine ⟨_, _, .step .start
      (show (Label.act pid (heard answer)).Within starts hears from hearing) acts,
    matched.replace index _ (some pid) ?_ (fun _ => ?_) ?_ ?_ ?_ ?_
      (fun other isOther => List.getElem?_set_ne (Ne.symm isOther)) (replaced _)⟩
  · rw [matched.world]
    exact (extends_.inner first answer config.world).symm
  · change Follows S own starts _ _
      ((body (T.answer (.inl first) answer config.world).1).inside.attempt.bind later)
    rw [extends_.result, ← matched.world]
    exact .within (List.getElem?_set_self inside) sessions
  · intro other pid' isOther placed'
    refine List.getElem?_set_ne fun same => isOther ?_
    exact matched.apart other index pid' placed' (same ▸ placed)
  · simp
  · rintro pid' ⟨⟩
    simpa using inside
  · rintro other pid' isOther placed' ⟨⟩
    exact isOther (matched.apart other index pid placed' placed)

/-- Every step of the larger system is matched by steps of the system. -/
theorem step (extends_ : S.toMachine.Extends T.toMachine view heard own)
    (matched : Matched S own starts view config base place) {label : Label B Call'}
    (spawned : ∀ call, label = .spawn call → Session S own starts (T.program call))
    (answered : ∀ pid answer, label = .act pid answer → hears (heard answer))
    (stepped : T.step config label = some config') :
    ∃ base' place', S.Reachable (fun _ label => label.Within starts hears) base base' ∧
      Matched S own starts view config' base' place' := by
  rcases System.step_cases stepped with
    ⟨call, rfl, rfl⟩ | ⟨index, answer, call, op, next, log, rfl, found, rfl⟩ |
      ⟨index, process, rfl, found, rfl⟩
  · refine ⟨base, _, .start, matched.replace config.procs.length
      ⟨call, T.program call, [], true⟩ none matched.world
      (fun _ => .between (spawned call rfl)) (fun _ _ _ _ => rfl) (Nat.le_refl _) nofun
      (fun _ _ _ _ => nofun) ?_ ?_⟩
    · intro other isOther
      rw [List.getElem?_append, List.getElem?_singleton]
      split
      · rfl
      · rw [if_neg (by omega), eq_comm, List.getElem?_eq_none_iff]
        omega
    · intro process found
      simp at found
      exact found.symm
  · have hearing := answered index answer rfl
    have follows := matched.follows index _ found rfl
    generalize at_ : place index = at' at follows
    generalize whole : Program.call (F := F.extend E) op next = rest at follows
    cases follows with
    | between session =>
        subst whole
        exact matched.step_between extends_ hearing session
    | @within β pid call older body after later there sessions =>
        cases body with
        | done value =>
            have session := sessions (.ok value)
            exact matched.step_between extends_ hearing (whole ▸ session)
        | raise error =>
            have session := sessions (.error error)
            exact matched.step_between extends_ hearing (whole ▸ session)
        | call first body =>
            exact matched.step_within extends_ hearing at_ there whole sessions
  · refine ⟨base, _, .start, matched.replace index
      { process with alive := false } none matched.world nofun
      (fun _ _ _ _ => rfl) (Nat.le_refl _) nofun (fun _ _ _ _ => nofun)
      (fun other isOther => List.getElem?_set_ne (Ne.symm isOther)) (replaced _)⟩

/-- Every run of the larger system is matched by a run of the system: it reaches no state of the
world that the calls on their own do not reach. -/
theorem run {allowed : Config (F.extend E) ε W Call' → Label B Call' → Prop}
    (extends_ : S.toMachine.Extends T.toMachine view heard own)
    (spawned : ∀ config call, allowed config (.spawn call) → Session S own starts (T.program call))
    (answered : ∀ config pid answer, allowed config (.act pid answer) → hears (heard answer))
    (matched : Matched S own starts view config base place)
    (reached : T.Reachable allowed config config') :
    ∃ base' place', S.Reachable (fun _ label => label.Within starts hears) base base' ∧
      Matched S own starts view config' base' place' := by
  induction reached with
  | start => exact ⟨base, place, .start, matched⟩
  | step _ admitted stepped ih =>
      obtain ⟨middle, place', first, matched'⟩ := ih
      obtain ⟨base', place'', second, matched''⟩ := matched'.step extends_
        (fun call same => spawned _ call (same ▸ admitted))
        (fun pid answer same => answered _ pid answer (same ▸ admitted)) stepped
      exact ⟨base', place'', first.trans second, matched''⟩

end Matched

end Sessions

end PreActive.Foundation
