/-
Module: PreActive.Foundation.Trace
Purpose: What is left of a program after a history, and how the calls of a system have ended.
Trusted boundary: none
Main exports: Program.After, Program.After.ends, System.Reachable.after, System.Reachable.ended,
  Config.logOf, System.step_logs
-/
import PreActive.Foundation.System

namespace PreActive.Foundation

namespace Program

variable {F : Signature} {ε α β : Type}

/-- After the operations of a log, with the results recorded there, this much of the program is
left. -/
inductive After (program : Program F ε α) : Log F ε → Program F ε α → Prop where
  | start : After program [] program
  | step {log : Log F ε} {op : F.Op} {next : Except ε (F.Result op) → Program F ε α}
      (before : After program log (.call op next)) (result : Except ε (F.Result op)) :
      After program (⟨op, result⟩ :: log) (next result)

/-- The program has ended with an outcome. -/
def Ended (program : Program F ε α) (log : Log F ε) (outcome : Except ε α) : Prop :=
  program.After log (ofExcept outcome)

namespace After

variable {program rest : Program F ε α} {log : Log F ε}

/-- What is left of a program that obeys a rule obeys it after the log. -/
theorem obeys {rule : Log F ε → F.Op → Prop} {post : Log F ε → Except ε α → Prop}
    (after : program.After log rest) (obeys : program.Obeys rule post []) :
    rest.Obeys rule post log := by
  induction after with
  | start => exact obeys
  | step before result ih => exact ih.tail result

/-- A program that has ended satisfies what its rule says of the outcome. -/
theorem ends {rule : Log F ε → F.Op → Prop} {post : Log F ε → Except ε α → Prop}
    {outcome : Except ε α} (ended : program.Ended log outcome) (obeys : program.Obeys rule post []) :
    post log outcome := by
  have rest := After.obeys ended obeys
  cases outcome <;> exact rest

/-- A sequence whose last part only drops the value ends where its first part does. -/
theorem of_discard {rest : Program F ε Unit}
    (after : (program.bind fun _ => (.done () : Program F ε Unit)).After log rest) :
    ∃ first, program.After log first ∧ rest = first.bind fun _ => .done () := by
  induction after with
  | start => exact ⟨program, .start, rfl⟩
  | @step log op next before result ih =>
      obtain ⟨first, after, bound⟩ := ih
      cases first with
      | done value => cases bound
      | raise error => cases bound
      | call op' next' =>
          rw [call_bind] at bound
          cases bound
          exact ⟨next' result, .step after result, rfl⟩

end After

end Program

namespace System.Reachable

variable {F : Signature} {ε World Answer Call : Type} {S : System F ε World Answer Call}
variable {allowed : Config F ε World Call → Label Answer Call → Prop}
variable {start config : Config F ε World Call}

/-- What a process has left is what its program has left after the history of the process. -/
theorem after (empty : start.procs = []) (reached : Reachable S allowed start config) :
    ∀ process ∈ config.procs, (S.program process.call).After process.log process.rest := by
  refine reached.invariant (I := fun config => ∀ process ∈ config.procs,
    (S.program process.call).After process.log process.rest) ?_ ?_
  · simp [empty]
  · intro config label config' _ held _ stepped
    rcases step_cases stepped with
      ⟨call, rfl, rfl⟩ | ⟨pid, answer, call, op, next, log, rfl, found, rfl⟩ |
        ⟨pid, process, rfl, found, rfl⟩
    · intro process member
      rcases List.mem_append.1 member with old | fresh
      · exact held process old
      · rw [List.mem_singleton] at fresh
        exact fresh ▸ .start
    · intro process member
      rcases mem_set_cases member with old | rfl
      · exact held process old
      · exact .step (held _ (List.mem_of_getElem? found)) _
    · intro process' member
      rcases mem_set_cases member with old | rfl
      · exact held process' old
      · have running := held process (List.mem_of_getElem? found)
        exact running

/-- A live process that discards the value of a program and has nothing left to do has ended that
program. -/
theorem ended {α : Type} {program : Program F ε α} {process : Process F ε Call}
    (empty : start.procs = []) (reached : Reachable S allowed start config)
    (member : process ∈ config.procs)
    (runs : S.program process.call = program.bind fun _ => .done ())
    (alive : process.alive = true) (idle : process.nextOp = none) :
    ∃ outcome, program.Ended process.log outcome := by
  have after := reached.after empty process member
  rw [runs] at after
  obtain ⟨first, left, same⟩ := after.of_discard
  cases first with
  | done value => exact ⟨.ok value, left⟩
  | raise error => exact ⟨.error error, left⟩
  | call op next =>
      rw [Program.call_bind] at same
      rw [Process.nextOp, alive, same] at idle
      cases idle

end System.Reachable

/-! ### Histories by process -/

section Logs

variable {F : Signature} {ε World Answer Call : Type} {S : System F ε World Answer Call}

/-- What the process with this number has done; nothing, if there is none. -/
def Config.logOf (config : Config F ε World Call) (pid : Nat) : Log F ε :=
  ((config.procs[pid]?).map Process.log).getD []

theorem Config.logOf_of_found {config : Config F ε World Call} {pid : Nat}
    {process : Process F ε Call} (found : config.procs[pid]? = some process) :
    config.logOf pid = process.log := by
  simp [Config.logOf, found]

/-- A step adds one entry to the history of one process, or none to any. -/
theorem System.step_logs {config config' : Config F ε World Call} {label : Label Answer Call}
    (stepped : S.step config label = some config') :
    (config'.world = config.world ∧ ∀ pid, config'.logOf pid = config.logOf pid) ∨
    ∃ pid answer call op next log,
      label = .act pid answer ∧
      config.procs[pid]? = some ⟨call, .call op next, log, true⟩ ∧
      config'.world = (S.answer op answer config.world).2 ∧
      config'.logOf pid = ⟨op, (S.answer op answer config.world).1⟩ :: config.logOf pid ∧
      ∀ other, other ≠ pid → config'.logOf other = config.logOf other := by
  rcases step_cases stepped with
    ⟨call, rfl, rfl⟩ | ⟨pid, answer, call, op, next, log, rfl, found, rfl⟩ |
      ⟨pid, process, rfl, found, rfl⟩
  · refine .inl ⟨rfl, fun pid => ?_⟩
    simp only [Config.logOf]
    rcases Nat.lt_or_ge pid config.procs.length with inside | outside
    · rw [List.getElem?_append_left inside]
    · rw [List.getElem?_append_right outside, List.getElem?_singleton,
        List.getElem?_eq_none outside]
      split <;> rfl
  · refine .inr ⟨pid, answer, call, op, next, log, rfl, found, rfl, ?_, fun other apart => ?_⟩
    · obtain ⟨inside, _⟩ := List.getElem?_eq_some_iff.1 found
      rw [Config.logOf_of_found found, Config.logOf, List.getElem?_set_self inside]
      rfl
    · simp [Config.logOf, List.getElem?_set_ne (Ne.symm apart)]
  · refine .inl ⟨rfl, fun other => ?_⟩
    by_cases own : other = pid
    · subst own
      obtain ⟨inside, _⟩ := List.getElem?_eq_some_iff.1 found
      rw [Config.logOf_of_found found, Config.logOf, List.getElem?_set_self inside]
      rfl
    · simp [Config.logOf, List.getElem?_set_ne (Ne.symm own)]

end Logs

end PreActive.Foundation
