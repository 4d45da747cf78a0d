/-
Module: PreActive.Foundation.Turns
Purpose: Calls that are made one after another with nobody in between: they are a run of the
  system, and they come to rest when every call leaves less to do.
Trusted boundary: none
Main exports:
  System.turns, System.Returns, System.Reachable.undisturbed, System.Reachable.turns,
  System.turns_exhaust
-/
import PreActive.Foundation.System

namespace PreActive.Foundation

namespace System

variable {F : Signature} {ε World Answer Call : Type}

/-- The world after the first turns, each of which is one whole call. -/
def turns (S : System F ε World Answer Call) (calls : Nat → Call) (answers : Nat → F.Op → Answer)
    (start : World) : Nat → World
  | 0 => start
  | turn + 1 =>
      ((S.program (calls turn)).execute S.toMachine (answers turn)
        (turns S calls answers start turn)).2

/-- The call of a turn ends without an exception. -/
def Returns (S : System F ε World Answer Call) (calls : Nat → Call)
    (answers : Nat → F.Op → Answer) (start : World) (turn : Nat) : Prop :=
  ((S.program (calls turn)).execute S.toMachine (answers turn)
    (S.turns calls answers start turn)).1.isOk = true

instance (S : System F ε World Answer Call) (calls : Nat → Call) (answers : Nat → F.Op → Answer)
    (start : World) (turn : Nat) : Decidable (S.Returns calls answers start turn) :=
  inferInstanceAs (Decidable (_ = true))

variable {S : System F ε World Answer Call}

namespace Reachable

variable {allowed : Config F ε World Call → Label Answer Call → Prop}
variable {start : Config F ε World Call}

/-- A process that is alone from now on runs its program to the end. -/
theorem undisturbed (acts : ∀ config pid answer, allowed config (.act pid answer))
    (answers : F.Op → Answer) {config : Config F ε World Call} {pid : Nat} {call : Call}
    {program : Program F ε Unit} {log : Log F ε}
    (found : config.procs[pid]? = some ⟨call, program, log, true⟩) :
    ∃ config', Reachable S allowed config config' ∧
      config'.world = (program.execute S.toMachine answers config.world).2 := by
  induction program generalizing config log with
  | done value => exact ⟨config, .start, rfl⟩
  | raise error => exact ⟨config, .start, rfl⟩
  | call op next ih =>
      have stepped : S.step config (.act pid (answers op)) = some
          { world := (S.answer op (answers op) config.world).2
            procs := config.procs.set pid
              ⟨call, next (S.answer op (answers op) config.world).1,
                ⟨op, (S.answer op (answers op) config.world).1⟩ :: log, true⟩ } := by
        simp only [System.step, found]
      have bound : pid < config.procs.length := (List.getElem?_eq_some_iff.1 found).1
      obtain ⟨config', later, ends⟩ := @ih (S.answer op (answers op) config.world).1
        ⟨(S.answer op (answers op) config.world).2, _⟩ _ (List.getElem?_set_self bound)
      exact ⟨config', (Reachable.step .start (acts _ _ _) stepped).trans later, ends⟩

/-- Calls that are made one after another are a run of the system. -/
theorem turns {calls : Nat → Call} (spawns : ∀ config turn, allowed config (.spawn (calls turn)))
    (acts : ∀ config pid answer, allowed config (.act pid answer))
    (answers : Nat → F.Op → Answer) (start : Config F ε World Call) (turn : Nat) :
    ∃ config, Reachable S allowed start config ∧
      config.world = S.turns calls answers start.world turn := by
  induction turn with
  | zero => exact ⟨start, .start, rfl⟩
  | succ turn ih =>
      obtain ⟨config, before, shows⟩ := ih
      have spawned := Reachable.step before (spawns config turn) rfl
      let process : Process F ε Call := ⟨calls turn, S.program (calls turn), [], true⟩
      let config₁ : Config F ε World Call := ⟨config.world, config.procs ++ [process]⟩
      have found : config₁.procs[config.procs.length]? = some process := by simp [config₁]
      obtain ⟨config', later, ends⟩ := undisturbed acts (answers turn) found
      refine ⟨config', spawned.trans later, ?_⟩
      rw [ends, shows]
      rfl

end Reachable

variable {calls : Nat → Call} {answers : Nat → F.Op → Answer} {start : World}

/-- Calls leave less and less to do: if every turn that returns lowers the measure until
everything is finished, and nothing happens any more then, everything is finished after as many
returning turns as the measure counts. -/
theorem turns_exhaust (left : World → Nat) (ready : Nat → World → Prop) (finished : World → Prop)
    (nothing : ∀ world, left world = 0 → finished world)
    (lowers : ∀ turn world, ready turn world →
      ((S.program (calls turn)).execute S.toMachine (answers turn) world).1.isOk = true →
      finished world ∨
        left ((S.program (calls turn)).execute S.toMachine (answers turn) world).2 < left world ∧
        ready (turn + 1) ((S.program (calls turn)).execute S.toMachine (answers turn) world).2)
    (idle : ∀ turn world, finished world →
      ((S.program (calls turn)).execute S.toMachine (answers turn) world).2 = world)
    (initially : ready 0 start)
    (returns : ∀ turn < left start, S.Returns calls answers start turn) (turn : Nat)
    (enough : left start ≤ turn) :
    finished (S.turns calls answers start turn) := by
  have stays (turn later : Nat) (rests : finished (S.turns calls answers start turn)) :
      finished (S.turns calls answers start (turn + later)) := by
    induction later with
    | zero => exact rests
    | succ later ih =>
        have same : S.turns calls answers start (turn + later + 1) = _ := idle _ _ ih
        rw [Nat.add_succ, same]
        exact ih
  -- as long as there is something to do, every turn has lowered the measure by one at least
  have lowered (turn : Nat) : turn ≤ left start →
      finished (S.turns calls answers start turn) ∨
        left (S.turns calls answers start turn) + turn ≤ left start ∧
          ready turn (S.turns calls answers start turn) := by
    induction turn with
    | zero => exact fun _ => .inr ⟨Nat.le_refl _, initially⟩
    | succ turn ih =>
        intro within
        rcases ih (by omega) with rests | ⟨less, isReady⟩
        · exact .inl (stays turn 1 rests)
        · rcases lowers turn _ isReady (returns turn (by omega)) with rests | ⟨fewer, stillReady⟩
          · exact .inl (stays turn 1 rests)
          · exact .inr ⟨by rw [turns]; omega, stillReady⟩
  have atLast : finished (S.turns calls answers start (left start)) := by
    rcases lowered (left start) (Nat.le_refl _) with rests | ⟨less, _⟩
    · exact rests
    · exact nothing _ (by omega)
  have whole := stays (left start) (turn - left start) atLast
  rwa [Nat.add_sub_cancel' enough] at whole

end System

end PreActive.Foundation
