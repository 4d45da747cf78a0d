/-
Module: PreActive.Foundation.Exclusive
Purpose: Processes of a kind that work one at a time: what one of them knows stays true as long as
  its own steps and those of processes of other kinds keep it.
Trusted boundary: none
Main exports: System.Reachable.exclusively
-/
import PreActive.Foundation.System

namespace PreActive.Foundation.System.Reachable

variable {F : Signature} {ε World Answer Call : Type} {S : System F ε World Answer Call}
variable {allowed : Config F ε World Call → Label Answer Call → Prop}
variable {start config : Config F ε World Call}

/-- A fact about the history of a busy process and the world: it holds when the process starts,
the process keeps it itself, and so does every process of another kind. -/
theorem exclusively {kind : Call → Prop} {K : Log F ε → World → Prop}
    (guarded : ∀ config call, allowed config (.spawn call) → kind call →
      ∀ process ∈ config.procs, ¬ Busy kind process)
    (initially : ∀ world, K [] world)
    (own : ∀ (config : Config F ε World Call) (pid : Nat) (call : Call) (op : F.Op)
      (next : Except ε (F.Result op) → Program F ε Unit) (log : Log F ε) (answer : Answer),
      Reachable S allowed start config →
      config.procs[pid]? = some ⟨call, .call op next, log, true⟩ → kind call →
      K log config.world →
        K (⟨op, (S.answer op answer config.world).1⟩ :: log) (S.answer op answer config.world).2)
    (others : ∀ (config : Config F ε World Call) (pid : Nat) (call : Call) (op : F.Op)
      (next : Except ε (F.Result op) → Program F ε Unit) (log : Log F ε) (answer : Answer),
      Reachable S allowed start config →
      config.procs[pid]? = some ⟨call, .call op next, log, true⟩ → ¬ kind call →
      ∀ known, K known config.world → K known (S.answer op answer config.world).2)
    (empty : start.procs = []) (reached : Reachable S allowed start config) :
    ∀ (pid : Nat) (process : Process F ε Call), config.procs[pid]? = some process →
      Busy kind process → K process.log config.world := by
  refine reached.invariant (I := fun config => ∀ (pid : Nat) (process : Process F ε Call),
    config.procs[pid]? = some process → Busy kind process → K process.log config.world) ?_ ?_
  · simp [empty]
  · intro config label config' before held _ stepped
    rcases step_cases stepped with
      ⟨call, rfl, rfl⟩ | ⟨pid, answer, call, op, next, log, rfl, found, rfl⟩ |
        ⟨pid, victim, rfl, found, rfl⟩
    · intro pid process there busy
      rcases Nat.lt_or_ge pid config.procs.length with inside | outside
      · rw [List.getElem?_append_left inside] at there
        exact held pid process there busy
      · rw [List.getElem?_append_right outside, List.getElem?_singleton] at there
        split at there
        · cases there
          exact initially _
        · cases there
    · intro other process there busy
      rw [List.getElem?_set] at there
      split at there
      · rename_i same
        subst same
        split at there
        · cases there
          exact own config pid call op next log answer before found busy.1
            (held pid _ found ⟨busy.1, rfl⟩)
        · cases there
      · rename_i apart
        refine others config pid call op next log answer before found ?_ _
          (held other process there busy)
        -- two busy processes of the kind would be one
        intro isKind
        exact apart (before.alone guarded empty pid other _ _ found there ⟨isKind, rfl⟩ busy)
    · intro other process there busy
      rw [List.getElem?_set] at there
      split at there
      · split at there
        · cases there
          exact absurd busy.2 (by simp)
        · cases there
      · exact held other process there busy

end PreActive.Foundation.System.Reachable
