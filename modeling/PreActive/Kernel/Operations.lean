/-
Module: PreActive.Kernel.Operations
Purpose: What one process does in one atomic step, and how the shared world answers it.
Trusted boundary: human-reviewed spec
Main exports: Op, Fault, Answer, kernel, kernelMachine, Proc, Sql.proc, Op.perform
-/
import PreActive.Kernel.Store

namespace PreActive.Kernel

open PreActive.Foundation PreActive.Python

/-- One entry of the list the model is shown. -/
structure Message where
  role : Role
  content : String
deriving DecidableEq

/-- The atomic steps of a process: an autocommitted statement, a transaction, the model or a
handler.  `enterExecute` marks that `tools.execute` is entered and changes nothing. -/
inductive Op where
  | sql (stmt : Stmt)
  | transaction (block : Transaction)
  | enterExecute (call : ToolCall) (allowedCapabilities : List String)
  | respond (messages : List Message) (tools : List ToolSpec)
  | handler (call : HandlerCall)

@[reducible] def Op.Result : Op → Type
  | sql stmt => stmt.Result
  | transaction block => block.Result
  | enterExecute .. => Unit
  | respond .. => ModelResponse
  | handler _ => PyVal

/-- What may go wrong in a database step besides the constraints: `sqlite3.OperationalError`, or
a signal that arrives before the step has done anything. -/
inductive Fault where
  | operational (text : String)
  | keyboardInterrupt
  | systemExit

def Fault.exc : Fault → Exc
  | operational text => ⟨.operationalError, text⟩
  | keyboardInterrupt => ⟨.keyboardInterrupt, ""⟩
  | systemExit => ⟨.systemExit, ""⟩

/-- What the outside contributes to one step: a fault of the database, the reply of the model,
the outcome of a handler. -/
structure Answer where
  fault : Option Fault
  response : Except Exc ModelResponse
  output : Except Exc PyVal

abbrev kernel : Signature where
  Op := Op
  Result := Op.Result

/-- A faulty database step changes nothing; a handler is invoked however it ends. -/
def Op.answer (host : Host) : (op : Op) → Answer → World → Except Exc op.Result × World
  | sql stmt, answer, world =>
      match answer.fault with
      | some fault => (.error fault.exc, world)
      | none => stmt.exec host world
  | transaction block, answer, world =>
      match answer.fault with
      | some fault => (.error fault.exc, world)
      | none => block.exec host world
  | enterExecute .., _, world => (.ok (), world)
  | respond .., answer, world => (answer.response, world)
  | handler call, answer, world =>
      (answer.output, { world with calls := world.calls ++ [⟨call, answer.output⟩] })

def kernelMachine (host : Host) : Machine kernel Exc World Answer where
  answer := Op.answer host

/-- A program of one process. -/
abbrev Proc (α : Type) := Program kernel Exc α

/-- Statements that are autocommitted one by one. -/
def Sql.proc {α : Type} (sql : Sql α) : Proc α :=
  Program.lift (F := stmtSignature) (G := kernel) Op.sql (fun _ result => result) sql

def Op.perform (op : Op) : Proc op.Result := Program.perform (F := kernel) op

def Transaction.perform (transaction : Transaction) : Proc transaction.Result :=
  (Op.transaction transaction).perform

end PreActive.Kernel
