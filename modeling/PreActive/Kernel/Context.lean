/-
Module: PreActive.Kernel.Context
Purpose: `ContextAssembler.build`, the bounded list of messages the model is shown.
Trusted boundary: human-reviewed spec
Main exports: ContextAssembler, ContextAssembler.build
-/
import PreActive.Kernel.Operations

namespace PreActive.Kernel

open PreActive.Foundation PreActive.Python

structure ContextAssembler where
  maxChars : Int
  memoryLimit : Int

namespace ContextAssembler

/-- `sum(len(item["content"]) for item in messages)` -/
def contentLength (messages : List Message) : Int :=
  (messages.map fun message => (message.content.length : Int)).sum

/-- The loop that pops trailing messages; the list is held last message first. -/
def popOptional (maxChars : Int) : List Message → Int → List Message × Int
  | dropped :: user :: system :: rest, total =>
      if maxChars < total then
        popOptional maxChars (user :: system :: rest) (total - (dropped.content.length + 1))
      else (dropped :: user :: system :: rest, total)
  | messages, total => (messages, total)

/-- `text[:allowance]` for a non-negative allowance. -/
def cut (allowance : Int) (text : String) : String :=
  String.ofList (text.toList.take allowance.toNat)

/-- `_trim_required` -/
def trimRequired (context : ContextAssembler) (messages : List Message) : List Message :=
  let total := contentLength messages + max 0 ((messages.length : Int) - 1)
  if total ≤ context.maxChars then messages
  else
    let (reversed, total) := popOptional context.maxChars messages.reverse total
    match reversed.reverse with
    | system :: user :: rest =>
        if context.maxChars < total then
          let allowance := max 0 (context.maxChars - system.content.length - 1)
          system :: { user with content := cut allowance user.content } :: rest
        else system :: user :: rest
    | trimmed => trimmed

/-- The heading of the memory message. -/
def memoryHeading : String := "Relevant durable memory:\n"

/-- The loop that selects the memories that still fit. -/
def selectLines : List MemoryRow → List String → Int → List String
  | [], selected, _ => selected
  | memory :: rest, selected, remaining =>
      let line := "[" ++ memory.kind ++ "] " ++ pyStrip memory.content
      let headingCost : Int := if selected = [] then memoryHeading.length else 0
      let cost : Int := headingCost + line.length + (if selected = [] then 0 else 1)
      if cost ≤ remaining then selectLines rest (selected ++ [line]) (remaining - cost)
      else selectLines rest selected remaining

def build (context : ContextAssembler) (host : Host) (systemPrompt task query : String) :
    Proc (List Message) :=
  let messages : List Message := [⟨.system, pyStrip systemPrompt⟩, ⟨.user, pyStrip task⟩]
  let used := contentLength messages + 1
  let remaining := max 0 (context.maxChars - used - 1)
  if remaining ≤ 0 then .done (context.trimRequired messages)
  else do
    let memories ← (searchMemories host query context.memoryLimit).proc
    let selected := selectLines memories [] remaining
    if selected = [] then return context.trimRequired messages
    else
      let memory : Message := ⟨.system, memoryHeading ++ pyJoin "\n" selected⟩
      return context.trimRequired (messages ++ [memory])

end ContextAssembler

end PreActive.Kernel
