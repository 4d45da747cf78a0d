/-
Module: PreActive.Kernel.Decisions
Purpose: The decision encoder and decoder agree.
Trusted boundary: none
Main exports: decodeDecision, decodeDecision_text
-/
import PreActive.Kernel.Engine

namespace PreActive.Kernel

open PreActive.Foundation PreActive.Python

/-- The text a decision is stored as. -/
def decisionText (response : ModelResponse) : String :=
  (decisionFromResponse response).text compactStyle

/-- What a worker makes of a stored decision: `get_run_step_decision`, then
`_response_from_decision`. -/
def decodeDecision (host : Host) (decisionJson : String) : Except Exc ModelResponse :=
  match loads decisionJson with
  | .error exc => .error exc
  | .ok value =>
      if value.isDict then responseFromDecision host value
      else .error (runtimeError "stored run step decision must be a JSON object")

/-- The decoder gives back exactly the response that was encoded. -/
theorem responseFromDecision_decisionFromResponse (host : Host) (response : ModelResponse) :
    responseFromDecision host (decisionFromResponse response).value = .ok response := by
  cases response with
  | toolCall call =>
      simp [responseFromDecision, decisionFromResponse, JsonObject.ofFields, PyVal.ofFields,
        PyVal.get?, PyVal.lookup, Host.str]
  | finalText text =>
      simp [responseFromDecision, decisionFromResponse, JsonObject.ofFields, PyVal.ofFields,
        PyVal.get?, PyVal.lookup]

/-- A decision survives storage. -/
theorem decodeDecision_text (host : Host) (response : ModelResponse) :
    decodeDecision host (decisionText response) = .ok response := by
  rw [decodeDecision, decisionText, JsonObject.loads_text]
  simp only [(decisionFromResponse response).isDict, if_true]
  exact responseFromDecision_decisionFromResponse host response

end PreActive.Kernel
