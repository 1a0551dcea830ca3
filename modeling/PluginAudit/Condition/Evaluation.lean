import PluginAudit.Condition.Expression
import PluginAudit.Condition.Function

/-!
# Evaluating a condition

The literals of a condition are masked and its calls found and answered one after the other; the
result of each is written in place of every occurrence of its text, and what is left is read as a
boolean expression. Whatever is wrong inside is reported as a fault of the condition.
-/

namespace PluginAudit.Condition

open Host

/-- Answers the calls one after the other, writing their results into the text. -/
def answerCalls (dirs : Directories) (context : Option Package) (text : List Char) :
    List FunctionCall → Inspection (List Char)
  | [] => return text
  | call :: calls => do
    let parsed ← Inspection.ofFault (Call.read call.function call.rawArgs)
    let result ← parsed.holds dirs context
    Inspection.report (.called call.function.name (String.ofList call.rawArgs) result)
    let word := (if result then "True" else "False").toList
    answerCalls dirs context (Text.replaceAll call.callText word text) calls

/-- The truth value of a condition, its faults not yet named after it. -/
def evaluateBody (dirs : Directories) (context : Option Package) (condition : String) :
    Inspection Bool := do
  let masked := Literal.mask condition.toList
  let text ← answerCalls dirs context masked.text (FunctionCall.findAll masked)
  let result ← Inspection.ofFault (Expression.evalText (String.ofList text))
  Inspection.report (.evaluated (String.ofList text) result)
  return result

/-- The truth value of a condition, perhaps in the metadata of a plugin. -/
def evaluate (dirs : Directories) (context : Option Package) (condition : String) :
    Inspection Bool := do
  Inspection.report (.evaluating condition (context.map (·.name)))
  tryCatch (evaluateBody dirs context condition) fun
    | .condition f => Inspection.refuse (.inCondition condition f)
    | f => throw f

end PluginAudit.Condition
