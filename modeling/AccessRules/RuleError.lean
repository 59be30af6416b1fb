/-
Why a rule has no answer, and how that is said.

- `isSyntactic` marks the two causes that lie in the rule alone: unbalanced brackets and an operator without operands.
-/
import AccessRules.Arity

namespace AccessRules

/-- how the brackets of a rule fail to match -/
inductive Imbalance where
  | tooManyClose
  | missingClose
deriving DecidableEq, Inhabited

/-- how an imbalance is written -/
def Imbalance.text : Imbalance → String
  | .tooManyClose => "too many closing brackets"
  | .missingClose => "missing closing bracket"

/-- the causes for which a rule is not decided -/
inductive RuleError where
  /-- the brackets do not match -/
  | unbalanced (cause : Imbalance)
  /-- a receiver that names nothing in the binding -/
  | unbound (name : String)
  /-- the receiver has no such operation -/
  | unsupported (receiver operation : String)
  /-- the operation takes another number of arguments -/
  | arity (receiver operation : String) (fault : Arity.Fault)
  /-- the operation ran and failed -/
  | failed (receiver operation message : String)
  /-- an operator has fewer than two values before it -/
  | missingOperand
deriving DecidableEq, Inhabited

namespace RuleError

/-- a name between double quotes, as messages show it -/
def named (name : String) : String := "\"" ++ name ++ "\""

/-- the message of an error -/
def message : RuleError → String
  | .unbalanced cause => "Unbalanced brackets: " ++ cause.text
  | .unbound name => "Object " ++ named name ++ " not found in the binding"
  | .unsupported receiver operation => "Object " ++ named receiver ++ " has no operation " ++ named operation
  | .arity receiver operation fault =>
    fault.text ++ " parameters for operation " ++ named operation ++ " on " ++ named receiver
  | .failed receiver operation message =>
    "Operation " ++ named operation ++ " on " ++ named receiver ++ " failed: " ++ message
  | .missingOperand => "Missing expression for boolean operator"

/-- the fault lies in how the rule is written -/
def isSyntactic : RuleError → Bool
  | .unbalanced _ => true
  | .missingOperand => true
  | _ => false

end RuleError

end AccessRules
