/-
Programs: a rule in postfix order. A call stands for one value; an operator takes the two values before it.

- `operandCount_add_operatorCount`: every instruction is a call or an operator.
- `depth_append`: how many values stand ready after a program in two parts.
- `names_nodup`: the names of a program are listed once each.
-/
import AccessRules.Distinct
import AccessRules.Token

namespace AccessRules

/-! ## Instructions -/

/-- the two operators; they bind equally strongly -/
inductive Operator where
  | and
  | or
deriving DecidableEq, Inhabited

namespace Operator

/-- the value of two operands under an operator -/
def apply : Operator → Bool → Bool → Bool
  | .and, left, right => left && right
  | .or, left, right => left || right

/-- the word of an operator -/
def text : Operator → String
  | .and => "and"
  | .or => "or"

/-- the operator a token stands for -/
def ofToken? (t : Token) : Option Operator :=
  if t.is "and" then some .and else if t.is "or" then some .or else none

theorem ofToken?_text (op : Operator) : ofToken? (.str op.text) = some op := by
  cases op <;> decide

end Operator

/-- a run of tokens that belong together; never empty, for it has a receiver -/
structure Call where
  receiver : Token
  rest : List Token
deriving DecidableEq, Inhabited

namespace Call

/-- the call of a run of tokens, unless there are none -/
def ofTokens? : List Token → Option Call
  | [] => none
  | receiver :: rest => some ⟨receiver, rest⟩

/-- the run of tokens of a call -/
def tokens (c : Call) : List Token := c.receiver :: c.rest

/-- the second token -/
def operation? (c : Call) : Option Token := c.rest.head?

/-- the tokens from the third on -/
def params (c : Call) : List Token := c.rest.tail

/-- tokens in brackets with blanks between them -/
def text (c : Call) : String := "(" ++ String.intercalate " " (c.tokens.map Token.text) ++ ")"

/-- the text tokens that are looked up in a binding: the receiver and the parameters, not the operation -/
def names (c : Call) : List String := (c.receiver :: c.params).filterMap Token.str?

theorem ofTokens?_tokens (c : Call) : ofTokens? c.tokens = some c := rfl

theorem tokens_of_ofTokens? {ts : List Token} {c : Call} (h : ofTokens? ts = some c) : c.tokens = ts := by
  cases ts with
  | nil => cases h
  | cons t ts => rw [← Option.some.inj h]; rfl

end Call

/-- one step of a program -/
inductive Instruction where
  | operator (op : Operator)
  | call (c : Call)
deriving DecidableEq, Inhabited

namespace Instruction

/-- how an instruction is written -/
def text : Instruction → String
  | .operator op => op.text
  | .call c => c.text

/-- the instruction puts a value of its own -/
def isOperand : Instruction → Bool
  | .operator _ => false
  | .call _ => true

/-- the names of a call, none of an operator -/
def names : Instruction → List String
  | .operator _ => []
  | .call c => c.names

end Instruction

/-! ## Programs -/

/-- a rule in postfix order -/
structure Program where
  instructions : List Instruction
deriving DecidableEq, Inhabited

namespace Program

/-- instructions with blanks between them -/
def text (p : Program) : String := String.intercalate " " (p.instructions.map Instruction.text)

/-- there are no instructions -/
def isEmpty (p : Program) : Bool := p.instructions.isEmpty

/-- number of instructions -/
def size (p : Program) : Nat := p.instructions.length

/-- number of calls -/
def operandCount (p : Program) : Nat := p.instructions.countP Instruction.isOperand

/-- number of operators -/
def operatorCount (p : Program) : Nat := p.instructions.countP fun i => !i.isOperand

/-- how many values stand ready after the instructions, `ready` of them before; none when an operator lacks its two -/
def depth : Nat → List Instruction → Option Nat
  | ready, [] => some ready
  | ready, .call _ :: rest => depth (ready + 1) rest
  | ready + 2, .operator _ :: rest => depth (ready + 1) rest
  | _, .operator _ :: _ => none

/-- every operator has its two values, and one value is left; or there are no instructions -/
def isWellFormed (p : Program) : Bool := depth 0 p.instructions = some (if p.isEmpty then 0 else 1)

/-- the names that a binding may give, in order of first appearance -/
def names (p : Program) : List String := distinct (p.instructions.flatMap Instruction.names)

theorem operandCount_add_operatorCount (p : Program) : p.operandCount + p.operatorCount = p.size := by
  simp only [operandCount, operatorCount, size]
  rw [List.length_eq_countP_add_countP Instruction.isOperand]
  simp

theorem depth_append (ready : Nat) (is js : List Instruction) :
    depth ready (is ++ js) = (depth ready is).bind fun d => depth d js := by
  induction is generalizing ready with
  | nil => rfl
  | cons i is ih =>
    cases i with
    | call c => exact ih _
    | operator op =>
      match ready with
      | 0 => rfl
      | 1 => rfl
      | ready + 2 => exact ih _

theorem names_nodup (p : Program) : p.names.Nodup := distinct_nodup _

end Program

end AccessRules
