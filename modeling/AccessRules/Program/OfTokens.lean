/-
From tokens to a postfix program. `and` and `or` bind equally strongly and group to the left; brackets group
otherwise. Only brackets that do not match are refused: an operator without operands, or operands without an
operator, stay in the program for the evaluation to find.

The builder reads token by token. A run of plain tokens is one call and ends at an operator, a bracket or the end. An
operator waits until the next operator, closing bracket or end of its level; since none waits behind another on one
level, popping one is popping all.

- `ofTokens_nil`: no tokens, no instructions.
- `read_append`: reading in two parts is reading on from the first part's builder.
-/
import AccessRules.Program
import AccessRules.RuleError
import AccessRules.Token.Lexer

namespace AccessRules

/-! ## What a token does -/

/-- the part a token plays in the structure of a rule -/
inductive Role where
  | operator (op : Operator)
  | opening
  | closing
  | plain
deriving DecidableEq

/-- the part `t` plays: the texts `and`, `or`, `(` and `)` have their own, all other tokens are plain -/
def Token.role (t : Token) : Role :=
  match Operator.ofToken? t with
  | some op => .operator op
  | none => if t.is "(" then .opening else if t.is ")" then .closing else .plain

/-! ## The builder -/

/-- what waits for its place in the program -/
inductive Pending where
  | operator (op : Operator)
  | bracket
deriving DecidableEq

/-- a program in the making; each list has its newest member first -/
structure Builder where
  output : List Instruction
  pending : List Pending
  run : List Token
deriving DecidableEq

namespace Builder

/-- nothing read yet -/
def start : Builder := ⟨[], [], []⟩

/-- end the open run: its tokens, if any, become a call -/
def endRun (b : Builder) : Builder :=
  match Call.ofTokens? b.run.reverse with
  | some c => ⟨.call c :: b.output, b.pending, []⟩
  | none => b

/-- let the newest pending operator out, unless a bracket was opened after it -/
def releaseOperator (b : Builder) : Builder :=
  match b.pending with
  | .operator op :: rest => ⟨.operator op :: b.output, rest, b.run⟩
  | _ => b

/-- let operators out down to the newest open bracket, and close it -/
def closeLevel (output : List Instruction) : List Pending → Except Imbalance (List Instruction × List Pending)
  | [] => .error .tooManyClose
  | .bracket :: rest => .ok (output, rest)
  | .operator op :: rest => closeLevel (.operator op :: output) rest

/-- let all operators out, unless a bracket is still open -/
def closeAll (output : List Instruction) : List Pending → Except Imbalance (List Instruction)
  | [] => .ok output
  | .bracket :: _ => .error .missingClose
  | .operator op :: rest => closeAll (.operator op :: output) rest

/-- read one token -/
def step (b : Builder) (t : Token) : Except Imbalance Builder :=
  match t.role with
  | .plain => .ok { b with run := t :: b.run }
  | .operator op =>
    let b := b.endRun.releaseOperator
    .ok { b with pending := .operator op :: b.pending }
  | .opening =>
    let b := b.endRun
    .ok { b with pending := .bracket :: b.pending }
  | .closing =>
    let b := b.endRun
    match closeLevel b.output b.pending with
    | .ok (output, pending) => .ok ⟨output, pending, b.run⟩
    | .error e => .error e

/-- read tokens one after another, up to the first closing bracket that matches none -/
def read : Builder → List Token → Except Imbalance Builder
  | b, [] => .ok b
  | b, t :: ts =>
    match b.step t with
    | .ok b => read b ts
    | .error e => .error e

/-- the program, once all tokens are read -/
def finish (b : Builder) : Except Imbalance Program :=
  let b := b.endRun
  match closeAll b.output b.pending with
  | .ok output => .ok ⟨output.reverse⟩
  | .error e => .error e

theorem read_append (b : Builder) (ts us : List Token) :
    b.read (ts ++ us) = match b.read ts with
      | .ok b => b.read us
      | .error e => .error e := by
  induction ts generalizing b with
  | nil => rfl
  | cons t ts ih =>
    simp only [List.cons_append, read]
    cases b.step t with
    | ok b => exact ih b
    | error e => rfl

end Builder

namespace Program

/-- the program of a token list -/
def ofTokens (ts : List Token) : Except Imbalance Program :=
  match Builder.start.read ts with
  | .ok b => b.finish
  | .error e => .error e

/-- the program of a rule text -/
def ofText (rule : String) : Except Imbalance Program := ofTokens (tokenize rule)

theorem ofTokens_nil : ofTokens [] = .ok ⟨[]⟩ := rfl

end Program

end AccessRules
