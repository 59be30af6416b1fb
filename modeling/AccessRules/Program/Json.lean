/-
Programs as JSON. A program is an array of instructions; an operator is its word, a call the array of its tokens.
Since a call is an array even when it has one token, a call of the text `and` is never taken for an operator.

- `ofJson?_toJson` (for operators, calls, instructions and programs): what was written is read back as itself.
- `Call.ofJson?_array_nil`: an array without tokens is no call.
-/
import AccessRules.Program
import AccessRules.Token.Json

namespace AccessRules

/-! ## Operators -/

namespace Operator

/-- the JSON form of an operator -/
def toJson (op : Operator) : Json := .str op.text

/-- the operator a word stands for -/
def ofName? (name : String) : Option Operator :=
  if name = "and" then some .and else if name = "or" then some .or else none

/-- the operator of a JSON form -/
def ofJson? (j : Json) : Option Operator := j.case?.bind ofName?

theorem ofName?_text (op : Operator) : ofName? op.text = some op := by cases op <;> decide

theorem ofJson?_toJson (op : Operator) : ofJson? op.toJson = some op := ofName?_text op

end Operator

/-! ## Calls -/

namespace Call

/-- the JSON form of a call -/
def toJson (c : Call) : Json := .array (c.tokens.map Token.toJson)

/-- the call of a JSON form -/
def ofJson? : Json → Option Call
  | .array items => (items.mapM Token.ofJson?).bind ofTokens?
  | _ => none

theorem mapM_ofJson?_map_toJson (ts : List Token) : (ts.map Token.toJson).mapM Token.ofJson? = some ts :=
  (Token.mapM_ofJson?_eq_some_iff _ ts).2 rfl

theorem ofJson?_toJson (c : Call) : ofJson? c.toJson = some c := by
  simp only [toJson, ofJson?, mapM_ofJson?_map_toJson, Option.bind_some, ofTokens?_tokens]

theorem ofJson?_array_nil : ofJson? (.array []) = none := rfl

end Call

/-! ## Instructions and programs -/

namespace Instruction

/-- the JSON form of an instruction -/
def toJson : Instruction → Json
  | .operator op => op.toJson
  | .call c => c.toJson

/-- the instruction of a JSON form -/
def ofJson? (j : Json) : Option Instruction :=
  match Operator.ofJson? j with
  | some op => some (.operator op)
  | none => (Call.ofJson? j).map .call

theorem ofJson?_toJson (i : Instruction) : ofJson? i.toJson = some i := by
  cases i with
  | operator op => simp [toJson, ofJson?, Operator.ofJson?_toJson]
  | call c =>
    have h : Operator.ofJson? c.toJson = none := rfl
    simp only [toJson, ofJson?, h, Call.ofJson?_toJson, Option.map_some]

end Instruction

namespace Program

/-- the JSON form of a program -/
def toJson (p : Program) : Json := .array (p.instructions.map Instruction.toJson)

/-- the program of a JSON form -/
def ofJson? : Json → Option Program
  | .array items => (items.mapM Instruction.ofJson?).map Program.mk
  | _ => none

theorem ofJson?_toJson (p : Program) : ofJson? p.toJson = some p := by
  have h : ∀ is : List Instruction, (is.map Instruction.toJson).mapM Instruction.ofJson? = some is := by
    intro is
    induction is with
    | nil => rfl
    | cons i is ih => simp [List.mapM_cons, Instruction.ofJson?_toJson, ih]
  simp only [toJson, ofJson?, h, Option.map_some]

end Program

/-- the JSON form of a list of tokens -/
def tokensToJson (ts : List Token) : Json := .array (ts.map Token.toJson)

/-- the tokens of a JSON form -/
def tokensOfJson? : Json → Option (List Token)
  | .array items => items.mapM Token.ofJson?
  | _ => none

end AccessRules
