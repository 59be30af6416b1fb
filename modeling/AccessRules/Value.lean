/-
Values: what a name may be bound to and what operations take and return. Objects are of a type `ω` of the caller's
choice; two objects are the same value exactly when they are equal in `ω`.

- `isTrue_iff`: only the boolean true counts as true.
- `isTruthy_of_isTrue`: what is true is truthy; the converse fails, for instance for a non-empty text.
-/
import AccessRules.Text.Quoted
import AccessRules.Token

namespace AccessRules

/-- nothing, a literal, or an object -/
inductive Value (ω : Type) where
  | absent
  | bool (b : Bool)
  | int (n : Int64)
  | str (s : String)
  | object (o : ω)
deriving DecidableEq, Inhabited

namespace Value

variable {ω : Type}

/-- the literal that a token stands for -/
def ofToken : Token → Value ω
  | .bool b => .bool b
  | .int n => .int n
  | .str s => .str s

/-- the value of an optional one: nothing is the absent value -/
def ofOption : Option (Value ω) → Value ω
  | none => .absent
  | some v => v

/-- the value is there and is neither false, zero nor the empty text; objects always are -/
def isTruthy : Value ω → Bool
  | .absent => false
  | .bool b => b
  | .int n => n ≠ 0
  | .str s => s ≠ ""
  | .object _ => true

/-- the value is the boolean true -/
def isTrue : Value ω → Bool
  | .bool b => b
  | _ => false

/-- the text of a text value -/
def str? : Value ω → Option String
  | .str s => some s
  | _ => none

/-- the object of an object value -/
def object? : Value ω → Option ω
  | .object o => some o
  | _ => none

/-- the name of the kind of a value -/
def kind : Value ω → String
  | .absent => "Absent"
  | .bool _ => "Bool"
  | .int _ => "Int"
  | .str _ => "Str"
  | .object _ => "Object"

/-- how a value is written; `label` names the objects -/
def text (label : ω → String) : Value ω → String
  | .absent => "None"
  | .bool b => Token.boolText b
  | .int n => String.ofList (Text.decimal n.toInt)
  | .str s => s
  | .object o => label o

/-- how a value is shown for inspection: its kind, and its contents in brackets -/
def inspect (label : ω → String) : Value ω → String
  | .absent => "Absent"
  | .bool b => "Bool(" ++ (if b then "true" else "false") ++ ")"
  | .int n => "Int(" ++ String.ofList (Text.decimal n.toInt) ++ ")"
  | .str s => "Str(" ++ Text.quoted s ++ ")"
  | .object o => "Object(" ++ label o ++ ")"

theorem isTrue_iff (v : Value ω) : v.isTrue = true ↔ v = .bool true := by
  cases v <;> simp [isTrue]

theorem isTruthy_of_isTrue (v : Value ω) (h : v.isTrue = true) : v.isTruthy = true := by
  rw [(isTrue_iff v).1 h]; rfl

theorem text_ofToken (label : ω → String) (t : Token) : (ofToken t : Value ω).text label = t.text := by
  cases t <;> rfl

end Value

end AccessRules
