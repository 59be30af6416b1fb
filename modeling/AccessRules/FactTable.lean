/-
Fact tables: objects that are described by the argument lists they permit. An operation takes as many arguments as its
first row has, and answers whether the arguments are one of its rows.

- `get?_addFact`: a fact is added to the end of its operation's rows.
- `matchesArg_literal`: a literal argument matches exactly the equal token.
-/
import AccessRules.Dict
import AccessRules.Receiver

namespace AccessRules

/-- a name, and for every operation its permitted argument lists -/
structure FactTable where
  name : String
  rows : Dict (List (List Token))

namespace FactTable

/-- a table without facts -/
def new (name : String) : FactTable := ⟨name, Dict.empty⟩

/-- permit one more argument list -/
def addFact (t : FactTable) (operation : String) (row : List Token) : FactTable :=
  { t with rows := t.rows.insert operation ((t.rows.get? operation).getD [] ++ [row]) }

/-- permit argument lists one after another -/
def addFacts (t : FactTable) (facts : List (String × List Token)) : FactTable :=
  facts.foldl (fun t f => t.addFact f.1 f.2) t

/-- the same name and the same rows for the same operations, in whatever order of operations -/
def sameAs (t u : FactTable) : Bool := t.name == u.name && t.rows.sameAs u.rows

/-- an operation takes as many arguments as its first row has; none when it has no rows -/
def arity (t : FactTable) (operation : String) : Option Arity :=
  (t.rows.get? operation).map fun rows => Arity.exact ((rows.head?.map List.length).getD 0)

variable {ω : Type}

/-- an argument is the expected token: a literal by value; an object by the text it was written as or, when it was not
written as text, by its label -/
def matchesArg (label : ω → String) (source : Option Token) (expected : Token) : Value ω → Bool
  | .absent => false
  | .bool b => expected = .bool b
  | .int n => expected = .int n
  | .str s => expected = .str s
  | .object o => expected = .str ((source.bind Token.str?).getD (label o))

/-- the arguments are the row, item by item; arguments past the sources have none -/
def matchesRow (label : ω → String) : List Token → List (Value ω) → List Token → Bool
  | [], [], _ => true
  | expected :: row, arg :: args, sources =>
    matchesArg label sources.head? expected arg && matchesRow label row args sources.tail
  | _, _, _ => false

/-- whether the arguments are one of the rows of the operation -/
def lookup (label : ω → String) (t : FactTable) (operation : String) (args : List (Value ω)) (sources : List Token) :
    Except InvokeError (Value ω) :=
  match t.rows.get? operation with
  | none => .error .notFound
  | some rows => .ok (.bool (rows.any fun row => matchesRow label row args sources))

/-- the table as a receiver, where `label` names the objects among the arguments -/
def receiver {m : Type → Type} [Monad m] (label : ω → String) (t : FactTable) : Receiver ω m where
  label := t.name
  arity := t.arity
  invoke operation args := ExceptT.mk (pure (t.lookup label operation args []))
  invokeFrom operation args sources := ExceptT.mk (pure (t.lookup label operation args sources))

theorem get?_addFact (t : FactTable) (operation : String) (row : List Token) (other : String) :
    (t.addFact operation row).rows.get? other =
      if operation = other then some ((t.rows.get? operation).getD [] ++ [row]) else t.rows.get? other :=
  Dict.get?_insert t.rows operation _ other

theorem matchesArg_literal (label : ω → String) (source : Option Token) (expected t : Token) :
    matchesArg label source expected (.ofToken t) = decide (expected = t) := by
  cases t <;> rfl

end FactTable

end AccessRules
