/-
Operation tables: receivers put together from handlers. Registering a name again keeps its place and replaces both its
arity and its handler.

- `arity_register`: a name has the arity of its last registration.
- `operations_register`: names are listed in the order of their first registration.
-/
import AccessRules.Dict
import AccessRules.Receiver

namespace AccessRules

/-- an operation: its arity, and what it does -/
structure Operation (ω : Type) (m : Type → Type) where
  arity : Arity
  handler : List (Value ω) → ExceptT InvokeError m (Value ω)

/-- a labelled receiver of registered operations -/
structure OperationTable (ω : Type) (m : Type → Type) where
  label : String
  entries : Dict (Operation ω m)

namespace OperationTable

variable {ω : Type} {m : Type → Type}

/-- a table without operations -/
def new (label : String) : OperationTable ω m := ⟨label, Dict.empty⟩

/-- add or replace an operation -/
def register (t : OperationTable ω m) (name : String) (op : Operation ω m) : OperationTable ω m :=
  { t with entries := t.entries.insert name op }

/-- the names of the operations -/
def operations (t : OperationTable ω m) : List String := t.entries.keys

/-- the table as a receiver -/
def receiver [Monad m] (t : OperationTable ω m) : Receiver ω m where
  label := t.label
  arity operation := (t.entries.get? operation).map Operation.arity
  invoke operation args :=
    match t.entries.get? operation with
    | some op => op.handler args
    | none => throw .notFound

/-- how a table is shown for inspection: its label and the names of its operations -/
def inspect (t : OperationTable ω m) : String :=
  "OperationTable \x7b label: " ++ Text.quoted t.label ++ ", operations: [" ++
    String.intercalate ", " (t.operations.map Text.quoted) ++ "] \x7d"

theorem operations_register (t : OperationTable ω m) (name : String) (op : Operation ω m) :
    (t.register name op).operations = if name ∈ t.operations then t.operations else t.operations ++ [name] :=
  Dict.keys_insert t.entries name op

theorem arity_register [Monad m] (t : OperationTable ω m) (name : String) (op : Operation ω m) (operation : String) :
    (t.register name op).receiver.arity operation =
      if name = operation then some op.arity else t.receiver.arity operation := by
  simp only [receiver, register, Dict.get?_insert]
  split <;> rfl

end OperationTable

end AccessRules
