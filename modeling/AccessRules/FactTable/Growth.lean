/-
Fact tables that take on further facts. Facts are only ever added, so what grew has all the rows it had, in front.

- `rowsFor_addFacts`: the rows of an operation after facts were added.
- `Grows.refl`: every binding grows into itself.
-/
import AccessRules.Binding
import AccessRules.FactTable

namespace AccessRules

namespace FactTable

/-- the rows of an operation, none when there is no such operation -/
def rowsFor (t : FactTable) (operation : String) : List (List Token) := (t.rows.get? operation).getD []

/-- the rows that facts give to an operation -/
def rowsOf (facts : List (String × List Token)) (operation : String) : List (List Token) :=
  (facts.filter fun f => f.1 = operation).map Prod.snd

/-- the table was put together from facts, one by one -/
def IsBuilt (t : FactTable) : Prop := ∃ name facts, t = (new name).addFacts facts

theorem rowsFor_addFact (t : FactTable) (operation : String) (row : List Token) (other : String) :
    (t.addFact operation row).rowsFor other = t.rowsFor other ++ if operation = other then [row] else [] := by
  rw [rowsFor, get?_addFact]
  by_cases h : operation = other
  · simp [rowsFor, h]
  · simp [rowsFor, h]

theorem rowsFor_addFacts (t : FactTable) (facts : List (String × List Token)) (operation : String) :
    (t.addFacts facts).rowsFor operation = t.rowsFor operation ++ rowsOf facts operation := by
  induction facts generalizing t with
  | nil => simp [addFacts, rowsOf]
  | cons f facts ih =>
    have h : t.addFacts (f :: facts) = (t.addFact f.1 f.2).addFacts facts := rfl
    rw [h, ih, rowsFor_addFact, List.append_assoc]
    by_cases hf : f.1 = operation
    · simp [rowsOf, hf]
    · simp [rowsOf, hf]

theorem name_addFacts (t : FactTable) (facts : List (String × List Token)) : (t.addFacts facts).name = t.name := by
  induction facts generalizing t with
  | nil => rfl
  | cons f facts ih => exact ih (t.addFact f.1 f.2)

end FactTable

/-- the same value, or a table with further facts -/
def Value.Grows (v w : Value FactTable) : Prop :=
  w = v ∨ ∃ t facts, v = .object t ∧ w = .object (t.addFacts facts)

namespace Binding

/-- the same names, with values that grew -/
def Grows (b c : Binding FactTable) : Prop := ∀ name, Option.Rel Value.Grows (b.get? name) (c.get? name)

/-- every object of the binding was put together from facts -/
def IsBuilt (b : Binding FactTable) : Prop := ∀ name t, b.get? name = some (.object t) → t.IsBuilt

theorem Grows.refl (b : Binding FactTable) : Grows b b := by
  intro name
  cases b.get? name with
  | none => exact .none
  | some v => exact .some (.inl rfl)

end Binding

end AccessRules
