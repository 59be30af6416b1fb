/-
How a binding comes about: names are bound one by one or many at a time, or the whole is collected anew. What counts is
the list of pairs written since it was last collected.

- `after_eq_ofList`: the binding that changes lead to is the binding of the pairs written.
- `names_after`, `get?_after`: its names, in order of first writing, and its values, the last written of each.
-/
import AccessRules.Binding
import AccessRules.Dict.History

namespace AccessRules.Binding

variable {ω : Type}

/-- one change of a binding -/
inductive Change (ω : Type) where
  | insert (name : String) (v : Value ω)
  | insertAbsent (name : String)
  | insertObject (name : String) (o : ω)
  | extend (pairs : List (String × Value ω))
  /-- the binding is replaced by that of the pairs -/
  | collect (pairs : List (String × Value ω))

/-- the binding after a change -/
def change (b : Binding ω) : Change ω → Binding ω
  | .insert name v => b.insert name v
  | .insertAbsent name => b.insertAbsent name
  | .insertObject name o => b.insertObject name o
  | .extend pairs => b.extend pairs
  | .collect pairs => ofList pairs

/-- the binding that changes lead to, from the empty one -/
def after (changes : List (Change ω)) : Binding ω := changes.foldl change empty

/-- the pairs written by one more change, after those of `pairs` -/
def Change.writtenAfter (pairs : List (String × Value ω)) : Change ω → List (String × Value ω)
  | .insert name v => pairs ++ [(name, v)]
  | .insertAbsent name => pairs ++ [(name, .absent)]
  | .insertObject name o => pairs ++ [(name, .object o)]
  | .extend more => pairs ++ more
  | .collect more => more

/-- the pairs written since the binding was last collected -/
def written (changes : List (Change ω)) : List (String × Value ω) := changes.foldl Change.writtenAfter []

theorem change_ofList (pairs : List (String × Value ω)) (c : Change ω) :
    (ofList pairs).change c = ofList (c.writtenAfter pairs) := by
  cases c with
  | collect more => rfl
  | _ => rw [Change.writtenAfter, ofList, ofList, extend_append]; rfl

theorem foldl_change (pairs : List (String × Value ω)) (changes : List (Change ω)) :
    changes.foldl change (ofList pairs) = ofList (changes.foldl Change.writtenAfter pairs) := by
  induction changes generalizing pairs with
  | nil => rfl
  | cons c changes ih => rw [List.foldl_cons, List.foldl_cons, change_ofList, ih]

theorem after_eq_ofList (changes : List (Change ω)) : after changes = ofList (written changes) :=
  foldl_change [] changes

theorem names_after (changes : List (Change ω)) :
    (after changes).names = distinct ((written changes).map Prod.fst) := by
  rw [after_eq_ofList]
  exact Dict.keys_ofList _

theorem get?_after (changes : List (Change ω)) (name : String) :
    (after changes).get? name = Dict.lastFor name (written changes) := by
  rw [after_eq_ofList]
  exact Dict.get?_ofList _ name

end AccessRules.Binding
