/-
Bindings: the names a rule may use, each with its value. Names keep the order in which they were first bound; binding a
name again changes its value alone.

- `get?_insert`, `names_insert`: what binding a name does.
- `extend_append`: binding pairs in two goes.
-/
import AccessRules.Dict
import AccessRules.Value

namespace AccessRules

/-- names with values -/
structure Binding (ω : Type) where
  values : Dict (Value ω)

namespace Binding

variable {ω : Type}

/-- no names -/
def empty : Binding ω := ⟨Dict.empty⟩

instance : Inhabited (Binding ω) := ⟨empty⟩

/-- the value of a name -/
def get? (b : Binding ω) (name : String) : Option (Value ω) := b.values.get? name

/-- the name is bound, be it to the absent value -/
def contains (b : Binding ω) (name : String) : Bool := b.values.contains name

/-- the names in order -/
def names (b : Binding ω) : List String := b.values.keys

/-- number of names -/
def size (b : Binding ω) : Nat := b.values.size

/-- bind a name -/
def insert (b : Binding ω) (name : String) (v : Value ω) : Binding ω := ⟨b.values.insert name v⟩

/-- bind a name, and give the value it had -/
def replace (b : Binding ω) (name : String) (v : Value ω) : Option (Value ω) × Binding ω :=
  (b.get? name, b.insert name v)

/-- bind a name to the absent value -/
def insertAbsent (b : Binding ω) (name : String) : Binding ω := b.insert name .absent

/-- bind a name to an object -/
def insertObject (b : Binding ω) (name : String) (o : ω) : Binding ω := b.insert name (.object o)

/-- bind pairs one after another -/
def extend (b : Binding ω) (pairs : List (String × Value ω)) : Binding ω := ⟨b.values.extend pairs⟩

/-- the binding of pairs, later ones winning -/
def ofList (pairs : List (String × Value ω)) : Binding ω := empty.extend pairs

/-- the same names with the same values, in whatever order -/
def sameAs [DecidableEq ω] (b c : Binding ω) : Bool := b.values.sameAs c.values

@[simp] theorem get?_empty (name : String) : (empty : Binding ω).get? name = none := rfl

@[simp] theorem get?_insert (b : Binding ω) (name : String) (v : Value ω) (other : String) :
    (b.insert name v).get? other = if name = other then some v else b.get? other :=
  Dict.get?_insert b.values name v other

theorem names_insert (b : Binding ω) (name : String) (v : Value ω) :
    (b.insert name v).names = if name ∈ b.names then b.names else b.names ++ [name] :=
  Dict.keys_insert b.values name v

theorem extend_append (b : Binding ω) (ps qs : List (String × Value ω)) :
    b.extend (ps ++ qs) = (b.extend ps).extend qs := by
  simp [extend, Dict.extend_append]

end Binding

end AccessRules
