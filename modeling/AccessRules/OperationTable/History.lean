/-
Operation tables by their registrations: the names in order of first registration, each with the operation that was
registered last.

- `operations_ofRegistrations`: the names.
- `get?_ofRegistrations`: the operations.
-/
import AccessRules.Dict.History
import AccessRules.OperationTable

namespace AccessRules.OperationTable

variable {ω : Type} {m : Type → Type}

/-- the table after registrations -/
def ofRegistrations (label : String) (registrations : List (String × Operation ω m)) : OperationTable ω m :=
  registrations.foldl (fun t r => t.register r.1 r.2) (new label)

theorem foldl_register (t : OperationTable ω m) (registrations : List (String × Operation ω m)) :
    registrations.foldl (fun t r => t.register r.1 r.2) t = ⟨t.label, t.entries.extend registrations⟩ := by
  induction registrations generalizing t with
  | nil => rfl
  | cons r registrations ih => rw [List.foldl_cons, ih]; rfl

theorem operations_ofRegistrations (label : String) (registrations : List (String × Operation ω m)) :
    (ofRegistrations label registrations).operations = distinct (registrations.map Prod.fst) := by
  rw [ofRegistrations, foldl_register]
  exact Dict.keys_ofList registrations

theorem get?_ofRegistrations (label : String) (registrations : List (String × Operation ω m)) (name : String) :
    (ofRegistrations label registrations).entries.get? name = Dict.lastFor name registrations := by
  rw [ofRegistrations, foldl_register]
  exact Dict.get?_ofList registrations name

end AccessRules.OperationTable
