/-
What a fact file may hold, said without loading it. Of a repeated key the last member counts.

- `isLiteral_iff`, `forall_isLiteral_iff`: the literals are the JSON values that are tokens.
-/
import AccessRules.FactFile
import AccessRules.Json.Members

namespace AccessRules.FactFile

/-! ## The format -/

/-- a boolean, an integer of 64 bits or a text -/
def IsLiteral : Json → Prop
  | .bool _ => True
  | .int n => Int64.minValue.toInt ≤ n ∧ n ≤ Int64.maxValue.toInt
  | .str _ => True
  | _ => False

/-- a list of `length` literals -/
def IsRow (length : Nat) : Json → Prop
  | .array items => items.length = length ∧ ∀ j ∈ items, IsLiteral j
  | _ => False

/-- a list of argument lists, all of one length -/
def IsRows : Json → Prop
  | .array items => ∃ length, ∀ j ∈ items, IsRow length j
  | _ => False

/-- `null`, a literal, or an object whose members are lists of argument lists -/
def IsEntry : Json → Prop
  | .null => True
  | .object members => ∀ operation j, Dict.lastFor operation members = some j → IsRows j
  | j => IsLiteral j

/-- an object whose members are entries -/
def IsFacts : Json → Prop
  | .object members => ∀ name j, Dict.lastFor name members = some j → IsEntry j
  | _ => False

theorem isLiteral_iff (j : Json) : IsLiteral j ↔ ∃ t, Token.ofJson? j = some t := by
  cases j with
  | bool b => exact ⟨fun _ => ⟨.bool b, rfl⟩, fun _ => trivial⟩
  | str s => exact ⟨fun _ => ⟨.str s, rfl⟩, fun _ => trivial⟩
  | int n =>
    rw [IsLiteral, Token.ofJson?, Token.int64?]
    constructor
    · intro h
      exact ⟨.int (Int64.ofInt n), by rw [if_pos h]; rfl⟩
    · rintro ⟨t, ht⟩
      by_cases hn : Int64.minValue.toInt ≤ n ∧ n ≤ Int64.maxValue.toInt
      · exact hn
      · rw [if_neg hn] at ht
        cases ht
  | _ =>
    constructor
    · exact False.elim
    · rintro ⟨t, ht⟩
      cases ht

theorem forall_isLiteral_iff (items : List Json) :
    (∀ j ∈ items, IsLiteral j) ↔ ∃ ts : List Token, items = ts.map Token.toJson := by
  constructor
  · intro h
    induction items with
    | nil => exact ⟨[], rfl⟩
    | cons j items ih =>
      obtain ⟨hj, hitems⟩ := List.forall_mem_cons.1 h
      obtain ⟨t, ht⟩ := (isLiteral_iff j).1 hj
      obtain ⟨ts, rfl⟩ := ih hitems
      exact ⟨t :: ts, by rw [List.map_cons, Token.ofJson?_eq_some ht]⟩
  · rintro ⟨ts, rfl⟩ j hj
    obtain ⟨t, _, rfl⟩ := List.mem_map.1 hj
    exact (isLiteral_iff _).2 ⟨t, t.ofJson?_toJson⟩

end AccessRules.FactFile
