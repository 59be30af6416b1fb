/-
JSON values as data. An object keeps its members as they were written, repeated keys included; which of two members
counts is for the reader of the object to say. A number without fraction and exponent that fits 64 bits, signed or
unsigned, is an integer; any other number is only kept as it was written.
-/
import AccessRules.Dict

namespace AccessRules

inductive Json where
  | null
  | bool (b : Bool)
  | int (n : Int)
  | real (numeral : List Char)
  | str (s : String)
  | array (items : List Json)
  | object (members : List (String × Json))
deriving Inhabited

namespace Json

/-- put a member into a list that ascends by key; a member of that key is replaced -/
def insertMember {α : Type} (key : String) (v : α) : List (String × α) → List (String × α)
  | [] => [(key, v)]
  | m :: rest =>
    if key = m.1 then (key, v) :: rest
    else if key < m.1 then (key, v) :: m :: rest
    else m :: insertMember key v rest

/-- the members in ascending order of keys, the last of a repeated key alone -/
def settle {α : Type} (members : List (String × α)) : List (String × α) :=
  members.foldl (fun ms m => insertMember m.1 m.2 ms) []

/-- the name of a case without contents: the bare name, or an object that gives the name alone and `null` to it -/
def case? : Json → Option String
  | .str s => some s
  | .object [(s, .null)] => some s
  | _ => none

end Json

end AccessRules
