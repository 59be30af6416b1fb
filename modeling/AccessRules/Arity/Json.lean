/-
Arities, their faults and imbalances as JSON. An arity is an object with the members `min` and `max`, unsigned numbers
of 64 bits; the two numbers alone, in an array, are read as well. Each of the two members stands once; other members
are passed over.

- `ofJson?_toJson` (for arities, faults and imbalances): what was written is read back as itself.
-/
import AccessRules.Json.Reader
import AccessRules.RuleError

namespace AccessRules

namespace Arity

/-- the JSON form of an arity -/
def toJson (a : Arity) : Json := .object [("min", .int a.min), ("max", .int a.max)]

/-- an unsigned number of 64 bits -/
def count? : Json → Option Nat
  | .int (.ofNat n) => if n < UInt64.size then some n else none
  | _ => none

/-- the count under a key that stands once among the members -/
def member? (key : String) (members : List (String × Json)) : Option Nat :=
  match members.filter fun m => m.1 = key with
  | [m] => count? m.2
  | _ => none

/-- the arity of a JSON form -/
def ofJson? : Json → Option Arity
  | .object members =>
    match member? "min" members, member? "max" members with
    | some min, some max => some ⟨min, max⟩
    | _, _ => none
  | .array [min, max] =>
    match count? min, count? max with
    | some min, some max => some ⟨min, max⟩
    | _, _ => none
  | _ => none

/-- the arity of a JSON text; what a member holds that is passed over does not matter -/
def ofText? (text : String) : Option Arity := (Json.readOuter text).toOption.bind ofJson?

theorem count?_natCast (n : Nat) (h : n < UInt64.size) : count? (.int n) = some n := if_pos h

theorem ofJson?_toJson (a : Arity) (hmin : a.min < UInt64.size) (hmax : a.max < UInt64.size) :
    ofJson? a.toJson = some a := by
  have e1 : member? "min" [("min", .int a.min), ("max", .int a.max)] = some a.min := by
    simp [member?, count?_natCast a.min hmin]
  have e2 : member? "max" [("min", .int a.min), ("max", .int a.max)] = some a.max := by
    simp [member?, count?_natCast a.max hmax]
  simp [toJson, ofJson?, e1, e2]

namespace Fault

/-- the name of a fault -/
def name : Fault → String
  | .tooFew => "TooFew"
  | .tooMany => "TooMany"

/-- the fault of a name -/
def ofName? (name : String) : Option Fault :=
  if name = "TooFew" then some .tooFew else if name = "TooMany" then some .tooMany else none

/-- the JSON form of a fault -/
def toJson (f : Fault) : Json := .str f.name

/-- the fault of a JSON form -/
def ofJson? (j : Json) : Option Fault := j.case?.bind ofName?

theorem ofJson?_toJson (f : Fault) : ofJson? f.toJson = some f := by cases f <;> rfl

end Fault

end Arity

namespace Imbalance

/-- the name of an imbalance -/
def name : Imbalance → String
  | .tooManyClose => "TooManyClose"
  | .missingClose => "MissingClose"

/-- the imbalance of a name -/
def ofName? (name : String) : Option Imbalance :=
  if name = "TooManyClose" then some .tooManyClose
  else if name = "MissingClose" then some .missingClose
  else none

/-- the JSON form of an imbalance -/
def toJson (i : Imbalance) : Json := .str i.name

/-- the imbalance of a JSON form -/
def ofJson? (j : Json) : Option Imbalance := j.case?.bind ofName?

theorem ofJson?_toJson (i : Imbalance) : ofJson? i.toJson = some i := by cases i <;> rfl

end Imbalance

end AccessRules
