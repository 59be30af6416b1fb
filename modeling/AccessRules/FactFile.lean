/-
Fact files: a binding written down as a JSON object. A member is `null` for a name that is absent, a literal, or an
object whose members are operations with the list of their permitted argument lists. Texts stay texts, whatever they
look like. Members are taken in ascending order of their keys; the last of a repeated key counts. Messages leave out how
the JSON reader describes a fault of the text.

- `valueOfJson_null`, `valueOfJson_literal`: what a name without operations is bound to.
-/
import AccessRules.Binding
import AccessRules.Evaluation
import AccessRules.FactTable
import AccessRules.Json.Reader
import AccessRules.Token.Json

namespace AccessRules

/-! ## Faults -/

/-- what is wrong with an entry of a fact file -/
inductive EntryFault where
  /-- the file is not an object -/
  | notObject
  /-- a name has something that cannot be bound -/
  | notEntry
  /-- an operation has something other than a list -/
  | notRows
  /-- the list of an operation holds something other than lists -/
  | notRow
  /-- an argument list holds something other than literals -/
  | notLiteral
  /-- an argument list is longer or shorter than the first -/
  | unequalRows
deriving DecidableEq

/-- how a fault of an entry is written -/
def EntryFault.text : EntryFault → String
  | .notObject => "expected an object"
  | .notEntry => "expected a boolean, integer or string, null or an object"
  | .notRows => "expected a list of argument lists"
  | .notRow => "expected an argument list"
  | .notLiteral => "expected a boolean, integer or string"
  | .unequalRows => "argument lists differ in length"

/-- why a file has no text -/
inductive ReadError where
  | notFound
  | permissionDenied
  | notDirectory
  | isDirectory
  | nameTooLong
  /-- the bytes are not UTF-8 -/
  | notText
  | other (description : String)
deriving DecidableEq

/-- how such a cause is written -/
def ReadError.text : ReadError → String
  | .notFound => "No such file or directory (os error 2)"
  | .permissionDenied => "Permission denied (os error 13)"
  | .notDirectory => "Not a directory (os error 20)"
  | .isDirectory => "Is a directory (os error 21)"
  | .nameTooLong => "File name too long (os error 36)"
  | .notText => "stream did not contain valid UTF-8"
  | .other description => description

/-- why facts do not load -/
inductive FactsError where
  | unreadable (cause : ReadError)
  | notJson (fault : Json.Fault)
  | invalidEntry (name : String) (fault : EntryFault)
deriving DecidableEq

/-- the message of an error; of a text that is no JSON it says only that, without the words of the JSON reader for what
is wrong and where -/
def FactsError.message : FactsError → String
  | .unreadable cause => "Failed to read facts: " ++ cause.text
  | .notJson _ => "Invalid facts JSON"
  | .invalidEntry name fault => "Invalid fact entry " ++ RuleError.named name ++ ": " ++ fault.text

/-! ## Tables -/

namespace FactTable

/-- one argument list -/
def rowOfJson : Json → Except EntryFault (List Token)
  | .array items =>
    match items.mapM Token.ofJson? with
    | some row => .ok row
    | none => .error .notLiteral
  | _ => .error .notRow

/-- argument lists one after another, each as long as the first -/
def rowsOfItems (first : Option Nat) : List Json → Except EntryFault (List (List Token))
  | [] => .ok []
  | j :: rest =>
    match rowOfJson j with
    | .error e => .error e
    | .ok row =>
      if first.all (· = row.length) then
        (rowsOfItems (some (first.getD row.length)) rest).map (row :: ·)
      else .error .unequalRows

/-- the argument lists of an operation -/
def rowsOfJson : Json → Except EntryFault (List (List Token))
  | .array items => rowsOfItems none items
  | _ => .error .notRows

/-- operations one after another; a fault is told with the name of its operation -/
def ofMembers (t : FactTable) : List (String × Json) → Except FactsError FactTable
  | [] => .ok t
  | (operation, j) :: rest =>
    match rowsOfJson j with
    | .error fault => .error (.invalidEntry (t.name ++ "." ++ operation) fault)
    | .ok rows => ofMembers { t with rows := t.rows.insert operation rows } rest

end FactTable

/-! ## Files -/

namespace FactFile

/-- what a name is bound to -/
def valueOfJson (name : String) : Json → Except FactsError (Value FactTable)
  | .null => .ok .absent
  | .object members => ((FactTable.new name).ofMembers (Json.settle members)).map .object
  | j =>
    match Token.ofJson? j with
    | some t => .ok (.ofToken t)
    | none => .error (.invalidEntry name .notEntry)

/-- names one after another -/
def extend (b : Binding FactTable) : List (String × Json) → Except FactsError (Binding FactTable)
  | [] => .ok b
  | (name, j) :: rest =>
    match valueOfJson name j with
    | .error e => .error e
    | .ok v => extend (b.insert name v) rest

/-- the binding of a JSON value -/
def ofJson : Json → Except FactsError (Binding FactTable)
  | .object members => extend .empty (Json.settle members)
  | _ => .error (.invalidEntry "<root>" .notObject)

/-- the binding of a text -/
def ofText (text : String) : Except FactsError (Binding FactTable) :=
  match Json.readUnfolding text with
  | .ok j => ofJson j
  | .error fault => .error (.notJson fault)

/-- the binding of what was read from a file -/
def ofContents : Except ReadError ByteArray → Except FactsError (Binding FactTable)
  | .error cause => .error (.unreadable cause)
  | .ok bytes =>
    match String.fromUTF8? bytes with
    | some text => ofText text
    | none => .error (.unreadable .notText)

/-- tables of a fact file answer for themselves, by their names -/
def host : Host FactTable Id := fun t => t.receiver FactTable.name

/-- the decision of a rule over the facts of a file -/
def permitted (b : Binding FactTable) (rule : String) : Except RuleError Bool :=
  (AccessRules.permitted host b rule).run

theorem valueOfJson_null (name : String) : valueOfJson name .null = .ok .absent := rfl

theorem valueOfJson_literal (name : String) (t : Token) : valueOfJson name t.toJson = .ok (.ofToken t) := by
  cases t with
  | bool b => rfl
  | int n => simp [valueOfJson, Token.toJson, Token.ofJson?, Token.int64?_toInt]
  | str s => rfl

end FactFile

end AccessRules
