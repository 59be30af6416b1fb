/-
Writing JSON, in one line or indented by two blanks. Inside a string only the quote, the backslash and the control
characters below the blank are escaped; everything else is written as it is.

- `escaped_plain`: from the blank on, a character other than the quote and the backslash stands for itself.
-/
import AccessRules.Json
import AccessRules.Text.Decimal

namespace AccessRules.Json

open Text

/-! ## Scalars -/

/-- one lower-case hexadecimal digit -/
def hexDigit (n : Nat) : Char := Nat.digitChar n

/-- the letter after the backslash, for the characters that have one -/
def escapeLetter? (c : Char) : Option Char :=
  if c = '"' then some '"'
  else if c = '\\' then some '\\'
  else if c = '\x08' then some 'b'
  else if c = '\t' then some 't'
  else if c = '\n' then some 'n'
  else if c = '\x0c' then some 'f'
  else if c = '\r' then some 'r'
  else none

/-- one character inside a JSON string -/
def escaped (c : Char) : List Char :=
  match escapeLetter? c with
  | some e => ['\\', e]
  | none =>
    if c.toNat < 0x20 then ['\\', 'u', '0', '0', hexDigit (c.toNat / 16), hexDigit (c.toNat % 16)] else [c]

/-- a JSON string -/
def stringChars (s : String) : List Char := '"' :: s.toList.flatMap escaped ++ ['"']

/-- `null`, `true` or `false` -/
def wordChars : Option Bool → List Char
  | none => "null".toList
  | some true => "true".toList
  | some false => "false".toList

/-! ## One line -/

mutual

/-- the characters of a value, without any blank between them -/
def compactChars : Json → List Char
  | .null => wordChars none
  | .bool b => wordChars (some b)
  | .int n => decimal n
  | .real numeral => numeral
  | .str s => stringChars s
  | .array items => '[' :: compactItems items ++ [']']
  | .object members => '\x7b' :: compactMembers members ++ ['\x7d']

/-- items with commas between them -/
def compactItems : List Json → List Char
  | [] => []
  | [j] => compactChars j
  | j :: rest => compactChars j ++ ',' :: compactItems rest

/-- members with commas between them -/
def compactMembers : List (String × Json) → List Char
  | [] => []
  | [(k, j)] => stringChars k ++ ':' :: compactChars j
  | (k, j) :: rest => stringChars k ++ ':' :: compactChars j ++ ',' :: compactMembers rest

end

/-- a value in one line -/
def compact (j : Json) : String := String.ofList (compactChars j)

/-! ## Indented -/

/-- a line end and the blanks that indent the next line -/
def newLine (depth : Nat) : List Char := '\n' :: List.replicate (2 * depth) ' '

mutual

/-- the characters of a value whose first line is indented by `depth` steps already; what it holds stands one step
deeper, each part on its own line -/
def prettyChars (depth : Nat) : Json → List Char
  | .array [] => ['[', ']']
  | .object [] => ['\x7b', '\x7d']
  | .array items => '[' :: prettyItems (depth + 1) items ++ newLine depth ++ [']']
  | .object members => '\x7b' :: prettyMembers (depth + 1) members ++ newLine depth ++ ['\x7d']
  | .null => wordChars none
  | .bool b => wordChars (some b)
  | .int n => decimal n
  | .real numeral => numeral
  | .str s => stringChars s

/-- items, each on a line of its own -/
def prettyItems (depth : Nat) : List Json → List Char
  | [] => []
  | [j] => newLine depth ++ prettyChars depth j
  | j :: rest => newLine depth ++ prettyChars depth j ++ ',' :: prettyItems depth rest

/-- members, each on a line of its own -/
def prettyMembers (depth : Nat) : List (String × Json) → List Char
  | [] => []
  | [(k, j)] => newLine depth ++ stringChars k ++ ':' :: ' ' :: prettyChars depth j
  | (k, j) :: rest =>
    newLine depth ++ stringChars k ++ ':' :: ' ' :: prettyChars depth j ++ ',' :: prettyMembers depth rest

end

/-- a value over several lines -/
def pretty (j : Json) : String := String.ofList (prettyChars 0 j)

/-! ## Plain characters -/

/-- from the blank on, only the quote and the backslash are escaped -/
theorem escaped_plain (c : Char) (h : 0x20 ≤ c.toNat) (hq : c ≠ '"') (hb : c ≠ '\\') : escaped c = [c] := by
  have ne : ∀ d : Char, d.toNat < 0x20 → c ≠ d := fun d hd he => by subst he; omega
  have hl : escapeLetter? c = none := by
    simp [escapeLetter?, hq, hb, ne '\x08' (by decide), ne '\t' (by decide), ne '\n' (by decide),
      ne '\x0c' (by decide), ne '\r' (by decide)]
  simp [escaped, hl, Nat.not_lt.2 h]

/-- one line and several lines of the same value -/
example : compact (.array [.str "a", .array [], .object [("n", .int (-1))]]) =
    "[\"a\",[],\x7b\"n\":-1\x7d]" := by decide +kernel

example : pretty (.array [.str "a", .array []]) = "[\n  \"a\",\n  []\n]" := by decide +kernel

end AccessRules.Json
