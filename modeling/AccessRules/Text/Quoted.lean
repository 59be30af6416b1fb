/-
Quoted text for inspection: a text between double quotes, in one line, with everything that would not show escaped.
-/
import AccessRules.Text.Hidden

namespace AccessRules.Text

/-- the code point of `c` in hexadecimal between braces -/
def codePoint (c : Char) : List Char :=
  ['\\', 'u', '\x7b'] ++ Nat.toDigits 16 c.toNat ++ ['\x7d']

/-- one character inside quotes; the single quote needs no escape there -/
def quotedChar (c : Char) : List Char :=
  match c with
  | '\x00' => ['\\', '0']
  | '\t' => ['\\', 't']
  | '\n' => ['\\', 'n']
  | '\r' => ['\\', 'r']
  | '"' => ['\\', '"']
  | '\\' => ['\\', '\\']
  | c => if isHidden c then codePoint c else [c]

/-- `s` between double quotes -/
def quoted (s : String) : String :=
  String.ofList ('"' :: s.toList.flatMap quotedChar ++ ['"'])

/-- a quote and a line end are escaped, a single quote and a letter are not -/
example : quoted "it's\n\"é\"" = "\"it's\\n\\\"é\\\"\"" := by decide +kernel

end AccessRules.Text
