/-
The lexemes of a JSON text. The scanner goes character by character; the mode says what it is in the middle of. A
lexeme that cannot be completed ends the scan as a broken one, which tells how it began and what is wrong with it, so
that the reader can first ask whether it might stand there at all. A lexeme that is complete but stands for nothing, a
number out of range or a string with half a surrogate pair, is an unsound one, and the scan goes on.

- `scan_blank`: blanks between lexemes leave no trace.
- `scan_mark`: each of the six structural characters is a lexeme by itself.
-/
import AccessRules.Json.Numeral

namespace AccessRules.Json

/-! ## Lexemes -/

/-- what is wrong with a text -/
inductive Fault where
  /-- the text ends before its value is complete -/
  | endsEarly
  /-- something stands where it must not -/
  | malformed
deriving DecidableEq, Inhabited

/-- what a broken lexeme began as -/
inductive Start where
  | string
  | scalar
  /-- a character that begins nothing -/
  | stray
deriving DecidableEq

/-- the pieces of a JSON text -/
inductive Lexeme where
  | openArray
  | closeArray
  | openObject
  | closeObject
  | comma
  | colon
  /-- a number, `null`, `true` or `false` -/
  | scalar (j : Json)
  | string (s : String)
  /-- a string or number that is complete and stands for nothing -/
  | unsound (start : Start)
  | broken (start : Start) (fault : Fault)

/-! ## Modes -/

/-- inside a string -/
inductive StringState where
  | plain
  /-- after a backslash -/
  | escape
  /-- in the four bytes after `\u`: how many are to come, the number so far unless a byte was no hexadecimal digit,
  and the high surrogate before it, if any -/
  | code (bytes : Nat) (number : Option Nat) (high : Option Nat)
  /-- after a high surrogate: a backslash has to come, or the pair stays half -/
  | pairEscape (high : Nat)
  /-- after a high surrogate and a backslash: the letter `u` has to come, or the pair stays half -/
  | pairLetter (high : Nat)
deriving DecidableEq

/-- what the scanner is in the middle of; characters are held newest first -/
inductive Mode where
  | between
  /-- a word, with its letters to come and its value -/
  | word (letters : List Char) (j : Json)
  | number (state : NumeralState) (numeral : List Char)
  /-- a string, with its characters so far unless half a surrogate pair was among them -/
  | string (state : StringState) (chars : Option (List Char))

/-- one step of the scanner: lexemes found, and the mode to go on in unless the last of them is broken -/
structure Scanned where
  lexemes : List Lexeme
  next : Option Mode

namespace Scanned

/-- no lexeme yet -/
def go (mode : Mode) : Scanned := ⟨[], some mode⟩

/-- one lexeme, complete -/
def give (l : Lexeme) : Scanned := ⟨[l], some .between⟩

/-- a lexeme that cannot be completed -/
def stop (start : Start) : Scanned := ⟨[.broken start .malformed], none⟩

end Scanned

/-- the blanks of JSON -/
def isSpace (c : Char) : Bool := c = ' ' || c = '\t' || c = '\n' || c = '\r'

/-- the value of a hexadecimal digit -/
def hexValue? (c : Char) : Option Nat :=
  if c.isDigit then some (c.toNat - '0'.toNat)
  else if 'a' ≤ c ∧ c ≤ 'f' then some (c.toNat - 'a'.toNat + 10)
  else if 'A' ≤ c ∧ c ≤ 'F' then some (c.toNat - 'A'.toNat + 10)
  else none

/-- the character of a one-letter escape -/
def unescape? (c : Char) : Option Char :=
  if c = '"' then some '"'
  else if c = '\\' then some '\\'
  else if c = '/' then some '/'
  else if c = 'b' then some '\x08'
  else if c = 'f' then some '\x0c'
  else if c = 'n' then some '\n'
  else if c = 'r' then some '\r'
  else if c = 't' then some '\t'
  else none

/-- a high surrogate, the first of a pair -/
def isHigh (n : Nat) : Bool := 0xD800 ≤ n && n ≤ 0xDBFF

/-- a low surrogate, the second of a pair -/
def isLow (n : Nat) : Bool := 0xDC00 ≤ n && n ≤ 0xDFFF

/-- the code point of a surrogate pair -/
def pairValue (high low : Nat) : Nat := 0x10000 + (high - 0xD800) * 0x400 + (low - 0xDC00)

/-! ## Steps -/

/-- a character that begins a lexeme or lies between two -/
def beginLexeme (c : Char) : Scanned :=
  if isSpace c then .go .between
  else if c = '[' then .give .openArray
  else if c = ']' then .give .closeArray
  else if c = '\x7b' then .give .openObject
  else if c = '\x7d' then .give .closeObject
  else if c = ',' then .give .comma
  else if c = ':' then .give .colon
  else if c = '"' then .go (.string .plain (some []))
  else if c = 'n' then .go (.word "ull".toList .null)
  else if c = 't' then .go (.word "rue".toList (.bool true))
  else if c = 'f' then .go (.word "alse".toList (.bool false))
  else if c = '-' then .go (.number .minus [c])
  else if c = '0' then .go (.number .zero [c])
  else if c.isDigit then .go (.number .whole [c])
  else .stop .stray

/-- a complete string, newest character first -/
def stringLexeme : Option (List Char) → Lexeme
  | some chars => .string (String.ofList chars.reverse)
  | none => .unsound .string

/-- a complete numeral, newest character first -/
def numberLexeme (numeral : List Char) : Lexeme :=
  match ofNumeral? numeral.reverse with
  | some j => .scalar j
  | none => .unsound .scalar

/-- the four bytes after `\u` are complete -/
def endCode (number : Option Nat) (high : Option Nat) (chars : Option (List Char)) : Scanned :=
  match number, high with
  | none, _ => .stop .string
  | some n, none =>
    if isLow n then .go (.string .plain none)
    else if isHigh n then .go (.string (.pairEscape n) chars)
    else .go (.string .plain (chars.map (Char.ofNat n :: ·)))
  | some n, some h =>
    if isLow n then .go (.string .plain (chars.map (Char.ofNat (pairValue h n) :: ·)))
    else .go (.string .plain none)

/-- a character of a string that is not part of an escape -/
def plainStep (chars : Option (List Char)) (c : Char) : Scanned :=
  if c = '"' then .give (stringLexeme chars)
  else if c = '\\' then .go (.string .escape chars)
  else if c.toNat < 0x20 then .stop .string
  else .go (.string .plain (chars.map (c :: ·)))

/-- the letter of an escape -/
def escapeStep (chars : Option (List Char)) (c : Char) : Scanned :=
  if c = 'u' then .go (.string (.code 4 (some 0) none) chars)
  else match unescape? c with
    | some e => .go (.string .plain (chars.map (e :: ·)))
    | none => .stop .string

/-- a character inside a string -/
def stringStep (state : StringState) (chars : Option (List Char)) (c : Char) : Scanned :=
  match state with
  | .plain => plainStep chars c
  | .escape => escapeStep chars c
  | .code bytes number high =>
    let number := number.bind fun n => (hexValue? c).map (n * 16 + ·)
    if bytes ≤ c.utf8Size then endCode number high chars
    else .go (.string (.code (bytes - c.utf8Size) number high) chars)
  | .pairEscape high => if c = '\\' then .go (.string (.pairLetter high) chars) else plainStep none c
  | .pairLetter high =>
    if c = 'u' then .go (.string (.code 4 (some 0) (some high)) chars) else escapeStep none c

/-- one character -/
def Mode.step (mode : Mode) (c : Char) : Scanned :=
  match mode with
  | .between => beginLexeme c
  | .word [] _ => .stop .scalar
  | .word [l] j => if c = l then .give (.scalar j) else .stop .scalar
  | .word (l :: ls) j => if c = l then .go (.word ls j) else .stop .scalar
  | .string state chars => stringStep state chars c
  | .number state numeral =>
    match state.step c with
    | .more state => .go (.number state (c :: numeral))
    | .broken => .stop .scalar
    | .done => ⟨numberLexeme numeral :: (beginLexeme c).lexemes, (beginLexeme c).next⟩

/-- the end of the text -/
def Mode.finish : Mode → List Lexeme
  | .between => []
  | .word _ _ => [.broken .scalar .endsEarly]
  | .string _ chars => [.broken .string (if chars.isSome then .endsEarly else .malformed)]
  | .number state numeral =>
    if state.isComplete then [numberLexeme numeral] else [.broken .scalar .endsEarly]

/-- the lexemes of the characters to come -/
def scan : Mode → List Char → List Lexeme
  | mode, [] => mode.finish
  | mode, c :: cs =>
    let found := mode.step c
    found.lexemes ++ match found.next with
      | some mode => scan mode cs
      | none => []

/-- the lexemes of a text, up to the first broken one -/
def lexemes (text : String) : List Lexeme := scan .between text.toList

theorem scan_blank (c : Char) (cs : List Char) (h : isSpace c = true) : scan .between (c :: cs) = scan .between cs := by
  simp [scan, Mode.step, beginLexeme, h, Scanned.go]

theorem scan_mark (cs : List Char) :
    scan .between ('[' :: cs) = .openArray :: scan .between cs ∧
    scan .between (']' :: cs) = .closeArray :: scan .between cs ∧
    scan .between ('\x7b' :: cs) = .openObject :: scan .between cs ∧
    scan .between ('\x7d' :: cs) = .closeObject :: scan .between cs ∧
    scan .between (',' :: cs) = .comma :: scan .between cs ∧
    scan .between (':' :: cs) = .colon :: scan .between cs :=
  ⟨rfl, rfl, rfl, rfl, rfl, rfl⟩

end AccessRules.Json
