/-
Tokens: what a rule is made of once its text is read. A word of a rule is a boolean, an integer or plain text, decided
by its spelling alone.

- `ofWord_digits`: a number's shortest numeral is read as that number, up to the largest 64-bit integer.
- `ofWord_eq_str`: any other word stays the text it is.
- `text_ofWord_str`: writing a word that stayed text gives the word.
-/
import AccessRules.Text.Decimal

namespace AccessRules

open Text

/-- a boolean, a 64-bit integer or a text -/
inductive Token where
  | bool (b : Bool)
  | int (n : Int64)
  | str (s : String)
deriving DecidableEq, Inhabited

namespace Token

/-- the largest integer that a word can stand for, that of 64 bits -/
def largest : Nat := 0x7fffffffffffffff

/-- the word is a numeral within the 64-bit range, however many zeros lead it -/
def isNumeral (w : String) : Bool := isDigitRun w.toList && decide (value w.toList ≤ largest)

/-- the token of one word: `True`, `False` and numerals in range are literals, all else is text -/
def ofWord (w : String) : Token :=
  if w = "True" then .bool true
  else if w = "False" then .bool false
  else if isNumeral w then .int (Int64.ofNat (value w.toList))
  else .str w

/-- how a boolean is written in rules and messages -/
def boolText (b : Bool) : String := if b then "True" else "False"

/-- how a token is written -/
def text : Token → String
  | .bool b => boolText b
  | .int n => String.ofList (decimal n.toInt)
  | .str s => s

/-- the text of a text token -/
def str? : Token → Option String
  | .str s => some s
  | _ => none

/-- the token is the text `s` -/
def is (t : Token) (s : String) : Bool := t = .str s

/-! ## Words -/

theorem ofWord_eq_str (w : String) (hT : w ≠ "True") (hF : w ≠ "False") (hn : isNumeral w = false) :
    ofWord w = .str w := by
  simp [ofWord, hT, hF, hn]

theorem text_ofWord_str (w s : String) (h : ofWord w = .str s) : s = w := by
  unfold ofWord at h
  split at h
  · cases h
  · split at h
    · cases h
    · split at h
      · cases h
      · exact (Token.str.inj h).symm

theorem isNumeral_digits (n : Nat) (h : n ≤ largest) : isNumeral (String.ofList (digits n)) = true := by
  simp [isNumeral, String.toList_ofList, isDigitRun_digits, value_digits, h]

/-- a digit run is neither of the two boolean words -/
theorem ne_of_isNumeral (w : String) (h : isNumeral w = true) : w ≠ "True" ∧ w ≠ "False" := by
  constructor <;> (rintro rfl; exact absurd h (by decide))

theorem ofWord_digits (n : Nat) (h : n ≤ largest) :
    ofWord (String.ofList (digits n)) = .int (Int64.ofNat n) := by
  have hn := isNumeral_digits n h
  obtain ⟨hT, hF⟩ := ne_of_isNumeral _ hn
  simp [ofWord, hT, hF, hn, String.toList_ofList, value_digits]

end Token

end AccessRules
