/-
Reading a rule into tokens. Blanks and brackets end a word; a bracket is a token by itself, a blank is none. There is
no quoting and no escaping.

- `tokenize_empty`: the empty text has no tokens.
- `scan_blank`, `scan_bracket`, `scan_letter`: one character at a time, with the letters of the open word in hand.
- `scan_delimiter`: a delimiter, be it a blank or a bracket.
- `tokenize_word`: a word by itself is one token.
-/
import AccessRules.Text.Blank
import AccessRules.Token

namespace AccessRules

open Text

/-- the two brackets, which are never part of a word -/
def isBracket (c : Char) : Bool := c = '(' || c = ')'

/-- a character that ends a word -/
def isDelimiter (c : Char) : Bool := isBlank c || isBracket c

/-- a non-empty text without blanks and brackets -/
def isWord (w : String) : Bool := w ≠ "" && w.toList.all fun c => !isDelimiter c

namespace Token

/-- the token of a bracket -/
def bracket (c : Char) : Token := .str (String.ofList [c])

/-- the token of the open word, whose letters are held newest first; none when there are no letters -/
def ofLetters : List Char → List Token
  | [] => []
  | word => [.ofWord (String.ofList word.reverse)]

/-- the tokens of `cs` after the letters `word` of an open word -/
def scan : List Char → List Char → List Token
  | word, [] => ofLetters word
  | word, c :: cs =>
    if isBlank c then ofLetters word ++ scan [] cs
    else if isBracket c then ofLetters word ++ bracket c :: scan [] cs
    else scan (c :: word) cs

theorem scan_blank (word : List Char) (c : Char) (cs : List Char) (h : isBlank c = true) :
    scan word (c :: cs) = ofLetters word ++ scan [] cs := by
  simp [scan, h]

theorem isBlank_of_isBracket (c : Char) (h : isBracket c = true) : isBlank c = false := by
  simp only [isBracket, Bool.or_eq_true, decide_eq_true_eq] at h
  rcases h with h | h <;> subst h <;> decide

theorem scan_bracket (word : List Char) (c : Char) (cs : List Char) (h : isBracket c = true) :
    scan word (c :: cs) = ofLetters word ++ bracket c :: scan [] cs := by
  simp [scan, h, isBlank_of_isBracket c h]

/-- what a delimiter adds to the tokens: a bracket itself, a blank nothing -/
def ofDelimiter (d : Char) : List Token := if isBracket d then [bracket d] else []

theorem ofDelimiter_blank (d : Char) (h : isBlank d = true) : ofDelimiter d = [] := by
  refine if_neg fun hbracket => ?_
  rw [isBlank_of_isBracket d hbracket] at h
  cases h

theorem scan_delimiter (word : List Char) (d : Char) (cs : List Char) (h : isDelimiter d = true) :
    scan word (d :: cs) = ofLetters word ++ ofDelimiter d ++ scan [] cs := by
  rw [List.append_assoc]
  rcases Bool.or_eq_true_iff.1 h with hblank | hbracket
  · rw [scan_blank word d cs hblank, ofDelimiter_blank d hblank]
    rfl
  · rw [scan_bracket word d cs hbracket, ofDelimiter, if_pos hbracket]
    rfl

theorem scan_letter (word : List Char) (c : Char) (cs : List Char) (h : isDelimiter c = false) :
    scan word (c :: cs) = scan (c :: word) cs := by
  simp only [isDelimiter, Bool.or_eq_false_iff] at h
  simp [scan, h.1, h.2]

theorem scan_letters (word letters cs : List Char) (h : ∀ c ∈ letters, isDelimiter c = false) :
    scan word (letters ++ cs) = scan (letters.reverse ++ word) cs := by
  induction letters generalizing word with
  | nil => rfl
  | cons c letters ih =>
    have hc : isDelimiter c = false := h c (List.mem_cons_self ..)
    rw [List.cons_append, scan_letter word c _ hc, ih _ fun d hd => h d (List.mem_cons_of_mem c hd)]
    simp

end Token

/-- the tokens of a rule text -/
def tokenize (rule : String) : List Token := Token.scan [] rule.toList

theorem tokenize_empty : tokenize "" = [] := rfl

theorem isWord_iff (w : String) : isWord w = true ↔ w ≠ "" ∧ ∀ c ∈ w.toList, isDelimiter c = false := by
  simp [isWord]

/-- the letters of a word, held newest first, are the token of the word -/
theorem ofLetters_reverse (w : String) (h : w ≠ "") : Token.ofLetters w.toList.reverse = [.ofWord w] := by
  have hne : w.toList.reverse ≠ [] := by simpa using h
  obtain ⟨c, cs, hc⟩ := List.exists_cons_of_ne_nil hne
  rw [hc, Token.ofLetters, ← hc, List.reverse_reverse, String.ofList_toList]
  exact fun hn => List.cons_ne_nil c cs hn

theorem tokenize_word (w : String) (h : isWord w = true) : tokenize w = [.ofWord w] := by
  obtain ⟨hne, hw⟩ := (isWord_iff w).1 h
  have hs := Token.scan_letters [] w.toList [] hw
  rw [List.append_nil, List.append_nil] at hs
  rw [tokenize, hs, Token.scan, ofLetters_reverse w hne]

end AccessRules
