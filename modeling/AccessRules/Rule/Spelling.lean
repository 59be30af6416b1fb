/-
How a rule is written down: words and brackets with blanks between them. Two words need a blank between them; beside a
bracket a blank may stand or not.

- `scan_append`: a text before the end of a word is read by itself.
- `scan_split`: a text is read on both sides of a delimiter.
- `scan_of_spelling`: however the pieces are written down, reading gives their tokens.
- `exists_spelling`: every text is words and brackets written down.
-/
import AccessRules.Token.Lexer

namespace AccessRules.Rule

open Text

/-- a word or a bracket -/
inductive Piece where
  | word (w : String)
  | bracket (c : Char)
deriving DecidableEq

/-- the token of a piece -/
def Piece.token : Piece → Token
  | .word w => .ofWord w
  | .bracket c => .bracket c

/-- the characters of a piece -/
def Piece.letters : Piece → List Char
  | .word w => w.toList
  | .bracket c => [c]

/-- a word may end before `cs` -/
def EndsWord (cs : List Char) : Prop := ∀ c, cs.head? = some c → isDelimiter c = true

/-- `cs` is the pieces written down one after another -/
inductive Spelling : List Piece → List Char → Prop where
  | nil : Spelling [] []
  | blank {ps : List Piece} {cs : List Char} (c : Char) (hc : isBlank c = true) (rest : Spelling ps cs) :
    Spelling ps (c :: cs)
  | bracket {ps : List Piece} {cs : List Char} (c : Char) (hc : isBracket c = true) (rest : Spelling ps cs) :
    Spelling (.bracket c :: ps) (c :: cs)
  | word {ps : List Piece} {cs : List Char} (w : String) (hw : isWord w = true) (hcs : EndsWord cs)
    (rest : Spelling ps cs) : Spelling (.word w :: ps) (w.toList ++ cs)

theorem scan_of_endsWord (word cs : List Char) (h : EndsWord cs) :
    Token.scan word cs = Token.ofLetters word ++ Token.scan [] cs := by
  cases cs with
  | nil => simp [Token.scan, Token.ofLetters]
  | cons c cs =>
    have hc : isDelimiter c = true := h c rfl
    rw [Token.scan_delimiter word c cs hc, Token.scan_delimiter [] c cs hc, List.append_assoc]
    rfl

/-- a text is read by itself when what stands behind it ends its last word -/
theorem scan_append (word cs rest : List Char) (h : EndsWord rest) :
    Token.scan word (cs ++ rest) = Token.scan word cs ++ Token.scan [] rest := by
  induction cs generalizing word with
  | nil => exact scan_of_endsWord word rest h
  | cons c cs ih =>
    by_cases hblank : isBlank c = true
    · rw [List.cons_append, Token.scan_blank word c _ hblank, Token.scan_blank word c _ hblank, ih, List.append_assoc]
    · by_cases hbracket : isBracket c = true
      · rw [List.cons_append, Token.scan_bracket word c _ hbracket, Token.scan_bracket word c _ hbracket, ih,
          List.append_assoc]
        rfl
      · have hletter : isDelimiter c = false := by simp [isDelimiter, hblank, hbracket]
        rw [List.cons_append, Token.scan_letter word c _ hletter, Token.scan_letter word c _ hletter, ih]

theorem endsWord_cons (c : Char) (cs : List Char) (h : isDelimiter c = true) : EndsWord (c :: cs) := by
  intro d hd
  rw [← Option.some.inj hd]
  exact h

theorem scan_split (cs ds : List Char) (d : Char) (h : isDelimiter d = true) :
    Token.scan [] (cs ++ d :: ds) = Token.scan [] cs ++ Token.ofDelimiter d ++ Token.scan [] ds := by
  rw [scan_append [] cs _ (endsWord_cons d ds h), Token.scan_delimiter [] d ds h, Token.ofLetters, List.nil_append,
    List.append_assoc]

theorem scan_of_spelling (ps : List Piece) (cs : List Char) (h : Spelling ps cs) :
    Token.scan [] cs = ps.map Piece.token := by
  induction h with
  | nil => rfl
  | blank c hc _ ih => rw [Token.scan_blank [] c _ hc, ih]; rfl
  | bracket c hc _ ih => rw [Token.scan_bracket [] c _ hc, ih]; rfl
  | word w hw hcs _ ih =>
    obtain ⟨hne, hl⟩ := (isWord_iff w).1 hw
    rw [Token.scan_letters [] w.toList _ hl, scan_of_endsWord _ _ hcs, ih, List.append_nil, ofLetters_reverse w hne]
    rfl

/-- a word whose letters are held newest first, before the end of a word -/
theorem Spelling.ofLetters {ps : List Piece} {cs : List Char} (h : Spelling ps cs) (word : List Char)
    (hword : ∀ c ∈ word, isDelimiter c = false) (hcs : EndsWord cs) : ∃ ps', Spelling ps' (word.reverse ++ cs) := by
  cases word with
  | nil => exact ⟨ps, h⟩
  | cons c word =>
    have hw : isWord (String.ofList (c :: word).reverse) = true := by
      rw [isWord_iff, String.toList_ofList]
      exact ⟨by simp, fun d hd => hword d (List.mem_reverse.1 hd)⟩
    have hspelled := Spelling.word _ hw hcs h
    rw [String.toList_ofList] at hspelled
    exact ⟨_, hspelled⟩

/-- the letters of an open word, and a text behind it -/
theorem exists_spelling_from (word cs : List Char) (hword : ∀ c ∈ word, isDelimiter c = false) :
    ∃ ps, Spelling ps (word.reverse ++ cs) := by
  induction cs generalizing word with
  | nil => exact Spelling.nil.ofLetters word hword nofun
  | cons c cs ih =>
    obtain ⟨ps, hps⟩ := ih [] (by simp)
    by_cases hblank : isBlank c = true
    · exact (Spelling.blank c hblank hps).ofLetters word hword (endsWord_cons c cs (by simp [isDelimiter, hblank]))
    · by_cases hbracket : isBracket c = true
      · exact (Spelling.bracket c hbracket hps).ofLetters word hword
          (endsWord_cons c cs (by simp [isDelimiter, hbracket]))
      · have hletter : isDelimiter c = false := by simp [isDelimiter, hblank, hbracket]
        obtain ⟨ps', hps'⟩ := ih (c :: word) (List.forall_mem_cons.2 ⟨hletter, hword⟩)
        exact ⟨ps', by simpa using hps'⟩

theorem exists_spelling (cs : List Char) : ∃ ps, Spelling ps cs := exists_spelling_from [] cs (by simp)

end AccessRules.Rule
