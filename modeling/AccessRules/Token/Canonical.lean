/-
Canonical tokens: those that reading can give. A token list is written out by its texts with blanks between them; a
canonical one is read back from that as itself.

- `isCanonical_ofWord`: the token of a word is canonical.
- `isCanonical_of_mem_tokenize`: so is every token that is read.
- `ofWord_text`: a canonical token that is no bracket is the token of the word that its text is.
-/
import AccessRules.Token.Lexer

namespace AccessRules.Token

open Text

/-- a token that reading can give -/
def isCanonical : Token → Bool
  | .bool _ => true
  | .int n => 0 ≤ n
  | .str s => s = "(" || s = ")" || (isWord s && s ≠ "True" && s ≠ "False" && !isNumeral s)

/-- `cs` is the texts of the tokens, with one or more blanks between each two -/
inductive IsWrittenOut : List Token → List Char → Prop where
  | nil : IsWrittenOut [] []
  | single (t : Token) : IsWrittenOut [t] t.text.toList
  | cons {ts : List Token} {cs : List Char} (t : Token) (gap : List Char) (hne : gap ≠ [])
    (hg : ∀ c ∈ gap, isBlank c = true) (hts : ts ≠ []) (rest : IsWrittenOut ts cs) :
    IsWrittenOut (t :: ts) (t.text.toList ++ gap ++ cs)

/-! ## Integers within the range of words -/

theorem toInt_ofNat (n : Nat) (h : n ≤ largest) : (Int64.ofNat n).toInt = n := by
  have hlargest : largest = 2 ^ 63 - 1 := rfl
  exact Int64.toInt_ofNat_of_lt (by omega)

theorem text_int_ofNat (n : Nat) (h : n ≤ largest) : text (.int (Int64.ofNat n)) = String.ofList (digits n) := by
  rw [text, toInt_ofNat n h]
  rfl

theorem exists_ofNat_of_isCanonical (n : Int64) (h : (Token.int n).isCanonical = true) :
    ∃ k ≤ largest, n = Int64.ofNat k := by
  have hn : 0 ≤ n.toInt := Int64.le_iff_toInt_le.1 (of_decide_eq_true h)
  obtain ⟨k, hk⟩ := Int.eq_ofNat_of_zero_le hn
  have hlt : n.toInt < 2 ^ 63 := n.toInt_lt
  have hlargest : largest = 2 ^ 63 - 1 := rfl
  have hle : k ≤ largest := by omega
  exact ⟨k, hle, Int64.toInt_inj.1 (by rw [hk, toInt_ofNat k hle])⟩

/-! ## What is read is canonical -/

/-- a number within the range of words is no negative integer -/
theorem zero_le_ofNat (n : Nat) (h : n ≤ largest) : 0 ≤ Int64.ofNat n := by
  rw [Int64.le_iff_toInt_le, toInt_ofNat n h]
  exact Int.natCast_nonneg n

theorem isCanonical_ofWord (w : String) (h : isWord w = true) : (ofWord w).isCanonical = true := by
  unfold ofWord
  split
  · rfl
  · rename_i hT
    split
    · rfl
    · rename_i hF
      split
      · rename_i hn
        obtain ⟨_, hv⟩ := Bool.and_eq_true_iff.1 hn
        exact decide_eq_true (zero_le_ofNat _ (of_decide_eq_true hv))
      · rename_i hn
        simp [isCanonical, h, hT, hF, hn]

theorem isCanonical_bracket (c : Char) (h : isBracket c = true) : (bracket c).isCanonical = true := by
  simp only [isBracket, Bool.or_eq_true, decide_eq_true_eq] at h
  rcases h with rfl | rfl <;> decide

/-- the open word of a scan never holds a character that ends a word -/
theorem isCanonical_of_mem_ofLetters (word : List Char) (hw : ∀ c ∈ word, isDelimiter c = false) (t : Token)
    (ht : t ∈ ofLetters word) : t.isCanonical = true := by
  cases word with
  | nil => simp [ofLetters] at ht
  | cons c cs =>
    rw [ofLetters] at ht
    · rw [List.mem_singleton.1 ht]
      refine isCanonical_ofWord _ ((isWord_iff _).2 ⟨?_, fun d hd => ?_⟩)
      · intro he
        have := congrArg String.toList he
        simp [String.toList_ofList] at this
      · rw [String.toList_ofList, List.mem_reverse] at hd
        exact hw d hd
    · exact fun he => List.cons_ne_nil c cs he

theorem isCanonical_of_mem_scan (word cs : List Char) (hw : ∀ c ∈ word, isDelimiter c = false) (t : Token)
    (ht : t ∈ scan word cs) : t.isCanonical = true := by
  induction cs generalizing word with
  | nil => exact isCanonical_of_mem_ofLetters word hw t ht
  | cons c cs ih =>
    by_cases hb : isBlank c = true
    · rw [scan_blank word c cs hb, List.mem_append] at ht
      rcases ht with ht | ht
      · exact isCanonical_of_mem_ofLetters word hw t ht
      · exact ih [] (by simp) ht
    · by_cases hk : isBracket c = true
      · rw [scan_bracket word c cs hk, List.mem_append, List.mem_cons] at ht
        rcases ht with ht | rfl | ht
        · exact isCanonical_of_mem_ofLetters word hw t ht
        · exact isCanonical_bracket c hk
        · exact ih [] (by simp) ht
      · have hd : isDelimiter c = false := by simp [isDelimiter, hb, hk]
        rw [scan_letter word c cs hd] at ht
        refine ih (c :: word) (fun d hmem => ?_) ht
        rcases List.mem_cons.1 hmem with rfl | hmem
        · exact hd
        · exact hw d hmem

theorem isCanonical_of_mem_tokenize (rule : String) (t : Token) (h : t ∈ tokenize rule) : t.isCanonical = true :=
  isCanonical_of_mem_scan [] rule.toList (by simp) t h

/-! ## The text of a canonical token -/

theorem ofWord_text (t : Token) (h : t.isCanonical = true) (ho : t ≠ .str "(") (hc : t ≠ .str ")") :
    ofWord t.text = t := by
  cases t with
  | bool b => cases b <;> decide
  | int n =>
    obtain ⟨k, hk, rfl⟩ := exists_ofNat_of_isCanonical n h
    rw [text_int_ofNat k hk, ofWord_digits k hk]
  | str s =>
    have hs : s ≠ "(" := fun he => ho (he ▸ rfl)
    have hs' : s ≠ ")" := fun he => hc (he ▸ rfl)
    simp only [isCanonical, hs, hs', decide_false, Bool.false_or, Bool.and_eq_true, decide_eq_true_eq,
      Bool.not_eq_true'] at h
    exact ofWord_eq_str s h.1.1.2 h.1.2 h.2

end AccessRules.Token
