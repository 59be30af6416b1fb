/-
Tokens written out and read again. Tokens that reading can give are read back as themselves, and no others are: what
is read is always canonical. So reading the written-out tokens of a text gives the tokens of the text, and what the text
has lost on the way are its blanks and the leading zeros of its numerals.

- `tokenize_text`: a canonical token is read back from its text.
- `scan_isWrittenOut`: so are canonical tokens with blanks between them.
- `isWrittenOut_intercalate`: every token list can be written out, with any blanks between the tokens.
- `letters_of_piece`: what becomes of a word or a bracket.
- `tokenize_writtenOut_iff`: which token lists are read back, and what is read.
-/
import Mathlib.Tactic
import AccessRules.Rule.Spelling
import AccessRules.Token.Canonical

namespace AccessRules.Token

open Text Rule

/-! ## Canonical tokens are read back -/

theorem isDelimiter_of_isDigit (c : Char) (h : c.isDigit = true) : isDelimiter c = false := by
  have hbounds : 48 ≤ c.toNat ∧ c.toNat < 58 := toNat_of_isDigit c h
  have hblank : isBlank c = false := by
    have hranges : ∀ r ∈ blankRanges, r.2 < 48 ∨ 57 < r.1 := by decide
    simp only [isBlank, inRanges, List.any_eq_false, Bool.and_eq_true, decide_eq_true_eq]
    intro r hr hin
    have := hranges r hr
    omega
  have hbracket : isBracket c = false := by
    simp only [isBracket, Bool.or_eq_false_iff, decide_eq_false_iff_not]
    constructor <;> (rintro rfl; exact absurd hbounds (by decide))
  rw [isDelimiter, hblank, hbracket]
  rfl

theorem isWord_digits (n : Nat) : isWord (String.ofList (digits n)) = true := by
  have hrun := isDigitRun_digits n
  simp only [isDigitRun, Bool.and_eq_true, Bool.not_eq_true', List.isEmpty_eq_false_iff, List.all_eq_true] at hrun
  obtain ⟨hne, hdigits⟩ := hrun
  rw [isWord_iff, String.toList_ofList]
  exact ⟨by simpa using hne, fun c hc => isDelimiter_of_isDigit c (hdigits c hc)⟩

/-- the text of a canonical token is a word, unless it is a bracket -/
theorem isWord_text (t : Token) (h : t.isCanonical = true) (ho : t ≠ .str "(") (hc : t ≠ .str ")") :
    isWord t.text = true := by
  cases t with
  | bool b => cases b <;> decide
  | int n =>
    obtain ⟨k, hk, rfl⟩ := exists_ofNat_of_isCanonical n h
    rw [text_int_ofNat k hk]
    exact isWord_digits k
  | str s =>
    have hs : s ≠ "(" := fun he => ho (he ▸ rfl)
    have hs' : s ≠ ")" := fun he => hc (he ▸ rfl)
    simp only [isCanonical, hs, hs', decide_false, Bool.false_or, Bool.and_eq_true] at h
    exact h.1.1.1

theorem tokenize_text (t : Token) (h : t.isCanonical = true) : tokenize t.text = [t] := by
  by_cases ho : t = .str "("
  · rw [ho]
    rfl
  · by_cases hc : t = .str ")"
    · rw [hc]
      rfl
    · rw [tokenize_word t.text (isWord_text t h ho hc), ofWord_text t h ho hc]

theorem scan_gap (gap cs : List Char) (hgap : ∀ c ∈ gap, isBlank c = true) : scan [] (gap ++ cs) = scan [] cs := by
  induction gap with
  | nil => rfl
  | cons c gap ih =>
    obtain ⟨hc, hgap⟩ := List.forall_mem_cons.1 hgap
    rw [List.cons_append, scan_blank [] c _ hc, ih hgap]
    rfl

/-- **Canonical tokens written out** are read back, whatever the blanks between them. -/
theorem scan_isWrittenOut (ts : List Token) (cs : List Char) (h : IsWrittenOut ts cs)
    (hts : ∀ t ∈ ts, t.isCanonical = true) : scan [] cs = ts := by
  induction h with
  | nil => rfl
  | single t => exact tokenize_text t (hts t List.mem_cons_self)
  | @cons ts cs t gap hne hgap _ _ ih =>
    obtain ⟨ht, hts⟩ := List.forall_mem_cons.1 hts
    obtain ⟨c, rest, rfl⟩ := List.exists_cons_of_ne_nil hne
    have hblank : isBlank c = true := hgap c List.mem_cons_self
    have hends : EndsWord (c :: rest ++ cs) := endsWord_cons c _ (by simp [isDelimiter, hblank])
    calc scan [] (t.text.toList ++ (c :: rest) ++ cs)
        = scan [] t.text.toList ++ scan [] (c :: rest ++ cs) := by rw [List.append_assoc, scan_append [] _ _ hends]
      _ = [t] ++ scan [] cs := by rw [scan_gap (c :: rest) cs hgap, ← tokenize_text t ht, tokenize]
      _ = t :: ts := by rw [ih hts, List.singleton_append]

/-! ## Writing out -/

theorem isWrittenOut_intercalate (sep : String) (hne : sep ≠ "") (hsep : ∀ c ∈ sep.toList, isBlank c = true)
    (ts : List Token) : IsWrittenOut ts (sep.intercalate (ts.map text)).toList := by
  induction ts with
  | nil => exact .nil
  | cons t ts ih =>
    cases ts with
    | nil => simpa using IsWrittenOut.single t
    | cons u ts =>
      have hcons := IsWrittenOut.cons t sep.toList (by simpa using hne) hsep (List.cons_ne_nil u ts) ih
      simpa [String.intercalate_cons_cons, String.toList_append] using hcons

/-! ## What a text loses -/

theorem letters_of_word (w : String) :
    (ofWord w).text = w ∨
      ∃ n zeros, ofWord w = .int n ∧ w.toList = List.replicate zeros '0' ++ (ofWord w).text.toList := by
  unfold ofWord
  split_ifs with hT hF hn
  · exact .inl hT.symm
  · exact .inl hF.symm
  · obtain ⟨hrun, hvalue⟩ := Bool.and_eq_true_iff.1 hn
    have htext := text_int_ofNat (value w.toList) (of_decide_eq_true hvalue)
    obtain ⟨zeros, hzeros⟩ := eq_zeros_append_digits w.toList hrun
    exact .inr ⟨_, zeros, rfl, by rw [htext, String.toList_ofList, ← hzeros]⟩
  · exact .inl rfl

/-- a piece is its token's text, or a numeral and its token's text with zeros before it -/
theorem letters_of_piece (p : Piece) :
    p.letters = p.token.text.toList ∨
      ∃ n zeros, p.token = .int n ∧ p.letters = List.replicate zeros '0' ++ p.token.text.toList := by
  cases p with
  | word w =>
    rcases letters_of_word w with hw | hw
    · exact .inl (congrArg String.toList hw).symm
    · exact .inr hw
  | bracket c =>
    refine .inl ?_
    simp [Piece.letters, Piece.token, bracket, text]

/-! ## What is read back -/

/-- **Written out and read again.** Reading gives tokens back from their texts, with any blanks between them, exactly
when all of them are canonical; and there is such a text for every token list and every choice of blanks. What is read
is canonical, so the tokens of a rule are given back by any text that they are written out in. A rule is words and
brackets written down, one for each token, and each has the text of its token but for leading zeros of a numeral. -/
theorem tokenize_writtenOut_iff (ts : List Token) (rule : String) :
    (∀ out : String, IsWrittenOut ts out.toList → (tokenize out = ts ↔ ∀ t ∈ ts, t.isCanonical = true)) ∧
    (∀ sep : String, sep ≠ "" → (∀ c ∈ sep.toList, isBlank c = true) →
      IsWrittenOut ts (sep.intercalate (ts.map text)).toList) ∧
    (∀ t ∈ tokenize rule, t.isCanonical = true) ∧
    (∀ out : String, IsWrittenOut (tokenize rule) out.toList → tokenize out = tokenize rule) ∧
    ∃ ps, Spelling ps rule.toList ∧ tokenize rule = ps.map Piece.token ∧
      ∀ p ∈ ps, p.letters = p.token.text.toList ∨
        ∃ n zeros, p.token = .int n ∧ p.letters = List.replicate zeros '0' ++ p.token.text.toList := by
  have hread := isCanonical_of_mem_tokenize rule
  refine ⟨fun out hout => ⟨?_, scan_isWrittenOut ts out.toList hout⟩, ?_, hread, ?_, ?_⟩
  · rintro rfl
    exact isCanonical_of_mem_tokenize out
  · intro sep hne hsep
    exact isWrittenOut_intercalate sep hne hsep ts
  · intro out hout
    exact scan_isWrittenOut _ out.toList hout hread
  · obtain ⟨ps, hps⟩ := exists_spelling rule.toList
    exact ⟨ps, hps, scan_of_spelling ps rule.toList hps, fun p _ => letters_of_piece p⟩

/-- the tokens of a text with blanks and zeros to lose, with another blank between them; and two tokens that are taken
for others when they are read -/
theorem tokenize_writtenOut_of_numeral :
    tokenize (String.intercalate "\t" ((tokenize "limit  007(True)").map text)) =
      [.str "limit", .int 7, .str "(", .bool true, .str ")"] ∧
    tokenize (String.intercalate " " [text (.str "7"), text (.str "a b")]) ≠ [.str "7", .str "a b"] := by
  have hlimit : tokenize "limit  007(True)" = [.str "limit", .int 7, .str "(", .bool true, .str ")"] := by decide
  constructor
  · obtain ⟨-, hwritten, -, hagain, -⟩ :=
      tokenize_writtenOut_iff (tokenize "limit  007(True)") "limit  007(True)"
    have htab : ∀ c ∈ "\t".toList, isBlank c = true := List.all_eq_true.1 (by decide)
    rw [hagain _ (hwritten "\t" (by decide) htab), hlimit]
  · obtain ⟨hiff, hwritten, -⟩ := tokenize_writtenOut_iff [.str "7", .str "a b"] ""
    have hspace : ∀ c ∈ " ".toList, isBlank c = true := List.all_eq_true.1 (by decide)
    intro hback
    have hcanonical := (hiff _ (hwritten " " (by decide) hspace)).1 hback
    exact absurd (hcanonical (.str "7") List.mem_cons_self) (by decide)

end AccessRules.Token
