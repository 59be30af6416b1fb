/-
Which literal a word stands for. A word of digits is the number that its digits denote by their places, as long as that
number fits 64 bits; no number is cut down to fit, so a longer one stays text. Two words are booleans, and every other
word is itself. A literal is written as a word of the same literal; only zeros that lead a numeral are lost on the way.

- `value_eq_placeValue`: reading digits from the left gives each the weight of its place.
- `ofWord_eq_int_iff`, `ofWord_eq_bool_iff`, `ofWord_eq_str_iff`: the words of each kind of token.
- `ofWord_text_ofWord`: a word's literal written out is a word of that literal.
- `text_ofWord_ne_iff`: which words are written in another way than they were given.
- `ofWord_exact`: all of it.
-/
import Mathlib.Tactic
import Mathlib.Data.Nat.Digits.Defs
import AccessRules.Proofs.Token.WrittenOut

namespace AccessRules.Token

open Text

/-! ## Numerals -/

/-- the number that digits denote by their places: the last counts ones, the one before it tens, and so on -/
def placeValue (cs : List Char) : Nat := Nat.ofDigits 10 (cs.reverse.map fun c => c.toNat - '0'.toNat)

/-- the word is one digit or more, and they denote `n` -/
def Denotes (w : String) (n : Nat) : Prop :=
  w ≠ "" ∧ (∀ c ∈ w.toList, c.isDigit = true) ∧ placeValue w.toList = n

theorem placeValue_cons (c : Char) (cs : List Char) :
    placeValue (c :: cs) = placeValue cs + 10 ^ cs.length * (c.toNat - '0'.toNat) := by
  simp [placeValue, Nat.ofDigits_append]

theorem ofDigitChars_eq (cs : List Char) (n : Nat) :
    Nat.ofDigitChars 10 cs n = 10 ^ cs.length * n + placeValue cs := by
  induction cs generalizing n with
  | nil => simp [placeValue]
  | cons c cs ih =>
    rw [Nat.ofDigitChars_cons, ih, placeValue_cons, List.length_cons]
    ring

theorem value_eq_placeValue (cs : List Char) : value cs = placeValue cs := by
  rw [value, ofDigitChars_eq, Nat.mul_zero, Nat.zero_add]

theorem isDigitRun_iff (w : String) : isDigitRun w.toList = true ↔ w ≠ "" ∧ ∀ c ∈ w.toList, c.isDigit = true := by
  simp [isDigitRun]

theorem isNumeral_iff (w : String) : isNumeral w = true ↔ ∃ n ≤ largest, Denotes w n := by
  rw [isNumeral, Bool.and_eq_true, isDigitRun_iff, decide_eq_true_iff, value_eq_placeValue]
  constructor
  · rintro ⟨⟨hne, hdigits⟩, hle⟩
    exact ⟨_, hle, hne, hdigits, rfl⟩
  · rintro ⟨n, hle, hne, hdigits, rfl⟩
    exact ⟨⟨hne, hdigits⟩, hle⟩

theorem Denotes.value_eq {w : String} {n : Nat} (h : Denotes w n) : value w.toList = n :=
  (value_eq_placeValue w.toList).trans h.2.2

/-- zeros in front do not change what digits denote -/
theorem Denotes.zeros {w : String} {n : Nat} (h : Denotes w n) (k : Nat) :
    Denotes (String.ofList (List.replicate k '0') ++ w) n := by
  have hne := h.1
  have hdigits := h.2.1
  have hchars : (String.ofList (List.replicate k '0') ++ w).toList = List.replicate k '0' ++ w.toList := by
    simp [String.toList_append]
  refine ⟨fun he => hne ?_, ?_, ?_⟩
  · have hempty := congrArg String.toList he
    rw [hchars] at hempty
    simpa using (List.append_eq_nil_iff.1 hempty).2
  · rw [hchars]
    refine List.forall_mem_append.2 ⟨fun c hc => ?_, hdigits⟩
    rw [List.eq_of_mem_replicate hc]
    rfl
  · rw [hchars, ← value_eq_placeValue, value_zeros, h.value_eq]

/-! ## Words and tokens -/

theorem ofWord_of_denotes {w : String} {n : Nat} (h : Denotes w n) (hle : n ≤ largest) :
    ofWord w = .int (Int64.ofNat n) := by
  have hnumeral := (isNumeral_iff w).2 ⟨n, hle, h⟩
  obtain ⟨hT, hF⟩ := ne_of_isNumeral w hnumeral
  rw [ofWord, if_neg hT, if_neg hF, if_pos hnumeral, h.value_eq]

/-- a word is a boolean, a numeral in range, or neither and stays text -/
theorem ofWord_cases (w : String) :
    (∃ b, w = boolText b ∧ ofWord w = .bool b) ∨
      (∃ n ≤ largest, Denotes w n ∧ ofWord w = .int (Int64.ofNat n)) ∨
      (w ≠ "True" ∧ w ≠ "False" ∧ (¬ ∃ n ≤ largest, Denotes w n) ∧ ofWord w = .str w) := by
  by_cases hT : w = "True"
  · exact .inl ⟨true, hT, by rw [hT]; rfl⟩
  · by_cases hF : w = "False"
    · exact .inl ⟨false, hF, by rw [hF]; rfl⟩
    · by_cases hn : isNumeral w = true
      · obtain ⟨n, hle, hdenotes⟩ := (isNumeral_iff w).1 hn
        exact .inr (.inl ⟨n, hle, hdenotes, ofWord_of_denotes hdenotes hle⟩)
      · have hstr := ofWord_eq_str w hT hF (by simpa using hn)
        exact .inr (.inr ⟨hT, hF, fun h => hn ((isNumeral_iff w).2 h), hstr⟩)

theorem ofWord_eq_int_iff (w : String) (i : Int64) :
    ofWord w = .int i ↔ ∃ n ≤ largest, Denotes w n ∧ i.toInt = n := by
  constructor
  · intro h
    rcases ofWord_cases w with ⟨b, -, hb⟩ | ⟨n, hle, hdenotes, hn⟩ | ⟨-, -, -, hs⟩
    · cases hb.symm.trans h
    · obtain rfl : Int64.ofNat n = i := Token.int.inj (hn.symm.trans h)
      exact ⟨n, hle, hdenotes, toInt_ofNat n hle⟩
    · cases hs.symm.trans h
  · rintro ⟨n, hle, hdenotes, hi⟩
    have hofNat : Int64.ofNat n = i := Int64.toInt_inj.1 (by rw [toInt_ofNat n hle, hi])
    rw [ofWord_of_denotes hdenotes hle, hofNat]

theorem ofWord_eq_bool_iff (w : String) (b : Bool) : ofWord w = .bool b ↔ w = boolText b := by
  constructor
  · intro h
    rcases ofWord_cases w with ⟨b', hw, hb⟩ | ⟨n, -, -, hn⟩ | ⟨-, -, -, hs⟩
    · obtain rfl : b' = b := Token.bool.inj (hb.symm.trans h)
      exact hw
    · cases hn.symm.trans h
    · cases hs.symm.trans h
  · rintro rfl
    cases b <;> rfl

theorem ofWord_eq_str_iff (w s : String) :
    ofWord w = .str s ↔ s = w ∧ w ≠ "True" ∧ w ≠ "False" ∧ ¬ ∃ n ≤ largest, Denotes w n := by
  constructor
  · intro h
    rcases ofWord_cases w with ⟨b, -, hb⟩ | ⟨n, -, -, hn⟩ | ⟨hT, hF, hnone, hs⟩
    · cases hb.symm.trans h
    · cases hn.symm.trans h
    · exact ⟨(Token.str.inj (hs.symm.trans h)).symm, hT, hF, hnone⟩
  · rintro ⟨rfl, hT, hF, hnone⟩
    exact ofWord_eq_str s hT hF (by simpa [← isNumeral_iff] using hnone)

/-! ## Writing the token of a word -/

theorem ofWord_text_ofWord (w : String) : ofWord (ofWord w).text = ofWord w := by
  rcases ofWord_cases w with ⟨b, hw, hb⟩ | ⟨n, hle, -, hn⟩ | ⟨-, -, -, hs⟩
  · rw [hb, text, ← hw, hb]
  · rw [hn, text_int_ofNat n hle, ofWord_digits n hle]
  · rw [hs, text, hs]

/-- the word is digits that denote a number in range, the first of them a zero that could be left out -/
def HasSpareZero (w : String) : Prop :=
  (∃ n ≤ largest, Denotes w n) ∧ ∃ c cs, w.toList = '0' :: c :: cs

/-- digits are written as themselves, unless a zero leads others -/
theorem digits_value_ne_iff (cs : List Char) (h : isDigitRun cs = true) :
    digits (value cs) ≠ cs ↔ ∃ c rest, cs = '0' :: c :: rest := by
  constructor
  · intro hne
    obtain ⟨k, hk⟩ := eq_zeros_append_digits cs h
    cases k with
    | zero => exact absurd hk.symm hne
    | succ k =>
      rw [List.replicate_succ, List.cons_append] at hk
      have hrest : List.replicate k '0' ++ digits (value cs) ≠ [] :=
        fun he => Nat.toDigits_ne_nil (List.append_eq_nil_iff.1 he).2
      obtain ⟨c, rest, hcons⟩ := List.exists_cons_of_ne_nil hrest
      exact ⟨c, rest, hk.trans (congrArg ('0' :: ·) hcons)⟩
  · rintro ⟨c, rest, rfl⟩ heq
    -- without the zero the digits denote the same number, which takes no more of them to write
    have hrest : isDigitRun (c :: rest) = true := by simpa [isDigitRun] using h
    obtain ⟨k, hk⟩ := eq_zeros_append_digits (c :: rest) hrest
    have hvalue : value ('0' :: c :: rest) = value (c :: rest) := value_zeros 1 (c :: rest)
    have hlength := congrArg List.length hk
    rw [← hvalue, heq] at hlength
    simp only [List.length_append, List.length_cons] at hlength
    omega

theorem text_ofWord_ne_iff (w : String) : (ofWord w).text ≠ w ↔ HasSpareZero w := by
  rcases ofWord_cases w with ⟨b, hw, hb⟩ | ⟨n, hle, hdenotes, hn⟩ | ⟨-, -, hnone, hs⟩
  · refine iff_of_false (fun hne => hne (by rw [hb, text, hw])) ?_
    rintro ⟨-, c, cs, hchars⟩
    rw [hw] at hchars
    cases b <;> cases hchars
  · have hrun := (isDigitRun_iff w).2 ⟨hdenotes.1, hdenotes.2.1⟩
    have htext : (ofWord w).text = w ↔ digits (value w.toList) = w.toList := by
      rw [hn, text_int_ofNat n hle, hdenotes.value_eq, ← String.toList_inj, String.toList_ofList]
    rw [Ne, htext, ← Ne, digits_value_ne_iff w.toList hrun]
    exact (and_iff_right ⟨n, hle, hdenotes⟩).symm
  · exact iff_of_false (fun hne => hne (by rw [hs, text])) fun h => hnone h.1

/-! ## The whole of conversion -/

/-- **Literals are exact.** A word is an integer exactly when it is digits, however many zeros lead them, that denote a
number of at most 2^63 - 1, and then it is that number; it is a boolean exactly when it is the word of one; and it is text
exactly when it is neither, and then it is the text that it was, as are all digits that denote a greater number. What a
word is read as is written as a word that is read the same, and as the word itself unless a zero that could be left out
leads the digits of a number in range. -/
theorem ofWord_exact (w : String) :
    (∀ i : Int64, ofWord w = .int i ↔ ∃ n : Nat, n ≤ 2 ^ 63 - 1 ∧ Denotes w n ∧ i.toInt = n) ∧
    (∀ n k : Nat, n ≤ 2 ^ 63 - 1 → Denotes w n →
      ofWord (String.ofList (List.replicate k '0') ++ w) = ofWord w) ∧
    (∀ b : Bool, ofWord w = .bool b ↔ w = if b then "True" else "False") ∧
    (∀ s : String, ofWord w = .str s ↔
      s = w ∧ w ≠ "True" ∧ w ≠ "False" ∧ ¬ ∃ n : Nat, n ≤ 2 ^ 63 - 1 ∧ Denotes w n) ∧
    (∀ n : Nat, 2 ^ 63 - 1 < n → Denotes w n → ofWord w = .str w) ∧
    ofWord (ofWord w).text = ofWord w ∧
    ((ofWord w).text ≠ w ↔ HasSpareZero w) := by
  refine ⟨ofWord_eq_int_iff w, ?_, ofWord_eq_bool_iff w, ofWord_eq_str_iff w, ?_, ofWord_text_ofWord w,
    text_ofWord_ne_iff w⟩
  · intro n k hle hdenotes
    rw [ofWord_of_denotes (hdenotes.zeros k) hle, ofWord_of_denotes hdenotes hle]
  · intro n hlt hdenotes
    rcases ofWord_cases w with ⟨b, rfl, -⟩ | ⟨m, hle, hm, -⟩ | ⟨-, -, -, hs⟩
    · cases b with
      | true => exact absurd (hdenotes.2.1 'T' (by decide)) (by decide)
      | false => exact absurd (hdenotes.2.1 'F' (by decide)) (by decide)
    · obtain rfl : m = n := hm.2.2.symm.trans hdenotes.2.2
      exact absurd hle (Nat.not_le.2 hlt)
    · exact hs

/-- the largest integer with and without zeros before it, the number behind it, and a numeral that loses its zeros -/
theorem ofWord_exact_at_limit :
    ofWord (String.ofList (List.replicate 3 '0') ++ "9223372036854775807") = ofWord "9223372036854775807" ∧
    (∃ n : Nat, n ≤ 2 ^ 63 - 1 ∧ Denotes "9223372036854775807" n ∧ Int64.maxValue.toInt = n) ∧
    ofWord "9223372036854775808" = .str "9223372036854775808" ∧ (ofWord "007").text ≠ "007" := by
  have hlimit : Denotes "9223372036854775807" 9223372036854775807 :=
    ⟨by decide, List.all_eq_true.1 (by decide), by decide⟩
  have hbehind : Denotes "9223372036854775808" 9223372036854775808 :=
    ⟨by decide, List.all_eq_true.1 (by decide), by decide⟩
  have hseven : Denotes "007" 7 := ⟨by decide, List.all_eq_true.1 (by decide), by decide⟩
  obtain ⟨hint, hzeros, -⟩ := ofWord_exact "9223372036854775807"
  obtain ⟨-, -, -, -, hlong, -⟩ := ofWord_exact "9223372036854775808"
  obtain ⟨-, -, -, -, -, -, hloses⟩ := ofWord_exact "007"
  refine ⟨hzeros _ 3 (by decide) hlimit, (hint Int64.maxValue).1 (by decide), hlong _ (by decide) hbehind, ?_⟩
  exact hloses.2 ⟨⟨7, by decide, hseven⟩, '0', ['7'], rfl⟩

end AccessRules.Token
