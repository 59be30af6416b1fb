/-
Decimal numerals over the ASCII digits, of any length.

- `isDigitRun_digits`, `value_digits`: writing a number gives a digit run, and reading it gives the number back.
- `value_zeros`: leading zeros do not change the value.
- `eq_zeros_append_digits`: but for leading zeros, a digit run is what its value is written as.
-/
namespace AccessRules.Text

/-- a non-empty run of ASCII digits -/
def isDigitRun (cs : List Char) : Bool := !cs.isEmpty && cs.all Char.isDigit

/-- the number a digit run stands for -/
def value (cs : List Char) : Nat := Nat.ofDigitChars 10 cs 0

/-- the shortest digit run for `n` -/
def digits (n : Nat) : List Char := Nat.toDigits 10 n

/-- an integer in decimal, with a minus sign in front when it is negative -/
def decimal : Int → List Char
  | .ofNat n => digits n
  | .negSucc n => '-' :: digits (n + 1)

theorem isDigitRun_digits (n : Nat) : isDigitRun (digits n) = true := by
  simp only [isDigitRun, Bool.and_eq_true, Bool.not_eq_true', List.isEmpty_eq_false_iff, List.all_eq_true]
  exact ⟨Nat.toDigits_ne_nil, fun c hc => @Nat.isDigit_of_mem_toDigits 10 n c (by decide) (by decide) hc⟩

theorem value_digits (n : Nat) : value (digits n) = n := Nat.ofDigitChars_ten_toDigits

theorem value_zeros (k : Nat) (cs : List Char) : value (List.replicate k '0' ++ cs) = value cs := by
  simp [value, Nat.ofDigitChars_append, Nat.ofDigitChars_replicate_zero]

/-! ## Leading zeros -/

theorem toNat_of_isDigit (c : Char) (h : c.isDigit = true) : '0'.toNat ≤ c.toNat ∧ c.toNat < '0'.toNat + 10 := by
  have hbounds : 48 ≤ c.toNat ∧ c.toNat ≤ 57 := by simpa [Char.isDigit, UInt32.le_iff_toNat_le] using h
  have hzero : '0'.toNat = 48 := rfl
  omega

/-- one digit is what its value is written as -/
theorem digits_digit (c : Char) (h : c.isDigit = true) : digits (c.toNat - '0'.toNat) = [c] := by
  obtain ⟨hlow, hhigh⟩ := toNat_of_isDigit c h
  have hzero : '0'.toNat = 48 := rfl
  rw [digits, Nat.toDigits_of_lt_base (by omega)]
  refine congrArg (· :: []) (Char.toNat_inj.1 ?_)
  rw [Nat.toNat_digitChar_of_lt_ten (by omega)]
  omega

/-- digits behind a positive number lengthen what it is written as -/
theorem digits_ofDigitChars (n : Nat) (cs : List Char) (hn : 0 < n) (hcs : ∀ c ∈ cs, c.isDigit = true) :
    digits (Nat.ofDigitChars 10 cs n) = digits n ++ cs := by
  induction cs generalizing n with
  | nil => simp
  | cons c cs ih =>
    obtain ⟨hc, hcs⟩ := List.forall_mem_cons.1 hcs
    have hlt : c.toNat - '0'.toNat < 10 := by have := toNat_of_isDigit c hc; omega
    have hlast : digits (10 * n + (c.toNat - '0'.toNat)) = digits n ++ [c] := by
      rw [← digits_digit c hc]
      exact (Nat.toDigits_append_toDigits (by decide) hn hlt).symm
    rw [Nat.ofDigitChars_cons, ih _ (by omega) hcs, hlast, List.append_assoc]
    rfl

/-- **A digit run** is zeros and the shortest digit run of its value. -/
theorem eq_zeros_append_digits (cs : List Char) (h : isDigitRun cs = true) :
    ∃ k, cs = List.replicate k '0' ++ digits (value cs) := by
  induction cs with
  | nil => cases h
  | cons c cs ih =>
    have hall : ∀ d ∈ c :: cs, d.isDigit = true := by simpa [isDigitRun] using h
    obtain ⟨hc, hcs⟩ := List.forall_mem_cons.1 hall
    have hvalue : value (c :: cs) = Nat.ofDigitChars 10 cs (c.toNat - '0'.toNat) := by
      rw [value, Nat.ofDigitChars_cons, Nat.mul_zero, Nat.zero_add]
    by_cases hzero : c = '0'
    · subst hzero
      by_cases hne : cs = []
      · exact ⟨0, by rw [hne]; rfl⟩
      · -- a zero with digits behind it leads
        have hrun : isDigitRun cs = true := by simpa [isDigitRun, hne] using hcs
        obtain ⟨k, hk⟩ := ih hrun
        refine ⟨k + 1, ?_⟩
        rw [hvalue, List.replicate_succ, List.cons_append]
        exact congrArg ('0' :: ·) hk
    · -- the first digit that is no zero begins the shortest run
      have hpos : 0 < c.toNat - '0'.toNat := by
        have hlow := (toNat_of_isDigit c hc).1
        have hne : c.toNat ≠ '0'.toNat := fun he => hzero (Char.toNat_inj.1 he)
        omega
      refine ⟨0, ?_⟩
      rw [hvalue, digits_ofDigitChars _ cs hpos hcs, digits_digit c hc]
      rfl

end AccessRules.Text
