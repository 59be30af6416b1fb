/-
Blank characters: those with Unicode's White_Space property. In a rule they separate words and mean nothing else.

- `isBlank_of_isWhitespace`: every character that core calls whitespace is blank.
- There are twenty-five of them (closed check at the end).
-/
namespace AccessRules.Text

/-- the code point of `c` lies in one of the ranges, both ends included -/
def inRanges (ranges : List (Nat × Nat)) (c : Char) : Bool :=
  ranges.any fun r => r.1 ≤ c.toNat && c.toNat ≤ r.2

/-- White_Space, as code point ranges -/
def blankRanges : List (Nat × Nat) :=
  [(0x09, 0x0d), (0x20, 0x20), (0x85, 0x85), (0xa0, 0xa0), (0x1680, 0x1680), (0x2000, 0x200a), (0x2028, 0x2029),
    (0x202f, 0x202f), (0x205f, 0x205f), (0x3000, 0x3000)]

/-- `c` has the White_Space property -/
def isBlank (c : Char) : Bool := inRanges blankRanges c

theorem isBlank_of_isWhitespace (c : Char) (h : c.isWhitespace = true) : isBlank c = true := by
  simp only [Char.isWhitespace, Bool.or_eq_true, decide_eq_true_eq] at h
  rcases h with ((h | h) | h) | h <;> subst h <;> decide

/-- the ranges hold twenty-five code points -/
example : (blankRanges.map fun r => r.2 + 1 - r.1).sum = 25 := by decide

end AccessRules.Text
