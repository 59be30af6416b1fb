/-
How many arguments an operation takes. Both bounds are included; a range whose least bound is above its greatest
admits no count at all.

- `fault?_eq_none_iff`: no fault exactly for the counts between the bounds.
- `fault?_of_lt_min`, `fault?_of_max_lt`: which fault, for a count outside them.
- `fault?_of_empty_range`: an empty range admits nothing.
-/
import AccessRules.Text.Decimal

namespace AccessRules

/-- least and greatest number of arguments -/
structure Arity where
  min : Nat
  max : Nat
deriving DecidableEq, Inhabited

namespace Arity

/-- what is wrong with a number of arguments -/
inductive Fault where
  | tooFew
  | tooMany
deriving DecidableEq, Inhabited

/-- how a fault is written -/
def Fault.text : Fault → String
  | .tooFew => "too few"
  | .tooMany => "too many"

/-- exactly `n` arguments -/
def exact (n : Nat) : Arity := ⟨n, n⟩

/-- what is wrong with `count` arguments, if anything; the least bound is looked at first -/
def fault? (a : Arity) (count : Nat) : Option Fault :=
  if count < a.min then some .tooFew else if a.max < count then some .tooMany else none

/-- how an arity is written: one number, or both bounds -/
def text (a : Arity) : String :=
  let number (n : Nat) := String.ofList (Text.digits n)
  if a.min = a.max then number a.min else number a.min ++ "..=" ++ number a.max

theorem fault?_eq_none_iff (a : Arity) (count : Nat) : a.fault? count = none ↔ a.min ≤ count ∧ count ≤ a.max := by
  unfold fault?
  split
  · simp only [reduceCtorEq, false_iff]; omega
  · split
    · simp only [reduceCtorEq, false_iff]; omega
    · simp only [true_iff]; omega

theorem fault?_exact (n count : Nat) : (exact n).fault? count = none ↔ count = n := by
  rw [fault?_eq_none_iff]
  simp only [exact]
  omega

theorem fault?_of_lt_min (a : Arity) (count : Nat) (h : count < a.min) : a.fault? count = some .tooFew := if_pos h

theorem fault?_of_max_lt (a : Arity) (count : Nat) (hmin : a.min ≤ count) (hmax : a.max < count) :
    a.fault? count = some .tooMany := by
  rw [fault?, if_neg (Nat.not_lt.2 hmin), if_pos hmax]

theorem fault?_of_empty_range (a : Arity) (h : a.max < a.min) (count : Nat) : a.fault? count ≠ none := by
  rw [ne_eq, fault?_eq_none_iff]
  omega

end Arity

end AccessRules
