/-
JSON numbers. A numeral without fraction and exponent is an integer when it fits 64 bits: up to 2^64 - 1 without a
sign, down to -2^63 with one, and `-0` is none. Every other numeral is real, and is refused when it is too large for a
double.

The size of a real is judged as a double product: as many leading digits as fit 64 bits, rounded to a double, times a
power of ten, rounded to a double.

- `ofNumeral?_digits`: the numeral of a number below 2^64 is that integer.
- `ofNumeral?_decimal`: so is that of a negative number down to -2^63.
-/
import AccessRules.Json
import AccessRules.Text.Decimal

namespace AccessRules.Json

open Text

/-! ## Scanning -/

/-- how far a numeral has been read -/
inductive NumeralState where
  /-- a minus sign -/
  | minus
  /-- a leading zero, which no digit may follow -/
  | zero
  /-- digits of the whole part -/
  | whole
  /-- the point, before its first digit -/
  | point
  /-- digits of the fraction -/
  | fraction
  /-- the exponent mark -/
  | mark
  /-- the sign of the exponent -/
  | sign
  /-- digits of the exponent -/
  | power
deriving DecidableEq

/-- what a character does to a numeral -/
inductive NumeralStep where
  | more (state : NumeralState)
  | done
  | broken

namespace NumeralState

/-- the numeral may end here -/
def isComplete : NumeralState → Bool
  | .zero | .whole | .fraction | .power => true
  | .minus | .point | .mark | .sign => false

/-- the mark before an exponent -/
def isMark (c : Char) : Bool := c = 'e' || c = 'E'

/-- the next character of a numeral, or the first after it -/
def step (s : NumeralState) (c : Char) : NumeralStep :=
  match s with
  | .minus => if c = '0' then .more .zero else if c.isDigit then .more .whole else .broken
  | .zero => if c.isDigit then .broken else if c = '.' then .more .point else if isMark c then .more .mark else .done
  | .whole =>
    if c.isDigit then .more .whole else if c = '.' then .more .point else if isMark c then .more .mark else .done
  | .point => if c.isDigit then .more .fraction else .broken
  | .fraction => if c.isDigit then .more .fraction else if isMark c then .more .mark else .done
  | .mark => if c = '+' || c = '-' then .more .sign else if c.isDigit then .more .power else .broken
  | .sign => if c.isDigit then .more .power else .broken
  | .power => if c.isDigit then .more .power else .done

end NumeralState

/-! ## Size -/

/-- the double nearest to `n`, as a number; of two equally near the one with the even last bit -/
def nearestDouble (n : Nat) : Nat :=
  if n < 1 <<< 53 then n
  else
    let unit := 1 <<< (n.log2 - 52)
    let kept := n / unit
    let lost := n % unit
    if unit < 2 * lost || (unit == 2 * lost && kept % 2 == 1) then (kept + 1) * unit else kept * unit

/-- products from here on are rounded past the largest double -/
def doubleLimit : Nat := (1 <<< 1024) - (1 <<< 970)

/-- `significand` times ten to the `exponent` is too large for a double -/
def isTooLarge (significand : Nat) (exponent : Int) : Bool :=
  if significand = 0 then false
  else if exponent < 0 then false
  else if 308 < exponent then true
  else doubleLimit ≤ nearestDouble significand * nearestDouble (Nat.pow 10 exponent.toNat)

/-- take digits into a significand while it fits 64 bits; also the number of digits left over -/
def takeDigits (significand : Nat) : List Char → Nat × Nat
  | [] => (significand, 0)
  | d :: ds =>
    let next := significand * 10 + value [d]
    if next < UInt64.size then takeDigits next ds else (significand, ds.length + 1)

/-! ## Parts -/

/-- the parts of a numeral -/
structure Numeral where
  negative : Bool
  whole : List Char
  /-- the digits after the point; none without a point -/
  fraction : List Char
  /-- the exponent; none without a mark -/
  exponent : Option Int
deriving DecidableEq

namespace Numeral

/-- an exponent with or without a sign -/
def signedValue : List Char → Int
  | '-' :: ds => -(value ds : Int)
  | '+' :: ds => value ds
  | ds => value ds

/-- the parts of a complete numeral -/
def ofChars (cs : List Char) : Numeral :=
  let negative := cs.head? == some '-'
  let cs := if negative then cs.tail else cs
  let whole := cs.takeWhile Char.isDigit
  let rest := cs.dropWhile Char.isDigit
  let fraction := if rest.head? == some '.' then rest.tail.takeWhile Char.isDigit else []
  let rest := rest.dropWhile fun c => !NumeralState.isMark c
  ⟨negative, whole, fraction, if rest.isEmpty then none else some (signedValue rest.tail)⟩

/-- the integer of a numeral, when it is one of 64 bits -/
def int? (n : Numeral) : Option Int :=
  if n.fraction.isEmpty && n.exponent.isNone then
    let magnitude := value n.whole
    if n.negative then if 0 < magnitude && magnitude ≤ 1 <<< 63 then some (-(magnitude : Int)) else none
    else if magnitude < UInt64.size then some magnitude else none
  else none

/-- the numeral is too large for a double -/
def isOutOfRange (n : Numeral) : Bool :=
  let (significand, wholeLeft) := takeDigits 0 n.whole
  let (significand, fractionLeft) := takeDigits significand n.fraction
  isTooLarge significand (wholeLeft + fractionLeft - n.fraction.length + n.exponent.getD 0)

end Numeral

/-- the value of a complete numeral, unless it is out of range -/
def ofNumeral? (cs : List Char) : Option Json :=
  let n := Numeral.ofChars cs
  match n.int? with
  | some i => some (.int i)
  | none => if n.isOutOfRange then none else some (.real cs)

/-! ## Integers -/

theorem takeWhile_of_all (p : Char → Bool) (cs : List Char) (h : ∀ c ∈ cs, p c = true) :
    cs.takeWhile p = cs ∧ cs.dropWhile p = [] := by
  induction cs with
  | nil => exact ⟨rfl, rfl⟩
  | cons c cs ih =>
    have hc := h c (List.mem_cons_self ..)
    have hr := ih fun d hd => h d (List.mem_cons_of_mem _ hd)
    simp [hc, hr]

theorem isDigit_of_mem_digits (n : Nat) (c : Char) (h : c ∈ digits n) : c.isDigit = true :=
  Nat.isDigit_of_mem_toDigits (by decide) (by decide) h

theorem head?_digits_ne_minus (n : Nat) : ((digits n).head? == some '-') = false := by
  cases h : digits n with
  | nil => rfl
  | cons c cs =>
    have hd : c.isDigit = true := isDigit_of_mem_digits n c (by simp [h])
    have hne : c ≠ '-' := fun he => by subst he; exact absurd hd (by decide)
    simpa using hne

theorem ofChars_digits (n : Nat) : Numeral.ofChars (digits n) = ⟨false, digits n, [], none⟩ := by
  obtain ⟨ht, hd⟩ := takeWhile_of_all Char.isDigit (digits n) (isDigit_of_mem_digits n)
  simp [Numeral.ofChars, head?_digits_ne_minus, ht, hd]

theorem ofChars_minus_digits (n : Nat) : Numeral.ofChars ('-' :: digits n) = ⟨true, digits n, [], none⟩ := by
  obtain ⟨ht, hd⟩ := takeWhile_of_all Char.isDigit (digits n) (isDigit_of_mem_digits n)
  simp [Numeral.ofChars, ht, hd]

theorem ofNumeral?_digits (n : Nat) (h : n < UInt64.size) : ofNumeral? (digits n) = some (.int n) := by
  have hi : (Numeral.mk false (digits n) [] none).int? = some (n : Int) := by
    simp only [Numeral.int?, List.isEmpty_nil, Option.isNone_none, Bool.and_self, if_true, value_digits]
    exact if_pos h
  simp only [ofNumeral?, ofChars_digits, hi]

theorem ofNumeral?_decimal (n : Int) (hmin : Int64.minValue.toInt ≤ n) (hmax : n < UInt64.size) :
    ofNumeral? (decimal n) = some (.int n) := by
  cases n with
  | ofNat n => exact ofNumeral?_digits n (Int.ofNat_lt.1 hmax)
  | negSucc n =>
    have hi : (Numeral.mk true (digits (n + 1)) [] none).int? = some (.negSucc n) := by
      have hn : n + 1 ≤ 1 <<< 63 := by
        have hsize : Int64.minValue.toInt = -(1 <<< 63 : Nat) := rfl
        omega
      simp only [Numeral.int?, List.isEmpty_nil, Option.isNone_none, Bool.and_self, if_true, value_digits]
      exact if_pos (Bool.and_eq_true_iff.2 ⟨decide_eq_true (Nat.succ_pos n), decide_eq_true hn⟩)
    simp only [decimal, ofNumeral?, ofChars_minus_digits, hi]

/-- the largest double is in range, a larger power of ten and the halfway point beyond it are not -/
example : (Numeral.ofChars "1.7976931348623157e308".toList).isOutOfRange = false := by decide +kernel

example : (Numeral.ofChars "1e309".toList).isOutOfRange = true := by decide +kernel

example : (Numeral.ofChars "1.797693134862315808e308".toList).isOutOfRange = true := by decide +kernel

/-- minus zero is no integer -/
example : (Numeral.ofChars "-0".toList).int? = none := by decide +kernel

end AccessRules.Json
