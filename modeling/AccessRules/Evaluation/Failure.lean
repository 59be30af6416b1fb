/-
Where an evaluation comes to its end before the last instruction: at a call that fails, or at an operator that has fewer
than two values before it. Whether an operator starves is told by counting calls and operators alone, without a
binding.

- `surplus_of_depth`: as long as no operator starves, the surplus is the number of values that stand ready.
- `starvesAt_append`: what follows an operator does not matter to it.
- `first_concat`, `first_of_holds`, `length_le_of_first`: the first place with a property, when what follows a place does
  not matter to the property.
-/
import AccessRules.Evaluation

namespace AccessRules.Program

/-- calls less operators -/
def surplus (is : List Instruction) : Int :=
  (is.countP Instruction.isOperand : Int) - is.countP fun i => !i.isOperand

/-- at `k` stands an operator with fewer than two values before it -/
def starvesAt (is : List Instruction) (k : Nat) : Bool :=
  match is[k]? with
  | some (.operator _) => surplus (is.take k) < 2
  | _ => false

/-- the first place where an operator starves -/
def firstStarved? (is : List Instruction) : Option Nat := (List.range is.length).find? (starvesAt is)

/-- at `k` stands a call that fails, when calls have the given outcomes -/
def failsAt (outcomeOf : Call → Except RuleError Bool) (is : List Instruction) (k : Nat) : Bool :=
  match is[k]? with
  | some (.call c) => !(outcomeOf c).isOk
  | _ => false

/-- the first place where a call fails -/
def firstFailing? (outcomeOf : Call → Except RuleError Bool) (is : List Instruction) : Option Nat :=
  (List.range is.length).find? (failsAt outcomeOf is)

/-- the first place where an instruction does either -/
def firstStop? (outcomeOf : Call → Except RuleError Bool) (is : List Instruction) : Option Nat :=
  (List.range is.length).find? fun k => starvesAt is k || failsAt outcomeOf is k

/-- the instructions that are carried out: all up to the one where the evaluation stops, that one included -/
def carriedOut (outcomeOf : Call → Except RuleError Bool) (is : List Instruction) : List Instruction :=
  match firstStop? outcomeOf is with
  | some k => is.take (k + 1)
  | none => is

theorem surplus_append (is js : List Instruction) : surplus (is ++ js) = surplus is + surplus js := by
  simp only [surplus, List.countP_append, Int.natCast_add]
  omega

theorem surplus_call (c : Call) : surplus [.call c] = 1 := rfl

theorem surplus_operator (op : Operator) : surplus [.operator op] = -1 := rfl

theorem surplus_of_depth (ready : Nat) (is : List Instruction) (d : Nat) (h : depth ready is = some d) :
    (d : Int) = ready + surplus is := by
  induction is generalizing ready with
  | nil =>
    rw [← Option.some.inj h]
    rfl
  | cons i is ih =>
    have hc : i :: is = [i] ++ is := rfl
    rw [hc, surplus_append]
    cases i with
    | call c =>
      have := ih (ready + 1) h
      rw [surplus_call]
      omega
    | operator op =>
      rw [surplus_operator]
      match ready, h with
      | ready + 2, h =>
        have := ih (ready + 1) h
        omega

theorem starvesAt_append (is js : List Instruction) (k : Nat) (h : k < is.length) :
    starvesAt (is ++ js) k = starvesAt is k := by
  rw [starvesAt, starvesAt, List.getElem?_append_left h, List.take_append_of_le_length (Nat.le_of_lt h)]

theorem starvesAt_call (is rest : List Instruction) (c : Call) :
    starvesAt (is ++ .call c :: rest) is.length = false := by
  simp [starvesAt]

theorem starvesAt_operator (is rest : List Instruction) (op : Operator) :
    starvesAt (is ++ .operator op :: rest) is.length = decide (surplus is < 2) := by
  simp [starvesAt]

/-! ## The first place -/

section First

variable (q : List Instruction → Nat → Bool) (hq : ∀ is js k, k < is.length → q (is ++ js) k = q is k)

include hq

theorem not_holds_before (is rest : List Instruction) (h : (List.range is.length).find? (q is) = none) (k : Nat)
    (hk : k < is.length) : q (is ++ rest) k = false := by
  rw [hq is rest k hk]
  simpa using List.find?_range_eq_none.1 h k hk

theorem first_concat (is : List Instruction) (i : Instruction) (h : (List.range is.length).find? (q is) = none)
    (hi : q (is ++ [i]) is.length = false) : (List.range (is ++ [i]).length).find? (q (is ++ [i])) = none := by
  apply List.find?_range_eq_none.2
  intro k hk
  rw [List.length_append, List.length_singleton] at hk
  by_cases hlt : k < is.length
  · rw [not_holds_before q hq is [i] h k hlt]
    rfl
  · obtain rfl : k = is.length := by omega
    rw [hi]
    rfl

theorem first_of_holds (is : List Instruction) (i : Instruction) (rest : List Instruction)
    (h : (List.range is.length).find? (q is) = none) (hi : q (is ++ i :: rest) is.length = true) :
    (List.range (is ++ i :: rest).length).find? (q (is ++ i :: rest)) = some is.length := by
  refine List.find?_range_eq_some.2 ⟨hi, by simp, fun k hk => ?_⟩
  rw [not_holds_before q hq is (i :: rest) h k hk]
  rfl

theorem length_le_of_first (is rest : List Instruction) (h : (List.range is.length).find? (q is) = none) (k : Nat)
    (hk : (List.range (is ++ rest).length).find? (q (is ++ rest)) = some k) : is.length ≤ k := by
  obtain ⟨hholds, -, -⟩ := List.find?_range_eq_some.1 hk
  apply Nat.le_of_not_lt
  intro hlt
  rw [not_holds_before q hq is rest h k hlt] at hholds
  cases hholds

end First

end AccessRules.Program
