/-
The structure of a token list, whether or not it is a sensible rule. A level is runs of plain tokens, levels in brackets
and operators, in any order. Between two operators lies a sequence, which may be empty; an operator takes its place in
the program at the end of the sequence after it.

- `postfixFrom_eq`: what waits comes right behind the first sequence, and changes nothing else.
- `tokens_isBalanced`: the tokens of a level are balanced.
-/
import AccessRules.Program.Balance

namespace AccessRules

/-- what stands between two brackets, or in the whole of a rule -/
inductive Level where
  | nil
  /-- a run of plain tokens, which are one call -/
  | run (c : Call) (rest : Level)
  /-- a level in brackets -/
  | group (inner rest : Level)
  | operator (op : Operator) (rest : Level)
deriving DecidableEq

namespace Level

/-- the level as it is written -/
def tokens : Level → List Token
  | .nil => []
  | .run c rest => c.tokens ++ rest.tokens
  | .group inner rest => (.opening :: inner.tokens ++ [.closing]) ++ rest.tokens
  | .operator op rest => .str op.text :: rest.tokens

/-- the level begins with a run -/
def beginsWithRun : Level → Bool
  | .run _ _ => true
  | _ => false

/-- every run has plain tokens only and is as long as it can be -/
def IsMaximal : Level → Prop
  | .nil => True
  | .run c rest => (∀ t ∈ c.tokens, t.role = .plain) ∧ rest.beginsWithRun = false ∧ rest.IsMaximal
  | .group inner rest => inner.IsMaximal ∧ rest.IsMaximal
  | .operator _ rest => rest.IsMaximal

/-- `ts` reads as the level -/
def Reads (l : Level) (ts : List Token) : Prop := l.IsMaximal ∧ l.tokens = ts

/-- the instructions of a level, with those of `waiting` behind the sequence that the level begins with -/
def postfixFrom (waiting : List Instruction) : Level → List Instruction
  | .nil => waiting
  | .run c rest => .call c :: postfixFrom waiting rest
  | .group inner rest => postfixFrom [] inner ++ postfixFrom waiting rest
  | .operator op rest => waiting ++ postfixFrom [.operator op] rest

/-- the instructions of a level: its sequences in order, each operator behind the sequence after it -/
def postfixOrder (l : Level) : List Instruction := postfixFrom [] l

/-- the instructions of the sequence that a level begins with -/
def firstSequence : Level → List Instruction
  | .nil => []
  | .run c rest => .call c :: rest.firstSequence
  | .group inner rest => postfixOrder inner ++ rest.firstSequence
  | .operator _ _ => []

/-- the level from its first operator on -/
def afterSequence : Level → Level
  | .nil => .nil
  | .run _ rest => rest.afterSequence
  | .group _ rest => rest.afterSequence
  | .operator op rest => .operator op rest

theorem postfixFrom_eq (l : Level) (waiting : List Instruction) :
    postfixFrom waiting l = l.firstSequence ++ (waiting ++ postfixOrder l.afterSequence) := by
  induction l with
  | nil => simp [postfixFrom, firstSequence, afterSequence, postfixOrder]
  | run c rest ih =>
    rw [postfixFrom, ih]
    rfl
  | group inner rest _ ih =>
    rw [postfixFrom, ih, firstSequence, List.append_assoc]
    rfl
  | operator op rest _ => rfl

theorem isBalanced_nil : Balance.IsBalanced [] := by
  refine ⟨(Balance.not_isOverclosed_iff _).2 fun us hus => ?_, rfl⟩
  obtain rfl := List.prefix_nil.1 hus
  exact Nat.zero_le _

/-- tokens that are no brackets are balanced -/
theorem isBalanced_of_no_bracket (ts : List Token) (h : ∀ t ∈ ts, t ≠ .opening ∧ t ≠ .closing) :
    Balance.IsBalanced ts := by
  have hc : ∀ us, us <+: ts → Balance.opens us = 0 ∧ Balance.closes us = 0 := by
    intro us hus
    have hm : ∀ t ∈ us, t ∈ ts := fun t ht => hus.subset ht
    exact ⟨List.count_eq_zero.2 fun ho => (h _ (hm _ ho)).1 rfl, List.count_eq_zero.2 fun ho => (h _ (hm _ ho)).2 rfl⟩
  refine ⟨(Balance.not_isOverclosed_iff _).2 fun us hus => ?_, ?_⟩
  · obtain ⟨ho, hcl⟩ := hc us hus
    exact Nat.le_of_eq (hcl.trans ho.symm)
  · obtain ⟨ho, hcl⟩ := hc ts (List.prefix_refl ts)
    exact ho.trans hcl.symm

theorem ne_bracket_of_plain (t : Token) (h : t.role = .plain) : t ≠ .opening ∧ t ≠ .closing := by
  constructor <;> (rintro rfl; exact absurd h (by decide))

theorem tokens_isBalanced (l : Level) (h : l.IsMaximal) : Balance.IsBalanced l.tokens := by
  induction l with
  | nil => exact isBalanced_nil
  | run c rest ih =>
    obtain ⟨hc, _, hr⟩ := h
    exact (isBalanced_of_no_bracket c.tokens fun t ht => ne_bracket_of_plain t (hc t ht)).append (ih hr)
  | group inner rest ihi ihr =>
    obtain ⟨hi, hr⟩ := h
    exact (ihi hi).inBrackets.append (ihr hr)
  | operator op rest ih =>
    have ho : Balance.IsBalanced [.str op.text] := by
      refine isBalanced_of_no_bracket _ fun t ht => ?_
      rw [List.mem_singleton.1 ht]
      cases op <;> decide
    exact ho.append (ih h)

end Level

end AccessRules
