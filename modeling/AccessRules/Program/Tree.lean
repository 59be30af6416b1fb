/-
Expressions as trees: calls at the leaves, operators at the inner nodes. A program is postfix when it lists a tree, each
operator after the trees of its two operands.

- `value_node`: the value of a node is what the operator of a program gives.
- `depth_postorder`: the listing of a tree stands for one value.
- `isWellFormed_postorder`: it is a well-formed program.
- `count_postorder`: it has one call more than it has operators.
-/
import AccessRules.Program

namespace AccessRules

/-- a call, or an operator with its two operands -/
inductive Tree where
  | call (c : Call)
  | node (op : Operator) (left right : Tree)
deriving DecidableEq

namespace Tree

/-- the instructions of a tree, each operator after its operands -/
def postorder : Tree → List Instruction
  | .call c => [.call c]
  | .node op left right => left.postorder ++ right.postorder ++ [.operator op]

/-- the value of a tree whose calls have the given values -/
def value (valueOf : Call → Bool) : Tree → Bool
  | .call c => valueOf c
  | .node .and left right => left.value valueOf && right.value valueOf
  | .node .or left right => left.value valueOf || right.value valueOf

/-- the calls of a tree, from left to right -/
def calls : Tree → List Call
  | .call c => [c]
  | .node _ left right => left.calls ++ right.calls

/-- the instructions of trees one after another -/
def listing (ts : List Tree) : List Instruction := ts.flatMap postorder

/-- what operators do to the values of a program is what they mean -/
theorem value_node (valueOf : Call → Bool) (op : Operator) (left right : Tree) :
    (node op left right).value valueOf = op.apply (left.value valueOf) (right.value valueOf) := by
  cases op <;> rfl

theorem postorder_ne_nil (t : Tree) : t.postorder ≠ [] := by
  cases t <;> simp [postorder]

theorem depth_postorder (t : Tree) (ready : Nat) : Program.depth ready t.postorder = some (ready + 1) := by
  induction t generalizing ready with
  | call c => rfl
  | node op left right ihl ihr =>
    rw [postorder, Program.depth_append, Program.depth_append, ihl, Option.bind_some, ihr, Option.bind_some]
    rfl

theorem isWellFormed_postorder (t : Tree) : Program.isWellFormed ⟨t.postorder⟩ = true := by
  have hne : Program.isEmpty ⟨t.postorder⟩ = false := by
    simp [Program.isEmpty, postorder_ne_nil]
  simp [Program.isWellFormed, depth_postorder, hne]

theorem count_postorder (t : Tree) :
    Program.operandCount ⟨t.postorder⟩ = Program.operatorCount ⟨t.postorder⟩ + 1 := by
  induction t with
  | call c => rfl
  | node op left right ihl ihr =>
    simp only [Program.operandCount, Program.operatorCount] at ihl ihr ⊢
    simp only [postorder, List.countP_append, ihl, ihr]
    simp only [List.countP_singleton, Instruction.isOperand, Bool.false_eq_true, if_false, Bool.not_false, if_true]
    omega

end Tree

end AccessRules
