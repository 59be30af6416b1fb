/-
Deciding a program under a binding. Every call is made, in order, whatever the values before it: an operator only
combines values that stand ready. The first instruction that fails ends the evaluation. Of several values left at the
end the last counts.

A call is first resolved, which needs the binding alone: either it has its outcome already or it is an invocation of an
operation of an object. Effects come from running invocations only.

- `resolve_single`: a call without operation invokes nothing.
- `run_append`: running in two parts is running on with the first part's stack.
-/
import AccessRules.Binding
import AccessRules.Program.OfTokens
import AccessRules.Receiver

namespace AccessRules

variable {ω : Type} {m : Type → Type}

/-! ## Calls -/

/-- an operation that a call asks of an object -/
structure Invocation (ω : Type) where
  /-- the name of the object in the rule -/
  receiver : String
  object : ω
  operation : String
  args : List (Value ω)
  /-- the tokens that the arguments were written as -/
  sources : List Token
deriving DecidableEq

/-- what a call comes to under a binding -/
inductive Resolved (ω : Type) where
  /-- its outcome, without asking any object -/
  | settled (outcome : Except RuleError Bool)
  | invocation (i : Invocation ω)

/-- the value of a parameter: a text that is bound stands for its value, every other token for itself -/
def Binding.argument (b : Binding ω) (t : Token) : Value ω :=
  match t.str?.bind b.get? with
  | some v => v
  | none => .ofToken t

/-- what a call comes to: a lone boolean is itself, a lone name says whether its value is truthy; a call with an
operation is false on a value that is not truthy and is asked of the object otherwise -/
def Call.resolve (b : Binding ω) (c : Call) : Resolved ω :=
  match c.operation?, c.receiver with
  | none, .bool v => .settled (.ok v)
  | none, .int n => .settled (.error (.unbound (Token.text (.int n))))
  | none, .str name =>
    match b.get? name with
    | some v => .settled (.ok v.isTruthy)
    | none => .settled (.error (.unbound name))
  | some operation, .str name =>
    match b.get? name with
    | none => .settled (.error (.unbound name))
    | some (.object o) => .invocation ⟨name, o, operation.text, c.params.map b.argument, c.params⟩
    | some v =>
      if v.isTruthy then .settled (.error (.unsupported name operation.text)) else .settled (.ok false)
  | some _, receiver => .settled (.error (.unbound receiver.text))

namespace Invocation

/-- what an error of the operation means for the rule -/
def errorOf (i : Invocation ω) : InvokeError → RuleError
  | .notFound => .unsupported i.receiver i.operation
  | .arity fault => .arity i.receiver i.operation fault
  | .failed message => .failed i.receiver i.operation message

/-- what the object's answer means for the rule: it holds when the answer is the boolean true -/
def outcomeOf (i : Invocation ω) : Except InvokeError (Value ω) → Except RuleError Bool
  | .ok v => .ok v.isTrue
  | .error e => .error (i.errorOf e)

/-- ask the object -/
def run [Monad m] (host : Host ω m) (i : Invocation ω) : ExceptT RuleError m Bool :=
  ExceptT.mk (i.outcomeOf <$> ((host i.object).tryInvokeFrom i.operation i.args i.sources).run)

end Invocation

/-- the outcome of a call -/
def Call.evaluate [Monad m] (host : Host ω m) (b : Binding ω) (c : Call) : ExceptT RuleError m Bool :=
  match c.resolve b with
  | .settled outcome => ExceptT.mk (pure outcome)
  | .invocation i => i.run host

/-! ## Programs -/

namespace Program

/-- one instruction on a stack of values, the newest first -/
def step [Monad m] (host : Host ω m) (b : Binding ω) (stack : List Bool) :
    Instruction → ExceptT RuleError m (List Bool)
  | .operator op =>
    match stack with
    | right :: left :: rest => pure (op.apply left right :: rest)
    | _ => throw .missingOperand
  | .call c => do
    let v ← c.evaluate host b
    pure (v :: stack)

/-- instructions one after another -/
def run [Monad m] (host : Host ω m) (b : Binding ω) : List Bool → List Instruction → ExceptT RuleError m (List Bool)
  | stack, [] => pure stack
  | stack, i :: rest => do
    let stack ← step host b stack i
    run host b stack rest

/-- the decision of a program: false when it has no instructions, else its last value -/
def evaluate [Monad m] (host : Host ω m) (b : Binding ω) (p : Program) : ExceptT RuleError m Bool :=
  if p.isEmpty then pure false
  else do
    let stack ← run host b [] p.instructions
    match stack with
    | v :: _ => pure v
    | [] => throw .missingOperand

theorem run_append [Monad m] [LawfulMonad m] (host : Host ω m) (b : Binding ω) (stack : List Bool)
    (is js : List Instruction) :
    run host b stack (is ++ js) = (do
      let stack ← run host b stack is
      run host b stack js) := by
  induction is generalizing stack with
  | nil => simp [run]
  | cons i is ih => simp [run, ih]

end Program

/-! ## Rules -/

/-- the decision of a rule text; the brackets are looked at before anything is asked of any object -/
def permitted [Monad m] (host : Host ω m) (b : Binding ω) (rule : String) : ExceptT RuleError m Bool :=
  match Program.ofText rule with
  | .ok p => p.evaluate host b
  | .error cause => throw (.unbalanced cause)

theorem resolve_single (b : Binding ω) (t : Token) :
    ∃ outcome, Call.resolve b ⟨t, []⟩ = .settled outcome := by
  cases t with
  | bool v => exact ⟨_, rfl⟩
  | int n => exact ⟨_, rfl⟩
  | str name =>
    simp only [Call.resolve, Call.operation?, List.head?_nil]
    split <;> exact ⟨_, rfl⟩

end AccessRules
