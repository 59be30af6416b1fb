/-
What objects answer during an evaluation. An answering host answers as the host it stands for, and writes down every
operation that it runs together with the answer that it got. With the answers at hand it can be said, behind an
evaluation, whether a call of it spoke for permission: the literal `True` does, a name by itself does when its value is
truthy, and an operation of an object does when it was admitted and the object answered with the boolean true.

- `answering_of_admits`, `answering_of_refuses`: an operation that is admitted is written down with its answer, one that
  is refused not at all.
- `GrantsIn.mono`: more answers take nothing back.
-/
import AccessRules.Evaluation.Recording

namespace AccessRules

variable {ω : Type} {m : Type → Type}

/-- an operation that an object ran, with what came of it -/
structure Answered (ω : Type) where
  asked : Asked ω
  answer : Except InvokeError (Value ω)

/-- run `action` and write down what came of it -/
def noteAnswer [Monad m] (a : Asked ω) (action : ExceptT InvokeError m (Value ω)) :
    ExceptT InvokeError (StateT (List (Answered ω)) m) (Value ω) :=
  ExceptT.mk fun answers => do
    let answer ← action.run
    pure (answer, answers ++ [⟨a, answer⟩])

/-- the host that writes down what it answers -/
def Host.answering [Monad m] (host : Host ω m) : Host ω (StateT (List (Answered ω)) m) := fun o =>
  { label := (host o).label
    arity := (host o).arity
    invoke := fun operation args => noteAnswer ⟨o, operation, args, []⟩ ((host o).invoke operation args)
    invokeFrom := fun operation args sources =>
      noteAnswer ⟨o, operation, args, sources⟩ ((host o).invokeFrom operation args sources) }

/-- the decision of a program, with all that was answered on the way -/
def Program.evaluateAnswered [Monad m] (host : Host ω m) (b : Binding ω) (p : Program) :
    m (Except RuleError Bool × List (Answered ω)) :=
  (p.evaluate host.answering b).run []

/-- the call spoke for permission, when this was answered -/
inductive Call.GrantsIn (host : Host ω m) (b : Binding ω) (answers : List (Answered ω)) : Call → Prop where
  | literal : GrantsIn host b answers ⟨.bool true, []⟩
  | name (name : String) (v : Value ω) (hv : b.get? name = some v) (ht : v.isTruthy = true) :
    GrantsIn host b answers ⟨.str name, []⟩
  | operation (name : String) (o : ω) (operation : Token) (params : List Token) (arity : Arity)
    (ho : b.get? name = some (.object o)) (ha : (host o).arity operation.text = some arity)
    (hmin : arity.min ≤ params.length) (hmax : params.length ≤ arity.max)
    (hr : ⟨⟨o, operation.text, params.map b.argument, params⟩, .ok (.bool true)⟩ ∈ answers) :
    GrantsIn host b answers ⟨.str name, operation :: params⟩

theorem Call.GrantsIn.mono {host : Host ω m} {b : Binding ω} {answers more : List (Answered ω)} {c : Call}
    (h : c.GrantsIn host b answers) (hmore : answers <+: more) : c.GrantsIn host b more := by
  cases h with
  | literal => exact .literal
  | name name v hv ht => exact .name name v hv ht
  | operation name o operation params arity ho ha hmin hmax hr =>
    exact .operation name o operation params arity ho ha hmin hmax (hmore.subset hr)

theorem answering_of_admits [Monad m] (host : Host ω m) (o : ω) (operation : String) (args : List (Value ω))
    (sources : List Token) (h : (host o).refusal? operation args.length = none) :
    (host.answering o).tryInvokeFrom operation args sources =
      noteAnswer ⟨o, operation, args, sources⟩ ((host o).invokeFrom operation args sources) := by
  have hr : (host.answering o).refusal? operation args.length = none := h
  simp only [Receiver.tryInvokeFrom, hr]
  rfl

theorem answering_of_refuses [Monad m] (host : Host ω m) (o : ω) (operation : String) (args : List (Value ω))
    (sources : List Token) (e : InvokeError) (h : (host o).refusal? operation args.length = some e) :
    (host.answering o).tryInvokeFrom operation args sources = throw e := by
  have hr : (host.answering o).refusal? operation args.length = some e := h
  simp only [Receiver.tryInvokeFrom, hr]

end AccessRules
