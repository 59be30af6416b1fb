/-
What objects are asked during an evaluation. A recording host answers as the host it records, and writes down every
operation that it runs. Operations that an object runs on its own account are not written down.

- `asks?_eq_some_iff`: which calls ask something of an object, and what.
- `recording_of_admits`, `recording_of_refuses`: an operation that is admitted is written down once, one that is refused
  not at all.
-/
import AccessRules.Evaluation

namespace AccessRules

variable {ω : Type} {m : Type → Type}

/-- an operation that an object was asked to run -/
structure Asked (ω : Type) where
  object : ω
  operation : String
  args : List (Value ω)
  sources : List Token
deriving DecidableEq

/-- effects of `m`, with a list of what was asked -/
abbrev Recorded (ω : Type) (m : Type → Type) : Type → Type := StateT (List (Asked ω)) m

/-- run `action` after writing `a` down -/
def writeDown {ε α : Type} [Monad m] (a : Asked ω) (action : ExceptT ε m α) : ExceptT ε (Recorded ω m) α :=
  ExceptT.mk fun asked => do
    let result ← action.run
    pure (result, asked ++ [a])

/-- the host that writes down what it is asked -/
def Host.recording [Monad m] (host : Host ω m) : Host ω (Recorded ω m) := fun o =>
  { label := (host o).label
    arity := (host o).arity
    invoke := fun operation args => writeDown ⟨o, operation, args, []⟩ ((host o).invoke operation args)
    invokeFrom := fun operation args sources =>
      writeDown ⟨o, operation, args, sources⟩ ((host o).invokeFrom operation args sources) }

/-- the decision of a program, with all that was asked on the way -/
def Program.evaluateRecorded [Monad m] (host : Host ω m) (b : Binding ω) (p : Program) :
    m (Except RuleError Bool × List (Asked ω)) :=
  (p.evaluate host.recording b).run []

/-- the decision of a rule text, with all that was asked on the way -/
def permittedRecorded [Monad m] (host : Host ω m) (b : Binding ω) (rule : String) :
    m (Except RuleError Bool × List (Asked ω)) :=
  (permitted host.recording b rule).run []

/-- what a call asks: two tokens or more, the first a name that is bound to an object, which has the operation and takes
that many arguments -/
def Call.asks? (host : Host ω m) (b : Binding ω) (c : Call) : Option (Asked ω) :=
  match c.tokens with
  | .str name :: operation :: params =>
    match b.get? name with
    | some (.object o) =>
      if (host o).refusal? operation.text params.length = none then
        some ⟨o, operation.text, params.map b.argument, params⟩
      else none
    | _ => none
  | _ => none

/-- what an instruction asks -/
def Instruction.asks? (host : Host ω m) (b : Binding ω) : Instruction → Option (Asked ω)
  | .call c => c.asks? host b
  | .operator _ => none

theorem asks?_eq_some_iff (host : Host ω m) (b : Binding ω) (c : Call) (a : Asked ω) :
    c.asks? host b = some a ↔ ∃ name operation params o arity,
      c.tokens = .str name :: operation :: params ∧ b.get? name = some (.object o) ∧
      (host o).arity operation.text = some arity ∧ arity.min ≤ params.length ∧ params.length ≤ arity.max ∧
      a = ⟨o, operation.text, params.map b.argument, params⟩ := by
  constructor
  · intro h
    unfold Call.asks? at h
    split at h
    · rename_i name operation params htokens
      split at h
      · rename_i o ho
        split at h
        · rename_i hr
          obtain ⟨arity, har, hmin, hmax⟩ := ((host o).refusal?_eq_none_iff _ _).1 hr
          exact ⟨name, operation, params, o, arity, htokens, ho, har, hmin, hmax, (Option.some.inj h).symm⟩
        · cases h
      · cases h
    · cases h
  · rintro ⟨name, operation, params, o, arity, htokens, ho, har, hmin, hmax, rfl⟩
    have hr : (host o).refusal? operation.text params.length = none :=
      ((host o).refusal?_eq_none_iff _ _).2 ⟨arity, har, hmin, hmax⟩
    simp only [Call.asks?, htokens, ho, hr, if_true]

theorem recording_of_admits [Monad m] (host : Host ω m) (o : ω) (operation : String) (args : List (Value ω))
    (sources : List Token) (h : (host o).refusal? operation args.length = none) :
    (host.recording o).tryInvokeFrom operation args sources =
      writeDown ⟨o, operation, args, sources⟩ ((host o).invokeFrom operation args sources) := by
  have hr : (host.recording o).refusal? operation args.length = none := h
  simp only [Receiver.tryInvokeFrom, hr]
  rfl

theorem recording_of_refuses [Monad m] (host : Host ω m) (o : ω) (operation : String) (args : List (Value ω))
    (sources : List Token) (e : InvokeError) (h : (host o).refusal? operation args.length = some e) :
    (host.recording o).tryInvokeFrom operation args sources = throw e := by
  have hr : (host.recording o).refusal? operation args.length = some e := h
  simp only [Receiver.tryInvokeFrom, hr]

end AccessRules
