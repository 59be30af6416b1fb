/-
What the parameters of a rule are compared as, in a rule over fact tables: a literal as itself, a name that is bound to
a literal as that literal, a name that is bound to a table or is not bound as its own text. A name that is bound to the
absent value is compared as nothing.

- `matchesArg_argument`: a parameter matches an expected token exactly when it is compared as that token.
-/
import AccessRules.FactFile

namespace AccessRules

/-- the token that a literal value was made of -/
def Value.literal? {ω : Type} : Value ω → Option Token
  | .bool b => some (.bool b)
  | .int n => some (.int n)
  | .str s => some (.str s)
  | _ => none

theorem literal?_ofToken {ω : Type} (t : Token) : (Value.ofToken t : Value ω).literal? = some t := by
  cases t <;> rfl

namespace Binding

variable {ω : Type}

/-- the token that a name or literal is compared as -/
def effective? (b : Binding ω) (t : Token) : Option Token :=
  match t.str?.bind b.get? with
  | none => some t
  | some (.object _) => some t
  | some v => v.literal?

/-- the tokens that parameters are compared as, unless one of them is compared as nothing -/
def effectiveRow? (b : Binding ω) (params : List Token) : Option (List Token) := params.mapM b.effective?

end Binding

theorem matchesArg_argument {ω : Type} (label : ω → String) (b : Binding ω) (t expected : Token) :
    FactTable.matchesArg label (some t) expected (b.argument t) = decide (b.effective? t = some expected) := by
  unfold Binding.argument Binding.effective?
  cases hv : t.str?.bind b.get? with
  | none =>
    simp only [FactTable.matchesArg_literal, Option.some.injEq]
    exact decide_eq_decide.2 eq_comm
  | some v =>
    cases v with
    | absent => rfl
    | bool c => simp [FactTable.matchesArg, Value.literal?, eq_comm]
    | int n => simp [FactTable.matchesArg, Value.literal?, eq_comm]
    | str s => simp [FactTable.matchesArg, Value.literal?, eq_comm]
    | object o =>
      cases t with
      | str s =>
        simp only [Option.some.injEq]
        exact decide_eq_decide.2 eq_comm
      | _ => cases hv

end AccessRules
