/-
Receivers: what an object lets rules do with it. A receiver says which operations it has and how many arguments each
takes, and runs them; running may have effects of the monad `m`. A host gives every object its receiver.

- `tryInvoke_eq_of_admits`: an admitted call runs, exactly once and on exactly its arguments.
- `tryInvoke_eq_of_refuses`: a call that is not admitted runs nothing.
-/
import AccessRules.Arity
import AccessRules.Value

namespace AccessRules

/-- why an operation gives no value -/
inductive InvokeError where
  /-- there is no such operation -/
  | notFound
  /-- it takes another number of arguments -/
  | arity (fault : Arity.Fault)
  /-- it ran and failed -/
  | failed (message : String)
deriving DecidableEq, Inhabited

/-- the message of an error -/
def InvokeError.message : InvokeError → String
  | .notFound => "no such operation"
  | .arity fault => fault.text ++ " parameters"
  | .failed message => message

/-- the operations of an object -/
structure Receiver (ω : Type) (m : Type → Type) where
  /-- the name by which messages call the object -/
  label : String := "object"
  /-- how many arguments an operation takes, if there is such an operation -/
  arity : String → Option Arity
  /-- run an operation, whatever its arity -/
  invoke : String → List (Value ω) → ExceptT InvokeError m (Value ω)
  /-- run an operation on arguments that were written as the given tokens -/
  invokeFrom : String → List (Value ω) → List Token → ExceptT InvokeError m (Value ω) :=
    fun operation args _ => invoke operation args

/-- the receiver of every object -/
abbrev Host (ω : Type) (m : Type → Type) := ω → Receiver ω m

namespace Receiver

variable {ω : Type} {m : Type → Type}

/-- what stands against running an operation on that many arguments -/
def refusal? (r : Receiver ω m) (operation : String) (count : Nat) : Option InvokeError :=
  match r.arity operation with
  | none => some .notFound
  | some a => (a.fault? count).map .arity

/-- run an operation if it takes that many arguments -/
def tryInvoke [Monad m] (r : Receiver ω m) (operation : String) (args : List (Value ω)) :
    ExceptT InvokeError m (Value ω) :=
  match r.refusal? operation args.length with
  | some e => throw e
  | none => r.invoke operation args

/-- run an operation if it takes that many arguments, which were written as the given tokens -/
def tryInvokeFrom [Monad m] (r : Receiver ω m) (operation : String) (args : List (Value ω)) (sources : List Token) :
    ExceptT InvokeError m (Value ω) :=
  match r.refusal? operation args.length with
  | some e => throw e
  | none => r.invokeFrom operation args sources

theorem refusal?_eq_none_iff (r : Receiver ω m) (operation : String) (count : Nat) :
    r.refusal? operation count = none ↔ ∃ a, r.arity operation = some a ∧ a.min ≤ count ∧ count ≤ a.max := by
  unfold refusal?
  cases h : r.arity operation with
  | none => simp
  | some a => simp [Option.map_eq_none_iff, Arity.fault?_eq_none_iff]

theorem tryInvoke_eq_of_admits [Monad m] (r : Receiver ω m) (operation : String) (args : List (Value ω))
    (h : r.refusal? operation args.length = none) : r.tryInvoke operation args = r.invoke operation args := by
  simp [tryInvoke, h]

theorem tryInvoke_eq_of_refuses [Monad m] (r : Receiver ω m) (operation : String) (args : List (Value ω))
    (e : InvokeError) (h : r.refusal? operation args.length = some e) :
    r.tryInvoke operation args = throw e := by
  simp [tryInvoke, h]

end Receiver

end AccessRules
