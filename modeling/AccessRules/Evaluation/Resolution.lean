/-
What a single instruction comes to. For a call there are rules: one for each way in which the binding settles it, and
one for an operation that is asked of an object; whether the object takes the operation is not their matter. An operator
looks at the values that stand ready and at nothing else.

- `resolvesTo_iff`: the rules give every call what it comes to, and nothing else.
- `combine_eq_ok_iff`, `combine_eq_error_iff`: what an operator makes of a stack.
- `step_operator`: an operator on a stack, whatever the objects and the binding.
- `evaluate_of_calls`: beside its calls, nothing about a program depends on the objects and the binding.
-/
import AccessRules.Evaluation

namespace AccessRules

variable {ω : Type} {m : Type → Type}

/-! ## Calls -/

/-- under the binding a call comes to `r` -/
inductive Call.ResolvesTo (b : Binding ω) : Call → Resolved ω → Prop where
  | literal (v : Bool) : ResolvesTo b ⟨.bool v, []⟩ (.settled (.ok v))
  | name (name : String) (v : Value ω) (hv : b.get? name = some v) :
    ResolvesTo b ⟨.str name, []⟩ (.settled (.ok v.isTruthy))
  | operation (name : String) (operation : Token) (params : List Token) (o : ω)
    (ho : b.get? name = some (.object o)) :
    ResolvesTo b ⟨.str name, operation :: params⟩
      (.invocation ⟨name, o, operation.text, params.map b.argument, params⟩)
  | falsy (name : String) (operation : Token) (params : List Token) (v : Value ω) (hv : b.get? name = some v)
    (hf : v.isTruthy = false) : ResolvesTo b ⟨.str name, operation :: params⟩ (.settled (.ok false))
  | scalar (name : String) (operation : Token) (params : List Token) (v : Value ω) (hv : b.get? name = some v)
    (ho : v.object? = none) (ht : v.isTruthy = true) :
    ResolvesTo b ⟨.str name, operation :: params⟩ (.settled (.error (.unsupported name operation.text)))
  | unbound (c : Call) (hs : ∀ name, c.receiver = .str name → b.get? name = none)
    (hb : ∀ v, c.receiver = .bool v → c.rest ≠ []) : ResolvesTo b c (.settled (.error (.unbound c.receiver.text)))

namespace Call

/-- a name that is bound to nothing, with or without an operation -/
theorem resolve_of_unbound_name (b : Binding ω) (name : String) (rest : List Token) (h : b.get? name = none) :
    resolve b ⟨.str name, rest⟩ = .settled (.error (.unbound name)) := by
  cases rest <;> simp [resolve, operation?, h]

theorem resolve_of_name (b : Binding ω) (name : String) (v : Value ω) (hv : b.get? name = some v) :
    resolve b ⟨.str name, []⟩ = .settled (.ok v.isTruthy) := by
  simp [resolve, operation?, hv]

theorem resolve_of_object (b : Binding ω) (name : String) (operation : Token) (params : List Token) (o : ω)
    (ho : b.get? name = some (.object o)) : resolve b ⟨.str name, operation :: params⟩ =
      .invocation ⟨name, o, operation.text, params.map b.argument, params⟩ := by
  simp [resolve, operation?, Call.params, ho]

/-- a value that is no object never makes a call with an operation true -/
theorem resolve_of_literal (b : Binding ω) (name : String) (operation : Token) (params : List Token) (v : Value ω)
    (hb : b.get? name = some v) (hv : v.object? = none) :
    resolve b ⟨.str name, operation :: params⟩ = .settled
      (if v.isTruthy then .error (.unsupported name operation.text) else .ok false) := by
  cases v with
  | object o => cases hv
  | _ =>
    simp only [resolve, operation?, List.head?_cons, hb]
    split <;> rfl

theorem resolvesTo_of_single (b : Binding ω) (receiver : Token) :
    ResolvesTo b ⟨receiver, []⟩ (resolve b ⟨receiver, []⟩) := by
  cases receiver with
  | bool v => exact .literal v
  | int n => exact .unbound ⟨.int n, []⟩ (fun _ h => nomatch h) fun _ h => nomatch h
  | str name =>
    cases hv : b.get? name with
    | none =>
      rw [resolve_of_unbound_name b name [] hv]
      exact .unbound ⟨.str name, []⟩ (fun _ h => Token.str.inj h ▸ hv) fun _ h => nomatch h
    | some v =>
      rw [resolve_of_name b name v hv]
      exact .name name v hv

theorem resolvesTo_of_operation (b : Binding ω) (receiver operation : Token) (params : List Token) :
    ResolvesTo b ⟨receiver, operation :: params⟩ (resolve b ⟨receiver, operation :: params⟩) := by
  cases receiver with
  | bool v => exact .unbound ⟨.bool v, _⟩ (fun _ h => nomatch h) fun _ _ => List.cons_ne_nil _ _
  | int n => exact .unbound ⟨.int n, _⟩ (fun _ h => nomatch h) fun _ h => nomatch h
  | str name =>
    cases hv : b.get? name with
    | none =>
      rw [resolve_of_unbound_name b name _ hv]
      exact .unbound ⟨.str name, _⟩ (fun _ h => Token.str.inj h ▸ hv) fun _ h => nomatch h
    | some v =>
      cases v with
      | object o =>
        rw [resolve_of_object b name operation params o hv]
        exact .operation name operation params o hv
      | _ =>
        rw [resolve_of_literal b name operation params _ hv rfl]
        split
        · rename_i ht
          exact .scalar name operation params _ hv rfl ht
        · rename_i hf
          exact .falsy name operation params _ hv (Bool.eq_false_iff.2 hf)

theorem resolve_resolvesTo (b : Binding ω) (c : Call) : c.ResolvesTo b (c.resolve b) := by
  obtain ⟨receiver, rest⟩ := c
  cases rest with
  | nil => exact resolvesTo_of_single b receiver
  | cons operation params => exact resolvesTo_of_operation b receiver operation params

theorem resolve_of_resolvesTo (b : Binding ω) (c : Call) (r : Resolved ω) (h : c.ResolvesTo b r) :
    c.resolve b = r := by
  cases h with
  | literal v => rfl
  | name name v hv => exact resolve_of_name b name v hv
  | operation name operation params o ho => exact resolve_of_object b name operation params o ho
  | falsy name operation params v hv hf =>
    have ho : v.object? = none := by
      cases v with
      | object o => cases hf
      | _ => rfl
    rw [resolve_of_literal b name operation params v hv ho, if_neg (Bool.eq_false_iff.1 hf)]
  | scalar name operation params v hv ho ht => rw [resolve_of_literal b name operation params v hv ho, if_pos ht]
  | unbound _ hs hb =>
    obtain ⟨receiver, rest⟩ := c
    cases receiver with
    | str name => exact resolve_of_unbound_name b name rest (hs name rfl)
    | int n => cases rest <;> rfl
    | bool v =>
      cases rest with
      | nil => exact absurd rfl (hb v rfl)
      | cons operation params => rfl

theorem resolvesTo_iff (b : Binding ω) (c : Call) (r : Resolved ω) : c.ResolvesTo b r ↔ c.resolve b = r :=
  ⟨resolve_of_resolvesTo b c r, fun h => h ▸ resolve_resolvesTo b c⟩

end Call

/-! ## Operators -/

namespace Program

/-- an operator on a stack of values, the newest first -/
def combine (op : Operator) : List Bool → Except RuleError (List Bool)
  | right :: left :: rest => .ok (op.apply left right :: rest)
  | _ => .error .missingOperand

theorem combine_eq_ok_iff (op : Operator) (stack next : List Bool) :
    combine op stack = .ok next ↔
      ∃ right left rest, stack = right :: left :: rest ∧ next = op.apply left right :: rest := by
  constructor
  · intro h
    cases stack with
    | nil => cases h
    | cons right rest =>
      cases rest with
      | nil => cases h
      | cons left rest => exact ⟨right, left, rest, rfl, (Except.ok.inj h).symm⟩
  · rintro ⟨right, left, rest, rfl, rfl⟩
    rfl

theorem combine_eq_error_iff (op : Operator) (stack : List Bool) (e : RuleError) :
    combine op stack = .error e ↔ e = .missingOperand ∧ stack.length < 2 := by
  cases stack with
  | nil => simp [combine, eq_comm]
  | cons right rest => cases rest <;> simp [combine, eq_comm]

theorem step_operator [Monad m] (host : Host ω m) (b : Binding ω) (stack : List Bool) (op : Operator) :
    step host b stack (.operator op) = ExceptT.mk (pure (combine op stack)) := by
  cases stack with
  | nil => rfl
  | cons right rest => cases rest <;> rfl

/-! ## Two evaluations with the same calls -/

section Calls

variable {ω' : Type} [Monad m] (host : Host ω m) (host' : Host ω' m) (b : Binding ω) (d : Binding ω')

theorem run_of_calls (stack : List Bool) (is : List Instruction)
    (h : ∀ c, .call c ∈ is → c.evaluate host b = c.evaluate host' d) : run host b stack is = run host' d stack is := by
  induction is generalizing stack with
  | nil => rfl
  | cons i rest ih =>
    have hstep : step host b stack i = step host' d stack i := by
      cases i with
      | operator op => rfl
      | call c => simp only [step, h c List.mem_cons_self]
    have hrest (stack : List Bool) := ih stack fun c hc => h c (List.mem_cons_of_mem i hc)
    simp only [run, hstep, hrest]

/-- a program whose calls come to the same comes to the same -/
theorem evaluate_of_calls (p : Program)
    (h : ∀ c, .call c ∈ p.instructions → c.evaluate host b = c.evaluate host' d) :
    p.evaluate host b = p.evaluate host' d := by
  simp only [evaluate, run_of_calls host host' b d [] p.instructions h]

end Calls

end Program

end AccessRules
