/-
What trees come to. A tree is decided from left to right: the left operand, then always the right one; both must hold
for `and`, one of them for `or`. Running the listing of a tree on a stack does exactly that and puts the value on the
stack, whatever the objects that are asked do on the way; trees one after another leave their values one above another.

- `Tree.evaluate_node`: the operators of programs do what `and` and `or` mean.
- `run_postorder`, `run_listing`: the stack machine on the listing of one tree, and of trees one after another.
- `evaluate_of_outcomes`, `mapM_evaluate_of_outcomes`: when every call has a fixed outcome, the first call that fails
  decides, and when none fails the trees have the values that their operators give.
- `evaluate_failsOnly`: a tree never fails for the way the rule is written.
-/
import AccessRules.Evaluation.Resolution
import AccessRules.Proofs.Program.Postorder

namespace AccessRules

variable {ω α β : Type} {m : Type → Type}

/-! ## Deciding a tree -/

/-- the decision of a tree -/
def Tree.evaluate [Monad m] (host : Host ω m) (b : Binding ω) : Tree → ExceptT RuleError m Bool
  | .call c => c.evaluate host b
  | .node op left right => do
    let l ← left.evaluate host b
    let r ← right.evaluate host b
    pure (match op with | .and => l && r | .or => l || r)

theorem Tree.evaluate_node [Monad m] (host : Host ω m) (b : Binding ω) (op : Operator) (left right : Tree) :
    (node op left right).evaluate host b = (do
      let l ← left.evaluate host b
      let r ← right.evaluate host b
      pure (op.apply l r)) := by
  cases op <;> rfl

namespace Program

theorem run_call [Monad m] [LawfulMonad m] (host : Host ω m) (b : Binding ω) (stack : List Bool) (c : Call) :
    run host b stack [.call c] = (do
      let v ← c.evaluate host b
      pure (v :: stack)) := by
  simp [run, step]

theorem run_operator [Monad m] [LawfulMonad m] (host : Host ω m) (b : Binding ω) (left right : Bool)
    (stack : List Bool) (op : Operator) :
    run host b (right :: left :: stack) [.operator op] = pure (op.apply left right :: stack) := by
  simp [run, step]

/-- **The listing of a tree** decides the tree, and leaves its value above what was there. -/
theorem run_postorder [Monad m] [LawfulMonad m] (host : Host ω m) (b : Binding ω) (stack : List Bool) (t : Tree) :
    run host b stack t.postorder = (do
      let v ← t.evaluate host b
      pure (v :: stack)) := by
  induction t generalizing stack with
  | call c => exact run_call host b stack c
  | node op left right ihl ihr =>
    simp only [Tree.postorder, run_append, ihl, bind_assoc, pure_bind, ihr, run_operator, Tree.evaluate_node]

theorem run_listing [Monad m] [LawfulMonad m] (host : Host ω m) (b : Binding ω) (stack : List Bool) (ts : List Tree) :
    run host b stack (Tree.listing ts) = (do
      let vs ← ts.mapM (Tree.evaluate host b)
      pure (vs.reverse ++ stack)) := by
  induction ts generalizing stack with
  | nil => simp [Tree.listing, run]
  | cons t ts ih =>
    have hcons : Tree.listing (t :: ts) = t.postorder ++ Tree.listing ts := rfl
    simp [hcons, run_append, run_postorder, ih]

end Program

/-! ## The calls alone -/

namespace Program

/-- the calls of instructions in their order -/
def calls (is : List Instruction) : List Call :=
  is.filterMap fun
    | .call c => some c
    | .operator _ => none

theorem mem_calls_iff (is : List Instruction) (c : Call) : c ∈ calls is ↔ .call c ∈ is := by
  rw [calls, List.mem_filterMap]
  constructor
  · rintro ⟨i, hi, he⟩
    cases i with
    | call c' => exact Option.some.inj he ▸ hi
    | operator op => cases he
  · intro h
    exact ⟨.call c, h, rfl⟩

theorem calls_append (is js : List Instruction) : calls (is ++ js) = calls is ++ calls js := List.filterMap_append

theorem calls_postorder (t : Tree) : calls t.postorder = t.calls := by
  induction t with
  | call c => rfl
  | node op left right ihl ihr =>
    rw [Tree.postorder, calls_append, calls_append, ihl, ihr, Tree.calls]
    simp [calls]

theorem calls_listing (ts : List Tree) : calls (Tree.listing ts) = ts.flatMap Tree.calls := by
  induction ts with
  | nil => rfl
  | cons t ts ih =>
    have hcons : Tree.listing (t :: ts) = t.postorder ++ Tree.listing ts := rfl
    rw [hcons, calls_append, calls_postorder, ih, List.flatMap_cons]

end Program

namespace Tree

/-- a tree whose value is not used makes its calls, and that is all -/
theorem evaluate_discarded [Monad m] [LawfulMonad m] (host : Host ω m) (b : Binding ω) (t : Tree)
    (next : ExceptT RuleError m α) :
    (do let _ ← t.evaluate host b; next) = (do let _ ← t.calls.mapM (Call.evaluate host b); next) := by
  induction t generalizing next with
  | call c => simp [evaluate, calls]
  | node op left right ihl ihr =>
    simp only [evaluate, calls, bind_assoc, pure_bind, List.mapM_append]
    rw [← ihl]
    refine bind_congr fun l => ?_
    exact ihr next

theorem mapM_evaluate_discarded [Monad m] [LawfulMonad m] (host : Host ω m) (b : Binding ω) (ts : List Tree)
    (next : ExceptT RuleError m α) :
    (do let _ ← ts.mapM (evaluate host b); next) =
      (do let _ ← (ts.flatMap calls).mapM (Call.evaluate host b); next) := by
  induction ts generalizing next with
  | nil => simp
  | cons t ts ih =>
    simp only [List.mapM_cons, List.flatMap_cons, List.mapM_append, bind_assoc, pure_bind]
    rw [← evaluate_discarded]
    refine bind_congr fun v => ?_
    exact ih next

end Tree

/-! ## Fixed outcomes -/

/-- under the binding the call comes to `outcome`, without effects -/
def Call.HasOutcome [Monad m] (host : Host ω m) (b : Binding ω) (c : Call) (outcome : Except RuleError Bool) : Prop :=
  c.evaluate host b = ExceptT.mk (pure outcome)

/-- the outcome of a call, when operations have no effects -/
def Call.outcome (host : Host ω Id) (b : Binding ω) (c : Call) : Except RuleError Bool := (c.evaluate host b).run

/-- objects without effects give every call an outcome -/
theorem hasOutcome_outcome (host : Host ω Id) (b : Binding ω) (c : Call) : c.HasOutcome host b (c.outcome host b) :=
  rfl

namespace Outcome

/-- the error of an outcome -/
def error? : Except RuleError Bool → Option RuleError
  | .ok _ => none
  | .error e => some e

/-- the value of an outcome; an error has none, and counts as false -/
def value : Except RuleError Bool → Bool
  | .ok v => v
  | .error _ => false

/-- the error of the first call that fails -/
def firstError? (outcomeOf : Call → Except RuleError Bool) (cs : List Call) : Option RuleError :=
  cs.findSome? fun c => error? (outcomeOf c)

theorem firstError?_append (outcomeOf : Call → Except RuleError Bool) (cs ds : List Call) :
    firstError? outcomeOf (cs ++ ds) = (firstError? outcomeOf cs).or (firstError? outcomeOf ds) :=
  List.findSome?_append

theorem firstError?_flatMap (outcomeOf : Call → Except RuleError Bool) (f : α → List Call) (xs : List α) :
    firstError? outcomeOf (xs.flatMap f) = xs.findSome? fun x => firstError? outcomeOf (f x) := by
  induction xs with
  | nil => rfl
  | cons x xs ih =>
    rw [List.flatMap_cons, firstError?_append, ih, List.findSome?_cons]
    cases firstError? outcomeOf (f x) <;> rfl

/-- fail with the error that there is, or else give `v` -/
def conclude [Monad m] (error : Option RuleError) (v : α) : ExceptT RuleError m α :=
  match error with
  | some e => throw e
  | none => pure v

/-- things that fail or have values, one after another: the first failure decides -/
theorem mapM_conclude [Monad m] [LawfulMonad m] (f : β → ExceptT RuleError m α) (error : β → Option RuleError)
    (v : β → α) (xs : List β) (h : ∀ x ∈ xs, f x = conclude (error x) (v x)) :
    xs.mapM f = conclude (xs.findSome? error) (xs.map v) := by
  induction xs with
  | nil => rfl
  | cons x xs ih =>
    rw [List.mapM_cons, h x List.mem_cons_self, ih fun y hy => h y (List.mem_cons_of_mem x hy), List.findSome?_cons]
    cases error x <;> cases xs.findSome? error <;> simp [conclude]

end Outcome

open Outcome

theorem Call.evaluate_of_outcome [Monad m] (host : Host ω m) (b : Binding ω) (c : Call)
    (outcome : Except RuleError Bool) (h : c.HasOutcome host b outcome) :
    c.evaluate host b = conclude (error? outcome) (value outcome) := by
  rw [h]
  cases outcome <;> rfl

namespace Tree

/-- **When calls have outcomes**, a tree fails as its first call that fails, and has its value when none does. -/
theorem evaluate_of_outcomes [Monad m] [LawfulMonad m] (host : Host ω m) (b : Binding ω)
    (outcomeOf : Call → Except RuleError Bool) (t : Tree) (h : ∀ c ∈ t.calls, c.HasOutcome host b (outcomeOf c)) :
    t.evaluate host b = conclude (firstError? outcomeOf t.calls) (t.value fun c => Outcome.value (outcomeOf c)) := by
  induction t with
  | call c =>
    rw [evaluate, c.evaluate_of_outcome host b _ (h c List.mem_cons_self)]
    simp [firstError?, calls, Tree.value]
  | node op left right ihl ihr =>
    have hl := ihl fun c hc => h c (List.mem_append_left _ hc)
    have hr := ihr fun c hc => h c (List.mem_append_right _ hc)
    rw [evaluate_node, hl, hr, calls, firstError?_append, value_node]
    cases firstError? outcomeOf left.calls <;> cases firstError? outcomeOf right.calls <;> simp [conclude]

theorem mapM_evaluate_of_outcomes [Monad m] [LawfulMonad m] (host : Host ω m) (b : Binding ω)
    (outcomeOf : Call → Except RuleError Bool) (ts : List Tree)
    (h : ∀ c ∈ ts.flatMap calls, c.HasOutcome host b (outcomeOf c)) :
    ts.mapM (evaluate host b) = conclude (firstError? outcomeOf (ts.flatMap calls))
      (ts.map (Tree.value fun c => Outcome.value (outcomeOf c))) := by
  have heach : ∀ t ∈ ts, t.evaluate host b =
      conclude (firstError? outcomeOf t.calls) (t.value fun c => Outcome.value (outcomeOf c)) := fun t ht =>
    evaluate_of_outcomes host b outcomeOf t fun c hc => h c (List.mem_flatMap.2 ⟨t, ht, hc⟩)
  rw [mapM_conclude _ _ _ ts heach, firstError?_flatMap]

end Tree

/-! ## Which errors there can be -/

/-- every error that `x` can end with has the property -/
def FailsOnly [Monad m] (Q : RuleError → Prop) (x : ExceptT RuleError m α) : Prop :=
  ∃ y : m {r : Except RuleError α // ∀ e, r = .error e → Q e}, x.run = Subtype.val <$> y

namespace FailsOnly

variable {Q : RuleError → Prop}

theorem settled [Monad m] [LawfulMonad m] (r : Except RuleError α) (h : ∀ e, r = .error e → Q e) :
    FailsOnly Q (ExceptT.mk (pure r) : ExceptT RuleError m α) := by
  refine ⟨pure ⟨r, h⟩, ?_⟩
  rw [map_pure, ExceptT.run_mk]

theorem imp [Monad m] [LawfulMonad m] {R : RuleError → Prop} (x : ExceptT RuleError m α) (hx : FailsOnly Q x)
    (h : ∀ e, Q e → R e) : FailsOnly R x := by
  obtain ⟨y, hy⟩ := hx
  refine ⟨(fun r => ⟨r.1, fun e he => h e (r.2 e he)⟩) <$> y, ?_⟩
  rw [hy, ← comp_map]
  rfl

theorem bind [Monad m] [LawfulMonad m] (x : ExceptT RuleError m α) (f : α → ExceptT RuleError m β)
    (hx : FailsOnly Q x) (hf : ∀ a, FailsOnly Q (f a)) : FailsOnly Q (x >>= f) := by
  obtain ⟨y, hy⟩ := hx
  choose z hz using hf
  refine ⟨y >>= fun r => match r with
    | ⟨.ok a, _⟩ => z a
    | ⟨.error e, h⟩ => pure ⟨.error e, fun e' he => h e' (by cases he; rfl)⟩, ?_⟩
  rw [ExceptT.run_bind, hy, bind_map_left, map_bind]
  refine bind_congr fun r => ?_
  obtain ⟨r, hr⟩ := r
  cases r with
  | ok a => exact hz a
  | error e => simp

end FailsOnly

/-- the errors of an operation are those of the object's answers -/
theorem Invocation.run_failsOnly [Monad m] [LawfulMonad m] (Q : RuleError → Prop) (host : Host ω m) (i : Invocation ω)
    (h : ∀ e, Q (i.errorOf e)) : FailsOnly Q (i.run host) := by
  have hanswer : ∀ answer e, i.outcomeOf answer = .error e → Q e := by
    intro answer e he
    cases answer with
    | ok v => cases he
    | error e' => exact Except.error.inj he ▸ h e'
  refine ⟨(fun answer => ⟨i.outcomeOf answer, hanswer answer⟩) <$>
    ((host i.object).tryInvokeFrom i.operation i.args i.sources).run, ?_⟩
  rw [← comp_map]
  rfl

/-- the errors of a call are those that the binding settles it with and those of the operation that it asks for -/
theorem Call.evaluate_failsOnly_of [Monad m] [LawfulMonad m] (Q : RuleError → Prop) (host : Host ω m) (b : Binding ω)
    (c : Call) (hs : ∀ e, c.resolve b = .settled (.error e) → Q e)
    (hi : ∀ i e, c.resolve b = .invocation i → Q (i.errorOf e)) : FailsOnly Q (c.evaluate host b) := by
  unfold Call.evaluate
  split
  · rename_i outcome hr
    exact .settled outcome fun e he => hs e (he ▸ hr)
  · rename_i i hr
    exact i.run_failsOnly Q host fun e => hi i e hr

/-- what the binding alone settles is never told as a fault of the rule -/
theorem isSyntactic_of_settled (b : Binding ω) (c : Call) (e : RuleError) (h : c.resolve b = .settled (.error e)) :
    e.isSyntactic = false := by
  have hc := c.resolve_resolvesTo b
  rw [h] at hc
  cases hc <;> rfl

theorem Call.evaluate_failsOnly [Monad m] [LawfulMonad m] (host : Host ω m) (b : Binding ω) (c : Call) :
    FailsOnly (fun e => e.isSyntactic = false) (c.evaluate host b) := by
  refine c.evaluate_failsOnly_of _ host b (isSyntactic_of_settled b c) fun i e _ => ?_
  cases e <;> rfl

theorem Tree.evaluate_failsOnly [Monad m] [LawfulMonad m] (host : Host ω m) (b : Binding ω) (t : Tree) :
    FailsOnly (fun e => e.isSyntactic = false) (t.evaluate host b) := by
  induction t with
  | call c => exact c.evaluate_failsOnly host b
  | node op left right ihl ihr =>
    rw [evaluate_node]
    refine .bind _ _ ihl fun l => .bind _ _ ihr fun r => ?_
    exact .settled (.ok (op.apply l r)) fun e he => nomatch he

end AccessRules
