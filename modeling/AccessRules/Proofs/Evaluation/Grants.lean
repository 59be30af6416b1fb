/-
No permission without a grant. An evaluation comes to true only if a call of it spoke for permission: the literal
`True`, a name whose value is truthy, or an operation that the object has, that takes that many arguments, and that was
answered with the boolean true in this very evaluation. The invariant is on the stack: every true on it has such a call
behind it. An operator makes a true of trues only, and an answer once given stays given.

- `Forgets`: two evaluations that differ in what they remember only; `evaluate_forgets` carries it from the objects to
  the decision.
- `evaluate_answering`: what one call comes to, and what it leaves among the answers.
- `step_grants`, `run_grants`: every true that one instruction, or instructions one after another, leave on the stack
  was there before or has a call that granted it.
- `evaluate_neverTrue`: a program whose calls never come to true never does.
- `granted_by_a_call`: the decision of a program, whatever the objects do when asked.
-/
import AccessRules.Evaluation.Answers
import AccessRules.Proofs.Evaluation.Asking
import AccessRules.Proofs.Evaluation.Verdict

namespace AccessRules

variable {ω α β ε σ τ : Type} {m : Type → Type}

/-! ## Remembering less -/

/-- `y` does what `x` does, and remembers what `f` leaves of the memory of `x` -/
def Forgets [Monad m] (f : σ → τ) (x : ExceptT ε (StateT σ m) α) (y : ExceptT ε (StateT τ m) α) : Prop :=
  ∀ s, (fun z => (z.1, f z.2)) <$> x.run.run s = y.run.run (f s)

namespace Forgets

variable [Monad m] [LawfulMonad m] {f : σ → τ}

theorem settled (r : Except ε α) :
    Forgets f (ExceptT.mk (pure r) : ExceptT ε (StateT σ m) α) (ExceptT.mk (pure r)) := by
  intro s
  exact map_pure _ _

theorem bind {x : ExceptT ε (StateT σ m) α} {y : ExceptT ε (StateT τ m) α} (h : Forgets f x y)
    {k : α → ExceptT ε (StateT σ m) β} {l : α → ExceptT ε (StateT τ m) β} (hk : ∀ a, Forgets f (k a) (l a)) :
    Forgets f (x >>= k) (y >>= l) := by
  intro s
  simp only [ExceptT.run_bind, StateT.run_bind, map_bind]
  rw [← h s, bind_map_left]
  refine bind_congr fun z => ?_
  obtain ⟨r, s'⟩ := z
  cases r with
  | error e => exact map_pure _ _
  | ok a => exact hk a s'

theorem map {ε' : Type} {x : ExceptT ε (StateT σ m) α} {y : ExceptT ε (StateT τ m) α} (h : Forgets f x y)
    (g : Except ε α → Except ε' β) : Forgets f (ExceptT.mk (g <$> x.run)) (ExceptT.mk (g <$> y.run)) := by
  intro s
  simp only [ExceptT.run_mk, StateT.run_map]
  rw [← h s, Functor.map_map, Functor.map_map]

end Forgets

section Hosts

variable [Monad m] [LawfulMonad m] (f : σ → τ) (host : Host ω (StateT σ m)) (host' : Host ω (StateT τ m))
  (h : ∀ o operation args sources, Forgets f ((host o).tryInvokeFrom operation args sources)
    ((host' o).tryInvokeFrom operation args sources))

include h

theorem Call.evaluate_forgets (b : Binding ω) (c : Call) : Forgets f (c.evaluate host b) (c.evaluate host' b) := by
  unfold Call.evaluate
  cases c.resolve b with
  | settled outcome => exact .settled outcome
  | invocation i => exact (h i.object i.operation i.args i.sources).map i.outcomeOf

namespace Program

theorem step_forgets (b : Binding ω) (stack : List Bool) (i : Instruction) :
    Forgets f (step host b stack i) (step host' b stack i) := by
  cases i with
  | operator op =>
    rw [step_operator, step_operator]
    exact .settled _
  | call c => exact (c.evaluate_forgets f host host' h b).bind fun v => .settled (.ok (v :: stack))

theorem run_forgets (b : Binding ω) (stack : List Bool) (is : List Instruction) :
    Forgets f (run host b stack is) (run host' b stack is) := by
  induction is generalizing stack with
  | nil => exact .settled (.ok stack)
  | cons i rest ih => exact (step_forgets f host host' h b stack i).bind ih

theorem evaluate_forgets (b : Binding ω) (p : Program) : Forgets f (p.evaluate host b) (p.evaluate host' b) := by
  unfold evaluate
  split_ifs
  · exact .settled (.ok false)
  · refine (run_forgets f host host' h b [] p.instructions).bind fun stack => ?_
    cases stack with
    | nil => exact .settled (.error RuleError.missingOperand)
    | cons v rest => exact .settled (.ok v)

end Program

end Hosts

/-! ## What one call leaves among the answers -/

theorem run_noteAnswer [Monad m] [LawfulMonad m] (a : Asked ω) (action : ExceptT InvokeError m (Value ω))
    (answers : List (Answered ω)) :
    (noteAnswer a action).run.run answers = (fun answer => (answer, answers ++ [⟨a, answer⟩])) <$> action.run :=
  bind_pure_comp (fun answer => (answer, answers ++ [(⟨a, answer⟩ : Answered ω)])) action.run

/-- what is recorded as asked is what is answered, without the answers -/
theorem answering_forgets [Monad m] [LawfulMonad m] (host : Host ω m) (o : ω) (operation : String)
    (args : List (Value ω)) (sources : List Token) :
    Forgets (List.map Answered.asked) ((host.answering o).tryInvokeFrom operation args sources)
      ((host.recording o).tryInvokeFrom operation args sources) := by
  cases href : (host o).refusal? operation args.length with
  | none =>
    rw [answering_of_admits host o operation args sources href, recording_of_admits host o operation args sources href]
    intro answers
    rw [run_noteAnswer, run_writeDown, Functor.map_map]
    simp only [List.map_append, List.map_cons, List.map_nil]
  | some e =>
    rw [answering_of_refuses host o operation args sources e href,
      recording_of_refuses host o operation args sources e href]
    exact .settled (.error e)

theorem outcomeOf_eq_true_iff (i : Invocation ω) (answer : Except InvokeError (Value ω)) :
    i.outcomeOf answer = .ok true ↔ answer = .ok (.bool true) := by
  cases answer with
  | ok v => simp [Invocation.outcomeOf, Value.isTrue_iff]
  | error e => simp [Invocation.outcomeOf]

/-- an invocation that comes to true was admitted, and was answered with the boolean true -/
theorem Invocation.run_answering [Monad m] [LawfulMonad m] (host : Host ω m) (i : Invocation ω)
    (answers : List (Answered ω)) :
    SatisfiesM (fun x => answers <+: x.2 ∧ (x.1 = .ok true →
        (host i.object).refusal? i.operation i.args.length = none ∧
        ⟨⟨i.object, i.operation, i.args, i.sources⟩, .ok (.bool true)⟩ ∈ x.2))
      ((i.run host.answering).run.run answers) := by
  rw [Invocation.run, ExceptT.run_mk, StateT.run_map]
  cases href : (host i.object).refusal? i.operation i.args.length with
  | none =>
    rw [answering_of_admits host i.object i.operation i.args i.sources href, run_noteAnswer, Functor.map_map]
    refine SatisfiesM.map_pre (.of_true fun answer => ⟨List.prefix_append _ _, fun htrue => ⟨rfl, ?_⟩⟩)
    rw [(outcomeOf_eq_true_iff i answer).1 htrue]
    exact List.mem_append_right _ List.mem_cons_self
  | some e =>
    rw [answering_of_refuses host i.object i.operation i.args i.sources e href]
    refine SatisfiesM.map_pre (SatisfiesM.pure ⟨List.prefix_refl _, fun htrue => ?_⟩)
    cases (outcomeOf_eq_true_iff i (.error e)).1 htrue

/-- **One call** that comes to true speaks for permission, by the answers so far. -/
theorem Call.evaluate_answering [Monad m] [LawfulMonad m] (host : Host ω m) (b : Binding ω) (c : Call)
    (answers : List (Answered ω)) :
    SatisfiesM (fun x => answers <+: x.2 ∧ (x.1 = .ok true → c.GrantsIn host b x.2))
      ((c.evaluate host.answering b).run.run answers) := by
  have hsettled (outcome : Except RuleError Bool) (hgrants : outcome = .ok true → c.GrantsIn host b answers) :
      SatisfiesM (m := m) (fun x => answers <+: x.2 ∧ (x.1 = .ok true → c.GrantsIn host b x.2))
        ((ExceptT.mk (pure outcome) : ExceptT RuleError (StateT _ m) Bool).run.run answers) :=
    SatisfiesM.pure ⟨List.prefix_refl _, hgrants⟩
  have hc := c.resolve_resolvesTo b
  unfold Call.evaluate
  generalize c.resolve b = r at hc
  cases hc with
  | literal v =>
    refine hsettled _ fun htrue => ?_
    rw [Except.ok.inj htrue]
    exact .literal
  | name name v hv => exact hsettled _ fun htrue => .name name v hv (Except.ok.inj htrue)
  | operation name operation params o ho =>
    refine (Invocation.run_answering host _ answers).imp fun {x} hx => ⟨hx.1, fun htrue => ?_⟩
    obtain ⟨href, hanswer⟩ := hx.2 htrue
    rw [List.length_map] at href
    obtain ⟨arity, har, hmin, hmax⟩ := ((host o).refusal?_eq_none_iff _ _).1 href
    exact .operation name o operation params arity ho har hmin hmax hanswer
  | falsy name operation params v hv hf => exact hsettled _ nofun
  | scalar name operation params v hv ho ht => exact hsettled _ nofun
  | unbound _ hs hb => exact hsettled _ nofun

/-! ## Every true on the stack -/

/-- an operator makes no true of two falses -/
theorem Operator.operand_of_apply (op : Operator) (left right : Bool) (h : op.apply left right = true) :
    left = true ∨ right = true := by
  revert left right
  cases op <;> decide

namespace Program

theorem true_mem_of_combine (op : Operator) (stack next : List Bool) (h : combine op stack = .ok next)
    (htrue : true ∈ next) : true ∈ stack := by
  obtain ⟨right, left, rest, rfl, rfl⟩ := (combine_eq_ok_iff op stack next).1 h
  rcases List.mem_cons.1 htrue with hv | hrest
  · rcases op.operand_of_apply left right hv.symm with rfl | rfl
    · exact List.mem_cons_of_mem _ List.mem_cons_self
    · exact List.mem_cons_self
  · exact List.mem_cons_of_mem _ (List.mem_cons_of_mem _ hrest)

/-- **One instruction**: a true that it leaves was there before, or a call granted it. -/
theorem step_grants [Monad m] [LawfulMonad m] (host : Host ω m) (b : Binding ω) (stack : List Bool) (i : Instruction)
    (answers : List (Answered ω)) :
    SatisfiesM (fun x => answers <+: x.2 ∧ ∀ next, x.1 = .ok next → true ∈ next →
        true ∈ stack ∨ ∃ c, i = .call c ∧ c.GrantsIn host b x.2)
      ((step host.answering b stack i).run.run answers) := by
  cases i with
  | operator op =>
    rw [step_operator]
    refine SatisfiesM.pure ⟨List.prefix_refl _, fun next hnext htrue => ?_⟩
    exact .inl (true_mem_of_combine op stack next hnext htrue)
  | call c =>
    rw [step, ExceptT.run_bind, StateT.run_bind]
    refine (c.evaluate_answering host b answers).bind fun x hx => ?_
    obtain ⟨r, answers'⟩ := x
    cases r with
    | error e =>
      refine SatisfiesM.pure ⟨hx.1, fun next hnext => ?_⟩
      cases hnext
    | ok v =>
      refine SatisfiesM.pure ⟨hx.1, fun next hnext htrue => ?_⟩
      obtain rfl : v :: stack = next := Except.ok.inj hnext
      rcases List.mem_cons.1 htrue with rfl | hold
      · exact .inr ⟨c, rfl, hx.2 rfl⟩
      · exact .inl hold

/-- **Instructions one after another**: the answers grow along the way, so a call that granted goes on to. -/
theorem run_grants [Monad m] [LawfulMonad m] (host : Host ω m) (b : Binding ω) (stack : List Bool)
    (is : List Instruction) (answers : List (Answered ω)) :
    SatisfiesM (fun x => answers <+: x.2 ∧ ∀ last, x.1 = .ok last → true ∈ last →
        true ∈ stack ∨ ∃ c, .call c ∈ is ∧ c.GrantsIn host b x.2)
      ((run host.answering b stack is).run.run answers) := by
  induction is generalizing stack answers with
  | nil =>
    refine SatisfiesM.pure ⟨List.prefix_refl _, fun last hlast htrue => ?_⟩
    exact .inl (Except.ok.inj hlast ▸ htrue)
  | cons i rest ih =>
    rw [run, ExceptT.run_bind, StateT.run_bind]
    refine (step_grants host b stack i answers).bind fun x hx => ?_
    obtain ⟨r, answers'⟩ := x
    cases r with
    | error e =>
      refine SatisfiesM.pure ⟨hx.1, fun last hlast => ?_⟩
      cases hlast
    | ok next =>
      refine (ih next answers').imp fun {y} hy => ⟨hx.1.trans hy.1, fun last hlast htrue => ?_⟩
      rcases hy.2 last hlast htrue with hnext | ⟨c, hc, hgrants⟩
      · rcases hx.2 next rfl hnext with hstack | ⟨c, rfl, hgrants⟩
        · exact .inl hstack
        · exact .inr ⟨c, List.mem_cons_self, hgrants.mono hy.1⟩
      · exact .inr ⟨c, List.mem_cons_of_mem i hc, hgrants⟩

theorem evaluate_grants [Monad m] [LawfulMonad m] (host : Host ω m) (b : Binding ω) (p : Program) :
    SatisfiesM (fun x => x.1 = .ok true → ∃ c, .call c ∈ p.instructions ∧ c.GrantsIn host b x.2)
      (p.evaluateAnswered host b) := by
  have hanswered : p.evaluateAnswered host b = (p.evaluate host.answering b).run.run [] := rfl
  rw [hanswered]
  cases hempty : p.isEmpty with
  | true =>
    rw [evaluate, if_pos hempty]
    refine SatisfiesM.pure fun htrue => ?_
    cases htrue
  | false =>
    rw [run_evaluate host.answering b p hempty, StateT.run_map]
    refine (run_grants host b [] p.instructions []).map fun {x} hx htrue => ?_
    obtain ⟨_ | _ | ⟨value, rest⟩, answers⟩ := x
    · cases htrue
    · cases htrue
    · obtain rfl : value = true := Except.ok.inj htrue
      exact (hx.2 _ rfl List.mem_cons_self).resolve_left List.not_mem_nil

end Program

/-! ## Calls that never come to true -/

/-- `x` never comes to true: it is false or fails, whatever happens on the way -/
def NeverTrue [Monad m] (x : ExceptT RuleError m Bool) : Prop := SatisfiesM (· ≠ .ok true) x.run

namespace NeverTrue

variable [Monad m] [LawfulMonad m]

theorem settled (r : Except RuleError Bool) (h : r ≠ .ok true) :
    NeverTrue (ExceptT.mk (pure r) : ExceptT RuleError m Bool) :=
  SatisfiesM.pure h

theorem bind {P : α → Prop} (x : ExceptT RuleError m α) (f : α → ExceptT RuleError m Bool)
    (hx : SatisfiesM (fun r => ∀ a, r = .ok a → P a) x.run) (hf : ∀ a, P a → NeverTrue (f a)) :
    NeverTrue (x >>= f) := by
  rw [NeverTrue, ExceptT.run_bind]
  refine hx.bind fun r hr => ?_
  cases r with
  | error e => exact SatisfiesM.pure nofun
  | ok a => exact hf a (hr a rfl)

/-- what comes last decides -/
theorem of_last (x : ExceptT RuleError m α) (f : α → ExceptT RuleError m Bool) (hf : ∀ a, NeverTrue (f a)) :
    NeverTrue (x >>= f) :=
  bind x f (P := fun _ => True) (.of_true fun _ _ _ => trivial) fun a _ => hf a

theorem value {x : ExceptT RuleError m Bool} (hx : NeverTrue x) :
    SatisfiesM (fun r => ∀ v, r = .ok v → v ≠ true) x.run := by
  refine SatisfiesM.imp hx fun {r} hr v hv htrue => hr ?_
  rw [hv, htrue]

theorem operator {x y : ExceptT RuleError m Bool} (hx : NeverTrue x) (hy : NeverTrue y) (op : Operator) :
    NeverTrue (do
      let l ← x
      let r ← y
      pure (op.apply l r)) := by
  refine bind _ _ hx.value fun l hl => bind _ _ hy.value fun r hr => settled (.ok (op.apply l r)) fun htrue => ?_
  rcases op.operand_of_apply l r (Except.ok.inj htrue) with rfl | rfl
  · exact hl rfl
  · exact hr rfl

end NeverTrue

/-- without effects there is one outcome -/
theorem neverTrue_iff (x : ExceptT RuleError Id Bool) : NeverTrue x ↔ x.run ≠ .ok true := SatisfiesM_Id_eq

theorem Tree.evaluate_neverTrue [Monad m] [LawfulMonad m] (host : Host ω m) (b : Binding ω) (t : Tree)
    (h : ∀ c ∈ t.calls, NeverTrue (c.evaluate host b)) : NeverTrue (t.evaluate host b) := by
  induction t with
  | call c => exact h c List.mem_cons_self
  | node op left right ihl ihr =>
    have hl := ihl fun c hc => h c (List.mem_append_left _ hc)
    have hr := ihr fun c hc => h c (List.mem_append_right _ hc)
    rw [evaluate_node]
    exact hl.operator hr op

namespace Program

theorem evaluate_neverTrue [Monad m] [LawfulMonad m] (host : Host ω m) (b : Binding ω) (p : Program)
    (h : ∀ c, .call c ∈ p.instructions → NeverTrue (c.evaluate host b)) : NeverTrue (p.evaluate host b) := by
  cases hstarved : firstStarved? p.instructions with
  | some i =>
    rw [evaluate_of_starved host b p i hstarved]
    exact .of_last _ _ fun _ => .settled (.error .missingOperand) nofun
  | none =>
    obtain ⟨ts, hts, -⟩ := exists_listing_of_no_starved p.instructions hstarved
    rw [evaluate_of_listing host b p ts hts]
    rcases ts.eq_nil_or_concat' with rfl | ⟨us, t, rfl⟩
    · rw [List.mapM_nil, pure_bind]
      exact .settled (.ok false) nofun
    · have hcalls : ∀ c ∈ t.calls, NeverTrue (c.evaluate host b) := by
        intro c hc
        refine h c ((mem_calls_iff _ c).1 ?_)
        rw [hts, calls_listing, List.flatMap_append]
        exact List.mem_append_right _ (by simpa using hc)
      -- the trees before the last one are decided, and their values are not looked at
      have hlast : (do
          let vs ← (us ++ [t]).mapM (Tree.evaluate host b)
          pure (vs.getLast?.getD false)) = (do
          let _ ← us.mapM (Tree.evaluate host b)
          t.evaluate host b) := by
        simp [List.mapM_append]
      rw [hlast]
      exact .of_last _ _ fun _ => t.evaluate_neverTrue host b hcalls

/-- **No permission without a grant.** Writing the answers of objects down changes nothing about an evaluation, and
they are the answers to what is recorded as asked, in the same order. When a program comes to true, one of its calls
spoke for permission: it is the literal `True` by itself, or a name by itself whose value is truthy, or its receiver is
bound to an object that has the operation, takes that many arguments, and answered it on the resolved arguments with the
boolean true. When no call ever comes to true, neither does the program, be it sensible or not. -/
theorem granted_by_a_call [Monad m] [LawfulMonad m] (host : Host ω m) (b : Binding ω) (p : Program) :
    Prod.fst <$> p.evaluateAnswered host b = (p.evaluate host b).run ∧
    (fun x => (x.1, x.2.map Answered.asked)) <$> p.evaluateAnswered host b = p.evaluateRecorded host b ∧
    SatisfiesM (fun x => x.1 = .ok true → ∃ c, .call c ∈ p.instructions ∧ c.GrantsIn host b x.2)
      (p.evaluateAnswered host b) ∧
    ((∀ c, .call c ∈ p.instructions → NeverTrue (c.evaluate host b)) → NeverTrue (p.evaluate host b)) := by
  have hasked : (fun x => (x.1, x.2.map Answered.asked)) <$> p.evaluateAnswered host b = p.evaluateRecorded host b :=
    evaluate_forgets (List.map Answered.asked) host.answering host.recording (answering_forgets host) b p []
  refine ⟨?_, hasked, evaluate_grants host b p, evaluate_neverTrue host b p⟩
  calc Prod.fst <$> p.evaluateAnswered host b
      = Prod.fst <$> (fun x => (x.1, x.2.map Answered.asked)) <$> p.evaluateAnswered host b := by
        rw [Functor.map_map]
    _ = Prod.fst <$> p.evaluateRecorded host b := by rw [hasked]
    _ = (p.evaluate host b).run := by
        rw [evaluateRecorded_eq, Functor.map_map, ← fst_evaluateNoted]

/-- it answers with a text, which is truthy -/
def welcome : ExceptT InvokeError Id (Value Unit) := pure (.str "welcome")

def annOrBob : Program := ⟨[.call admitsBob, .call admitsAnn, .operator .or]⟩

/-- bob is not admitted, ann is, and that is what permits; a gate that bids welcome permits nobody -/
theorem granted_at_door :
    (annOrBob.evaluateAnswered FactFile.host door).1 = .ok true ∧
    (∃ c, .call c ∈ annOrBob.instructions ∧
      c.GrantsIn FactFile.host door (annOrBob.evaluateAnswered FactFile.host door).2) ∧
    (evaluate (gate welcome) (.ofList [("gate", .object ())]) ⟨[openGate, openGate, .operator .or]⟩).run ≠
      .ok true := by
  refine ⟨rfl, ?_, ?_⟩
  · obtain ⟨-, -, hgrants, -⟩ := granted_by_a_call FactFile.host door annOrBob
    exact SatisfiesM_Id_eq.1 hgrants rfl
  · obtain ⟨-, -, -, hnever⟩ := granted_by_a_call (gate welcome) (.ofList [("gate", .object ())])
      ⟨[openGate, openGate, .operator .or]⟩
    refine (neverTrue_iff _).1 (hnever fun c hc => (neverTrue_iff _).2 ?_)
    have hopen : c = ⟨.str "gate", [.str "open"]⟩ := by simpa [openGate] using hc
    rw [hopen]
    exact fun h => nomatch h

end Program

end AccessRules
