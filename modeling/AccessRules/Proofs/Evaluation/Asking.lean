/-
What an evaluation asks of objects. The evaluation is run once more with a note of every instruction that it carries
out, and of the error if the instruction fails. What was asked can then be read off the notes: every instruction asks
what it asks under the binding, whatever the values before it, and asks it once; what comes behind the first instruction
that fails is not carried out and asks nothing.

- `evaluate_recording`, `step_recording`: what one call, and one instruction, adds to the record.
- `fst_runNoted`, `run_recording`: taking notes changes nothing, and the record is read off the notes.
- `isTranscript_runNoted`: the notes are those of all instructions up to the first that fails.
- `runNoted_of_outcomes`: the notes, when calls have outcomes.
- `asked_exactly`: the record of an evaluation, whatever the objects do when asked.

What all results of an action have in common is told by `SatisfiesM`, for which the whole of Mathlib is imported.
-/
import Mathlib
import AccessRules.Evaluation.Failure
import AccessRules.Evaluation.Recording
import AccessRules.Evaluation.Resolution
import AccessRules.Proofs.Evaluation.Trees

namespace AccessRules

variable {ω α β : Type} {m : Type → Type}

/-! ## What one instruction asks -/

theorem run_writeDown [Monad m] [LawfulMonad m] (a : Asked ω) (action : ExceptT β m α) (asked : List (Asked ω)) :
    (writeDown a action).run.run asked = (fun r => (r, asked ++ [a])) <$> action.run :=
  bind_pure_comp (fun r => (r, asked ++ [a])) action.run

/-- an object is recorded as asked when it admits what it is asked, and not when it refuses -/
theorem tryInvokeFrom_recording [Monad m] [LawfulMonad m] (host : Host ω m) (o : ω) (operation : String)
    (args : List (Value ω)) (sources : List Token) (asked : List (Asked ω)) :
    ((host.recording o).tryInvokeFrom operation args sources).run.run asked =
      (fun r => (r, asked ++ if (host o).refusal? operation args.length = none then
        [⟨o, operation, args, sources⟩] else [])) <$> ((host o).tryInvokeFrom operation args sources).run := by
  cases href : (host o).refusal? operation args.length with
  | none =>
    rw [recording_of_admits host o operation args sources href, run_writeDown, if_pos rfl]
    simp only [Receiver.tryInvokeFrom, href]
  | some e =>
    rw [recording_of_refuses host o operation args sources e href, if_neg (Option.some_ne_none e), List.append_nil]
    simp only [Receiver.tryInvokeFrom, href]
    exact (map_pure (fun r => (r, asked)) (Except.error e)).symm

namespace Call

theorem asks?_of_settled (host : Host ω m) (b : Binding ω) (c : Call) (outcome : Except RuleError Bool)
    (h : c.resolve b = .settled outcome) : c.asks? host b = none := by
  cases ha : c.asks? host b with
  | none => rfl
  | some a =>
    obtain ⟨name, operation, params, o, -, htokens, ho, -⟩ := (asks?_eq_some_iff host b c a).1 ha
    have hc : c = ⟨.str name, operation :: params⟩ := Option.some.inj (congrArg ofTokens? htokens)
    rw [hc, resolve_of_object b name operation params o ho] at h
    cases h

theorem asks?_of_invocation (host : Host ω m) (b : Binding ω) (c : Call) (i : Invocation ω)
    (h : c.resolve b = .invocation i) :
    c.asks? host b = if (host i.object).refusal? i.operation i.args.length = none then
      some ⟨i.object, i.operation, i.args, i.sources⟩ else none := by
  have hc := c.resolve_resolvesTo b
  rw [h] at hc
  cases hc with
  | operation name operation params o ho => simp only [asks?, tokens, ho, List.length_map]

/-- **One call** is recorded as asking what it asks, be it that it fails or not. -/
theorem evaluate_recording [Monad m] [LawfulMonad m] (host : Host ω m) (b : Binding ω) (c : Call)
    (asked : List (Asked ω)) :
    (c.evaluate host.recording b).run.run asked =
      (fun r => (r, asked ++ (c.asks? host b).toList)) <$> (c.evaluate host b).run := by
  cases hr : c.resolve b with
  | settled outcome =>
    rw [asks?_of_settled host b c outcome hr, Option.toList_none, List.append_nil]
    simp only [evaluate, hr, ExceptT.run_mk, map_pure, StateT.run_pure]
  | invocation i =>
    rw [asks?_of_invocation host b c i hr]
    simp only [evaluate, hr, Invocation.run, ExceptT.run_mk, StateT.run_map, tryInvokeFrom_recording, Functor.map_map]
    split_ifs <;> rfl

end Call

namespace Program

/-- **One instruction** is recorded as asking what it asks, be it that it fails or not. -/
theorem step_recording [Monad m] [LawfulMonad m] (host : Host ω m) (b : Binding ω) (stack : List Bool)
    (i : Instruction) (asked : List (Asked ω)) :
    (step host.recording b stack i).run.run asked =
      (fun r => (r, asked ++ (i.asks? host b).toList)) <$> (step host b stack i).run := by
  cases i with
  | operator op =>
    simp only [step_operator, ExceptT.run_mk, StateT.run_pure, map_pure, Instruction.asks?, Option.toList_none,
      List.append_nil]
  | call c =>
    simp only [step, ExceptT.run_bind, StateT.run_bind, Call.evaluate_recording, bind_map_left, map_bind,
      Instruction.asks?]
    refine bind_congr fun r => ?_
    cases r <;> simp

/-! ## An evaluation with notes -/

/-- an instruction that was carried out, with the error that it failed with -/
abbrev Note : Type := Instruction × Option RuleError

/-- instructions one after another, with a note of each that is carried out -/
def runNoted [Monad m] (host : Host ω m) (b : Binding ω) :
    List Bool → List Instruction → m (Except RuleError (List Bool) × List Note)
  | stack, [] => pure (.ok stack, [])
  | stack, i :: rest => do
    match ← (step host b stack i).run with
    | .error e => pure (.error e, [(i, some e)])
    | .ok stack =>
      let (result, notes) ← runNoted host b stack rest
      pure (result, (i, none) :: notes)

/-- the newest of the values left -/
def newest : List Bool → Except RuleError Bool
  | v :: _ => .ok v
  | [] => .error .missingOperand

/-- the decision of a program, with a note of each instruction that is carried out -/
def evaluateNoted [Monad m] (host : Host ω m) (b : Binding ω) (p : Program) : m (Except RuleError Bool × List Note) :=
  if p.isEmpty then pure (.ok false, [])
  else (fun x => (x.1.bind newest, x.2)) <$> runNoted host b [] p.instructions

/-- what the instructions of the notes ask -/
def askedIn (host : Host ω m) (b : Binding ω) (notes : List Note) : List (Asked ω) :=
  notes.filterMap fun n => n.1.asks? host b

@[simp] theorem askedIn_nil (host : Host ω m) (b : Binding ω) : askedIn host b [] = [] := rfl

@[simp] theorem askedIn_cons (host : Host ω m) (b : Binding ω) (n : Note) (notes : List Note) :
    askedIn host b (n :: notes) = (n.1.asks? host b).toList ++ askedIn host b notes := by
  simp only [askedIn, List.filterMap_cons]
  cases n.1.asks? host b <;> rfl

theorem runNoted_of_error [Monad m] [LawfulMonad m] (host : Host ω m) (b : Binding ω) (stack : List Bool)
    (i : Instruction) (rest : List Instruction) (e : RuleError) (h : (step host b stack i).run = pure (.error e)) :
    runNoted host b stack (i :: rest) = pure (.error e, [(i, some e)]) := by
  rw [runNoted, h, pure_bind]

theorem runNoted_of_ok [Monad m] [LawfulMonad m] (host : Host ω m) (b : Binding ω) (stack next : List Bool)
    (i : Instruction) (rest : List Instruction) (h : (step host b stack i).run = pure (.ok next)) :
    runNoted host b stack (i :: rest) = (fun x => (x.1, (i, none) :: x.2)) <$> runNoted host b next rest := by
  rw [runNoted, h, pure_bind, ← bind_pure_comp]

theorem fst_runNoted [Monad m] [LawfulMonad m] (host : Host ω m) (b : Binding ω) (stack : List Bool)
    (is : List Instruction) : Prod.fst <$> runNoted host b stack is = (run host b stack is).run := by
  induction is generalizing stack with
  | nil => exact map_pure _ _
  | cons i rest ih =>
    simp only [runNoted, run, ExceptT.run_bind, map_bind]
    refine bind_congr fun r => ?_
    cases r with
    | error e => exact map_pure _ _
    | ok stack => simp [← ih]

theorem run_recording [Monad m] [LawfulMonad m] (host : Host ω m) (b : Binding ω) (stack : List Bool)
    (is : List Instruction) (asked : List (Asked ω)) :
    (run host.recording b stack is).run.run asked =
      (fun x => (x.1, asked ++ askedIn host b x.2)) <$> runNoted host b stack is := by
  induction is generalizing stack asked with
  | nil => simp [run, runNoted]
  | cons i rest ih =>
    simp only [runNoted, run, ExceptT.run_bind, StateT.run_bind, step_recording, bind_map_left, map_bind]
    refine bind_congr fun r => ?_
    cases r with
    | error e => simp
    | ok stack => simp [ih]

/-! ## What the notes are -/

/-- the notes of instructions that end with `r`: all of them without an error, or those before the first that fails
without an error and that one with it -/
def IsTranscript (is : List Instruction) (r : Except RuleError α) (notes : List Note) : Prop :=
  match r with
  | .ok _ => notes = is.map (·, none)
  | .error e => ∃ done i rest, is = done ++ i :: rest ∧ notes = done.map (·, none) ++ [(i, some e)]

theorem IsTranscript.cons {is : List Instruction} {r : Except RuleError α} {notes : List Note}
    (h : IsTranscript is r notes) (i : Instruction) : IsTranscript (i :: is) r ((i, none) :: notes) := by
  cases r with
  | ok v => exact congrArg ((i, none) :: ·) h
  | error e =>
    obtain ⟨done, j, rest, his, hnotes⟩ := h
    exact ⟨i :: done, j, rest, congrArg (i :: ·) his, congrArg ((i, none) :: ·) hnotes⟩

/-- what becomes of the value makes no difference to the notes -/
theorem IsTranscript.bind {is : List Instruction} {r : Except RuleError α} {notes : List Note}
    (h : IsTranscript is r notes) (f : α → Except RuleError β) (hf : ∀ a, r = .ok a → ∃ v, f a = .ok v) :
    IsTranscript is (r.bind f) notes := by
  cases r with
  | error e => exact h
  | ok a =>
    obtain ⟨v, hv⟩ := hf a rfl
    have hbind : (Except.ok a : Except RuleError α).bind f = .ok v := hv
    rw [hbind]
    exact h

/-- an instruction that does not fail leaves a value -/
theorem step_satisfies [Monad m] [LawfulMonad m] (host : Host ω m) (b : Binding ω) (stack : List Bool)
    (i : Instruction) : SatisfiesM (fun r => ∀ s, r = .ok s → s ≠ []) (step host b stack i).run := by
  cases i with
  | operator op =>
    rw [step_operator]
    refine SatisfiesM.pure fun s hs => ?_
    obtain ⟨right, left, rest, -, rfl⟩ := (combine_eq_ok_iff op stack s).1 hs
    exact List.cons_ne_nil _ _
  | call c =>
    rw [step, ExceptT.run_bind]
    refine SatisfiesM.bind_pre (.of_true fun r => ?_)
    cases r with
    | ok v => exact SatisfiesM.pure fun s hs => Except.ok.inj hs ▸ List.cons_ne_nil _ _
    | error e =>
      refine SatisfiesM.pure fun s hs => ?_
      cases hs

theorem isTranscript_runNoted [Monad m] [LawfulMonad m] (host : Host ω m) (b : Binding ω) (stack : List Bool)
    (is : List Instruction) :
    SatisfiesM (fun x => IsTranscript is x.1 x.2 ∧ ∀ s, x.1 = .ok s → is ≠ [] ∨ stack ≠ [] → s ≠ [])
      (runNoted host b stack is) := by
  induction is generalizing stack with
  | nil =>
    refine SatisfiesM.pure ⟨rfl, fun s hs h => ?_⟩
    exact Except.ok.inj hs ▸ h.resolve_left fun hn => hn rfl
  | cons i rest ih =>
    refine (step_satisfies host b stack i).bind fun r hr => ?_
    cases r with
    | error e => exact SatisfiesM.pure ⟨⟨[], i, rest, rfl, rfl⟩, fun s hs => nomatch hs⟩
    | ok stack =>
      refine (ih stack).bind fun x hx => SatisfiesM.pure ⟨hx.1.cons i, fun s hs _ => ?_⟩
      exact hx.2 s hs (.inr (hr stack rfl))

theorem isTranscript_evaluateNoted [Monad m] [LawfulMonad m] (host : Host ω m) (b : Binding ω) (p : Program) :
    SatisfiesM (fun x => IsTranscript p.instructions x.1 x.2) (p.evaluateNoted host b) := by
  unfold evaluateNoted
  split_ifs with hempty
  · rw [isEmpty, List.isEmpty_iff] at hempty
    rw [hempty]
    exact SatisfiesM.pure rfl
  · refine (isTranscript_runNoted host b [] p.instructions).map fun {x} hx => hx.1.bind newest fun s hs => ?_
    have hne : p.instructions ≠ [] := by simpa [isEmpty] using hempty
    obtain ⟨v, rest, rfl⟩ := List.exists_cons_of_ne_nil (hx.2 s hs (.inl hne))
    exact ⟨v, rfl⟩

/-! ## The notes, when calls have outcomes -/

section Outcomes

variable (outcomeOf : Call → Except RuleError Bool)

/-- at `k` stands an instruction that ends the evaluation -/
def stopsAt (is : List Instruction) (k : Nat) : Bool := starvesAt is k || failsAt outcomeOf is k

theorem stopsAt_append (is js : List Instruction) (k : Nat) (h : k < is.length) :
    stopsAt outcomeOf (is ++ js) k = stopsAt outcomeOf is k := by
  rw [stopsAt, stopsAt, starvesAt_append is js k h, failsAt, failsAt, List.getElem?_append_left h]

theorem stopsAt_call (is rest : List Instruction) (c : Call) :
    stopsAt outcomeOf (is ++ .call c :: rest) is.length = !(outcomeOf c).isOk := by
  rw [stopsAt, starvesAt_call, Bool.false_or]
  simp [failsAt]

theorem stopsAt_operator (is rest : List Instruction) (op : Operator) :
    stopsAt outcomeOf (is ++ .operator op :: rest) is.length = decide (surplus is < 2) := by
  rw [stopsAt, starvesAt_operator]
  simp [failsAt]

theorem firstStop?_concat (is : List Instruction) (i : Instruction) (h : firstStop? outcomeOf is = none)
    (hi : stopsAt outcomeOf (is ++ [i]) is.length = false) : firstStop? outcomeOf (is ++ [i]) = none :=
  first_concat (stopsAt outcomeOf) (stopsAt_append outcomeOf) is i h hi

theorem carriedOut_of_stop (is : List Instruction) (i : Instruction) (rest : List Instruction)
    (h : firstStop? outcomeOf is = none) (hi : stopsAt outcomeOf (is ++ i :: rest) is.length = true) :
    carriedOut outcomeOf (is ++ i :: rest) = is ++ [i] := by
  have hfirst : firstStop? outcomeOf (is ++ i :: rest) = some is.length :=
    first_of_holds (stopsAt outcomeOf) (stopsAt_append outcomeOf) is i rest h hi
  rw [carriedOut, hfirst]
  simp [List.take_append]

theorem carriedOut_of_no_stop (is : List Instruction) (h : firstStop? outcomeOf is = none) :
    carriedOut outcomeOf is = is := by
  rw [carriedOut, h]

/-- one instruction, behind others that leave as many values as they have more calls than operators -/
theorem step_of_outcomes [Monad m] [LawfulMonad m] (host : Host ω m) (b : Binding ω) (stack : List Bool)
    (before : List Instruction) (i : Instruction) (hout : ∀ c, i = .call c → c.HasOutcome host b (outcomeOf c))
    (hstack : (stack.length : Int) = surplus before) :
    ∃ r, (step host b stack i).run = pure r ∧
      (∀ rest, stopsAt outcomeOf (before ++ i :: rest) before.length = !r.isOk) ∧
      ∀ next, r = .ok next → (next.length : Int) = surplus (before ++ [i]) := by
  cases i with
  | operator op =>
    refine ⟨combine op stack, by rw [step_operator]; rfl, fun rest => ?_, fun next hnext => ?_⟩
    · rw [stopsAt_operator, ← hstack]
      cases hr : combine op stack with
      | ok next =>
        obtain ⟨right, left, others, rfl, -⟩ := (combine_eq_ok_iff op stack next).1 hr
        have hlen : ¬ ((others.length + 1 + 1 : Nat) : Int) < 2 := by omega
        exact decide_eq_false hlen
      | error e =>
        have hlen := ((combine_eq_error_iff op stack e).1 hr).2
        exact decide_eq_true (Int.ofNat_lt.2 hlen)
    · obtain ⟨right, left, others, rfl, rfl⟩ := (combine_eq_ok_iff op stack next).1 hnext
      rw [surplus_append, surplus_operator, ← hstack]
      simp
  | call c =>
    have hc : (c.evaluate host b).run = pure (outcomeOf c) := hout c rfl
    cases ho : outcomeOf c with
    | ok v =>
      refine ⟨.ok (v :: stack), ?_, fun rest => ?_, fun next hnext => ?_⟩
      · rw [step, ExceptT.run_bind, hc, pure_bind, ho]
        rfl
      · rw [stopsAt_call, ho]
        rfl
      · rw [surplus_append, surplus_call, ← hstack, ← Except.ok.inj hnext]
        simp
    | error e =>
      refine ⟨.error e, ?_, fun rest => ?_, fun next hnext => ?_⟩
      · rw [step, ExceptT.run_bind, hc, pure_bind, ho]
      · rw [stopsAt_call, ho]
        rfl
      · cases hnext

/-- the notes go on from instructions without a stop up to the first stop -/
theorem runNoted_of_outcomes [Monad m] [LawfulMonad m] (host : Host ω m) (b : Binding ω) (stack : List Bool)
    (before rest : List Instruction) (hout : ∀ c, .call c ∈ rest → c.HasOutcome host b (outcomeOf c))
    (hstack : (stack.length : Int) = surplus before) (hbefore : firstStop? outcomeOf before = none) :
    ∃ r notes, runNoted host b stack rest = pure (r, notes) ∧
      before ++ notes.map Prod.fst = carriedOut outcomeOf (before ++ rest) := by
  induction rest generalizing stack before with
  | nil =>
    refine ⟨.ok stack, [], rfl, ?_⟩
    rw [List.append_nil, carriedOut_of_no_stop outcomeOf before hbefore]
    exact List.append_nil before
  | cons i rest ih =>
    obtain ⟨r, hstep, hstop, hnext⟩ := step_of_outcomes outcomeOf host b stack before i
      (fun c hc => hout c (hc ▸ List.mem_cons_self)) hstack
    cases r with
    | error e =>
      refine ⟨.error e, [(i, some e)], runNoted_of_error host b stack i rest e hstep, ?_⟩
      exact (carriedOut_of_stop outcomeOf before i rest hbefore (hstop rest)).symm
    | ok next =>
      obtain ⟨r, notes, hrun, hnotes⟩ := ih next (before ++ [i]) (fun c hc => hout c (List.mem_cons_of_mem i hc))
        (hnext next rfl) (firstStop?_concat outcomeOf before i hbefore (hstop []))
      refine ⟨r, (i, none) :: notes, ?_, ?_⟩
      · rw [runNoted_of_ok host b stack next i rest hstep, hrun, map_pure]
      · rw [List.append_assoc, List.append_assoc] at hnotes
        exact hnotes

theorem evaluateNoted_of_outcomes [Monad m] [LawfulMonad m] (host : Host ω m) (b : Binding ω) (p : Program)
    (hout : ∀ c, .call c ∈ p.instructions → c.HasOutcome host b (outcomeOf c)) :
    ∃ r notes, p.evaluateNoted host b = pure (r, notes) ∧
      notes.map Prod.fst = carriedOut outcomeOf p.instructions := by
  obtain ⟨r, notes, hrun, hnotes⟩ := runNoted_of_outcomes outcomeOf host b [] [] p.instructions hout rfl rfl
  unfold evaluateNoted
  split_ifs with hempty
  · rw [isEmpty, List.isEmpty_iff] at hempty
    rw [hempty]
    exact ⟨.ok false, [], rfl, rfl⟩
  · exact ⟨r.bind newest, notes, by rw [hrun, map_pure], hnotes⟩

end Outcomes

/-! ## The record of an evaluation -/

theorem run_evaluate [Monad m] [LawfulMonad m] (host : Host ω m) (b : Binding ω) (p : Program)
    (h : p.isEmpty = false) :
    (p.evaluate host b).run = (fun r => r.bind newest) <$> (run host b [] p.instructions).run := by
  rw [evaluate, if_neg (Bool.eq_false_iff.1 h), ExceptT.run_bind, ← bind_pure_comp]
  refine bind_congr fun r => ?_
  cases r with
  | error e => rfl
  | ok stack => cases stack <;> rfl

/-- taking notes changes nothing -/
theorem fst_evaluateNoted [Monad m] [LawfulMonad m] (host : Host ω m) (b : Binding ω) (p : Program) :
    Prod.fst <$> p.evaluateNoted host b = (p.evaluate host b).run := by
  cases h : p.isEmpty with
  | true =>
    rw [evaluateNoted, evaluate, if_pos h, if_pos h]
    exact map_pure _ _
  | false =>
    rw [run_evaluate host b p h, ← fst_runNoted, evaluateNoted, if_neg (Bool.eq_false_iff.1 h), Functor.map_map,
      Functor.map_map]

/-- a recorded evaluation, behind what was asked before it -/
theorem evaluate_recording [Monad m] [LawfulMonad m] (host : Host ω m) (b : Binding ω) (p : Program)
    (asked : List (Asked ω)) :
    (p.evaluate host.recording b).run.run asked =
      (fun x => (x.1, asked ++ askedIn host b x.2)) <$> p.evaluateNoted host b := by
  cases h : p.isEmpty with
  | true =>
    rw [evaluateNoted, evaluate, if_pos h, if_pos h, map_pure, askedIn_nil, List.append_nil]
    rfl
  | false =>
    rw [run_evaluate host.recording b p h, StateT.run_map, run_recording, evaluateNoted,
      if_neg (Bool.eq_false_iff.1 h), Functor.map_map, Functor.map_map]

theorem evaluateRecorded_eq [Monad m] [LawfulMonad m] (host : Host ω m) (b : Binding ω) (p : Program) :
    p.evaluateRecorded host b = (fun x => (x.1, askedIn host b x.2)) <$> p.evaluateNoted host b :=
  evaluate_recording host b p []

/-- the value of a parameter: that of its name if it is a name that is bound, and the literal itself otherwise -/
theorem argument_eq (b : Binding ω) (t : Token) : b.argument t = match t with
    | .str name => (b.get? name).getD (.str name)
    | .int n => .int n
    | .bool v => .bool v := by
  cases t with
  | str name => cases hv : b.get? name <;> simp [Binding.argument, Token.str?, hv, Value.ofToken]
  | int n => rfl
  | bool v => rfl

theorem instruction_asks?_eq_some_iff (host : Host ω m) (b : Binding ω) (i : Instruction) (a : Asked ω) :
    i.asks? host b = some a ↔ ∃ name operation params o arity,
      i = .call ⟨.str name, operation :: params⟩ ∧ b.get? name = some (.object o) ∧
      (host o).arity operation.text = some arity ∧ arity.min ≤ params.length ∧ params.length ≤ arity.max ∧
      a = ⟨o, operation.text, params.map b.argument, params⟩ := by
  cases i with
  | operator op => simp [Instruction.asks?]
  | call c =>
    rw [Instruction.asks?, asks?_eq_some_iff]
    obtain ⟨receiver, rest⟩ := c
    simp [Call.tokens, and_assoc]

/-- **What is asked.** Whatever the objects do when asked, recording what they are asked changes nothing about an
evaluation, and neither does taking notes. The notes name all instructions, without an error, when the evaluation comes
to a value; when it fails, they name those up to the first that fails, with its error, and no other. What is asked is
what the instructions of the notes ask, in their order and once each: a call asks when it has two tokens or more, the
first a name that is bound to an object, which has the operation and takes that many arguments, and nothing else does.
Every argument is resolved once. When calls have outcomes, the first that fails is found without evaluating. -/
theorem asked_exactly [Monad m] [LawfulMonad m] (host : Host ω m) (b : Binding ω) (p : Program) :
    Prod.fst <$> p.evaluateRecorded host b = (p.evaluate host b).run ∧
    Prod.fst <$> p.evaluateNoted host b = (p.evaluate host b).run ∧
    SatisfiesM (fun x => IsTranscript p.instructions x.1 x.2) (p.evaluateNoted host b) ∧
    p.evaluateRecorded host b = (fun x => (x.1, askedIn host b x.2)) <$> p.evaluateNoted host b ∧
    (∀ i a, Instruction.asks? host b i = some a ↔ ∃ name operation params o arity,
      i = .call ⟨.str name, operation :: params⟩ ∧ b.get? name = some (.object o) ∧
      (host o).arity operation.text = some arity ∧ arity.min ≤ params.length ∧ params.length ≤ arity.max ∧
      a = ⟨o, operation.text, params.map b.argument, params⟩) ∧
    (∀ t, b.argument t = match t with
      | .str name => (b.get? name).getD (.str name)
      | .int n => .int n
      | .bool v => .bool v) ∧
    ∀ outcomeOf : Call → Except RuleError Bool,
      (∀ c, .call c ∈ p.instructions → c.HasOutcome host b (outcomeOf c)) →
      p.evaluateRecorded host b = (fun r =>
        (r, (carriedOut outcomeOf p.instructions).filterMap (Instruction.asks? host b))) <$> (p.evaluate host b).run := by
  have hrecord := evaluateRecorded_eq host b p
  have hnotes := fst_evaluateNoted host b p
  refine ⟨?_, hnotes, isTranscript_evaluateNoted host b p, hrecord, instruction_asks?_eq_some_iff host b,
    argument_eq b, ?_⟩
  · rw [hrecord, Functor.map_map, ← hnotes]
  · intro outcomeOf hout
    obtain ⟨r, notes, heval, hcarried⟩ := evaluateNoted_of_outcomes outcomeOf host b p hout
    rw [hrecord, ← hnotes, heval, ← hcarried, map_pure, map_pure, map_pure, List.filterMap_map]
    rfl

/-- a gate that can be opened, with the answer it gives -/
def gate (answer : ExceptT InvokeError m (Value Unit)) : Host Unit m := fun _ =>
  { arity := fun operation => if operation = "open" then some (.exact 0) else none
    invoke := fun _ _ => answer }

/-- it opens once and is out of order from then on, which is what it remembers -/
def openOnce : ExceptT InvokeError (StateM Bool) (Value Unit) :=
  ExceptT.mk fun out => (if out then .error (.failed "out of order") else .ok (.bool true), true)

/-- it never opens -/
def outOfOrder : ExceptT InvokeError Id (Value Unit) := ExceptT.mk (.error (.failed "out of order"))

def openGate : Instruction := .call ⟨.str "gate", [.str "open"]⟩

/-- the first call would do for the `or`, but the second is made all the same; it fails, and the third is not made. When
the gate never opens, the first call is the only one. -/
theorem asked_at_gate :
    (evaluateRecorded (gate openOnce) (.ofList [("gate", .object ())])
      ⟨[openGate, openGate, .operator .or, openGate, .operator .or]⟩).run false =
    ((.error (.failed "gate" "open" "out of order"), [⟨(), "open", [], []⟩, ⟨(), "open", [], []⟩]), true) ∧
    evaluateRecorded (gate outOfOrder) (.ofList [("gate", .object ())]) ⟨[openGate, openGate, .operator .or]⟩ =
    pure (.error (.failed "gate" "open" "out of order"), [⟨(), "open", [], []⟩]) := by
  constructor
  · obtain ⟨-, -, -, hrecord, -⟩ := asked_exactly (gate openOnce) (.ofList [("gate", .object ())])
      ⟨[openGate, openGate, .operator .or, openGate, .operator .or]⟩
    rw [hrecord]
    rfl
  · obtain ⟨-, -, -, -, -, -, houtcomes⟩ := asked_exactly (gate outOfOrder) (.ofList [("gate", .object ())])
      ⟨[openGate, openGate, .operator .or]⟩
    rw [houtcomes (Call.outcome (gate outOfOrder) _) fun c _ => hasOutcome_outcome _ _ c]
    rfl

end Program

end AccessRules
