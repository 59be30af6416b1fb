/-
How an evaluation can end, and what of it is told by the instructions alone. As many values stand ready as there were
more calls than operators, whatever the binding and whatever the objects did when asked; so an operator starves in every
evaluation that gets to it or in none. An evaluation comes to a value when no operator starves and no call fails; it
lacks an operand when it gets to the first operator that starves; and it fails for another cause when a call before that
operator fails, which is never a fault of the rule.

- `step_ends`: one instruction, behind others in which no operator starves.
- `runNoted_ends`, `runNoted_leaves`: instructions one after another, and how many values they leave.
- `evaluateNoted_ends`: how the evaluation of a program ends, with the notes of what was carried out.
- `EndsAs.firstStarved?_of_syntactic`, `EndsAs.not_syntactic`, `EndsAs.of_starved`: what an end says about operators
  that starve, and which ends are left when one starves and when none does.
-/
import AccessRules.Proofs.Evaluation.Asking

namespace AccessRules.Program

variable {ω α β : Type} {m : Type → Type}

/-- the evaluation of the instructions can end with the result, and with these notes of what was carried out -/
inductive EndsAs (is : List Instruction) : Except RuleError α → List Note → Prop where
  /-- no operator starves, and no call fails -/
  | value (v : α) (h : firstStarved? is = none) : EndsAs is (.ok v) (is.map (·, none))
  /-- the first operator that starves -/
  | starved (done : List Instruction) (op : Operator) (rest : List Instruction)
    (his : is = done ++ .operator op :: rest) (h : firstStarved? is = some done.length) :
    EndsAs is (.error .missingOperand) (done.map (·, none) ++ [(.operator op, some .missingOperand)])
  /-- a call that fails before it -/
  | failed (done : List Instruction) (c : Call) (rest : List Instruction) (e : RuleError)
    (his : is = done ++ .call c :: rest) (hbefore : ∀ i, firstStarved? is = some i → done.length < i)
    (he : e.isSyntactic = false) : EndsAs is (.error e) (done.map (·, none) ++ [(.call c, some e)])

namespace EndsAs

/-- what becomes of the value makes no difference -/
theorem bind {is : List Instruction} {r : Except RuleError α} {notes : List Note} (h : EndsAs is r notes)
    (f : α → Except RuleError β) (hf : ∀ a, r = .ok a → ∃ v, f a = .ok v) : EndsAs is (r.bind f) notes := by
  cases h with
  | value a hnone =>
    obtain ⟨v, hv⟩ := hf a rfl
    have hbind : (Except.ok a : Except RuleError α).bind f = .ok v := hv
    rw [hbind]
    exact .value v hnone
  | starved done op rest his hfirst => exact .starved done op rest his hfirst
  | failed done c rest e his hbefore he => exact .failed done c rest e his hbefore he

theorem firstStarved?_of_ok {is : List Instruction} {v : α} {notes : List Note}
    (h : EndsAs is (.ok v : Except RuleError α) notes) : firstStarved? is = none := by
  cases h with
  | value _ hnone => exact hnone

theorem firstStarved?_of_syntactic {is : List Instruction} {e : RuleError} {notes : List Note}
    (h : EndsAs is (.error e : Except RuleError α) notes) (he : e.isSyntactic = true) :
    e = .missingOperand ∧ ∃ i, firstStarved? is = some i := by
  cases h with
  | starved done op rest his hfirst => exact ⟨rfl, done.length, hfirst⟩
  | failed done c rest _ his hbefore hnot =>
    rw [he] at hnot
    cases hnot

/-- without an operator that starves, no end is a fault of the rule -/
theorem not_syntactic {is : List Instruction} {r : Except RuleError α} {notes : List Note} (h : EndsAs is r notes)
    (hnone : firstStarved? is = none) (e : RuleError) (hr : r = .error e) : e.isSyntactic = false := by
  subst hr
  by_contra hsyntactic
  obtain ⟨-, i, hi⟩ := h.firstStarved?_of_syntactic (Bool.not_eq_false _ ▸ hsyntactic)
  rw [hnone] at hi
  cases hi

/-- with one, the operand is missing or a call before it fails -/
theorem of_starved {is : List Instruction} {r : Except RuleError α} {notes : List Note} (h : EndsAs is r notes)
    (i : Nat) (hi : firstStarved? is = some i) :
    r = .error .missingOperand ∨ ∃ done c rest e, is = done ++ .call c :: rest ∧ done.length < i ∧
      e.isSyntactic = false ∧ r = .error e ∧ notes = done.map (·, none) ++ [(.call c, some e)] := by
  cases h with
  | value v hnone =>
    rw [hnone] at hi
    cases hi
  | starved done op rest his hfirst => exact .inl rfl
  | failed done c rest e his hbefore he => exact .inr ⟨done, c, rest, e, his, hbefore i hi, he, rfl, rfl⟩

end EndsAs

/-! ## One instruction -/

/-- which errors there can be, told of the result -/
theorem failsOnly_iff [Monad m] {Q : RuleError → Prop} (x : ExceptT RuleError m α) :
    FailsOnly Q x ↔ SatisfiesM (fun r => ∀ e, r = .error e → Q e) x.run :=
  exists_congr fun _ => eq_comm

/-- **One instruction**, behind others that leave as many values as they have more calls than operators: the same is
true behind it if it succeeds, and it is an operator that starves or a call with a fault of its own if it fails. -/
theorem step_ends [Monad m] [LawfulMonad m] (host : Host ω m) (b : Binding ω) (stack : List Bool)
    (before : List Instruction) (i : Instruction) (hstack : (stack.length : Int) = surplus before) :
    SatisfiesM (fun r =>
      (∀ next, r = .ok next → (next.length : Int) = surplus (before ++ [i]) ∧
        ∀ rest, starvesAt (before ++ i :: rest) before.length = false) ∧
      ∀ e, r = .error e →
        (∃ op, i = .operator op ∧ e = .missingOperand ∧
          ∀ rest, starvesAt (before ++ i :: rest) before.length = true) ∨
        ∃ c, i = .call c ∧ e.isSyntactic = false)
      (step host b stack i).run := by
  cases i with
  | operator op =>
    rw [step_operator]
    refine SatisfiesM.pure ⟨fun next hnext => ?_, fun e he => ?_⟩
    · obtain ⟨right, left, others, rfl, rfl⟩ := (combine_eq_ok_iff op stack next).1 hnext
      simp only [List.length_cons] at hstack
      refine ⟨?_, fun rest => ?_⟩
      · rw [surplus_append, surplus_operator, ← hstack, List.length_cons]
        omega
      · rw [starvesAt_operator]
        exact decide_eq_false (by omega)
    · obtain ⟨rfl, hlen⟩ := (combine_eq_error_iff op stack e).1 he
      refine .inl ⟨op, rfl, rfl, fun rest => ?_⟩
      rw [starvesAt_operator]
      exact decide_eq_true (by omega)
  | call c =>
    rw [step, ExceptT.run_bind]
    refine ((failsOnly_iff _).1 (c.evaluate_failsOnly host b)).bind fun r hr => ?_
    rcases r with e | v
    · refine SatisfiesM.pure ⟨fun next hnext => ?_, fun e' he' => .inr ⟨c, rfl, hr e' ?_⟩⟩
      · cases hnext
      · rw [Except.error.inj he']
    · refine SatisfiesM.pure ⟨fun next hnext => ?_, fun e he => ?_⟩
      · obtain rfl : v :: stack = next := Except.ok.inj hnext
        refine ⟨?_, fun rest => starvesAt_call before rest c⟩
        rw [surplus_append, surplus_call, ← hstack, List.length_cons]
        omega
      · cases he

/-! ## A run, and an evaluation -/

/-- **Instructions one after another**, behind others in which no operator starves, which stand in the notes already. -/
theorem runNoted_ends [Monad m] [LawfulMonad m] (host : Host ω m) (b : Binding ω) (stack : List Bool)
    (before is : List Instruction) (hstack : (stack.length : Int) = surplus before)
    (hbefore : firstStarved? before = none) :
    SatisfiesM (fun x => EndsAs (before ++ is) x.1 (before.map (·, none) ++ x.2) ∧
        ∀ last, x.1 = .ok last → (last.length : Int) = surplus (before ++ is))
      (runNoted host b stack is) := by
  induction is generalizing stack before with
  | nil =>
    rw [List.append_nil]
    refine SatisfiesM.pure ⟨?_, fun last hlast => ?_⟩
    · rw [List.append_nil]
      exact .value stack hbefore
    · rw [← Except.ok.inj hlast]
      exact hstack
  | cons i rest ih =>
    refine (step_ends host b stack before i hstack).bind fun r hr => ?_
    rcases r with e | next
    · refine SatisfiesM.pure ⟨?_, nofun⟩
      rcases hr.2 e rfl with ⟨op, rfl, rfl, hstarves⟩ | ⟨c, rfl, he⟩
      · have hfirst := first_of_holds starvesAt starvesAt_append before (.operator op) rest hbefore (hstarves rest)
        exact .starved before op rest rfl hfirst
      · refine .failed before c rest e rfl (fun k hk => ?_) he
        -- no operator starves among those before, and the call is no operator
        have hle := length_le_of_first starvesAt starvesAt_append before (.call c :: rest) hbefore k hk
        have hne : k ≠ before.length := by
          rintro rfl
          obtain ⟨hholds, -, -⟩ := List.find?_range_eq_some.1 hk
          rw [starvesAt_call] at hholds
          cases hholds
        omega
    · obtain ⟨hlen, hstarves⟩ := hr.1 next rfl
      have hnone := first_concat starvesAt starvesAt_append before i hbefore (hstarves [])
      refine (ih next (before ++ [i]) hlen hnone).bind fun x hx => SatisfiesM.pure ?_
      simpa using hx

/-- **All instructions of a program.** When they come to values, these are as many as stand ready behind them. -/
theorem runNoted_leaves [Monad m] [LawfulMonad m] (host : Host ω m) (b : Binding ω) (is : List Instruction) :
    SatisfiesM (fun x => EndsAs is x.1 x.2 ∧ ∀ last, x.1 = .ok last → depth 0 is = some last.length)
      (runNoted host b [] is) := by
  refine (runNoted_ends host b [] [] is rfl rfl).imp fun {x} hx => ⟨hx.1, fun last hlast => ?_⟩
  have hnone : firstStarved? is = none := (hlast ▸ hx.1).firstStarved?_of_ok
  obtain ⟨d, hd⟩ := depth_of_no_starved is hnone
  have hsurplus := surplus_of_depth 0 is d hd
  have hlen : (last.length : Int) = surplus is := hx.2 last hlast
  obtain rfl : d = last.length := by omega
  exact hd

theorem evaluateNoted_ends [Monad m] [LawfulMonad m] (host : Host ω m) (b : Binding ω) (p : Program) :
    SatisfiesM (fun x => EndsAs p.instructions x.1 x.2) (p.evaluateNoted host b) := by
  unfold evaluateNoted
  split_ifs with hempty
  · rw [isEmpty, List.isEmpty_iff] at hempty
    rw [hempty]
    exact SatisfiesM.pure (.value false rfl)
  · have hne : p.instructions ≠ [] := by simpa [isEmpty] using hempty
    refine (runNoted_leaves host b p.instructions).map fun {x} hx => hx.1.bind newest fun last hlast => ?_
    have hpos := depth_pos p.instructions last.length hne (hx.2 last hlast)
    obtain ⟨v, rest, rfl⟩ := List.exists_cons_of_length_pos hpos
    exact ⟨v, rfl⟩

end AccessRules.Program
