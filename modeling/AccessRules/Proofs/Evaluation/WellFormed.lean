/-
Well-formed programs and their evaluation. Counting the values that stand ready recognises the listings of trees: a
program is well-formed when it has no instructions or lists one tree, and then only that one. An evaluation never lacks
an operand in such a program. In any other one it does, or it leaves values behind that nobody asks for, as long as no
call fails.

- `two_le_of_not_isWellFormed`: a program that is not well-formed leaves two values or more, if it leaves any.
- `runNoted_of_not_isWellFormed`, `evaluate_of_not_isWellFormed`: its evaluation, whatever the objects do when asked,
  and when every call has a value.
- `wellFormed_iff_one_tree`: what being well-formed says about a program and about its evaluation.
-/
import AccessRules.Proofs.Evaluation.Ending
import AccessRules.Proofs.Evaluation.Verdict

namespace AccessRules.Program

variable {ω : Type} {m : Type → Type}

open Outcome

/-! ## Well-formed programs -/

theorem operandCount_of_isWellFormed (p : Program) (hw : p.isWellFormed = true) (hne : p.instructions ≠ []) :
    p.operandCount = p.operatorCount + 1 := by
  obtain ⟨is⟩ := p
  obtain ⟨t, rfl⟩ := exists_postorder ⟨is⟩ hne hw
  exact t.count_postorder

/-- what a well-formed program fails with is never a fault of the rule -/
theorem evaluate_of_isWellFormed [Monad m] [LawfulMonad m] (host : Host ω m) (b : Binding ω) (p : Program)
    (hw : p.isWellFormed = true) : FailsOnly (fun e => e.isSyntactic = false) (p.evaluate host b) := by
  rcases (isWellFormed_iff_postorder p).1 hw with hnil | ⟨t, ht⟩
  · have hfalse : p.evaluate host b = pure false := by
      have hempty : p.isEmpty = true := by rw [isEmpty, hnil]; rfl
      rw [evaluate, hempty]
      rfl
    rw [hfalse]
    refine .settled (.ok false) fun e he => ?_
    cases he
  · rw [evaluate_of_postorder host b p t ht]
    exact t.evaluate_failsOnly host b

/-! ## Programs that are not well-formed -/

theorem ne_nil_of_not_isWellFormed (p : Program) (hw : p.isWellFormed = false) : p.instructions ≠ [] := by
  intro hnil
  rw [(isWellFormed_iff_postorder p).2 (.inl hnil)] at hw
  cases hw

theorem two_le_of_not_isWellFormed (p : Program) (hw : p.isWellFormed = false) (d : Nat)
    (hd : depth 0 p.instructions = some d) : 2 ≤ d := by
  have hne := ne_nil_of_not_isWellFormed p hw
  have hpos : 0 < d := depth_pos p.instructions d hne hd
  have hone : d ≠ 1 := by
    rintro rfl
    rw [(isWellFormed_iff_depth p hne).2 hd] at hw
    cases hw
  omega

theorem exists_cons_cons_of_two_le (stack : List Bool) (h : 2 ≤ stack.length) :
    ∃ v w rest, stack = v :: w :: rest := by
  match stack, h with
  | v :: w :: rest, _ => exact ⟨v, w, rest, rfl⟩

/-- whatever the objects do when asked: as long as no call fails, the operand is missing or two values are left -/
theorem runNoted_of_not_isWellFormed [Monad m] [LawfulMonad m] (host : Host ω m) (b : Binding ω) (p : Program)
    (hw : p.isWellFormed = false) :
    SatisfiesM (fun x => (∀ c e, (.call c, some e) ∉ x.2) →
        x.1 = .error .missingOperand ∨ ∃ v w rest, x.1 = .ok (v :: w :: rest))
      (runNoted host b [] p.instructions) := by
  refine (runNoted_leaves host b p.instructions).imp fun {x} hx hcalls => ?_
  obtain ⟨r, notes⟩ := x
  obtain ⟨hends, hleaves⟩ := hx
  cases hends with
  | value last hnone =>
    have htwo := two_le_of_not_isWellFormed p hw last.length (hleaves last rfl)
    obtain ⟨v, w, rest, rfl⟩ := exists_cons_cons_of_two_le last htwo
    exact .inr ⟨v, w, rest, rfl⟩
  | starved done op rest his hfirst => exact .inl rfl
  | failed done c rest e his hbefore he => exact absurd (by simp) (hcalls c e)

theorem firstFailing?_of_values (valueOf : Call → Bool) (is : List Instruction) :
    firstFailing? (fun c => .ok (valueOf c)) is = none := by
  refine List.find?_eq_none.2 fun k _ => ?_
  unfold failsAt
  split
  · simp [Except.isOk, Except.toBool]
  · simp

/-- when every call has a value, the values of the trees are left -/
theorem run_listing_of_values [Monad m] [LawfulMonad m] (host : Host ω m) (b : Binding ω) (valueOf : Call → Bool)
    (ts : List Tree) (hvalue : ∀ c ∈ ts.flatMap Tree.calls, c.HasOutcome host b (.ok (valueOf c))) :
    run host b [] (Tree.listing ts) = pure (ts.map (Tree.value valueOf)).reverse := by
  have hno : firstError? (fun c => .ok (valueOf c)) (ts.flatMap Tree.calls) = none :=
    List.findSome?_eq_none_iff.2 fun c _ => rfl
  rw [run_listing, Tree.mapM_evaluate_of_outcomes host b _ ts hvalue, hno]
  simp [conclude, value]

theorem evaluate_of_not_isWellFormed [Monad m] [LawfulMonad m] (host : Host ω m) (b : Binding ω) (p : Program)
    (hw : p.isWellFormed = false) (valueOf : Call → Bool)
    (hvalue : ∀ c, .call c ∈ p.instructions → c.HasOutcome host b (.ok (valueOf c))) :
    p.evaluate host b = throw .missingOperand ∨
      ∃ v w rest, run host b [] p.instructions = pure (v :: w :: rest) ∧ p.evaluate host b = pure v := by
  cases hs : firstStarved? p.instructions with
  | some i =>
    refine .inl (evaluate_of_starved_first host b p _ hvalue i hs fun j hj => ?_)
    rw [firstFailing?_of_values] at hj
    cases hj
  | none =>
    obtain ⟨d, hd⟩ := depth_of_no_starved p.instructions hs
    obtain ⟨ts, hts, rfl⟩ := Tree.exists_listing p.instructions d hd
    have hrun := run_listing_of_values host b valueOf ts fun c hc =>
      hvalue c ((mem_calls_iff _ c).1 (by rwa [← hts, calls_listing]))
    have htwo : 2 ≤ (ts.map (Tree.value valueOf)).reverse.length := by
      rw [List.length_reverse, List.length_map]
      exact two_le_of_not_isWellFormed p hw ts.length hd
    obtain ⟨v, w, rest, hstack⟩ := exists_cons_cons_of_two_le _ htwo
    rw [hts, hstack] at hrun
    refine .inr ⟨v, w, rest, hrun, ?_⟩
    rw [evaluate_eq_run host b p (ne_nil_of_not_isWellFormed p hw), hrun, pure_bind]

/-! ## What being well-formed says -/

/-- **One tree.** A program is well-formed exactly when it has no instructions or is the listing of a tree, of which
there is only one; it then has no calls and operators, or one call more than operators, and its evaluation never lacks
an operand. The evaluation of any other program takes the newest of the values that its instructions leave; in a run in
which no call fails, the operand is missing, or at least two values are left. So when every call has a value, the
operand is missing, or the newest of two or more values is the decision. -/
theorem wellFormed_iff_one_tree [Monad m] [LawfulMonad m] (host : Host ω m) (b : Binding ω) (p : Program) :
    (p.isWellFormed = true ↔ p.instructions = [] ∨ ∃ t : Tree, p.instructions = t.postorder) ∧
    (∀ t u : Tree, p.instructions = t.postorder → p.instructions = u.postorder → t = u) ∧
    (p.instructions = [] → p.operandCount = 0 ∧ p.operatorCount = 0) ∧
    (p.isWellFormed = true → p.instructions ≠ [] → p.operandCount = p.operatorCount + 1) ∧
    (p.isWellFormed = true → FailsOnly (· ≠ .missingOperand) (p.evaluate host b)) ∧
    (p.isWellFormed = false →
      (p.evaluate host b).run = (fun x => x.1.bind newest) <$> runNoted host b [] p.instructions ∧
      SatisfiesM (fun x => (∀ c e, (.call c, some e) ∉ x.2) →
          x.1 = .error .missingOperand ∨ ∃ v w rest, x.1 = .ok (v :: w :: rest))
        (runNoted host b [] p.instructions) ∧
      ∀ valueOf : Call → Bool, (∀ c, .call c ∈ p.instructions → c.HasOutcome host b (.ok (valueOf c))) →
        p.evaluate host b = throw .missingOperand ∨
        ∃ v w rest, run host b [] p.instructions = pure (v :: w :: rest) ∧ p.evaluate host b = pure v) := by
  refine ⟨isWellFormed_iff_postorder p, ?_, ?_, operandCount_of_isWellFormed p, ?_, ?_⟩
  · intro t u ht hu
    exact Tree.postorder_injective t u (ht.symm.trans hu)
  · intro hnil
    obtain ⟨is⟩ := p
    obtain rfl : is = [] := hnil
    exact ⟨rfl, rfl⟩
  · intro hw
    refine (evaluate_of_isWellFormed host b p hw).imp _ fun e he => ?_
    rintro rfl
    cases he
  · intro hw
    refine ⟨?_, runNoted_of_not_isWellFormed host b p hw, evaluate_of_not_isWellFormed host b p hw⟩
    have hempty : p.isEmpty = false := by simpa [isEmpty] using ne_nil_of_not_isWellFormed p hw
    rw [← fst_evaluateNoted, evaluateNoted, hempty, if_neg Bool.false_ne_true, Functor.map_map]

/-- ann and bob with an operator behind them are one tree; without it two values are left, and with an operator behind
ann alone an operand is missing -/
theorem wellFormed_iff_one_tree_at_door :
    isWellFormed ⟨[.call admitsAnn, .call admitsBob, .operator .or]⟩ = true ∧
    FailsOnly (· ≠ .missingOperand)
      (evaluate FactFile.host door ⟨[.call admitsAnn, .call admitsBob, .operator .or]⟩) ∧
    (run FactFile.host door [] [.call admitsBob, .call admitsAnn] = pure [true, false] ∧
      ∃ v w rest, run FactFile.host door [] [.call admitsBob, .call admitsAnn] = pure (v :: w :: rest) ∧
        evaluate FactFile.host door ⟨[.call admitsBob, .call admitsAnn]⟩ = pure v) ∧
    evaluate FactFile.host door ⟨[.call admitsAnn, .operator .and]⟩ = throw .missingOperand := by
  obtain ⟨htree, -, -, -, hfails, -⟩ :=
    wellFormed_iff_one_tree FactFile.host door ⟨[.call admitsAnn, .call admitsBob, .operator .or]⟩
  have hor : isWellFormed ⟨[.call admitsAnn, .call admitsBob, .operator .or]⟩ = true :=
    htree.2 (.inr ⟨.node .or (.call admitsAnn) (.call admitsBob), rfl⟩)
  have hvalue : ∀ c, c = admitsAnn ∨ c = admitsBob →
      c.HasOutcome FactFile.host door (.ok (decide (c = admitsAnn))) := by
    rintro c (rfl | rfl) <;> rfl
  obtain ⟨-, -, -, -, -, htwo⟩ := wellFormed_iff_one_tree FactFile.host door ⟨[.call admitsBob, .call admitsAnn]⟩
  obtain ⟨-, -, -, -, -, hand⟩ := wellFormed_iff_one_tree FactFile.host door ⟨[.call admitsAnn, .operator .and]⟩
  have hleft : run FactFile.host door [] [.call admitsBob, .call admitsAnn] = pure [true, false] := rfl
  refine ⟨hor, hfails hor, ⟨hleft, ?_⟩, ?_⟩
  · have hends := (htwo rfl).2.2 _ fun c hc => hvalue c (by simpa [or_comm] using hc)
    refine hends.resolve_left fun hmissing => ?_
    have htrue : evaluate FactFile.host door ⟨[.call admitsBob, .call admitsAnn]⟩ = pure true := rfl
    rw [htrue] at hmissing
    cases hmissing
  · have hends := (hand rfl).2.2 _ fun c hc => hvalue c (.inl (by simpa using hc))
    refine hends.resolve_right ?_
    rintro ⟨v, w, rest, hrun, -⟩
    have hmissing : run FactFile.host door [] [.call admitsAnn, .operator .and] = throw .missingOperand := rfl
    rw [hmissing] at hrun
    cases hrun

end AccessRules.Program
