/-
What the evaluation of any program comes to, sensible or not. An operator that starves can be told without a binding,
and the evaluation never gets past it; the calls before it are made all the same, and the first of them that fails
decides instead. When no operator starves, the program is the listing of trees one after another, and the last of
them has the value of the program.

- `evaluate_of_starved`: with an operator that starves, the calls before it are made and then the operand is missing.
- `evaluate_of_listing`: a listing of trees decides all of them, and the value of the last one counts.
- `evaluate_of_postorder`: the listing of one tree decides that tree.
- `firstError?_after_failing`, `firstError?_before_failing`: the first error among calls, by positions of instructions.
- `evaluate_of_failing_first`, `evaluate_of_starved_first`, `evaluate_of_no_stop`: the three ways to end.
- `evaluate_decided_by_position`: the two kinds of failure by their positions, and the value when there is none.
-/
import AccessRules.FactFile
import AccessRules.Proofs.Evaluation.Trees

namespace AccessRules

variable {ω : Type} {m : Type → Type}

open Outcome

namespace Program

/-- instructions before one of them, that one, and those behind it -/
theorem split_at (is : List Instruction) (k : Nat) (i : Instruction) (h : is[k]? = some i) :
    is = is.take k ++ i :: is.drop (k + 1) := by
  obtain ⟨hk, hget⟩ := List.getElem?_eq_some_iff.1 h
  rw [← hget, ← List.drop_eq_getElem_cons hk, List.take_append_drop]

/-! ## An operator that starves -/

/-- fewer than two trees leave no two values for an operator -/
theorem run_starved [Monad m] [LawfulMonad m] (host : Host ω m) (b : Binding ω) (ts : List Tree) (op : Operator)
    (rest : List Instruction) (h : ts.length < 2) :
    run host b [] (Tree.listing ts ++ .operator op :: rest) = (do
      let _ ← ts.mapM (Tree.evaluate host b)
      throw .missingOperand) := by
  rw [run_append, run_listing, bind_assoc]
  match ts, h with
  | [], _ => simp [run, step]
  | [t], _ => simp [run, step]

theorem evaluate_eq_run [Monad m] (host : Host ω m) (b : Binding ω) (p : Program) (h : p.instructions ≠ []) :
    p.evaluate host b = (do
      let stack ← run host b [] p.instructions
      match stack with
      | v :: _ => pure v
      | [] => throw .missingOperand) := by
  have hne : p.isEmpty = false := by simpa [isEmpty] using h
  rw [evaluate, hne]
  rfl

theorem evaluate_of_starved [Monad m] [LawfulMonad m] (host : Host ω m) (b : Binding ω) (p : Program) (i : Nat)
    (h : firstStarved? p.instructions = some i) :
    p.evaluate host b = (do
      let _ ← (calls (p.instructions.take i)).mapM (Call.evaluate host b)
      throw .missingOperand) := by
  obtain ⟨op, d, hop, hd, hlt⟩ := depth_before_starved p.instructions i h
  obtain ⟨ts, hts, hlen⟩ := Tree.exists_listing (p.instructions.take i) d hd
  have hsplit : p.instructions = Tree.listing ts ++ .operator op :: p.instructions.drop (i + 1) := by
    rw [hts]
    exact split_at _ i _ hop
  have hne : p.instructions ≠ [] := by
    rw [hsplit]
    exact List.append_ne_nil_of_right_ne_nil _ (List.cons_ne_nil _ _)
  have hshort : ts.length < 2 := hlen ▸ hlt
  calc p.evaluate host b
      = (do
          let _ ← ts.mapM (Tree.evaluate host b)
          throw .missingOperand) := by
        rw [evaluate_eq_run host b p hne, hsplit, run_starved host b ts op _ hshort, bind_assoc]
        exact bind_congr fun vs => ExceptT.bind_throw _
    _ = (do
          let _ ← (ts.flatMap Tree.calls).mapM (Call.evaluate host b)
          throw .missingOperand) := Tree.mapM_evaluate_discarded host b ts _
    _ = (do
          let _ ← (calls (p.instructions.take i)).mapM (Call.evaluate host b)
          throw .missingOperand) := by rw [← hts, calls_listing]

/-! ## No operator that starves -/

theorem evaluate_of_listing [Monad m] [LawfulMonad m] (host : Host ω m) (b : Binding ω) (p : Program) (ts : List Tree)
    (h : p.instructions = Tree.listing ts) :
    p.evaluate host b = (do
      let vs ← ts.mapM (Tree.evaluate host b)
      pure (vs.getLast?.getD false)) := by
  rcases ts.eq_nil_or_concat' with rfl | ⟨us, t, rfl⟩
  · have hempty : p.isEmpty = true := by
      rw [isEmpty, h]
      rfl
    rw [evaluate, hempty]
    simp
  · have hne : p.instructions ≠ [] := by
      rw [h, Tree.listing_append, Tree.listing_singleton]
      exact List.append_ne_nil_of_right_ne_nil _ (Tree.postorder_ne_nil t)
    rw [evaluate_eq_run host b p hne, h, run_listing]
    simp [List.mapM_append]

theorem evaluate_of_postorder [Monad m] [LawfulMonad m] (host : Host ω m) (b : Binding ω) (p : Program) (t : Tree)
    (h : p.instructions = t.postorder) : p.evaluate host b = t.evaluate host b := by
  rw [evaluate_of_listing host b p [t] (by rw [h, Tree.listing_singleton])]
  simp

theorem exists_listing_of_no_starved (is : List Instruction) (h : firstStarved? is = none) :
    ∃ ts, is = Tree.listing ts ∧ ∀ us, is = Tree.listing us → us = ts := by
  obtain ⟨d, hd⟩ := depth_of_no_starved is h
  obtain ⟨ts, hts, -⟩ := Tree.exists_listing is d hd
  exact ⟨ts, hts.symm, fun us hus => Tree.listing_injective us ts (hus.symm.trans hts.symm)⟩

/-! ## The first error, by position -/

/-- no call fails before `k`, so there is no error among the calls before `k` -/
theorem firstError?_before (outcomeOf : Call → Except RuleError Bool) (is : List Instruction) (k : Nat)
    (h : ∀ n < k, failsAt outcomeOf is n = false) : firstError? outcomeOf (calls (is.take k)) = none := by
  apply List.findSome?_eq_none_iff.2
  intro c hc
  obtain ⟨n, hn⟩ := List.mem_iff_getElem?.1 ((mem_calls_iff _ c).1 hc)
  rw [List.getElem?_take] at hn
  split_ifs at hn with hlt
  have hf := h n hlt
  simp only [failsAt, hn] at hf
  cases ho : outcomeOf c with
  | ok v => rfl
  | error e =>
    rw [ho] at hf
    cases hf

theorem firstError?_before_failing (outcomeOf : Call → Except RuleError Bool) (is : List Instruction) (k : Nat)
    (h : ∀ j, firstFailing? outcomeOf is = some j → k ≤ j) :
    firstError? outcomeOf (calls (is.take k)) = none := by
  apply firstError?_before
  intro n hn
  cases hf : firstFailing? outcomeOf is with
  | none =>
    have hnone := List.find?_range_eq_none.1 hf
    by_cases hlen : n < is.length
    · simpa using hnone n hlen
    · simp [failsAt, List.getElem?_eq_none (Nat.le_of_not_lt hlen)]
  | some j =>
    obtain ⟨-, -, hbefore⟩ := List.find?_range_eq_some.1 hf
    have hj := h j hf
    simpa using hbefore n (by omega)

/-- the first call that fails is the first error of every beginning that it lies in -/
theorem firstError?_after_failing (outcomeOf : Call → Except RuleError Bool) (is : List Instruction) (j : Nat)
    (h : firstFailing? outcomeOf is = some j) :
    ∃ c e, is[j]? = some (.call c) ∧ outcomeOf c = .error e ∧
      ∀ k, j < k → firstError? outcomeOf (calls (is.take k)) = some e := by
  obtain ⟨hfails, -, -⟩ := List.find?_range_eq_some.1 h
  unfold failsAt at hfails
  split at hfails
  · rename_i c hc
    cases ho : outcomeOf c with
    | ok v =>
      rw [ho] at hfails
      cases hfails
    | error e =>
      refine ⟨c, e, hc, ho, fun k hk => ?_⟩
      -- the calls up to `k` are those before `j`, the one at `j`, and others
      have hsplit := split_at (is.take k) j (.call c) (by rw [List.getElem?_take_of_lt hk, hc])
      rw [List.take_take, Nat.min_eq_left (Nat.le_of_lt hk)] at hsplit
      have hnone : firstError? outcomeOf (calls (is.take j)) = none := by
        apply firstError?_before_failing
        intro j' hj'
        rw [h] at hj'
        exact (Option.some.inj hj').le
      have hcall : calls (.call c :: (is.take k).drop (j + 1)) = c :: calls ((is.take k).drop (j + 1)) := rfl
      rw [hsplit, calls_append, firstError?_append, hnone, hcall, firstError?, List.findSome?_cons, ho]
      rfl
  · cases hfails

theorem lt_length_of_firstFailing (outcomeOf : Call → Except RuleError Bool) (is : List Instruction) (j : Nat)
    (h : firstFailing? outcomeOf is = some j) : j < is.length := by
  obtain ⟨-, hmem, -⟩ := List.find?_range_eq_some.1 h
  exact List.mem_range.1 hmem

end Program

/-! ## The verdict -/

/-- calls alone, when they have outcomes -/
theorem mapM_evaluate_calls_of_outcomes [Monad m] [LawfulMonad m] (host : Host ω m) (b : Binding ω)
    (outcomeOf : Call → Except RuleError Bool) (cs : List Call) (h : ∀ c ∈ cs, c.HasOutcome host b (outcomeOf c)) :
    cs.mapM (Call.evaluate host b) = conclude (firstError? outcomeOf cs) (cs.map fun c => value (outcomeOf c)) :=
  mapM_conclude _ _ _ cs fun c hc => c.evaluate_of_outcome host b (outcomeOf c) (h c hc)

namespace Program

section Outcomes

variable [Monad m] [LawfulMonad m] (host : Host ω m) (b : Binding ω) (p : Program)
  (outcomeOf : Call → Except RuleError Bool)
  (hout : ∀ c, .call c ∈ p.instructions → c.HasOutcome host b (outcomeOf c))

include hout

/-- what an operator that starves and calls with outcomes come to -/
theorem evaluate_of_starved_of_outcomes (i : Nat) (hi : firstStarved? p.instructions = some i) :
    p.evaluate host b = throw ((firstError? outcomeOf (calls (p.instructions.take i))).getD .missingOperand) := by
  have hcalls : ∀ c ∈ calls (p.instructions.take i), c.HasOutcome host b (outcomeOf c) := fun c hc =>
    hout c (List.mem_of_mem_take ((mem_calls_iff _ c).1 hc))
  rw [evaluate_of_starved host b p i hi, mapM_evaluate_calls_of_outcomes host b outcomeOf _ hcalls]
  cases firstError? outcomeOf (calls (p.instructions.take i)) <;> simp [conclude]

/-- what a listing of trees and calls with outcomes come to -/
theorem evaluate_of_listing_of_outcomes (ts : List Tree) (hts : p.instructions = Tree.listing ts) :
    p.evaluate host b = conclude (firstError? outcomeOf (calls p.instructions))
      ((ts.getLast?.map (Tree.value fun c => Outcome.value (outcomeOf c))).getD false) := by
  have hcalls : ∀ c ∈ ts.flatMap Tree.calls, c.HasOutcome host b (outcomeOf c) := fun c hc =>
    hout c ((mem_calls_iff _ c).1 (by rwa [hts, calls_listing]))
  rw [evaluate_of_listing host b p ts hts, Tree.mapM_evaluate_of_outcomes host b outcomeOf ts hcalls, hts,
    calls_listing]
  cases firstError? outcomeOf (ts.flatMap Tree.calls) <;> simp [conclude]

/-- the first call that fails decides when no operator starves before it -/
theorem evaluate_of_failing_first (j : Nat) (hj : firstFailing? outcomeOf p.instructions = some j)
    (hbefore : ∀ i, firstStarved? p.instructions = some i → j < i) :
    ∃ c e, p.instructions[j]? = some (.call c) ∧ outcomeOf c = .error e ∧ p.evaluate host b = throw e := by
  obtain ⟨c, e, hc, he, hfirst⟩ := firstError?_after_failing outcomeOf p.instructions j hj
  refine ⟨c, e, hc, he, ?_⟩
  cases hs : firstStarved? p.instructions with
  | some i =>
    have hlt := hbefore i hs
    rw [evaluate_of_starved_of_outcomes host b p outcomeOf hout i hs, hfirst i hlt]
    rfl
  | none =>
    obtain ⟨ts, hts, -⟩ := exists_listing_of_no_starved p.instructions hs
    have hlt := lt_length_of_firstFailing outcomeOf p.instructions j hj
    have hall := hfirst p.instructions.length hlt
    rw [List.take_length] at hall
    rw [evaluate_of_listing_of_outcomes host b p outcomeOf hout ts hts, hall]
    rfl

/-- the first operator that starves decides when no call fails before it -/
theorem evaluate_of_starved_first (i : Nat) (hi : firstStarved? p.instructions = some i)
    (hbefore : ∀ j, firstFailing? outcomeOf p.instructions = some j → i < j) :
    p.evaluate host b = throw .missingOperand := by
  have hno : firstError? outcomeOf (calls (p.instructions.take i)) = none := by
    apply firstError?_before_failing
    intro j hj
    exact Nat.le_of_lt (hbefore j hj)
  rw [evaluate_of_starved_of_outcomes host b p outcomeOf hout i hi, hno]
  rfl

/-- without either, the last tree has the value of the program -/
theorem evaluate_of_no_stop (ts : List Tree) (hts : p.instructions = Tree.listing ts)
    (hok : firstFailing? outcomeOf p.instructions = none) :
    p.evaluate host b = pure ((ts.getLast?.map (Tree.value fun c => Outcome.value (outcomeOf c))).getD false) := by
  have hno : firstError? outcomeOf (calls (p.instructions.take p.instructions.length)) = none := by
    apply firstError?_before_failing
    intro j hj
    rw [hok] at hj
    cases hj
  rw [List.take_length] at hno
  rw [evaluate_of_listing_of_outcomes host b p outcomeOf hout ts hts, hno]
  rfl

end Outcomes

/-- **Decided by position.** Whatever the objects do when asked, the evaluation makes the calls before the first
operator that starves and then lacks an operand; when none starves, the program is the listing of trees in one way
only, all are decided in order, and the value of the last one counts. When every call has an outcome, the first call
that fails decides if no operator starves before it, the first operator that starves decides if no call fails before
it, and when there is neither, the program has the value of its last tree, and is false without any. -/
theorem evaluate_decided_by_position [Monad m] [LawfulMonad m] (host : Host ω m) (b : Binding ω) (p : Program) :
    (∀ i, firstStarved? p.instructions = some i → p.evaluate host b = (do
      let _ ← (calls (p.instructions.take i)).mapM (Call.evaluate host b)
      throw .missingOperand)) ∧
    (firstStarved? p.instructions = none →
      ∃ ts, p.instructions = Tree.listing ts ∧ (∀ us, p.instructions = Tree.listing us → us = ts) ∧
        (ts = [] ↔ p.instructions = []) ∧ p.evaluate host b = (do
          let vs ← ts.mapM (Tree.evaluate host b)
          pure (vs.getLast?.getD false))) ∧
    ∀ outcomeOf : Call → Except RuleError Bool,
      (∀ c, .call c ∈ p.instructions → c.HasOutcome host b (outcomeOf c)) →
      (∀ j, firstFailing? outcomeOf p.instructions = some j →
        (∀ i, firstStarved? p.instructions = some i → j < i) →
        ∃ c e, p.instructions[j]? = some (.call c) ∧ outcomeOf c = .error e ∧ p.evaluate host b = throw e) ∧
      (∀ i, firstStarved? p.instructions = some i →
        (∀ j, firstFailing? outcomeOf p.instructions = some j → i < j) →
        p.evaluate host b = throw .missingOperand) ∧
      (firstStarved? p.instructions = none → firstFailing? outcomeOf p.instructions = none →
        (p.instructions = [] → p.evaluate host b = pure false) ∧
        (p.instructions ≠ [] → ∃ ts t, p.instructions = Tree.listing (ts ++ [t]) ∧
          (∀ us, p.instructions = Tree.listing us → us = ts ++ [t]) ∧
          p.evaluate host b = pure (t.value fun c => Outcome.value (outcomeOf c)))) := by
  refine ⟨evaluate_of_starved host b p, ?_, ?_⟩
  · intro hnone
    obtain ⟨ts, hts, huniq⟩ := exists_listing_of_no_starved p.instructions hnone
    refine ⟨ts, hts, huniq, ?_, evaluate_of_listing host b p ts hts⟩
    constructor
    · intro he
      rw [hts, he]
      rfl
    · intro he
      exact (huniq [] he).symm
  · intro outcomeOf hout
    refine ⟨evaluate_of_failing_first host b p outcomeOf hout, evaluate_of_starved_first host b p outcomeOf hout, ?_⟩
    intro hnone hok
    obtain ⟨ts, hts, huniq⟩ := exists_listing_of_no_starved p.instructions hnone
    have heval := evaluate_of_no_stop host b p outcomeOf hout ts hts hok
    constructor
    · intro he
      rw [heval, ← huniq [] he]
      rfl
    · intro hne
      rcases ts.eq_nil_or_concat' with rfl | ⟨us, t, rfl⟩
      · exact absurd hts hne
      · rw [List.getLast?_concat] at heval
        exact ⟨us, t, hts, huniq, heval⟩

/-- a door that admits ann alone -/
def door : Binding FactTable := .ofList [("door", .object ((FactTable.new "door").addFact "admits" [.str "ann"]))]

def admitsAnn : Call := ⟨.str "door", [.str "admits", .str "ann"]⟩

def admitsBob : Call := ⟨.str "door", [.str "admits", .str "bob"]⟩

def gateOpen : Call := ⟨.str "gate", []⟩

/-- an operator that starves before the unknown gate is asked for, an unknown gate before the operator starves, and two
calls without an operator, of which the second counts -/
theorem evaluate_at_door :
    evaluate FactFile.host door ⟨[.call admitsAnn, .operator .and, .call gateOpen]⟩ = throw .missingOperand ∧
    evaluate FactFile.host door ⟨[.call gateOpen, .operator .and]⟩ = throw (.unbound "gate") ∧
    evaluate FactFile.host door ⟨[.call admitsBob, .call admitsAnn]⟩ = pure true := by
  have hout (c : Call) : c.HasOutcome FactFile.host door (c.outcome FactFile.host door) := hasOutcome_outcome _ _ c
  refine ⟨?_, ?_, ?_⟩
  · refine ((evaluate_decided_by_position FactFile.host door _).2.2 _ fun c _ => hout c).2.1 1 (by decide) ?_
    intro j hj
    have h : firstFailing? (Call.outcome FactFile.host door) [.call admitsAnn, .operator .and, .call gateOpen] =
        some 2 := by decide
    rw [h] at hj
    exact Option.some.inj hj ▸ (by decide)
  · obtain ⟨c, e, hc, he, heval⟩ := ((evaluate_decided_by_position FactFile.host door
      ⟨[.call gateOpen, .operator .and]⟩).2.2 _ fun c _ => hout c).1 0 (by decide) fun i hi => by
        have h : firstStarved? [.call gateOpen, .operator .and] = some 1 := by decide
        rw [h] at hi
        exact Option.some.inj hi ▸ (by decide)
    cases hc
    rw [heval, ← Except.error.inj he]
  · obtain ⟨ts, t, hts, -, heval⟩ := (((evaluate_decided_by_position FactFile.host door
      ⟨[.call admitsBob, .call admitsAnn]⟩).2.2 _ fun c _ => hout c).2.2 (by decide) (by decide)).2 (by decide)
    have hsplit : ts ++ [t] = [.call admitsBob] ++ [.call admitsAnn] :=
      Tree.listing_injective _ [.call admitsBob, .call admitsAnn] hts.symm
    obtain ⟨-, ht⟩ := List.append_inj' hsplit rfl
    rw [heval, List.singleton_inj.1 ht]
    rfl

end Program

end AccessRules
