/-
Which facts count. A table that is put together from facts takes the arity of an operation from the first fact of it; a
fact of another length is kept among the rows, and no call ever reaches it. So the facts of an operation all count
exactly when they are of one length, and a fact that counts goes on counting whatever is added after it.

- `matchesRow_literals`: literal arguments are the row that they are written as.
- `rows_of_facts`: the rows of a table are its facts.
- `tryInvoke_literals`: what an operation answers to literal arguments.
- `honours_iff`: a fact counts when it is there and as long as the first of its operation.
- `facts_count_iff_uniform`: when all facts count.
- `fact_of_other_length_is_not_honoured`: a fact that does not.
-/
import Mathlib.Tactic
import AccessRules.Proofs.FactTable.Loading

namespace AccessRules.FactTable

/-! ## Rows -/

section Rows

variable {ω : Type} (label : ω → String)

theorem matchesRow_literals (expected row sources : List Token) :
    matchesRow label expected (row.map Value.ofToken) sources = decide (expected = row) := by
  induction expected generalizing row sources with
  | nil => cases row <;> rfl
  | cons e expected ih =>
    cases row with
    | nil => rfl
    | cons t row =>
      rw [List.map_cons, matchesRow, matchesArg_literal, ih, Bool.eq_iff_iff]
      simp

theorem any_matchesRow_literals (rows : List (List Token)) (row sources : List Token) :
    (rows.any fun expected => matchesRow label expected (row.map Value.ofToken) sources) = decide (row ∈ rows) := by
  rw [Bool.eq_iff_iff, List.any_eq_true, decide_eq_true_iff]
  simp [matchesRow_literals]

end Rows

theorem mem_rowsOf_iff (facts : List (String × List Token)) (operation : String) (row : List Token) :
    row ∈ rowsOf facts operation ↔ (operation, row) ∈ facts := by
  simp [rowsOf]

theorem rowsOf_append (facts more : List (String × List Token)) (operation : String) :
    rowsOf (facts ++ more) operation = rowsOf facts operation ++ rowsOf more operation := by
  simp [rowsOf]

/-- an operation is there as soon as it has a fact, and has the facts as its rows -/
theorem rows_of_facts (name : String) (facts : List (String × List Token)) (operation : String) :
    ((new name).addFacts facts).rows.get? operation =
      if rowsOf facts operation = [] then none else some (rowsOf facts operation) := by
  have hrows : ((new name).addFacts facts).rowsFor operation = rowsOf facts operation :=
    (rowsFor_addFacts (new name) facts operation).trans (List.nil_append _)
  unfold rowsFor at hrows
  cases hget : ((new name).addFacts facts).rows.get? operation with
  | none =>
    rw [hget] at hrows
    exact (if_pos hrows.symm).symm
  | some rows =>
    rw [hget] at hrows
    have hne : rows ≠ [] := rows_ne_nil _ ⟨name, facts, rfl⟩ operation rows hget
    obtain rfl : rows = rowsOf facts operation := hrows
    rw [if_neg hne]

/-! ## Answers -/

section Answers

variable {ω : Type} (label : ω → String) (name : String) (facts : List (String × List Token)) (operation : String)

/-- an operation of a table put together from facts, asked with the literals of a row -/
def answer (row : List Token) : Except InvokeError (Value ω) :=
  ((((new name).addFacts facts).receiver label : Receiver ω Id).tryInvoke operation (row.map Value.ofToken)).run

theorem answer_of_no_fact (h : rowsOf facts operation = []) (row : List Token) :
    answer label name facts operation row = .error .notFound := by
  have harity : ((new name).addFacts facts).arity operation = none := by
    rw [arity, rows_of_facts, if_pos h]
    rfl
  simp only [answer, Receiver.tryInvoke, Receiver.refusal?, receiver, harity]
  rfl

/-- the first fact says how many arguments there have to be, then every fact counts -/
theorem answer_of_facts {first : List Token} {rest : List (List Token)}
    (h : rowsOf facts operation = first :: rest) (row : List Token) :
    answer label name facts operation row =
      match (Arity.exact first.length).fault? row.length with
      | some fault => .error (.arity fault)
      | none => .ok (.bool (decide (row ∈ first :: rest))) := by
  have hget : ((new name).addFacts facts).rows.get? operation = some (first :: rest) := by
    rw [rows_of_facts, h, if_neg (List.cons_ne_nil _ _)]
  have harity : ((new name).addFacts facts).arity operation = some (.exact first.length) := by
    rw [arity, hget]
    rfl
  simp only [answer, Receiver.tryInvoke, Receiver.refusal?, receiver, harity, List.length_map]
  cases (Arity.exact first.length).fault? row.length with
  | some fault => rfl
  | none =>
    simp only [Option.map_none, lookup, hget, any_matchesRow_literals]
    rfl

/-- literals are admitted exactly when they are a fact that is as long as the first fact of the operation -/
theorem answer_eq_true_iff (row : List Token) :
    answer label name facts operation row = .ok (.bool true) ↔
      (operation, row) ∈ facts ∧ ∀ first ∈ (rowsOf facts operation).head?, row.length = first.length := by
  -- without a fact there is no operation, and with one the first settles the length
  rw [← mem_rowsOf_iff]
  cases hrows : rowsOf facts operation with
  | nil =>
    rw [answer_of_no_fact label name facts operation hrows]
    exact ⟨nofun, fun h => absurd h.1 List.not_mem_nil⟩
  | cons first rest =>
    have hlength := Arity.fault?_exact first.length row.length
    rw [answer_of_facts label name facts operation hrows]
    cases hfault : (Arity.exact first.length).fault? row.length with
    | some fault =>
      refine ⟨nofun, fun h => ?_⟩
      rw [hlength.2 (h.2 first rfl)] at hfault
      cases hfault
    | none =>
      have heq := hlength.1 hfault
      have hfirst : ∀ f ∈ (first :: rest).head?, row.length = f.length := fun f hf => Option.some.inj hf ▸ heq
      simp [hfirst]

/-- a fact that does not count is answered as a wrong number of arguments -/
theorem answer_of_mem (row : List Token) (h : (operation, row) ∈ facts) :
    answer label name facts operation row = .ok (.bool true) ∨
      ∃ fault, answer label name facts operation row = .error (.arity fault) := by
  have hmem := (mem_rowsOf_iff facts operation row).2 h
  obtain ⟨first, rest, hrows⟩ := List.exists_cons_of_ne_nil (List.ne_nil_of_mem hmem)
  rw [answer_of_facts label name facts operation hrows]
  cases (Arity.exact first.length).fault? row.length with
  | some fault => exact .inr ⟨fault, rfl⟩
  | none => exact .inl (by rw [decide_eq_true (hrows ▸ hmem)])

/-- what is admitted is admitted still after further facts -/
theorem answer_append (more : List (String × List Token)) (row : List Token)
    (h : answer label name facts operation row = .ok (.bool true)) :
    answer label name (facts ++ more) operation row = .ok (.bool true) := by
  rw [answer_eq_true_iff] at h ⊢
  obtain ⟨hmem, hlength⟩ := h
  obtain ⟨first, rest, hrows⟩ := List.exists_cons_of_ne_nil
    (List.ne_nil_of_mem ((mem_rowsOf_iff facts operation row).2 hmem))
  refine ⟨List.mem_append_left _ hmem, ?_⟩
  rw [hrows] at hlength
  rwa [rowsOf_append, hrows]

/-- **When all facts count.** A call of an operation with literals is admitted exactly when they are one of its facts
and as long as the first of them. A fact of another length is answered as a wrong number of arguments. What is admitted
is admitted still after further facts, of any operation and any length. So the facts of an operation are what it admits
exactly when they are all of one length. -/
theorem facts_count_iff_uniform :
    (∀ row, answer label name facts operation row = .ok (.bool true) ↔
      (operation, row) ∈ facts ∧ ∀ first ∈ (rowsOf facts operation).head?, row.length = first.length) ∧
    (∀ row, (operation, row) ∈ facts → answer label name facts operation row = .ok (.bool true) ∨
      ∃ fault, answer label name facts operation row = .error (.arity fault)) ∧
    (∀ more row, answer label name facts operation row = .ok (.bool true) →
      answer label name (facts ++ more) operation row = .ok (.bool true)) ∧
    ((∀ row, answer label name facts operation row = .ok (.bool true) ↔ (operation, row) ∈ facts) ↔
      IsUniform (rowsOf facts operation)) := by
  refine ⟨answer_eq_true_iff label name facts operation, answer_of_mem label name facts operation,
    answer_append label name facts operation, ?_⟩
  simp only [answer_eq_true_iff, ← mem_rowsOf_iff facts operation, and_iff_left_iff_imp]
  cases hrows : rowsOf facts operation with
  | nil => exact ⟨fun _ => ⟨0, nofun⟩, fun _ _ h => absurd h List.not_mem_nil⟩
  | cons first rest =>
    constructor
    · intro h
      exact ⟨first.length, fun row hrow => h row hrow first rfl⟩
    · rintro ⟨length, hlength⟩ row hrow f hf
      obtain rfl : first = f := Option.some.inj hf
      rw [hlength row hrow, hlength first List.mem_cons_self]

end Answers

/-- a fact of two words after a fact of one: it is there and admits nobody -/
theorem fact_of_other_length_is_not_honoured :
    ¬ ∀ (name : String) (facts : List (String × List Token)) (operation : String) (row : List Token),
      answer FactTable.name name facts operation row = .ok (.bool true) ↔ (operation, row) ∈ facts := by
  intro h
  have hcounts := (h "page" [("allow", [.str "ann"]), ("allow", [.str "ann", .str "edit"])] "allow"
    [.str "ann", .str "edit"]).2 (by decide)
  have hlength := ((answer_eq_true_iff _ _ _ _ _).1 hcounts).2 [.str "ann"] rfl
  exact absurd hlength (by decide)

end AccessRules.FactTable
