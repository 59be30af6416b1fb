/-
Nothing is lost on the way into a program. Only operators change their places: a program has the calls of its tokens in
their order, each with the tokens of one run, and as many operators of each kind as there are among the tokens. What a
program looks up can therefore be read off the tokens.

- `perm_postfixFrom`, `calls_postfixFrom`: the instructions of a level, each once, and its calls in their order.
- `map_tokens_calls_inOrder`: the calls of a level are the runs of its tokens.
- `map_tokens_calls`, `mem_of_mem_tokens`: the same of a program, run by run and token by token.
- `names_eq_eraseDups`: the names of a program are told by its calls.
- `ofTokens_loses_nothing`: a program beside the tokens that it was made of.
-/
import Mathlib.Tactic
import AccessRules.Proofs.Evaluation.Trees
import AccessRules.Proofs.Program.Levels

namespace AccessRules

/-! ## The instructions of a level -/

namespace Level

/-- the instructions of a level in the order in which they are written -/
def inOrder : Level → List Instruction
  | .nil => []
  | .run c rest => .call c :: rest.inOrder
  | .group inner rest => inner.inOrder ++ rest.inOrder
  | .operator op rest => .operator op :: rest.inOrder

theorem perm_postfixFrom (l : Level) (waiting : List Instruction) :
    (postfixFrom waiting l).Perm (waiting ++ l.inOrder) := by
  induction l generalizing waiting with
  | nil => simp [postfixFrom, inOrder]
  | run c rest ih => exact ((ih waiting).cons (.call c)).trans List.perm_middle.symm
  | group inner rest ihi ihr =>
    have hinner : (postfixFrom [] inner).Perm inner.inOrder := ihi []
    exact (hinner.append (ihr waiting)).trans (List.perm_append_comm_assoc ..)
  | operator op rest ih => exact (ih [.operator op]).append_left waiting

/-- operators that wait and operators of the level change nothing about its calls -/
theorem calls_postfixFrom (l : Level) (waiting : List Instruction) (hw : Program.calls waiting = []) :
    Program.calls (postfixFrom waiting l) = Program.calls l.inOrder := by
  induction l generalizing waiting with
  | nil => exact hw
  | run c rest ih => exact congrArg (c :: ·) (ih waiting hw)
  | group inner rest ihi ihr =>
    rw [postfixFrom, inOrder, Program.calls_append, Program.calls_append, ihi [] rfl, ihr waiting hw]
  | operator op rest ih =>
    rw [postfixFrom, Program.calls_append, hw, List.nil_append, ih [.operator op] rfl]
    rfl

/-! ## The tokens of a level -/

theorem isPlain_head_of_not_beginsWithRun (l : Level) (h : l.beginsWithRun = false) (t : Token)
    (ht : l.tokens.head? = some t) : t.isPlain = false := by
  cases l with
  | nil => cases ht
  | run c rest => cases h
  | group inner rest =>
    obtain rfl : Token.opening = t := Option.some.inj ht
    decide
  | operator op rest =>
    obtain rfl : Token.str op.text = t := Option.some.inj ht
    cases op <;> decide

/-- **The runs of a level** are the tokens of its calls. -/
theorem map_tokens_calls_inOrder (l : Level) (hl : l.IsMaximal) :
    (Program.calls l.inOrder).map Call.tokens = Token.runs l.tokens := by
  induction l with
  | nil => rfl
  | run c rest ih =>
    obtain ⟨hc, hb, hr⟩ := hl
    have hplain : ∀ t ∈ c.tokens, t.isPlain = true := fun t ht => t.role_eq_plain_iff.1 (hc t ht)
    have hrun := Token.runs_append_run c.tokens rest.tokens (List.cons_ne_nil _ _) hplain
      (isPlain_head_of_not_beginsWithRun rest hb)
    rw [tokens, hrun, ← ih hr]
    rfl
  | group inner rest ihi ihr =>
    obtain ⟨hi, hr⟩ := hl
    have htokens : (group inner rest).tokens = .opening :: (inner.tokens ++ .closing :: rest.tokens) := by
      simp [tokens]
    rw [htokens, Token.runs_cons_of_not_plain _ .opening (by decide), Token.runs_append_cons _ _ .closing (by decide),
      inOrder, Program.calls_append, List.map_append, ihi hi, ihr hr]
  | operator op rest ih =>
    rw [tokens, Token.runs_cons_of_not_plain _ _ (by cases op <;> decide), ← ih hl]
    rfl

theorem count_operator_inOrder (l : Level) (hl : l.IsMaximal) (op : Operator) :
    l.inOrder.count (.operator op) = l.tokens.count (.str op.text) := by
  induction l with
  | nil => rfl
  | run c rest ih =>
    obtain ⟨hc, -, hr⟩ := hl
    have hnone : c.tokens.count (.str op.text) = 0 := by
      refine List.count_eq_zero.2 fun hmem => ?_
      have hplain := hc _ hmem
      rw [(Token.role_eq_operator_iff _ op).2 rfl] at hplain
      cases hplain
    have hcall : Instruction.call c ≠ .operator op := nofun
    rw [inOrder, tokens, List.count_append, hnone, Nat.zero_add, ← ih hr, List.count_cons_of_ne hcall]
  | group inner rest ihi ihr =>
    obtain ⟨hi, hr⟩ := hl
    have hbrackets : Token.opening ≠ .str op.text ∧ Token.closing ≠ .str op.text := by cases op <;> decide
    simp only [inOrder, tokens, List.count_append, List.count_cons_of_ne hbrackets.1,
      List.count_cons_of_ne hbrackets.2, List.count_nil, ihi hi, ihr hr, Nat.add_zero]
  | operator op' rest ih =>
    have hsame : (Instruction.operator op' == .operator op) = (Token.str op'.text == .str op.text) := by
      cases op' <;> cases op <;> decide
    rw [inOrder, tokens, List.count_cons, List.count_cons, ih hl, hsame]

end Level

/-! ## Programs told by their calls -/

namespace Program

theorem operandCount_eq_length_calls (p : Program) : p.operandCount = (calls p.instructions).length := by
  rw [operandCount, calls, List.length_filterMap_eq_countP]
  refine List.countP_congr fun i _ => ?_
  cases i <;> simp [Instruction.isOperand]

theorem operatorCount_eq_count (p : Program) :
    p.operatorCount = p.instructions.count (.operator .and) + p.instructions.count (.operator .or) := by
  rw [operatorCount]
  induction p.instructions with
  | nil => rfl
  | cons i rest ih =>
    rw [List.countP_cons, ih, List.count_cons, List.count_cons]
    cases i with
    | call c => simp [Instruction.isOperand]
    | operator op => cases op <;> simp [Instruction.isOperand] <;> omega

theorem names_call (c : Call) : c.names = Token.namesIn c.tokens := by
  simp [Call.names, Call.params, Call.tokens, Token.namesIn]

theorem flatMap_names (is : List Instruction) :
    is.flatMap Instruction.names = ((calls is).map Call.tokens).flatMap Token.namesIn := by
  induction is with
  | nil => rfl
  | cons i rest ih =>
    cases i with
    | operator op => exact ih
    | call c =>
      rw [List.flatMap_cons, ih, Instruction.names, names_call]
      rfl

theorem names_eq_eraseDups (p : Program) :
    p.names = (((calls p.instructions).map Call.tokens).flatMap Token.namesIn).eraseDups := by
  rw [names, distinct_eq_eraseDups, flatMap_names]

/-! ## A program beside its tokens -/

theorem map_tokens_calls (ts : List Token) (p : Program) (h : ofTokens ts = .ok p) :
    (calls p.instructions).map Call.tokens = Token.runs ts := by
  obtain ⟨l, hl, rfl, hp⟩ := exists_level_of_ofTokens ts p h
  rw [hp, Level.postfixOrder, l.calls_postfixFrom [] rfl, l.map_tokens_calls_inOrder hl]

/-- the calls of a program hold plain tokens of those that it was made of -/
theorem mem_of_mem_tokens {ts : List Token} {p : Program} (h : ofTokens ts = .ok p) {c : Call}
    (hc : .call c ∈ p.instructions) {t : Token} (ht : t ∈ c.tokens) : t ∈ ts ∧ t.isPlain = true := by
  have hrun : c.tokens ∈ Token.runs ts := by
    rw [← map_tokens_calls ts p h]
    exact List.mem_map_of_mem ((mem_calls_iff p.instructions c).2 hc)
  have hmem : t ∈ (Token.runs ts).flatten := List.mem_flatten.2 ⟨c.tokens, hrun, ht⟩
  rw [Token.flatten_runs] at hmem
  exact List.mem_filter.1 hmem

/-- **Nothing is lost.** The calls of a program are the runs of plain tokens that it was made of, in their order and
token for token: each has a token, none has an operator or a bracket, and together they are all plain tokens. There are
as many operators of each kind as there are tokens of it, and nothing else. The names of the program are the texts among
the plain tokens that are not second in their run, each listed once where it first stands. -/
theorem ofTokens_loses_nothing (ts : List Token) (p : Program) (h : ofTokens ts = .ok p) :
    (calls p.instructions).map Call.tokens = Token.runs ts ∧
    (∀ r ∈ Token.runs ts, r ≠ [] ∧ ∀ t ∈ r, t.isPlain = true) ∧
    (Token.runs ts).flatten = ts.filter Token.isPlain ∧
    (∀ op, p.instructions.count (.operator op) = ts.count (.str op.text)) ∧
    p.size = p.operandCount + p.operatorCount ∧
    p.operandCount = (Token.runs ts).length ∧
    p.operatorCount = ts.count (.str "and") + ts.count (.str "or") ∧
    p.names = ((Token.runs ts).flatMap Token.namesIn).eraseDups ∧ p.names.Nodup := by
  have hcalls := map_tokens_calls ts p h
  obtain ⟨l, hl, rfl, hp⟩ := exists_level_of_ofTokens ts p h
  have hcount (op : Operator) : p.instructions.count (.operator op) = l.tokens.count (.str op.text) := by
    rw [hp, Level.postfixOrder, (l.perm_postfixFrom []).count_eq, List.nil_append, l.count_operator_inOrder hl op]
  refine ⟨hcalls, fun r hr => ⟨Token.ne_nil_of_mem_runs _ r hr, Token.isPlain_of_mem_runs _ r hr⟩,
    Token.flatten_runs _, hcount, p.operandCount_add_operatorCount.symm, ?_, ?_, ?_, p.names_nodup⟩
  · rw [← hcalls, List.length_map, operandCount_eq_length_calls]
  · rw [operatorCount_eq_count, hcount, hcount]
    rfl
  · rw [names_eq_eraseDups, hcalls]

/-- two runs beside one another in brackets of their own, an operator without operands, and a name that is asked for
again -/
theorem ofTokens_loses_nothing_of_rule :
    (calls [.call ⟨.str "a", [.str "b", .str "a"]⟩, .call ⟨.str "c", [.str "d", .int 5]⟩, .operator .or,
      .operator .and]).map Call.tokens = [[.str "a", .str "b", .str "a"], [.str "c", .str "d", .int 5]] ∧
    names ⟨[.call ⟨.str "a", [.str "b", .str "a"]⟩, .call ⟨.str "c", [.str "d", .int 5]⟩, .operator .or,
      .operator .and]⟩ = ["a", "c"] := by
  have hprogram : ofTokens (tokenize "(a b a)(or c d 5)and") = .ok ⟨[.call ⟨.str "a", [.str "b", .str "a"]⟩,
      .call ⟨.str "c", [.str "d", .int 5]⟩, .operator .or, .operator .and]⟩ := by decide
  have hruns : Token.runs (tokenize "(a b a)(or c d 5)and") =
      [[.str "a", .str "b", .str "a"], [.str "c", .str "d", .int 5]] := by decide
  obtain ⟨hcalls, -, -, -, -, -, -, hnames, -⟩ := ofTokens_loses_nothing _ _ hprogram
  rw [hruns] at hcalls hnames
  refine ⟨hcalls, hnames.trans ?_⟩
  decide

end Program

end AccessRules
