/-
What a rule means, from its text to its decision. The text of an expression is read into the tokens of a level, the
program of that level is the listing of a tree in which every operator has all that stands before it as its left
operand, and deciding the program decides the tree as the grammar says.

- `tokens_levelThen`, `postfixOrder_levelThen`: the level of an expression, with what comes behind it.
- `ofText_of_isWritten`: the program of a written expression is the listing of its tree.
- `permitted_of_isWritten`: the decision of its text is the decision of the expression.
- `runs_eq_filter`: the calls of an expression are made in the order in which they are written.
- `permitted_eq_meaning`: the meaning of a rule, the faults that it cannot have, its grouping, and its first error.
-/
import AccessRules.Proofs.Evaluation.Verdict
import AccessRules.Proofs.Program.Levels
import AccessRules.Rule.Expression

namespace AccessRules.Rule

variable {ω : Type} {m : Type → Type}

open Outcome

/-! ## The tokens of words -/

/-- the token of a word of a run is plain: its text is no operator and no bracket -/
theorem role_ofWord (w : Word) : (Token.ofWord w.text).role = .plain := by
  rw [Token.role_eq_plain_iff, Token.isPlain_iff]
  intro s hs he
  obtain rfl := Token.text_ofWord_str _ _ he
  simp only [List.mem_cons, List.not_mem_nil, or_false] at hs
  rcases hs with hs | hs | hs | hs
  · exact w.ne_and hs
  · exact w.ne_or hs
  all_goals
    have hword := w.isWord_text
    rw [hs] at hword
    exact absurd hword (by decide)

theorem role_of_mem_call (r : Run) (t : Token) (ht : t ∈ r.call.tokens) : t.role = .plain := by
  rw [r.tokens_call, Run.pieces, List.map_map] at ht
  obtain ⟨w, -, rfl⟩ := List.mem_map.1 ht
  exact role_ofWord w

theorem ofWord_operator (op : Operator) : Token.ofWord op.text = .str op.text := by
  cases op <;> decide

namespace Expression

/-! ## The tree and the level of an expression -/

/-- the tree of an expression; brackets leave no trace in it -/
def tree : Expression → Tree
  | .run r => .call r.call
  | .group e => e.tree
  | .joinRun left op right => .node op left.tree (.call right.call)
  | .joinGroup left op right => .node op left.tree right.tree

/-- the level that begins with an expression and goes on with `next` -/
def levelThen : Expression → Level → Level
  | .run r, next => .run r.call next
  | .group e, next => .group (e.levelThen .nil) next
  | .joinRun left op right, next => left.levelThen (.operator op (.run right.call next))
  | .joinGroup left op right, next => left.levelThen (.operator op (.group (right.levelThen .nil) next))

theorem map_token_inBrackets (ps : List Piece) :
    (inBrackets ps).map Piece.token = .opening :: ps.map Piece.token ++ [.closing] := by
  rw [inBrackets, List.map_append]
  rfl

theorem tokens_levelThen (e : Expression) (next : Level) :
    (e.levelThen next).tokens = e.pieces.map Piece.token ++ next.tokens := by
  induction e generalizing next with
  | run r => rw [levelThen, Level.tokens, r.tokens_call, pieces]
  | group e ih =>
    rw [levelThen, Level.tokens, ih, pieces, map_token_inBrackets, Level.tokens, List.append_nil]
  | joinRun left op right ih =>
    rw [levelThen, ih, pieces, List.map_append, List.map_cons, Piece.token, ofWord_operator, ← right.tokens_call]
    simp [Level.tokens]
  | joinGroup left op right ihl ihr =>
    rw [levelThen, ihl, pieces, List.map_append, List.map_cons, Piece.token, ofWord_operator, map_token_inBrackets]
    simp [Level.tokens, ihr]

theorem isMaximal_levelThen (e : Expression) (next : Level) (hb : next.beginsWithRun = false) (hm : next.IsMaximal) :
    (e.levelThen next).IsMaximal := by
  induction e generalizing next with
  | run r => exact ⟨role_of_mem_call r, hb, hm⟩
  | group e ih => exact ⟨ih .nil rfl trivial, hm⟩
  | joinRun left op right ih => exact ih _ rfl ⟨role_of_mem_call right, hb, hm⟩
  | joinGroup left op right ihl ihr => exact ihl _ rfl ⟨ihr .nil rfl trivial, hm⟩

/-- **An expression before an operator, a bracket or the end** stands for its tree: nothing of what comes behind gets
into it, and the operators in it have their operands before them. -/
theorem postfixOrder_levelThen (e : Expression) (next : Level) (hn : next.firstSequence = []) :
    (e.levelThen next).postfixOrder = e.tree.postorder ++ next.postfixOrder := by
  induction e generalizing next with
  | run r => rfl
  | group e ih =>
    have hinner := ih .nil rfl
    have hcons : (Level.group (e.levelThen .nil) next).postfixOrder =
        (e.levelThen .nil).postfixOrder ++ next.postfixOrder := rfl
    rw [levelThen, hcons, hinner, tree, List.append_assoc]
    rfl
  | joinRun left op right ih =>
    have hnext := next.postfixOrder_afterSequence
    rw [levelThen, ih _ rfl, Level.postfixOrder_operator, hnext, Level.firstSequence, Level.afterSequence, hn]
    simp [tree, Tree.postorder]
  | joinGroup left op right ihl ihr =>
    have hnext := next.postfixOrder_afterSequence
    have hinner := ihr .nil rfl
    rw [levelThen, ihl _ rfl, Level.postfixOrder_operator, hnext, Level.firstSequence, Level.afterSequence, hn, hinner]
    simp [tree, Tree.postorder, Level.postfixOrder, Level.postfixFrom]

/-! ## From the text to the decision -/

theorem ofText_of_isWritten (e : Expression) (rule : String) (h : e.IsWritten rule.toList) :
    Program.ofText rule = .ok ⟨e.tree.postorder⟩ := by
  have htokens : tokenize rule = (e.levelThen .nil).tokens := by
    rw [tokens_levelThen, Level.tokens, List.append_nil]
    exact scan_of_spelling e.pieces rule.toList h
  have hmax := e.isMaximal_levelThen .nil rfl trivial
  have hpost : (e.levelThen .nil).postfixOrder = e.tree.postorder := by
    rw [e.postfixOrder_levelThen .nil rfl]
    exact List.append_nil _
  calc Program.ofText rule
      = Program.ofTokens (e.levelThen .nil).tokens := by rw [Program.ofText, htokens]
    _ = .ok ⟨(e.levelThen .nil).postfixOrder⟩ := Program.ofTokens_tokens _ hmax
    _ = .ok ⟨e.tree.postorder⟩ := by rw [hpost]

theorem evaluate_tree [Monad m] (host : Host ω m) (b : Binding ω) (e : Expression) :
    e.tree.evaluate host b = e.evaluate host b := by
  induction e with
  | run r => rfl
  | group e ih => exact ih
  | joinRun left op right ih => rw [tree, Tree.evaluate_node, ih, Tree.evaluate, evaluate_joinRun]
  | joinGroup left op right ihl ihr => rw [tree, Tree.evaluate_node, ihl, ihr, evaluate_joinGroup]

theorem permitted_of_isWritten [Monad m] [LawfulMonad m] (host : Host ω m) (b : Binding ω) (e : Expression)
    (rule : String) (h : e.IsWritten rule.toList) : permitted host b rule = e.evaluate host b := by
  have hlisting : (Program.mk e.tree.postorder).instructions = Tree.listing [e.tree] :=
    (Tree.listing_singleton e.tree).symm
  calc permitted host b rule
      = Program.evaluate host b ⟨e.tree.postorder⟩ := by simp only [permitted, e.ofText_of_isWritten rule h]
    _ = e.tree.evaluate host b := by
        rw [Program.evaluate_of_listing host b _ [e.tree] hlisting]
        simp
    _ = e.evaluate host b := evaluate_tree host b e

/-! ## The order of the calls -/

/-- the runs of an expression, from left to right -/
def runs : Expression → List Run
  | .run r => [r]
  | .group e => e.runs
  | .joinRun left _ right => left.runs ++ [right]
  | .joinGroup left _ right => left.runs ++ right.runs

theorem calls_tree (e : Expression) : e.tree.calls = e.runs.map Run.call := by
  induction e with
  | run r => rfl
  | group e ih => exact ih
  | joinRun left op right ih => rw [tree, Tree.calls, ih, runs, List.map_append]; rfl
  | joinGroup left op right ihl ihr => rw [tree, Tree.calls, ihl, ihr, runs, List.map_append]

/-- the piece is a word and no operator -/
def isOfRun : Piece → Bool
  | .word w => w ≠ "and" && w ≠ "or"
  | .bracket _ => false

theorem filter_pieces_run (r : Run) : r.pieces.filter isOfRun = r.pieces := by
  apply List.filter_eq_self.2
  intro p hp
  obtain ⟨w, -, rfl⟩ := List.mem_map.1 hp
  simp [isOfRun, w.ne_and, w.ne_or]

/-- the runs in their order are what is written, without operators and brackets -/
theorem runs_eq_filter (e : Expression) : e.runs.flatMap Run.pieces = e.pieces.filter isOfRun := by
  have hop (op : Operator) : isOfRun (.word op.text) = false := by cases op <;> decide
  have hbrackets (ps : List Piece) : (inBrackets ps).filter isOfRun = ps.filter isOfRun := by
    simp [inBrackets, isOfRun]
  induction e with
  | run r => rw [runs, pieces, filter_pieces_run, List.flatMap_singleton]
  | group e ih => rw [runs, pieces, hbrackets, ih]
  | joinRun left op right ih =>
    rw [runs, pieces, List.flatMap_append, List.filter_append, List.filter_cons, hop, ih, filter_pieces_run,
      List.flatMap_singleton]
    rfl
  | joinGroup left op right ihl ihr =>
    rw [runs, pieces, List.flatMap_append, List.filter_append, List.filter_cons, hop, hbrackets, ihl, ihr]
    rfl

/-! ## Grouping -/

/-- the expression as an operand, in brackets unless it is one run or in brackets already -/
def asOperand : Expression → Expression
  | .run r => .run r
  | .group e => .group e
  | e => .group e

/-- the expression with brackets around all that stands before each of its operators -/
def bracketed : Expression → Expression
  | .run r => .run r
  | .group e => .group e.bracketed
  | .joinRun left op right => .joinRun left.bracketed.asOperand op right
  | .joinGroup left op right => .joinGroup left.bracketed.asOperand op right.bracketed

theorem tree_asOperand (e : Expression) : e.asOperand.tree = e.tree := by
  cases e <;> rfl

theorem tree_bracketed (e : Expression) : e.bracketed.tree = e.tree := by
  induction e with
  | run r => rfl
  | group e ih => exact ih
  | joinRun left op right ih => rw [bracketed, tree, tree_asOperand, ih, tree]
  | joinGroup left op right ihl ihr => rw [bracketed, tree, tree_asOperand, ihl, ihr, tree]

/-! ## The meaning of a rule -/

/-- **The meaning of a rule.** However an expression is written down, deciding the text decides the expression: the left
part, then always the right operand, then the operator. The decision never fails for brackets or for operands that are
missing. Brackets around all that stands before an operator change nothing. When every call has an outcome, the first
run of the text whose call fails decides, and when none fails, the operators do. -/
theorem permitted_eq_meaning [Monad m] [LawfulMonad m] (host : Host ω m) (b : Binding ω) (e : Expression)
    (rule : String) (h : e.IsWritten rule.toList) :
    permitted host b rule = e.evaluate host b ∧
    FailsOnly (fun err => err.isSyntactic = false) (permitted host b rule) ∧
    (∀ rule', e.bracketed.IsWritten rule'.toList → permitted host b rule' = permitted host b rule) ∧
    e.runs.flatMap Run.pieces = e.pieces.filter isOfRun ∧
    ∀ outcomeOf : Call → Except RuleError Bool,
      (∀ r ∈ e.runs, r.call.HasOutcome host b (outcomeOf r.call)) →
      permitted host b rule = conclude (firstError? outcomeOf (e.runs.map Run.call))
        (e.tree.value fun c => Outcome.value (outcomeOf c)) := by
  have hmeaning := permitted_of_isWritten host b e rule h
  refine ⟨hmeaning, ?_, ?_, runs_eq_filter e, ?_⟩
  · rw [hmeaning, ← evaluate_tree]
    exact e.tree.evaluate_failsOnly host b
  · intro rule' h'
    calc permitted host b rule'
        = e.bracketed.evaluate host b := permitted_of_isWritten host b _ rule' h'
      _ = e.tree.evaluate host b := by rw [← evaluate_tree, tree_bracketed]
      _ = permitted host b rule := by rw [hmeaning, evaluate_tree]
  · intro outcomeOf hout
    have hcalls : ∀ c ∈ e.tree.calls, c.HasOutcome host b (outcomeOf c) := by
      rw [calls_tree]
      intro c hc
      obtain ⟨r, hr, rfl⟩ := List.mem_map.1 hc
      exact hout r hr
    rw [hmeaning, ← evaluate_tree, Tree.evaluate_of_outcomes host b outcomeOf e.tree hcalls, calls_tree]

/-- one word as a run -/
def lone (w : Word) : Run := ⟨w, []⟩

def no : Word := ⟨"False", by decide, by decide, by decide⟩

def yes : Word := ⟨"True", by decide, by decide, by decide⟩

/-- `False and True or True` -/
def noAndYesOrYes : Expression := .joinRun (.joinRun (.run (lone no)) .and (lone yes)) .or (lone yes)

theorem endsWord_blank (cs : List Char) : EndsWord (' ' :: cs) := endsWord_cons ' ' cs (by decide)

theorem isWritten_noAndYesOrYes : noAndYesOrYes.IsWritten "False and True or True".toList := by
  have hcs : "False and True or True".toList = "False".toList ++ ' ' :: ("and".toList ++ ' ' :: ("True".toList ++
      ' ' :: ("or".toList ++ ' ' :: ("True".toList ++ [])))) := by decide
  rw [IsWritten, hcs]
  refine .word _ (by decide) (endsWord_blank _) (.blank _ (by decide) ?_)
  refine .word _ (by decide) (endsWord_blank _) (.blank _ (by decide) ?_)
  refine .word _ (by decide) (endsWord_blank _) (.blank _ (by decide) ?_)
  refine .word _ (by decide) (endsWord_blank _) (.blank _ (by decide) ?_)
  exact .word _ (by decide) (fun _ hc => nomatch hc) .nil

theorem isWritten_bracketed_noAndYesOrYes : noAndYesOrYes.bracketed.IsWritten "(False and True)or True".toList := by
  have hcs : "(False and True)or True".toList = '(' :: ("False".toList ++ ' ' :: ("and".toList ++ ' ' ::
      ("True".toList ++ ')' :: ("or".toList ++ ' ' :: ("True".toList ++ []))))) := by decide
  rw [IsWritten, hcs]
  refine .bracket _ (by decide) ?_
  refine .word _ (by decide) (endsWord_blank _) (.blank _ (by decide) ?_)
  refine .word _ (by decide) (endsWord_blank _) (.blank _ (by decide) ?_)
  refine .word _ (by decide) (fun _ hc => Option.some.inj hc ▸ (by decide)) (.bracket _ (by decide) ?_)
  refine .word _ (by decide) (endsWord_blank _) (.blank _ (by decide) ?_)
  exact .word _ (by decide) (fun _ hc => nomatch hc) .nil

/-- grouping to the right would make both false -/
theorem permitted_noAndYesOrYes :
    permitted FactFile.host .empty "False and True or True" = pure true ∧
    permitted FactFile.host .empty "(False and True)or True" = pure true := by
  obtain ⟨heval, -, hbracketed, -, -⟩ :=
    permitted_eq_meaning FactFile.host .empty noAndYesOrYes _ isWritten_noAndYesOrYes
  have htrue : noAndYesOrYes.evaluate FactFile.host .empty = pure true := rfl
  refine ⟨heval.trans htrue, ?_⟩
  rw [hbracketed _ isWritten_bracketed_noAndYesOrYes, heval, htrue]

end Expression

end AccessRules.Rule
