/-
The grammar of rules, and what a rule means by it. An expression is a run of words or an expression in brackets, with
any number of further ones after it, each behind an operator. Both operators bind equally strongly, so an expression
groups to the left.

The meaning follows the grammar: the left part is decided first, then always the right one, and both must hold for
`and`, one of them for `or`. The first call that fails decides the outcome.

- `pieces_ne_nil`: an expression is never written as nothing.
- `evaluate_group`: brackets around an expression do not change its meaning.
- `evaluate_joinRun`, `evaluate_joinGroup`: the operators of programs do what the words mean.
-/
import AccessRules.Evaluation
import AccessRules.Rule.Spelling

namespace AccessRules.Rule

/-- a word that is no operator -/
structure Word where
  text : String
  isWord_text : isWord text = true
  ne_and : text ≠ "and"
  ne_or : text ≠ "or"

/-- words that make one call -/
structure Run where
  first : Word
  rest : List Word

namespace Run

/-- the words one after another -/
def words (r : Run) : List Word := r.first :: r.rest

/-- how a run is written -/
def pieces (r : Run) : List Piece := r.words.map fun w => .word w.text

/-- the call of the converted words -/
def call (r : Run) : Call := ⟨.ofWord r.first.text, r.rest.map fun w => .ofWord w.text⟩

theorem tokens_call (r : Run) : r.call.tokens = r.pieces.map Piece.token := by
  simp [call, Call.tokens, pieces, words, Piece.token, Function.comp_def]

end Run

/-- operands with operators between them, grouped to the left -/
inductive Expression where
  | run (r : Run)
  | group (e : Expression)
  /-- a run as the right operand -/
  | joinRun (left : Expression) (op : Operator) (right : Run)
  /-- an expression in brackets as the right operand -/
  | joinGroup (left : Expression) (op : Operator) (right : Expression)

namespace Expression

/-- pieces in brackets -/
def inBrackets (ps : List Piece) : List Piece := .bracket '(' :: ps ++ [.bracket ')']

/-- how an expression is written -/
def pieces : Expression → List Piece
  | .run r => r.pieces
  | .group e => inBrackets e.pieces
  | .joinRun left op right => left.pieces ++ .word op.text :: right.pieces
  | .joinGroup left op right => left.pieces ++ .word op.text :: inBrackets right.pieces

/-- `cs` writes the expression down -/
def IsWritten (e : Expression) (cs : List Char) : Prop := Spelling e.pieces cs

variable {ω : Type} {m : Type → Type}

/-- the decision of an expression -/
def evaluate [Monad m] (host : Host ω m) (b : Binding ω) : Expression → ExceptT RuleError m Bool
  | .run r => r.call.evaluate host b
  | .group e => e.evaluate host b
  | .joinRun left op right => do
    let l ← left.evaluate host b
    let r ← right.call.evaluate host b
    pure (match op with | .and => l && r | .or => l || r)
  | .joinGroup left op right => do
    let l ← left.evaluate host b
    let r ← right.evaluate host b
    pure (match op with | .and => l && r | .or => l || r)

theorem pieces_ne_nil (e : Expression) : e.pieces ≠ [] := by
  cases e <;> simp [pieces, inBrackets, Run.pieces, Run.words]

theorem evaluate_group [Monad m] (host : Host ω m) (b : Binding ω) (e : Expression) :
    (Expression.group e).evaluate host b = e.evaluate host b := rfl

theorem evaluate_joinRun [Monad m] (host : Host ω m) (b : Binding ω) (left : Expression) (op : Operator) (right : Run) :
    (joinRun left op right).evaluate host b = (do
      let l ← left.evaluate host b
      let r ← right.call.evaluate host b
      pure (op.apply l r)) := by
  cases op <;> rfl

theorem evaluate_joinGroup [Monad m] (host : Host ω m) (b : Binding ω) (left : Expression) (op : Operator)
    (right : Expression) :
    (joinGroup left op right).evaluate host b = (do
      let l ← left.evaluate host b
      let r ← right.evaluate host b
      pure (op.apply l r)) := by
  cases op <;> rfl

end Expression

end AccessRules.Rule
