/-
A cache cannot be told from no cache by what it answers. A run is a list of questions and the list of its answers; what
may be answered to a question is said without any cache, from the text of the rule alone. One question to a sound cache
is answered rightly and leaves the cache sound, so all questions of a run are.

- `isRight_answer`: one question to a sound cache.
- `areRight_answers`: a run of a sound cache.
- `answered_as_without_cache`: a run of a new cache, of any capacity.
-/
import Mathlib.Tactic
import AccessRules.Proofs.ProgramCache.Soundness

namespace AccessRules.ProgramCache

variable {ω : Type} {m : Type → Type}

/-! ## Answers -/

/-- what a cache answers, without the serial numbers of the programs -/
inductive Answer (m : Type → Type) where
  | found (program : Option Program)
  | parsed (result : Except Imbalance Program)
  | decided (decision : ExceptT RuleError m Bool)
  | cleared

/-- what a cache answers to a question -/
def answer [Monad m] (host : Host ω m) (c : ProgramCache) : Ask ω → Answer m
  | .get rule => .found ((c.get? rule).map Parsed.program)
  | .getOrParse rule => .parsed ((c.getOrParse rule).1.map Parsed.program)
  | .permitted b rule => .decided (c.permitted host b rule).1
  | .clear => .cleared

/-- what a cache answers to questions one after another -/
def answers [Monad m] (host : Host ω m) (c : ProgramCache) : List (Ask ω) → List (Answer m)
  | [] => []
  | a :: asks => c.answer host a :: (c.step host a).answers host asks

/-- what may be answered to a question without any cache: for the program of a rule that program or its imbalance, for
its decision that decision, and for what is stored either nothing or the program of the rule -/
inductive Ask.IsRight [Monad m] (host : Host ω m) : Ask ω → Answer m → Prop where
  | notFound (rule : String) : IsRight host (.get rule) (.found none)
  | found (rule : String) (p : Program) (hp : Program.ofText rule = .ok p) : IsRight host (.get rule) (.found (some p))
  | parsed (rule : String) : IsRight host (.getOrParse rule) (.parsed (Program.ofText rule))
  | decided (b : Binding ω) (rule : String) :
    IsRight host (.permitted b rule) (.decided (AccessRules.permitted host b rule))
  | cleared : IsRight host .clear .cleared

/-! ## Right answers -/

theorem permitted_of_isSound [Monad m] (host : Host ω m) (b : Binding ω) (c : ProgramCache) (h : c.IsSound)
    (rule : String) : (c.permitted host b rule).1 = AccessRules.permitted host b rule := by
  have hprogram := c.program_getOrParse h rule
  unfold permitted AccessRules.permitted
  rw [← hprogram]
  rcases c.getOrParse rule with ⟨result, c'⟩
  cases result with
  | ok p => rfl
  | error cause => rfl

/-- **One question** to a sound cache is answered rightly. -/
theorem isRight_answer [Monad m] (host : Host ω m) (c : ProgramCache) (h : c.IsSound) (a : Ask ω) :
    a.IsRight host (c.answer host a) := by
  cases a with
  | get rule =>
    rw [answer]
    cases hp : c.get? rule with
    | none => exact .notFound rule
    | some p => exact .found rule p.program (c.ofText_of_get? h rule p hp)
  | getOrParse rule =>
    rw [answer, c.program_getOrParse h rule]
    exact .parsed rule
  | permitted b rule =>
    rw [answer, permitted_of_isSound host b c h rule]
    exact .decided b rule
  | clear => exact .cleared

theorem areRight_answers [Monad m] (host : Host ω m) (c : ProgramCache) (h : c.IsSound) (asks : List (Ask ω)) :
    List.Forall₂ (Ask.IsRight host) asks (c.answers host asks) := by
  induction asks generalizing c with
  | nil => exact .nil
  | cons a asks ih => exact .cons (isRight_answer host c h a) (ih _ (isSound_step host c h a))

/-- **As without a cache.** Whatever the capacity and whatever the questions, every question of a run of a new cache is
answered as the rule itself has it: its program or its imbalance, its decision, and nothing or its program for what is
stored. -/
theorem answered_as_without_cache [Monad m] (host : Host ω m) (capacity : Nat) (asks : List (Ask ω)) :
    List.Forall₂ (Ask.IsRight host) asks ((new capacity).answers host asks) :=
  areRight_answers host _ (isSound_new capacity) asks

end AccessRules.ProgramCache
