/-
Runs of a cache: what it is asked one time after another, and which programs were made for it on the way.

- `step_permitted`: deciding a rule changes the cache as asking for its program does.
- `run_append`: a run in two parts is run on from the first part's history.
-/
import AccessRules.ProgramCache

namespace AccessRules.ProgramCache

variable {ω : Type} {m : Type → Type}

/-- what a cache is asked -/
inductive Ask (ω : Type) where
  | get (rule : String)
  | getOrParse (rule : String)
  | permitted (b : Binding ω) (rule : String)
  | clear

/-- the rule for which a program has to be there or be made -/
def Ask.wanted? : Ask ω → Option String
  | .getOrParse rule => some rule
  | .permitted _ rule => some rule
  | _ => none

/-- the cache after it was asked -/
def step [Monad m] (host : Host ω m) (c : ProgramCache) : Ask ω → ProgramCache
  | .get _ => c
  | .getOrParse rule => (c.getOrParse rule).2
  | .permitted b rule => (c.permitted host b rule).2
  | .clear => c.clear

/-- the program that is made for what is asked: for a rule that is wanted, is not stored and parses -/
def made (c : ProgramCache) (a : Ask ω) : List (String × Parsed) :=
  match a.wanted? with
  | none => []
  | some rule =>
    match c.get? rule, Program.ofText rule with
    | none, .ok program => [(rule, ⟨c.next, program⟩)]
    | _, _ => []

/-- a cache, with every program that was made since it was last cleared, oldest first, whether still stored or not -/
structure History where
  cache : ProgramCache
  made : List (String × Parsed)
deriving DecidableEq

namespace History

/-- a cache that was not asked anything yet -/
def start (capacity : Nat) : History := ⟨.new capacity, []⟩

/-- the history after one more question -/
def step [Monad m] (host : Host ω m) (h : History) (a : Ask ω) : History where
  cache := h.cache.step host a
  made := match a with
    | .clear => []
    | a => h.made ++ h.cache.made a

/-- the history after a number of questions -/
def run [Monad m] (host : Host ω m) (h : History) (asks : List (Ask ω)) : History := asks.foldl (step host) h

theorem run_append [Monad m] (host : Host ω m) (h : History) (asks more : List (Ask ω)) :
    h.run host (asks ++ more) = (h.run host asks).run host more := List.foldl_append

end History

theorem step_permitted [Monad m] (host : Host ω m) (b : Binding ω) (c : ProgramCache) (rule : String) :
    c.step host (.permitted b rule) = c.step host (.getOrParse rule) := by
  simp only [step, permitted]
  rcases hp : c.getOrParse rule with ⟨result, c'⟩
  cases result with
  | ok p => rfl
  | error cause => rfl

end AccessRules.ProgramCache
