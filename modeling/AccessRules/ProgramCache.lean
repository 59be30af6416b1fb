/-
A cache of programs by rule text, with room for a fixed number of them. When it is full the rule stored first goes;
asking for a stored rule does not make it younger. Rules that do not parse are not stored, and a cache without room
stores nothing.

Every program that is made gets a serial number of its own, so that one can tell a stored program from an equal one
made anew.

- `evict_length`: after eviction there is room for one more.
- `getOrParse_hit`: asking for a stored rule changes nothing.
-/
import AccessRules.Evaluation

namespace AccessRules

/-- a program that was made for a rule -/
structure Parsed where
  serial : Nat
  program : Program
deriving DecidableEq, Inhabited

/-- stored rules, the oldest first -/
structure ProgramCache where
  capacity : Nat
  stored : List (String × Parsed)
  /-- the serial number of the next program -/
  next : Nat
deriving DecidableEq

namespace ProgramCache

/-- the room of a cache unless said otherwise -/
def defaultCapacity : Nat := 256

/-- a cache with nothing in it -/
def new (capacity : Nat) : ProgramCache := ⟨capacity, [], 0⟩

/-- number of stored rules -/
def size (c : ProgramCache) : Nat := c.stored.length

/-- the stored program of a rule -/
def get? (c : ProgramCache) (rule : String) : Option Parsed := (c.stored.find? fun e => e.1 = rule).map Prod.snd

/-- drop the oldest rules until there is room for one more -/
def evict (capacity : Nat) : List (String × Parsed) → List (String × Parsed)
  | [] => []
  | e :: rest => if capacity ≤ rest.length + 1 then evict capacity rest else e :: rest

/-- store a program just made -/
def store (c : ProgramCache) (rule : String) (p : Parsed) : ProgramCache :=
  if c.capacity = 0 then { c with next := c.next + 1 }
  else { c with stored := evict c.capacity c.stored ++ [(rule, p)], next := c.next + 1 }

/-- the program of a rule: the stored one, or one made now and stored -/
def getOrParse (c : ProgramCache) (rule : String) : Except Imbalance Parsed × ProgramCache :=
  match c.get? rule with
  | some p => (.ok p, c)
  | none =>
    match Program.ofText rule with
    | .error cause => (.error cause, c)
    | .ok program => (.ok ⟨c.next, program⟩, c.store rule ⟨c.next, program⟩)

/-- the decision of a rule, by way of the cache -/
def permitted {ω : Type} {m : Type → Type} [Monad m] (host : Host ω m) (b : Binding ω) (c : ProgramCache)
    (rule : String) : ExceptT RuleError m Bool × ProgramCache :=
  match c.getOrParse rule with
  | (.ok p, c) => (p.program.evaluate host b, c)
  | (.error cause, c) => (throw (.unbalanced cause), c)

/-- forget every stored rule -/
def clear (c : ProgramCache) : ProgramCache := { c with stored := [] }

theorem evict_length (capacity : Nat) (h : 0 < capacity) (es : List (String × Parsed)) :
    (evict capacity es).length < capacity := by
  induction es with
  | nil => exact h
  | cons e rest ih =>
    unfold evict
    split
    · exact ih
    · simp only [List.length_cons]; omega

theorem getOrParse_hit (c : ProgramCache) (rule : String) (p : Parsed) (h : c.get? rule = some p) :
    c.getOrParse rule = (.ok p, c) := by
  simp [getOrParse, h]

end ProgramCache

end AccessRules
