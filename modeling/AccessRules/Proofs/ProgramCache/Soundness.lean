/-
What a cache stores is right: every stored program is the one that its rule has. The property holds of a new cache and
is kept by everything that a cache is asked, so it holds after every run, whatever was stored, dropped or forgotten.

- `isSound_step`, `isSound_run`: soundness is kept by one question, and so by any number of them.
- `program_getOrParse`: a sound cache gives the program that the rule has, or the imbalance that it has.
- `getOrParse_of_error`: a rule without a program is refused by a sound cache, and the cache stays as it is.
-/
import Mathlib.Tactic
import AccessRules.ProgramCache.History

namespace AccessRules.ProgramCache

variable {ω : Type} {m : Type → Type}

/-- every stored program is the one that its rule has -/
def IsSound (c : ProgramCache) : Prop := ∀ e ∈ c.stored, Program.ofText e.1 = .ok e.2.program

theorem isSound_new (capacity : Nat) : (new capacity).IsSound := by
  intro e he
  exact absurd he List.not_mem_nil

theorem mem_of_mem_evict (capacity : Nat) (es : List (String × Parsed)) (e : String × Parsed)
    (he : e ∈ evict capacity es) : e ∈ es := by
  induction es with
  | nil => exact he
  | cons d rest ih =>
    unfold evict at he
    split_ifs at he
    · exact List.mem_cons_of_mem d (ih he)
    · exact he

/-- a stored program comes from what was stored before, or is the one just made -/
theorem isSound_store (c : ProgramCache) (h : c.IsSound) (rule : String) (p : Parsed)
    (hp : Program.ofText rule = .ok p.program) : (c.store rule p).IsSound := by
  intro e he
  unfold store at he
  split_ifs at he
  · exact h e he
  · rcases List.mem_append.1 he with he | he
    · exact h e (mem_of_mem_evict _ _ e he)
    · rw [List.mem_singleton.1 he]
      exact hp

theorem isSound_getOrParse (c : ProgramCache) (h : c.IsSound) (rule : String) : (c.getOrParse rule).2.IsSound := by
  unfold getOrParse
  split
  · exact h
  · split
    · exact h
    · rename_i program hp
      exact isSound_store c h rule ⟨c.next, program⟩ hp

theorem isSound_step [Monad m] (host : Host ω m) (c : ProgramCache) (h : c.IsSound) (a : Ask ω) :
    (c.step host a).IsSound := by
  cases a with
  | get rule => exact h
  | getOrParse rule => exact isSound_getOrParse c h rule
  | permitted b rule =>
    rw [step_permitted]
    exact isSound_getOrParse c h rule
  | clear => exact fun e he => absurd he List.not_mem_nil

theorem isSound_run [Monad m] (host : Host ω m) (h : History) (hs : h.cache.IsSound) (asks : List (Ask ω)) :
    (h.run host asks).cache.IsSound := by
  induction asks generalizing h with
  | nil => exact hs
  | cons a asks ih => exact ih (h.step host a) (isSound_step host h.cache hs a)

/-! ## What a sound cache answers -/

theorem mem_of_get? (c : ProgramCache) (rule : String) (p : Parsed) (h : c.get? rule = some p) :
    (rule, p) ∈ c.stored := by
  obtain ⟨e, he, rfl⟩ := Option.map_eq_some_iff.1 h
  have hr : e.1 = rule := by simpa using List.find?_some he
  rw [← hr]
  exact List.mem_of_find?_eq_some he

theorem ofText_of_get? (c : ProgramCache) (h : c.IsSound) (rule : String) (p : Parsed) (hp : c.get? rule = some p) :
    Program.ofText rule = .ok p.program :=
  h (rule, p) (c.mem_of_get? rule p hp)

theorem program_getOrParse (c : ProgramCache) (h : c.IsSound) (rule : String) :
    (c.getOrParse rule).1.map Parsed.program = Program.ofText rule := by
  unfold getOrParse
  split
  · rename_i p hp
    rw [ofText_of_get? c h rule p hp]
    rfl
  · split
    · rename_i cause hc
      rw [hc]
      rfl
    · rename_i program hp
      rw [hp]
      rfl

theorem getOrParse_of_error (c : ProgramCache) (h : c.IsSound) (rule : String) (cause : Imbalance)
    (hc : Program.ofText rule = .error cause) : c.getOrParse rule = (.error cause, c) := by
  have hg : c.get? rule = none := by
    cases hp : c.get? rule with
    | none => rfl
    | some p =>
      rw [ofText_of_get? c h rule p hp] at hc
      cases hc
  simp only [getOrParse, hg, hc]

end AccessRules.ProgramCache
