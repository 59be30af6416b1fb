/-
Rules that are refused for their brackets. Whether a rule is refused, and for which imbalance, is told by counting the
brackets of its tokens; operators and words have no say in it. A refused rule is refused under every binding and by
every cache, however the cache was used before, and nothing is asked of any object for it.

- `refused_by_counting`: the three verdicts on token lists, and what a refusal means for the decision of a rule, with a
  cache and without one.
-/
import AccessRules.Evaluation.Recording
import AccessRules.FactFile
import AccessRules.Proofs.Program.Brackets
import AccessRules.Proofs.ProgramCache.Soundness

namespace AccessRules.Rule

variable {ω : Type} {m : Type → Type}

/-! ## A refused rule, without a cache and with one -/

theorem permitted_of_imbalance [Monad m] (host : Host ω m) (b : Binding ω) (rule : String) (cause : Imbalance)
    (h : Program.ofText rule = .error cause) : permitted host b rule = throw (.unbalanced cause) := by
  simp only [permitted, h]

theorem permittedRecorded_of_imbalance [Monad m] (host : Host ω m) (b : Binding ω) (rule : String) (cause : Imbalance)
    (h : Program.ofText rule = .error cause) :
    permittedRecorded host b rule = pure (.error (.unbalanced cause), []) := by
  rw [permittedRecorded, permitted_of_imbalance host.recording b rule cause h]
  rfl

theorem cached_of_imbalance [Monad m] (host : Host ω m) (b : Binding ω) (c : ProgramCache) (hc : c.IsSound)
    (rule : String) (cause : Imbalance) (h : Program.ofText rule = .error cause) :
    c.permitted host b rule = (throw (.unbalanced cause), c) := by
  simp only [ProgramCache.permitted, c.getOrParse_of_error hc rule cause h]

/-- **Refused by counting.** A token list has too many closing brackets when some beginning of it holds more closing
than opening ones, a missing one when no beginning does but the whole list holds more opening ones, and has a program
otherwise; leaving out all other tokens keeps the verdict. When the tokens of a rule have no program, deciding the rule
fails with that imbalance and asks nothing of any object, under every binding; so does every cache that was new once
and was asked anything since, and it stays as it is. -/
theorem refused_by_counting [Monad m] (host : Host ω m) (ts : List Token) (rule : String) (b : Binding ω)
    (capacity : Nat) (asks : List (ProgramCache.Ask ω)) :
    (Program.ofTokens ts = .error .tooManyClose ↔ Balance.IsOverclosed ts) ∧
    (Program.ofTokens ts = .error .missingClose ↔ Balance.IsUnclosed ts) ∧
    ((∃ p, Program.ofTokens ts = .ok p) ↔ Balance.IsBalanced ts) ∧
    Program.imbalance? (Balance.brackets ts) = Program.imbalance? ts ∧
    ∀ cause, Program.ofTokens (tokenize rule) = .error cause →
      let c := ((ProgramCache.History.start capacity).run host asks).cache
      permitted host b rule = throw (.unbalanced cause) ∧
      permittedRecorded host b rule = pure (.error (.unbalanced cause), []) ∧
      c.getOrParse rule = (.error cause, c) ∧
      c.permitted host b rule = (throw (.unbalanced cause), c) ∧
      (c.permitted host.recording b rule).1.run [] = pure (.error (.unbalanced cause), []) := by
  refine ⟨Program.ofTokens_tooManyClose_iff ts, Program.ofTokens_missingClose_iff ts, Program.ofTokens_ok_iff ts,
    Program.imbalance?_brackets ts, ?_⟩
  intro cause h c
  have hc : c.IsSound := ProgramCache.isSound_run host _ (ProgramCache.isSound_new capacity) asks
  refine ⟨permitted_of_imbalance host b rule cause h, permittedRecorded_of_imbalance host b rule cause h,
    c.getOrParse_of_error hc rule cause h, cached_of_imbalance host b c hc rule cause h, ?_⟩
  rw [cached_of_imbalance host.recording b c hc rule cause h]
  rfl

/-- a rule that lacks a bracket, in a cache that saw it and another rule before -/
theorem refused_without_its_bracket :
    permittedRecorded FactFile.host .empty "a x and (b y or c z" = pure (.error (.unbalanced .missingClose), []) ∧
    (((ProgramCache.History.start 2).run FactFile.host
      [.getOrParse "a x and (b y or c z", .permitted .empty "a x"]).cache.getOrParse "a x and (b y or c z").1 =
        .error .missingClose := by
  have hcause : Program.ofTokens (tokenize "a x and (b y or c z") = .error .missingClose := by decide
  obtain ⟨-, -, -, -, hrefused⟩ := refused_by_counting FactFile.host (tokenize "a x and (b y or c z")
    "a x and (b y or c z" .empty 2 [.getOrParse "a x and (b y or c z", .permitted .empty "a x"]
  obtain ⟨-, hasked, hparse, -, -⟩ := hrefused .missingClose hcause
  exact ⟨hasked, congrArg Prod.fst hparse⟩

end AccessRules.Rule
