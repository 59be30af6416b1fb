/-
Faults of a rule are faults of its text. An error that marks the rule itself as wrong is found under every binding or
under none, whatever the objects do when asked. Only a missing operand can stay hidden: under another binding a call
before the operator may fail first, for a cause of its own.

- `MayEnd`: a result that an action cannot be shown never to have; `MayEnd.exists` makes use of one.
- `faults_of_text`: two decisions of one rule text, under two bindings and by objects of two kinds.
-/
import AccessRules.FactFile
import AccessRules.Proofs.Evaluation.Ending
import AccessRules.Proofs.Evaluation.Verdict
import AccessRules.Proofs.Rule.Refusal

namespace AccessRules

variable {ω ω' α : Type} {m m' : Type → Type}

/-- some run of `x` may end with a result like this: nothing in `x` speaks against it -/
def MayEnd [Monad m] (P : Except RuleError α → Prop) (x : ExceptT RuleError m α) : Prop :=
  ¬ SatisfiesM (fun r => ¬ P r) x.run

/-- without effects there is one result -/
theorem mayEnd_iff (P : Except RuleError α → Prop) (x : ExceptT RuleError Id α) : MayEnd P x ↔ P x.run := by
  rw [MayEnd, SatisfiesM_Id_eq, not_not]

/-- a result that there may be has all that results must have -/
theorem MayEnd.exists [Monad m] [LawfulMonad m] {P Q : Except RuleError α → Prop} {x : ExceptT RuleError m α}
    (h : MayEnd P x) (hx : SatisfiesM Q x.run) : ∃ r, P r ∧ Q r := by
  by_contra hnone
  exact h (hx.imp fun {r} hq hp => hnone ⟨r, hp, hq⟩)

namespace Rule

theorem permitted_of_program [Monad m] (host : Host ω m) (b : Binding ω) (rule : String) (p : Program)
    (h : Program.ofText rule = .ok p) : permitted host b rule = p.evaluate host b := by
  simp only [permitted, h]

theorem permittedRecorded_of_program [Monad m] (host : Host ω m) (b : Binding ω) (rule : String) (p : Program)
    (h : Program.ofText rule = .ok p) : permittedRecorded host b rule = p.evaluateRecorded host b := by
  rw [permittedRecorded, permitted_of_program host.recording b rule p h]
  rfl

/-- how the decision of a rule text that has a program can end -/
theorem permitted_ends [Monad m] [LawfulMonad m] (host : Host ω m) (b : Binding ω) (rule : String) (p : Program)
    (h : Program.ofText rule = .ok p) :
    SatisfiesM (fun r => ∃ notes, Program.EndsAs p.instructions r notes) (permitted host b rule).run := by
  rw [permitted_of_program host b rule p h, ← Program.fst_evaluateNoted]
  exact (Program.evaluateNoted_ends host b p).map fun {x} hx => ⟨x.2, hx⟩

/-- a fault of the rule that one decision may end with -/
theorem syntactic_of_mayEnd [Monad m] [LawfulMonad m] (host : Host ω m) (b : Binding ω) (rule : String) (e : RuleError)
    (he : e.isSyntactic = true) (h : MayEnd (· = .error e) (permitted host b rule)) :
    (∃ cause, Program.ofText rule = .error cause ∧ e = .unbalanced cause) ∨
    ∃ p i, Program.ofText rule = .ok p ∧ Program.firstStarved? p.instructions = some i ∧ e = .missingOperand := by
  cases hp : Program.ofText rule with
  | error cause =>
    rw [permitted_of_imbalance host b rule cause hp] at h
    obtain ⟨r, hr, hthrown⟩ := h.exists (SatisfiesM.pure (p := (· = .error (.unbalanced cause))) rfl)
    rw [hr] at hthrown
    exact .inl ⟨cause, rfl, Except.error.inj hthrown⟩
  | ok p =>
    obtain ⟨r, rfl, notes, hends⟩ := h.exists (permitted_ends host b rule p hp)
    obtain ⟨hmissing, i, hi⟩ := hends.firstStarved?_of_syntactic he
    exact .inr ⟨p, i, rfl, hi, hmissing⟩

/-- a rule that may come to a value has a program in which no operator starves -/
theorem program_of_mayEnd [Monad m] [LawfulMonad m] (host : Host ω m) (b : Binding ω) (rule : String) (v : Bool)
    (h : MayEnd (· = .ok v) (permitted host b rule)) :
    ∃ p, Program.ofText rule = .ok p ∧ Program.firstStarved? p.instructions = none := by
  cases hp : Program.ofText rule with
  | error cause =>
    rw [permitted_of_imbalance host b rule cause hp] at h
    obtain ⟨r, hr, hthrown⟩ := h.exists (SatisfiesM.pure (p := (· = .error (.unbalanced cause))) rfl)
    rw [hr] at hthrown
    cases hthrown
  | ok p =>
    obtain ⟨r, rfl, notes, hends⟩ := h.exists (permitted_ends host b rule p hp)
    exact ⟨p, rfl, hends.firstStarved?_of_ok⟩

/-- **Faults of the text.** Take two decisions of one rule text, each under its own binding and with objects of its own
kind, which may do anything when asked. If the first may end with an error that marks the rule as wrong, then the second
never comes to a value. If that error is an imbalance of brackets, the second always ends with it. If it is a missing
operand, the text has a program with an operator that starves, and the second ends with the missing operand, or with an
error of another kind of a call that stands before the first such operator and was carried out as the last one. If the
first may come to a value, the second never ends with an error that marks the rule as wrong. -/
theorem faults_of_text [Monad m] [LawfulMonad m] [Monad m'] [LawfulMonad m'] (host : Host ω m) (host' : Host ω' m')
    (b : Binding ω) (d : Binding ω') (rule : String) :
    (∀ e, e.isSyntactic = true → MayEnd (· = .error e) (permitted host b rule) →
      SatisfiesM (fun r => ∀ v, r ≠ .ok v) (permitted host' d rule).run ∧
      (permitted host' d rule = throw e ∨
        e = .missingOperand ∧ ∃ p i, Program.ofText rule = .ok p ∧ Program.firstStarved? p.instructions = some i ∧
          Prod.fst <$> p.evaluateNoted host' d = (permitted host' d rule).run ∧
          SatisfiesM (fun x => x.1 = .error .missingOperand ∨
            ∃ done c rest err, p.instructions = done ++ .call c :: rest ∧ done.length < i ∧
              err.isSyntactic = false ∧ x.1 = .error err ∧ x.2 = done.map (·, none) ++ [(.call c, some err)])
            (p.evaluateNoted host' d))) ∧
    ∀ v, MayEnd (· = .ok v) (permitted host b rule) →
      SatisfiesM (fun r => ∀ e, r = .error e → e.isSyntactic = false) (permitted host' d rule).run := by
  refine ⟨fun e he hmay => ?_, fun v hmay => ?_⟩
  · rcases syntactic_of_mayEnd host b rule e he hmay with ⟨cause, hp, rfl⟩ | ⟨p, i, hp, hi, rfl⟩
    · rw [permitted_of_imbalance host' d rule cause hp]
      exact ⟨SatisfiesM.pure nofun, .inl rfl⟩
    · have hnotes := (Program.evaluateNoted_ends host' d p).imp fun {x} hx => hx.of_starved i hi
      have hpermitted : Prod.fst <$> p.evaluateNoted host' d = (permitted host' d rule).run := by
        rw [permitted_of_program host' d rule p hp, Program.fst_evaluateNoted]
      refine ⟨?_, .inr ⟨rfl, p, i, hp, hi, hpermitted, hnotes⟩⟩
      rw [← hpermitted]
      refine hnotes.map fun {x} hx v hv => ?_
      rcases hx with hmissing | ⟨_, _, _, err, _, _, _, herr, _⟩
      · rw [hmissing] at hv
        cases hv
      · rw [herr] at hv
        cases hv
  · obtain ⟨p, hp, hnone⟩ := program_of_mayEnd host b rule v hmay
    refine (permitted_ends host' d rule p hp).imp fun {r} hr => ?_
    obtain ⟨notes, hends⟩ := hr
    exact hends.not_syntactic hnone

/-- the gate is open, and nothing else is known -/
def openGate : Binding FactTable := .ofList [("gate", .bool true)]

/-- an operand is missing where the gate is known, and the gate where it is not; a bracket too many is found either way;
and where the gate alone is asked for, neither binding makes it a fault of the rule -/
theorem faults_of_text_at_gate :
    (permitted FactFile.host openGate "gate and").run = .error .missingOperand ∧
    (permitted FactFile.host .empty "gate and").run = .error (.unbound "gate") ∧
    (∀ v, (permitted FactFile.host .empty "gate and").run ≠ .ok v) ∧
    permitted FactFile.host .empty "gate)" = throw (.unbalanced .tooManyClose) ∧
    ∀ e, (permitted FactFile.host .empty "gate").run = .error e → e.isSyntactic = false := by
  have hand : Program.ofText "gate and" = .ok ⟨[.call Program.gateOpen, .operator .and]⟩ := by decide
  have hclose : Program.ofText "gate)" = .error .tooManyClose := by decide
  have hgate : Program.ofText "gate" = .ok ⟨[.call Program.gateOpen]⟩ := by decide
  have hmissing : (permitted FactFile.host openGate "gate and").run = .error .missingOperand := by
    rw [permitted_of_program _ _ _ _ hand]
    rfl
  refine ⟨hmissing, ?_, ?_, ?_, ?_⟩
  · rw [permitted_of_program _ _ _ _ hand]
    rfl
  · obtain ⟨hfault, -⟩ := faults_of_text FactFile.host FactFile.host openGate .empty "gate and"
    obtain ⟨hno, -⟩ := hfault .missingOperand rfl ((mayEnd_iff _ _).2 hmissing)
    exact SatisfiesM_Id_eq.1 hno
  · obtain ⟨hfault, -⟩ := faults_of_text FactFile.host FactFile.host openGate .empty "gate)"
    have hunbalanced : (permitted FactFile.host openGate "gate)").run = .error (.unbalanced .tooManyClose) := by
      rw [permitted_of_imbalance _ _ _ _ hclose]
      rfl
    obtain ⟨-, hsame⟩ := hfault (.unbalanced .tooManyClose) rfl ((mayEnd_iff _ _).2 hunbalanced)
    exact hsame.resolve_right fun h => nomatch h.1
  · obtain ⟨-, hvalue⟩ := faults_of_text FactFile.host FactFile.host openGate .empty "gate"
    have htrue : (permitted FactFile.host openGate "gate").run = .ok true := by
      rw [permitted_of_program _ _ _ _ hgate]
      rfl
    exact SatisfiesM_Id_eq.1 (hvalue true ((mayEnd_iff _ _).2 htrue))

end Rule

end AccessRules
