/-
What the status alone tells. Status 1 is a command that fails, and nothing else. Status 2 is a check whose rule does not
hold, but it is also what refused arguments end with; the two can be told apart by the printed text alone.

- `run_cases`: a command fails, denies, or ends with status 0.
- `status_tells`: each status, as what happened.
- `status_two_is_not_denial`: arguments that are refused have the status of a denial.
-/
import AccessRules.Proofs.CommandLine.Check

namespace AccessRules.CommandLine

/-! ## What can happen -/

/-- a command fails: its rule does not parse, the facts of a check do not load, or its rule is not decided -/
inductive Command.Fails (files : String → Except ReadError ByteArray) : Command → Failure → Prop where
  | parse (rule : String) (format : Format) (cause : Imbalance) (h : Program.ofText rule = .error cause) :
    Fails files (.parse rule format) (.unparsed cause)
  | names (rule : String) (format : Format) (cause : Imbalance) (h : Program.ofText rule = .error cause) :
    Fails files (.names rule format) (.unparsed cause)
  | unloaded (rule path : String) (format : Format) (e : FactsError)
    (h : FactFile.ofContents (files path) = .error e) : Fails files (.check rule path format) (.unloaded path e)
  | undecided (rule path : String) (format : Format) (b : Binding FactTable) (e : RuleError)
    (hb : FactFile.ofContents (files path) = .ok b) (h : FactFile.permitted b rule = .error e) :
    Fails files (.check rule path format) (.undecided rule e)

/-- a command is a check whose facts load and whose rule does not hold over them -/
inductive Command.Denies (files : String → Except ReadError ByteArray) : Command → Prop where
  | check (rule path : String) (format : Format) (b : Binding FactTable)
    (hb : FactFile.ofContents (files path) = .ok b) (h : FactFile.permitted b rule = .ok false) :
    Denies files (.check rule path format)

/-- the arguments are those of a check that denies -/
def IsDenied (files : String → Except ReadError ByteArray) (args : List String) : Prop :=
  ∃ c, Command.ofArguments args = .ok c ∧ c.Denies files

/-- the arguments are refused, or they are those of a command that fails -/
def IsFailure (files : String → Except ReadError ByteArray) (args : List String) : Prop :=
  Command.ofArguments args = .error .refused ∨ ∃ c f, Command.ofArguments args = .ok c ∧ c.Fails files f

/-! ## Commands -/

section Commands

variable {files : String → Except ReadError ByteArray} {c : Command}

theorem run_of_fails {f : Failure} (h : c.Fails files f) : c.run files = .failed f := by
  cases h with
  | parse rule format cause h => simp only [Command.run, h]
  | names rule format cause h => simp only [Command.run, h]
  | unloaded rule path format e h => exact checkRule_of_unloaded rule path format h
  | undecided rule path format b e hb h => exact checkRule_of_undecided rule path format hb h

theorem run_of_denies (h : c.Denies files) : (c.run files).status = 2 ∧ (c.run files).stdout ≠ "" := by
  obtain ⟨rule, path, format, b, hb, hp⟩ := h
  rw [Command.run, checkRule_of_decided rule path format hb hp]
  refine ⟨rfl, fun hempty => ?_⟩
  have hreports : Reports rule false "" format := hempty ▸ reports_printDecision rule false format
  cases format with
  | text =>
    have hprinted : "" = "denied\n" := hreports
    exact absurd hprinted (by decide)
  | json =>
    have hread : Json.read "" = .error .endsEarly := rfl
    cases hread.symm.trans hreports

theorem run_cases (files : String → Except ReadError ByteArray) (c : Command) :
    (∃ f, c.Fails files f) ∨ c.Denies files ∨ (c.run files).status = 0 := by
  cases c with
  | tokenize rule format => exact .inr (.inr rfl)
  | parse rule format =>
    cases hp : Program.ofText rule with
    | error cause => exact .inl ⟨_, .parse rule format cause hp⟩
    | ok p => exact .inr (.inr (by simp only [Command.run, hp, Outcome.done]))
  | names rule format =>
    cases hp : Program.ofText rule with
    | error cause => exact .inl ⟨_, .names rule format cause hp⟩
    | ok p => exact .inr (.inr (by simp only [Command.run, hp, Outcome.done]))
  | check rule path format =>
    cases hb : FactFile.ofContents (files path) with
    | error e => exact .inl ⟨_, .unloaded rule path format e hb⟩
    | ok b =>
      cases hp : FactFile.permitted b rule with
      | error e => exact .inl ⟨_, .undecided rule path format b e hb hp⟩
      | ok holds =>
        cases holds with
        | false => exact .inr (.inl (.check rule path format b hb hp))
        | true =>
          refine .inr (.inr ?_)
          rw [Command.run, checkRule_of_decided rule path format hb hp]
          rfl

end Commands

/-! ## Arguments -/

section Arguments

variable {files : String → Except ReadError ByteArray} {args : List String}

theorem status_of_isDenied (h : IsDenied files args) : (run files args).status = 2 ∧ (run files args).stdout ≠ "" := by
  obtain ⟨c, hc, hdenies⟩ := h
  rw [run_of_command files hc]
  exact run_of_denies hdenies

theorem status_of_fails {c : Command} {f : Failure} (hc : Command.ofArguments args = .ok c) (hf : c.Fails files f) :
    run files args = ⟨1, "", f.chain⟩ :=
  (run_of_command files hc).trans (run_of_fails hf)

/-- refused arguments, a failing command, a denial, or status 0 -/
theorem run_arguments_cases (files : String → Except ReadError ByteArray) (args : List String) :
    Command.ofArguments args = .error .refused ∨ (∃ c f, Command.ofArguments args = .ok c ∧ c.Fails files f) ∨
      IsDenied files args ∨ (run files args).status = 0 := by
  cases hc : Command.ofArguments args with
  | error stop =>
    cases stop with
    | refused => exact .inl rfl
    | help =>
      refine .inr (.inr (.inr ?_))
      rw [run, hc]
      rfl
  | ok c =>
    rcases run_cases files c with ⟨f, hf⟩ | hdenies | hzero
    · exact .inr (.inl ⟨c, f, rfl, hf⟩)
    · exact .inr (.inr (.inl ⟨c, hc, hdenies⟩))
    · exact .inr (.inr (.inr (by rw [run_of_command files hc, hzero])))

theorem status_eq_two_iff :
    (run files args).status = 2 ↔ IsDenied files args ∨ Command.ofArguments args = .error .refused := by
  constructor
  · intro h
    rcases run_arguments_cases files args with hrefused | ⟨c, f, hc, hf⟩ | hdenied | hzero
    · exact .inr hrefused
    · rw [status_of_fails hc hf] at h
      cases h
    · exact .inl hdenied
    · cases hzero.symm.trans h
  · rintro (hdenied | hrefused)
    · exact (status_of_isDenied hdenied).1
    · rw [run_refused files hrefused]

theorem status_eq_one_iff :
    (run files args).status = 1 ↔ ∃ c f, Command.ofArguments args = .ok c ∧ c.Fails files f := by
  constructor
  · intro h
    rcases run_arguments_cases files args with hrefused | hfails | hdenied | hzero
    · rw [run_refused files hrefused] at h
      cases h
    · exact hfails
    · cases (status_of_isDenied hdenied).1.symm.trans h
    · cases hzero.symm.trans h
  · rintro ⟨c, f, hc, hf⟩
    rw [status_of_fails hc hf]

/-- the status keeps denials apart: it is 2 for nothing else, and 1 for whatever else goes wrong -/
def KeepsDenialsApart (files : String → Except ReadError ByteArray) (args : List String) : Prop :=
  ((run files args).status = 2 → IsDenied files args) ∧ (IsFailure files args → (run files args).status = 1)

theorem keepsDenialsApart_iff : KeepsDenialsApart files args ↔ Command.ofArguments args ≠ .error .refused := by
  constructor
  · rintro ⟨-, hfailure⟩ hrefused
    have hone := hfailure (.inl hrefused)
    rw [run_refused files hrefused] at hone
    cases hone
  · intro haccepted
    refine ⟨fun h => ?_, ?_⟩
    · exact (status_eq_two_iff.1 h).resolve_right haccepted
    · rintro (hrefused | hfails)
      · exact absurd hrefused haccepted
      · exact status_eq_one_iff.2 hfails

end Arguments

/-- **What a status tells.** Status 1 is a command that fails: a rule that does not parse, facts that do not load, a rule
that is not decided. Status 2 is a denial, or arguments that are refused; of these two a denial alone prints something.
Any other status is 0. So the status keeps denials apart from all that goes wrong exactly for the arguments that are not
refused. -/
theorem status_tells (files : String → Except ReadError ByteArray) (args : List String) :
    ((run files args).status = 1 ↔ ∃ c f, Command.ofArguments args = .ok c ∧ c.Fails files f) ∧
    ((run files args).status = 2 ↔ IsDenied files args ∨ Command.ofArguments args = .error .refused) ∧
    ((run files args).status = 2 → (IsDenied files args ↔ (run files args).stdout ≠ "")) ∧
    (run files args).status ≤ 2 ∧
    (KeepsDenialsApart files args ↔ Command.ofArguments args ≠ .error .refused) := by
  refine ⟨status_eq_one_iff, status_eq_two_iff, fun htwo => ?_, ?_, keepsDenialsApart_iff⟩
  · refine ⟨fun h => (status_of_isDenied h).2, fun hprinted => ?_⟩
    rcases status_eq_two_iff.1 htwo with hdenied | hrefused
    · exact hdenied
    · rw [run_refused files hrefused] at hprinted
      exact absurd rfl hprinted
  · rcases run_arguments_cases files args with hrefused | ⟨c, f, hc, hf⟩ | hdenied | hzero
    · rw [run_refused files hrefused]
    · exact (congrArg Outcome.status (status_of_fails hc hf)).le.trans (Nat.le_succ 1)
    · exact (status_of_isDenied hdenied).1.le
    · exact hzero.le.trans (by decide)

/-- a check without a path is refused with the status of a denial, over any files -/
theorem status_two_is_not_denial :
    ¬ ∀ (files : String → Except ReadError ByteArray) (args : List String), KeepsDenialsApart files args := by
  intro h
  have hrefused := ofArguments_check_alone "page allow user edit" rfl
  exact keepsDenialsApart_iff.1 (h (fun _ => .error .notFound) ["check", "page allow user edit"]) hrefused

end AccessRules.CommandLine
