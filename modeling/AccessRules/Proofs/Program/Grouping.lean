/-
Brackets that change nothing. Brackets around what a level begins with leave no trace in the program: behind them the
builder is where it would be without them, save that an operator which waits inside is let out by the closing bracket
instead of by what comes next. What comes next lets it out in any case, as long as it is an operator, a closing bracket
or the end.

- `finish_settle`, `step_closing_settle`, `step_operator_settle`: letting the waiting operator out early makes no
  difference at the end, to a closing bracket and to an operator.
- `completeWith_group`: a builder at the beginning of a level, with brackets around balanced tokens and without.
- `ofTokens_leading_group`: the law for token lists, with its two uses.
-/
import AccessRules.Proofs.Program.Levels

namespace AccessRules

/-! ## Letting the waiting operator out -/

namespace Builder

theorem settle_run (b : Builder) : b.settle.run = [] := by
  unfold settle releaseOperator
  split <;> exact b.endRun_run

theorem endRun_settle (b : Builder) : b.settle.endRun = b.settle := b.settle.endRun_of_no_run b.settle_run

theorem closeAll_releaseOperator (b : Builder) :
    closeAll b.releaseOperator.output b.releaseOperator.pending = closeAll b.output b.pending := by
  unfold releaseOperator
  split
  · rename_i op rest hp
    rw [hp]
    rfl
  · rfl

theorem closeLevel_releaseOperator (b : Builder) :
    closeLevel b.releaseOperator.output b.releaseOperator.pending = closeLevel b.output b.pending := by
  unfold releaseOperator
  split
  · rename_i op rest hp
    rw [hp]
    rfl
  · rfl

theorem finish_settle (b : Builder) : b.settle.finish = b.finish := by
  rw [finish, endRun_settle, settle, closeAll_releaseOperator]
  rfl

theorem step_closing_settle (b : Builder) : b.settle.step .closing = b.step .closing := by
  rw [step_closing, step_closing, endRun_settle, settle_run, endRun_run, settle, closeLevel_releaseOperator]

/-- no run is open, and nothing waits above the nearest open bracket -/
def AtLevelStart (b : Builder) : Prop := b.run = [] ∧ ∀ op, b.pending.head? ≠ some (.operator op)

theorem settle_of_atLevelStart (b : Builder) (h : b.AtLevelStart) : b.settle = b := by
  obtain ⟨output, pending, run⟩ := b
  obtain ⟨rfl, hpending⟩ := h
  exact settle_waiting output none pending hpending

theorem step_operator_settle (b : Builder) (op : Operator) (h : b.settle.AtLevelStart) :
    b.settle.step (.str op.text) = b.step (.str op.text) := by
  have hsettle : b.settle.endRun.releaseOperator = b.endRun.releaseOperator := b.settle.settle_of_atLevelStart h
  rw [step_operator, step_operator, hsettle]

/-! ## The rest of the tokens -/

/-- read the tokens that are left, and finish -/
def completeWith (b : Builder) (ts : List Token) : Except Imbalance Program :=
  match b.read ts with
  | .ok b => b.finish
  | .error e => .error e

theorem completeWith_append (b b' : Builder) (ts us : List Token) (h : b.read ts = .ok b') :
    b.completeWith (ts ++ us) = b'.completeWith us := by
  simp only [completeWith, read_append, h]

theorem completeWith_cons (b b' : Builder) (t : Token) (ts : List Token) (h : b.step t = .ok b') :
    b.completeWith (t :: ts) = b'.completeWith ts := by
  simp only [completeWith, read, h]

end Builder

namespace Program

/-- tokens behind which a level begins: none, or those that end with an opening bracket -/
def BeginsLevel (ts : List Token) : Prop := ts = [] ∨ ∃ before, ts = before ++ [.opening]

/-- tokens that end a sequence: none, or those that begin with an operator or a closing bracket -/
def EndsSequence (ts : List Token) : Prop :=
  ts = [] ∨ (∃ op more, ts = .str (Operator.text op) :: more) ∨ ∃ more, ts = .closing :: more

end Program

open Program

namespace Builder

theorem atLevelStart_of_read (b : Builder) (ts : List Token) (hts : BeginsLevel ts) (h : start.read ts = .ok b) :
    b.AtLevelStart := by
  rcases hts with rfl | ⟨before, rfl⟩
  · obtain rfl : start = b := Except.ok.inj h
    exact ⟨rfl, by simp [start]⟩
  · rw [read_append] at h
    cases hbefore : start.read before with
    | error e => simp [hbefore] at h
    | ok b' =>
      rw [hbefore] at h
      simp only [read, step_opening, Except.ok.injEq] at h
      rw [← h]
      exact ⟨b'.endRun_run, by simp⟩

/-- what ends a sequence lets the waiting operator out by itself -/
theorem completeWith_settle (b : Builder) (h : b.settle.AtLevelStart) (rest : List Token) (hrest : EndsSequence rest) :
    b.settle.completeWith rest = b.completeWith rest := by
  rcases hrest with rfl | ⟨op, more, rfl⟩ | ⟨more, rfl⟩
  · exact b.finish_settle
  · simp only [completeWith, read, b.step_operator_settle op h]
  · simp only [completeWith, read, b.step_closing_settle]

/-- **Brackets around what a level begins with.** Both ways the builder settles with the instructions of the level
inside written down and with the same things waiting. -/
theorem completeWith_group (b : Builder) (hb : b.AtLevelStart) (mid rest : List Token)
    (hmid : Balance.IsBalanced mid) (hrest : EndsSequence rest) :
    b.completeWith (.opening :: (mid ++ .closing :: rest)) = b.completeWith (mid ++ rest) := by
  obtain ⟨l, ⟨hl, rfl⟩, -⟩ := (Level.isBalanced_iff_existsUnique mid).1 hmid
  obtain ⟨output, pending, run⟩ := b
  obtain ⟨rfl, hpending⟩ := hb
  obtain ⟨inside, hinside, hsettle⟩ := settle_read_tokens l hl output none (.bracket :: pending) (by simp)
  obtain ⟨bare, hbare, hs⟩ := settle_read_tokens l hl output none pending hpending
  have hstart : bare.settle.AtLevelStart := hs ▸ ⟨rfl, hpending⟩
  calc completeWith ⟨output, pending, []⟩ (.opening :: (l.tokens ++ .closing :: rest))
      = completeWith ⟨output, .bracket :: pending, []⟩ (l.tokens ++ .closing :: rest) :=
        completeWith_cons _ _ .opening _ (step_opening _)
    _ = inside.completeWith (.closing :: rest) := completeWith_append _ inside l.tokens _ hinside
    _ = bare.settle.completeWith rest := by
        rw [hs]
        exact completeWith_cons _ _ .closing rest (step_closing_of_settle inside _ _ hsettle)
    _ = bare.completeWith rest := bare.completeWith_settle hstart rest hrest
    _ = completeWith ⟨output, pending, []⟩ (l.tokens ++ rest) := (completeWith_append _ bare l.tokens rest hbare).symm

end Builder

namespace Program

/-! ## Token lists -/

theorem ofTokens_group (pre mid rest : List Token) (hpre : BeginsLevel pre) (hmid : Balance.IsBalanced mid)
    (hrest : EndsSequence rest) :
    ofTokens (pre ++ (.opening :: mid ++ [.closing]) ++ rest) = ofTokens (pre ++ mid ++ rest) := by
  have hgroup : pre ++ (.opening :: mid ++ [.closing]) ++ rest = pre ++ .opening :: (mid ++ .closing :: rest) := by simp
  rw [hgroup, List.append_assoc]
  cases hread : Builder.start.read pre with
  | error e => simp only [ofTokens, Builder.read_append, hread]
  | ok b =>
    have hstart := b.atLevelStart_of_read pre hpre hread
    calc Builder.start.completeWith (pre ++ .opening :: (mid ++ .closing :: rest))
        = b.completeWith (.opening :: (mid ++ .closing :: rest)) := Builder.completeWith_append _ b pre _ hread
      _ = b.completeWith (mid ++ rest) := b.completeWith_group hstart mid rest hmid hrest
      _ = Builder.start.completeWith (pre ++ (mid ++ rest)) := (Builder.completeWith_append _ b pre _ hread).symm

/-- tokens in `n` pairs of brackets -/
def nested (n : Nat) (ts : List Token) : List Token :=
  List.replicate n .opening ++ ts ++ List.replicate n .closing

theorem nested_succ (n : Nat) (ts : List Token) : nested (n + 1) ts = .opening :: nested n ts ++ [.closing] := by
  rw [nested, nested, List.replicate_succ, List.replicate_succ']
  simp

theorem isBalanced_nested (n : Nat) (ts : List Token) (h : Balance.IsBalanced ts) :
    Balance.IsBalanced (nested n ts) := by
  induction n with
  | zero => simpa [nested] using h
  | succ n ih =>
    rw [nested_succ]
    exact ih.inBrackets

/-- parts with operators between them -/
def chained (first : List Token) (more : List (Operator × List Token)) : List Token :=
  first ++ more.flatMap fun c => .str c.1.text :: c.2

/-- the same with brackets around all that stands before an operator and its right part, again and again -/
def grouped : List Token → List (Operator × List Token) → List Token
  | first, [] => first
  | first, (op, ts) :: more => grouped (.opening :: (first ++ .str op.text :: ts) ++ [.closing]) more

theorem chained_cons (first ts : List Token) (op : Operator) (more : List (Operator × List Token)) :
    chained first ((op, ts) :: more) = chained (first ++ .str op.text :: ts) more := by
  simp [chained]

theorem isBalanced_joined (op : Operator) (ts us : List Token) (ht : Balance.IsBalanced ts)
    (hu : Balance.IsBalanced us) : Balance.IsBalanced (ts ++ .str op.text :: us) := by
  have hop : Balance.IsBalanced [.str op.text] := Level.tokens_isBalanced (.operator op .nil) trivial
  exact ht.append (hop.append hu)

theorem endsSequence_chain (more : List (Operator × List Token)) (rest : List Token) (h : EndsSequence rest) :
    EndsSequence ((more.flatMap fun c => .str c.1.text :: c.2) ++ rest) := by
  cases more with
  | nil => exact h
  | cons c more => exact .inr (.inl ⟨c.1, _, rfl⟩)

theorem ofTokens_nested (n : Nat) (pre mid rest : List Token) (hpre : BeginsLevel pre) (hmid : Balance.IsBalanced mid)
    (hrest : EndsSequence rest) : ofTokens (pre ++ nested n mid ++ rest) = ofTokens (pre ++ mid ++ rest) := by
  induction n with
  | zero => simp [nested]
  | succ n ih => rw [nested_succ, ofTokens_group pre _ rest hpre (isBalanced_nested n mid hmid) hrest, ih]

/-- each pair of brackets, from the outermost one in, stands around what its level begins with -/
theorem ofTokens_grouped (pre first rest : List Token) (more : List (Operator × List Token)) (hpre : BeginsLevel pre)
    (hfirst : Balance.IsBalanced first) (hmore : ∀ c ∈ more, Balance.IsBalanced c.2) (hrest : EndsSequence rest) :
    ofTokens (pre ++ grouped first more ++ rest) = ofTokens (pre ++ chained first more ++ rest) := by
  induction more generalizing first with
  | nil => simp [grouped, chained]
  | cons c more ih =>
    obtain ⟨op, ts⟩ := c
    have hjoined := isBalanced_joined op first ts hfirst (hmore (op, ts) List.mem_cons_self)
    have hgrouped := ih _ hjoined.inBrackets fun d hd => hmore d (List.mem_cons_of_mem _ hd)
    have hbrackets := ofTokens_group pre _ _ hpre hjoined (endsSequence_chain more rest hrest)
    rw [grouped, hgrouped, chained_cons, chained, chained]
    simpa only [List.append_assoc] using hbrackets

/-- **Brackets around a leading group.** Where a level begins, brackets around balanced tokens change nothing if the
sequence ends behind them: the program is the same, or the same imbalance is found. So it is with any number of
brackets around them, and with brackets that spell out how operators group to the left. -/
theorem ofTokens_leading_group (pre mid rest : List Token) (hpre : BeginsLevel pre) (hmid : Balance.IsBalanced mid)
    (hrest : EndsSequence rest) :
    ofTokens (pre ++ [.opening] ++ mid ++ [.closing] ++ rest) = ofTokens (pre ++ mid ++ rest) ∧
    (∀ n, ofTokens (pre ++ nested n mid ++ rest) = ofTokens (pre ++ mid ++ rest)) ∧
    ∀ more : List (Operator × List Token), (∀ c ∈ more, Balance.IsBalanced c.2) →
      ofTokens (pre ++ grouped mid more ++ rest) = ofTokens (pre ++ chained mid more ++ rest) := by
  refine ⟨?_, fun n => ofTokens_nested n pre mid rest hpre hmid hrest,
    fun more hmore => ofTokens_grouped pre mid rest more hpre hmid hmore hrest⟩
  rw [← ofTokens_group pre mid rest hpre hmid hrest]
  simp

/-- brackets around an operator without operands, in a rule that lacks a bracket and in one that does not; and the
grouping of `a and b or c` spelled out -/
theorem ofTokens_leading_group_of_rules :
    ofTokens (tokenize "((and) or b") = ofTokens (tokenize "(and or b") ∧
    ofTokens (tokenize "((and)) or b") = ofTokens (tokenize "and or b") ∧
    ofTokens (tokenize "((a and b) or c)") = ofTokens (tokenize "a and b or c") := by
  have hand : Balance.IsBalanced [.str "and"] := Level.tokens_isBalanced (.operator .and .nil) trivial
  have hname (name : String) (h : (Token.str name).role = .plain) : Balance.IsBalanced [.str name] :=
    Level.tokens_isBalanced (.run ⟨.str name, []⟩ .nil) ⟨by simpa [Call.tokens] using h, rfl, trivial⟩
  have hrest : EndsSequence [.str "or", .str "b"] := .inr (.inl ⟨.or, [.str "b"], rfl⟩)
  obtain ⟨hone, -, -⟩ :=
    ofTokens_leading_group [.opening] [.str "and"] [.str "or", .str "b"] (.inr ⟨[], rfl⟩) hand hrest
  obtain ⟨-, hnested, -⟩ := ofTokens_leading_group [] [.str "and"] [.str "or", .str "b"] (.inl rfl) hand hrest
  obtain ⟨-, -, hgrouped⟩ := ofTokens_leading_group [] [.str "a"] [] (.inl rfl) (hname "a" (by decide)) (.inl rfl)
  refine ⟨hone, hnested 2, hgrouped [(.and, [.str "b"]), (.or, [.str "c"])] ?_⟩
  intro c hc
  rcases List.mem_pair.1 hc with rfl | rfl
  · exact hname "b" (by decide)
  · exact hname "c" (by decide)

end Program

end AccessRules
