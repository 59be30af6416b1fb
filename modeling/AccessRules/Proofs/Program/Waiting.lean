/-
Operators that wait. An operator lets out one operator before it waits itself, and that is enough: of what waits in the
builder no operator ever stands right behind another, so that the one on top is all that waits on its level. This is what
makes `and` and `or` group to the left with equal strength.

The invariant is kept by every token, whatever part it plays and wherever it stands; all else follows from it.

- `exists_waiting`: what waits above the nearest open bracket is one operator at most.
- `step_operator_of_apart`, `step_closing_of_apart`, `finish_of_apart`: what an operator, a closing bracket and the end
  let out.
- `standing_step`, `standing_read`: the invariant, by one token and by a token list.
- `operators_wait_apart`: the invariant with its consequences.
-/
import Mathlib.Data.List.DropRight
import AccessRules.Proofs.Program.Grouping

namespace AccessRules.Builder

/-! ## Operators that are apart -/

/-- of two that wait right behind one another, one is a bracket -/
def OperatorsApart (pending : List Pending) : Prop := pending.IsChain fun p q => p = .bracket ∨ q = .bracket

/-- number of operators that wait -/
def operatorsWaiting (b : Builder) : Nat := b.pending.countP fun p => p ≠ .bracket

theorem OperatorsApart.head?_ne {op : Operator} {rest : List Pending} (h : OperatorsApart (.operator op :: rest)) :
    ∀ op', rest.head? ≠ some (.operator op') := by
  intro op' hhead
  rcases (List.isChain_cons.1 h).1 _ hhead with hp | hp
  · cases hp
  · cases hp

theorem OperatorsApart.cons_operator (op : Operator) {rest : List Pending} (h : OperatorsApart rest)
    (hrest : ∀ op', rest.head? ≠ some (.operator op')) : OperatorsApart (.operator op :: rest) := by
  refine List.isChain_cons.2 ⟨fun q hq => ?_, h⟩
  cases q with
  | bracket => exact .inr rfl
  | operator op' => exact absurd hq (hrest op')

theorem OperatorsApart.cons_bracket {rest : List Pending} (h : OperatorsApart rest) :
    OperatorsApart (.bracket :: rest) :=
  List.isChain_cons.2 ⟨fun _ _ => .inl rfl, h⟩

theorem OperatorsApart.tail {p : Pending} {rest : List Pending} (h : OperatorsApart (p :: rest)) : OperatorsApart rest :=
  List.IsChain.tail h

theorem OperatorsApart.of_append {front rest : List Pending} (h : OperatorsApart (front ++ rest)) :
    OperatorsApart rest :=
  List.IsChain.right_of_append h

/-- above the nearest open bracket waits one operator at most -/
theorem OperatorsApart.exists_waiting {pending : List Pending} (h : OperatorsApart pending) :
    ∃ w rest, pending = waiting w ++ rest ∧ ∀ op, rest.head? ≠ some (.operator op) := by
  cases pending with
  | nil => exact ⟨none, [], rfl, nofun⟩
  | cons p rest =>
    cases p with
    | bracket => exact ⟨none, .bracket :: rest, rfl, by simp⟩
    | operator op => exact ⟨some op, rest, rfl, h.head?_ne⟩

/-- below a bracket, and at the bottom, there are no more operators than brackets; an operator on top is one more -/
theorem OperatorsApart.countP_le {pending : List Pending} (h : OperatorsApart pending) :
    (pending.countP fun p => p ≠ .bracket) ≤ pending.count .bracket + 1 ∧
    ((∀ op, pending.head? ≠ some (.operator op)) → (pending.countP fun p => p ≠ .bracket) ≤ pending.count .bracket) := by
  induction pending with
  | nil => exact ⟨Nat.zero_le 1, fun _ => le_rfl⟩
  | cons p rest ih =>
    obtain ⟨hle, htop⟩ := ih h.tail
    cases p with
    | bracket =>
      have hcount : ((.bracket :: rest).countP fun p => p ≠ .bracket) ≤ (.bracket :: rest).count .bracket := by
        rw [List.countP_cons_of_neg (by simp), List.count_cons_self]
        exact hle
      exact ⟨Nat.le_succ_of_le hcount, fun _ => hcount⟩
    | operator op =>
      refine ⟨?_, fun hhead => absurd rfl (hhead op)⟩
      rw [List.countP_cons_of_pos (by simp), List.count_cons_of_ne (by simp)]
      exact Nat.succ_le_succ (htop h.head?_ne)

theorem operatorsWaiting_le (b : Builder) (h : OperatorsApart b.pending) : b.operatorsWaiting ≤ b.unclosed + 1 :=
  h.countP_le.1

/-! ## What is let out -/

theorem endRun_eq (b : Builder) : b.endRun = ⟨b.endRun.output, b.pending, []⟩ := by
  rw [← endRun_pending, ← endRun_run]

/-- ending the run puts down its call, if there is a run, and no operator -/
theorem endRun_output (b : Builder) :
    b.endRun.output = b.output ∨ ∃ c, b.endRun.output = .call c :: b.output := by
  unfold endRun
  split
  · exact .inr ⟨_, rfl⟩
  · exact .inl rfl

/-- an operator lets out what waits on its level, and waits on top of what is below -/
theorem step_operator_of_waiting (b : Builder) (op : Operator) (w : Option Operator) (rest : List Pending)
    (hb : b.pending = waiting w ++ rest) (hrest : ∀ op', rest.head? ≠ some (.operator op')) :
    b.step (.str op.text) = .ok ⟨late w ++ b.endRun.output, .operator op :: rest, []⟩ := by
  have hsettle : b.endRun.releaseOperator = ⟨(late w).reverse ++ b.endRun.output, rest, []⟩ := by
    rw [endRun_eq, hb, ← settle_waiting b.endRun.output w rest hrest]
    rfl
  have hlate : (late w).reverse = late w := by cases w <;> rfl
  rw [step_operator, hsettle, hlate]

theorem closeLevel_waiting (output : List Instruction) (w : Option Operator) (rest : List Pending) :
    closeLevel output (waiting w ++ .bracket :: rest) = .ok (late w ++ output, rest) := by
  cases w <;> rfl

theorem closeLevel_only_waiting (output : List Instruction) (w : Option Operator) :
    closeLevel output (waiting w) = .error .tooManyClose := by
  cases w <;> rfl

theorem closeAll_waiting (output : List Instruction) (w : Option Operator) :
    closeAll output (waiting w) = .ok (late w ++ output) := by
  cases w <;> rfl

theorem closeAll_waiting_bracket (output : List Instruction) (w : Option Operator) (rest : List Pending) :
    closeAll output (waiting w ++ .bracket :: rest) = .error .missingClose := by
  cases w <;> rfl

/-- what waits either stands on an open bracket or is all there is, and is one operator at most in both cases -/
theorem OperatorsApart.waiting_cases {pending : List Pending} (h : OperatorsApart pending) :
    (∃ w, pending = waiting w) ∨ ∃ w base, pending = waiting w ++ .bracket :: base := by
  obtain ⟨w, rest, rfl, hrest⟩ := h.exists_waiting
  cases rest with
  | nil => exact .inl ⟨w, List.append_nil _⟩
  | cons p base =>
    cases p with
    | bracket => exact .inr ⟨w, base, rfl⟩
    | operator op => exact absurd rfl (hrest op)

theorem step_operator_of_apart (b : Builder) (h : OperatorsApart b.pending) (op : Operator) :
    ∃ w rest, b.pending = waiting w ++ rest ∧ (∀ op', rest.head? ≠ some (.operator op')) ∧
      b.step (.str op.text) = .ok ⟨late w ++ b.endRun.output, .operator op :: rest, []⟩ := by
  obtain ⟨w, rest, hb, hrest⟩ := h.exists_waiting
  exact ⟨w, rest, hb, hrest, b.step_operator_of_waiting op w rest hb hrest⟩

theorem step_closing_of_apart (b b' : Builder) (h : OperatorsApart b.pending) (hb : b.step .closing = .ok b') :
    ∃ w, b.pending = waiting w ++ .bracket :: b'.pending ∧ b'.output = late w ++ b.endRun.output ∧ b'.run = [] := by
  rw [step_closing, endRun_pending, endRun_run] at hb
  rcases h.waiting_cases with ⟨w, hw⟩ | ⟨w, base, hw⟩
  · rw [hw, closeLevel_only_waiting] at hb
    cases hb
  · rw [hw, closeLevel_waiting] at hb
    obtain rfl := Except.ok.inj hb
    exact ⟨w, hw, rfl, rfl⟩

theorem finish_of_apart (b : Builder) (p : Program) (h : OperatorsApart b.pending) (hp : b.finish = .ok p) :
    ∃ w, b.pending = waiting w ∧ p.instructions = b.endRun.output.reverse ++ late w := by
  simp only [finish, endRun_pending] at hp
  rcases h.waiting_cases with ⟨w, hw⟩ | ⟨w, base, hw⟩
  · rw [hw, closeAll_waiting] at hp
    obtain rfl := Except.ok.inj hp
    refine ⟨w, hw, ?_⟩
    cases w <;> simp [late]
  · rw [hw, closeAll_waiting_bracket] at hp
    cases hp

/-! ## The invariant -/

/-- what holds of a builder that has read `ts` -/
structure Standing (ts : List Token) (b : Builder) : Prop where
  apart : OperatorsApart b.pending
  /-- the brackets that wait are those that were opened and not closed -/
  unclosed : b.unclosed + Balance.closes ts = Balance.opens ts
  /-- the open run is the plain tokens at the end -/
  run : b.run.reverse = ts.rtakeWhile Token.isPlain

theorem standing_start : Standing [] start := ⟨List.isChain_nil, rfl, rfl⟩

/-- no token leaves an operator right behind another -/
theorem operatorsApart_step (b b' : Builder) (t : Token) (h : OperatorsApart b.pending) (hb : b.step t = .ok b') :
    OperatorsApart b'.pending := by
  cases hr : t.role with
  | plain =>
    rw [step_plain b t hr] at hb
    exact Except.ok.inj hb ▸ h
  | operator op =>
    obtain rfl := (t.role_eq_operator_iff op).1 hr
    -- the one operator that is let out leaves a bracket on top, or nothing
    obtain ⟨w, rest, hw, hrest, hstep⟩ := b.step_operator_of_apart h op
    rw [hstep] at hb
    obtain rfl := Except.ok.inj hb
    rw [hw] at h
    exact h.of_append.cons_operator op hrest
  | opening =>
    obtain rfl := t.role_eq_opening_iff.1 hr
    rw [step_opening, endRun_pending] at hb
    obtain rfl := Except.ok.inj hb
    exact h.cons_bracket
  | closing =>
    obtain rfl := t.role_eq_closing_iff.1 hr
    obtain ⟨w, hw, -, -⟩ := b.step_closing_of_apart b' h hb
    rw [hw] at h
    exact h.of_append.tail

/-- a plain token goes on with the open run, any other ends it -/
theorem run_step (b b' : Builder) (t : Token) (hb : b.step t = .ok b') :
    b'.run = if t.isPlain then t :: b.run else [] := by
  cases hr : t.role with
  | plain =>
    rw [step_plain b t hr] at hb
    obtain rfl := Except.ok.inj hb
    exact (if_pos (t.role_eq_plain_iff.1 hr)).symm
  | operator op =>
    obtain rfl := (t.role_eq_operator_iff op).1 hr
    rw [step_operator] at hb
    obtain rfl := Except.ok.inj hb
    exact b.settle_run.trans (if_neg (by cases op <;> decide)).symm
  | opening =>
    obtain rfl := t.role_eq_opening_iff.1 hr
    rw [step_opening, endRun_run] at hb
    obtain rfl := Except.ok.inj hb
    exact (if_neg (by decide)).symm
  | closing =>
    obtain rfl := t.role_eq_closing_iff.1 hr
    rw [step_closing, endRun_run] at hb
    split at hb
    · obtain rfl := Except.ok.inj hb
      exact (if_neg (by decide)).symm
    · cases hb

/-- **One token keeps the invariant**, whatever part it plays. -/
theorem standing_step (b b' : Builder) (ts : List Token) (t : Token) (h : Standing ts b) (hb : b.step t = .ok b') :
    Standing (ts ++ [t]) b' := by
  refine ⟨operatorsApart_step b b' t h.apart hb, ?_, ?_⟩
  · have hbefore := h.unclosed
    have hcount := unclosed_step b b' t hb []
    have hnil : Balance.opens [] = 0 ∧ Balance.closes [] = 0 := ⟨rfl, rfl⟩
    rw [Balance.opens_append, Balance.closes_append]
    omega
  · rw [run_step b b' t hb, List.rtakeWhile_concat, ← h.run]
    split
    · exact List.reverse_cons
    · rfl

/-- **A run of any length keeps it.** -/
theorem standing_read (ts : List Token) (b : Builder) (h : start.read ts = .ok b) : Standing ts b := by
  induction ts using List.reverseRecOn generalizing b with
  | nil =>
    obtain rfl := Except.ok.inj h
    exact standing_start
  | append_singleton ts t ih =>
    rw [read_append] at h
    cases hts : start.read ts with
    | error e => rw [hts] at h; cases h
    | ok b1 =>
      rw [hts] at h
      cases ht : b1.step t with
      | error e => simp only [read, ht] at h; cases h
      | ok b2 =>
        simp only [read, ht] at h
        obtain rfl := Except.ok.inj h
        exact standing_step b1 b2 ts t (ih b1 hts) ht

theorem Standing.isPlain_of_mem_run {ts : List Token} {b : Builder} (h : Standing ts b) (t : Token) (ht : t ∈ b.run) :
    t.isPlain = true := by
  have hmem : t ∈ ts.rtakeWhile Token.isPlain := h.run ▸ List.mem_reverse.2 ht
  exact List.mem_rtakeWhile_imp hmem

/-- behind a token that is not plain no run is open -/
theorem Standing.run_eq_nil {ts : List Token} {b : Builder} (h : Standing ts b) (t : Token)
    (ht : ts.getLast? = some t) (hp : t.isPlain = false) : b.run = [] := by
  obtain ⟨before, rfl⟩ := List.getLast?_eq_some_iff.1 ht
  have hrun := h.run
  rw [List.rtakeWhile_concat_neg _ _ _ (by simp [hp])] at hrun
  exact List.reverse_eq_nil_iff.1 hrun

/-- **No operator waits behind another.** A builder that has read any tokens, whatever comes after them: of two that wait
right behind one another one is a bracket; the brackets that wait are those that were opened and not closed; the open
run is the plain tokens at the end, so it is plain throughout, and empty behind an operator or a bracket. So there is
one operator more than there are brackets at most. Ending the run puts down one call at most and lets nothing out, and an
operator, a closing bracket that matches one and an end with no open bracket each let out all that waits on their level,
which is one operator at most. -/
theorem operators_wait_apart (ts : List Token) (b : Builder) (h : start.read ts = .ok b) :
    (∀ us, Program.ofTokens (ts ++ us) = b.completeWith us) ∧
    OperatorsApart b.pending ∧
    b.unclosed + Balance.closes ts = Balance.opens ts ∧
    (b.run.reverse = ts.rtakeWhile Token.isPlain ∧ (∀ t ∈ b.run, t.isPlain = true) ∧
      ∀ t, ts.getLast? = some t → t.isPlain = false → b.run = []) ∧
    b.operatorsWaiting ≤ b.unclosed + 1 ∧
    (b.endRun.pending = b.pending ∧ (b.endRun.output = b.output ∨ ∃ c, b.endRun.output = .call c :: b.output)) ∧
    (∀ op, ∃ w rest, b.pending = waiting w ++ rest ∧ (∀ op', rest.head? ≠ some (.operator op')) ∧
      b.step (.str op.text) = .ok ⟨late w ++ b.endRun.output, .operator op :: rest, []⟩) ∧
    (∀ b', b.step .closing = .ok b' → ∃ w, b.pending = waiting w ++ .bracket :: b'.pending ∧
      b'.output = late w ++ b.endRun.output ∧ b'.run = []) ∧
    ∀ p, b.finish = .ok p → ∃ w, b.pending = waiting w ∧ p.instructions = b.endRun.output.reverse ++ late w := by
  have hb := standing_read ts b h
  refine ⟨fun us => completeWith_append start b ts us h, hb.apart, hb.unclosed,
    ⟨hb.run, hb.isPlain_of_mem_run, hb.run_eq_nil⟩, b.operatorsWaiting_le hb.apart,
    ⟨b.endRun_pending, b.endRun_output⟩, b.step_operator_of_apart hb.apart, ?_, ?_⟩
  · exact fun b' hclosing => b.step_closing_of_apart b' hb.apart hclosing
  · exact fun p hp => b.finish_of_apart p hb.apart hp

/-- as many operators wait as can: one at the bottom, and one on each of two open brackets -/
def reachingInside : Builder :=
  ⟨[.call ⟨.str "c", []⟩, .call ⟨.str "b", []⟩, .call ⟨.str "a", []⟩],
    [.operator .or, .bracket, .operator .and, .bracket, .operator .or], [.str "is", .str "d"]⟩

/-- three operators that wait around two open brackets; another one lets out that on top and no more -/
theorem operators_wait_apart_inside :
    reachingInside.operatorsWaiting = 3 ∧ reachingInside.operatorsWaiting ≤ reachingInside.unclosed + 1 ∧
    ∃ w rest, reachingInside.pending = waiting w ++ rest ∧ (∀ op, rest.head? ≠ some (.operator op)) ∧
      reachingInside.step (.str "and") =
        .ok ⟨late w ++ reachingInside.endRun.output, .operator .and :: rest, []⟩ := by
  have hread : start.read (tokenize "a or (b and (c or d is") = .ok reachingInside := by decide
  obtain ⟨-, -, -, -, hle, -, hoperator, -⟩ := operators_wait_apart _ _ hread
  exact ⟨by decide, hle, hoperator .and⟩

end AccessRules.Builder
