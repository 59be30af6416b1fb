/-
Which token lists have a program. The builder keeps operators and open brackets in one list of what waits; all that
decides between a program and an imbalance is how many brackets are open, and that is what was counted in the tokens.

- `step_cases`: the four things that a token can do to the number of open brackets.
- `read_ok`: while no beginning closes too many brackets, reading goes on and the open brackets are those counted.
- `read_overclosed`: the first closing bracket that matches none ends the reading.
- `ofTokens_of_isOverclosed`, `ofTokens_of_isUnclosed`, `ofTokens_of_isBalanced`: the three verdicts, by counting alone.
- `imbalance?_brackets`: tokens that are no brackets do not matter to the verdict.
-/
import Mathlib.Tactic
import AccessRules.Program.Balance
import AccessRules.Token.Runs

namespace AccessRules

/-! ## The part a token plays -/

theorem Token.role_eq_operator_iff (t : Token) (op : Operator) : t.role = .operator op ↔ t = .str op.text := by
  constructor
  · intro h
    simp only [Token.role, Operator.ofToken?, Token.is, decide_eq_true_eq] at h
    by_cases ha : t = .str "and"
    · simp only [ha, if_true, Role.operator.injEq] at h
      rw [ha, ← h]; rfl
    · by_cases ho : t = .str "or"
      · simp only [ho, Token.str.injEq, String.reduceEq, if_false, if_true, Role.operator.injEq] at h
        rw [ho, ← h]; rfl
      · simp only [ha, ho, if_false] at h
        split_ifs at h
  · rintro rfl
    cases op <;> decide

theorem Token.role_eq_opening_iff (t : Token) : t.role = .opening ↔ t = .opening := by
  constructor
  · intro h
    simp only [Token.role, Operator.ofToken?, Token.is, decide_eq_true_eq] at h
    split at h
    · cases h
    · split_ifs at h with hb
      exact hb
  · rintro rfl
    decide

theorem Token.role_eq_closing_iff (t : Token) : t.role = .closing ↔ t = .closing := by
  constructor
  · intro h
    simp only [Token.role, Operator.ofToken?, Token.is, decide_eq_true_eq] at h
    split at h
    · cases h
    · split_ifs at h with ho hc
      exact hc
  · rintro rfl
    decide

theorem Token.role_eq_plain_iff (t : Token) : t.role = .plain ↔ t.isPlain = true := by
  rw [Token.isPlain_iff]
  constructor
  · intro h w hw ht
    rw [ht] at h
    fin_cases hw <;> exact absurd h (by decide)
  · intro h
    cases hr : t.role with
    | plain => rfl
    | operator op =>
      have ht := (t.role_eq_operator_iff op).1 hr
      exact absurd ht (h op.text (by cases op <;> decide))
    | opening => exact absurd (t.role_eq_opening_iff.1 hr) (h "(" (by decide))
    | closing => exact absurd (t.role_eq_closing_iff.1 hr) (h ")" (by decide))

/-! ## Counting one token -/

namespace Balance

@[simp] theorem opens_opening (ts : List Token) : opens (.opening :: ts) = opens ts + 1 := by
  simp [opens]

@[simp] theorem closes_opening (ts : List Token) : closes (.opening :: ts) = closes ts :=
  List.count_cons_of_ne (by decide)

@[simp] theorem opens_closing (ts : List Token) : opens (.closing :: ts) = opens ts :=
  List.count_cons_of_ne (by decide)

@[simp] theorem closes_closing (ts : List Token) : closes (.closing :: ts) = closes ts + 1 := by
  simp [closes]

theorem opens_cons_of_ne (t : Token) (ts : List Token) (h : t ≠ .opening) : opens (t :: ts) = opens ts :=
  List.count_cons_of_ne h

theorem closes_cons_of_ne (t : Token) (ts : List Token) (h : t ≠ .closing) : closes (t :: ts) = closes ts :=
  List.count_cons_of_ne h

/-! ## The brackets of a token list by themselves -/

/-- the brackets of a token list in their order, without the tokens between them -/
def brackets (ts : List Token) : List Token := ts.filter fun t => t = .opening || t = .closing

theorem opens_brackets (ts : List Token) : opens (brackets ts) = opens ts := List.count_filter (by decide)

theorem closes_brackets (ts : List Token) : closes (brackets ts) = closes ts := List.count_filter (by decide)

/-- the beginnings of the brackets are the brackets of the beginnings -/
theorem isOverclosed_brackets (ts : List Token) : IsOverclosed (brackets ts) ↔ IsOverclosed ts := by
  constructor
  · rintro ⟨us, hus, hlt⟩
    obtain ⟨vs, hvs, rfl⟩ := List.prefix_filter_iff.1 hus
    exact ⟨vs, hvs, by rwa [← opens_brackets vs, ← closes_brackets vs]⟩
  · rintro ⟨us, hus, hlt⟩
    exact ⟨brackets us, hus.filter _, by rwa [opens_brackets, closes_brackets]⟩

theorem isUnclosed_brackets (ts : List Token) : IsUnclosed (brackets ts) ↔ IsUnclosed ts := by
  rw [IsUnclosed, isOverclosed_brackets, opens_brackets, closes_brackets, IsUnclosed]

theorem isBalanced_brackets (ts : List Token) : IsBalanced (brackets ts) ↔ IsBalanced ts := by
  rw [IsBalanced, isOverclosed_brackets, opens_brackets, closes_brackets, IsBalanced]

end Balance

/-! ## One step of the builder, by the part of the token -/

namespace Builder

theorem step_plain (b : Builder) (t : Token) (h : t.role = .plain) :
    b.step t = .ok ⟨b.output, b.pending, t :: b.run⟩ := by
  simp only [step, h]

theorem step_operator (b : Builder) (op : Operator) :
    b.step (.str op.text) = .ok ⟨b.endRun.releaseOperator.output,
      .operator op :: b.endRun.releaseOperator.pending, b.endRun.releaseOperator.run⟩ := by
  simp only [step, (Token.role_eq_operator_iff _ op).2 rfl]

theorem step_opening (b : Builder) :
    b.step .opening = .ok ⟨b.endRun.output, .bracket :: b.endRun.pending, b.endRun.run⟩ := by
  simp only [step, (Token.role_eq_opening_iff _).2 rfl]

theorem step_closing (b : Builder) :
    b.step .closing = match closeLevel b.endRun.output b.endRun.pending with
      | .ok (output, pending) => .ok ⟨output, pending, b.endRun.run⟩
      | .error e => .error e := by
  rcases hc : closeLevel b.endRun.output b.endRun.pending with e | ⟨output, pending⟩
  · simp only [step, (Token.role_eq_closing_iff _).2 rfl, hc]
  · simp only [step, (Token.role_eq_closing_iff _).2 rfl, hc]

/-! ## Open brackets -/

/-- number of brackets that are still open -/
def unclosed (b : Builder) : Nat := b.pending.count .bracket

theorem endRun_pending (b : Builder) : b.endRun.pending = b.pending := by
  unfold endRun
  split <;> rfl

theorem unclosed_endRun (b : Builder) : b.endRun.unclosed = b.unclosed := by
  rw [unclosed, endRun_pending, unclosed]

theorem unclosed_releaseOperator (b : Builder) : b.releaseOperator.unclosed = b.unclosed := by
  unfold releaseOperator
  split
  · rename_i op rest hp
    simp [unclosed, hp]
  · rfl

/-- closing a level takes one open bracket away, and all operators above it -/
theorem closeLevel_ok (output : List Instruction) (pending : List Pending) (h : 0 < pending.count .bracket) :
    ∃ output' rest, closeLevel output pending = .ok (output', rest) ∧
      rest.count .bracket + 1 = pending.count .bracket := by
  induction pending generalizing output with
  | nil => exact absurd h (by simp)
  | cons p rest ih =>
    cases p with
    | bracket => exact ⟨output, rest, rfl, by simp⟩
    | operator op =>
      obtain ⟨output', rest', hc, hn⟩ := ih (.operator op :: output) (by simpa using h)
      exact ⟨output', rest', hc, by simpa using hn⟩

theorem closeLevel_error (output : List Instruction) (pending : List Pending) (h : pending.count .bracket = 0) :
    closeLevel output pending = .error .tooManyClose := by
  induction pending generalizing output with
  | nil => rfl
  | cons p rest ih =>
    cases p with
    | bracket => simp at h
    | operator op => exact ih (.operator op :: output) (by simpa using h)

theorem closeAll_ok (output : List Instruction) (pending : List Pending) (h : pending.count .bracket = 0) :
    ∃ output', closeAll output pending = .ok output' := by
  induction pending generalizing output with
  | nil => exact ⟨output, rfl⟩
  | cons p rest ih =>
    cases p with
    | bracket => simp at h
    | operator op => exact ih (.operator op :: output) (by simpa using h)

theorem closeAll_error (output : List Instruction) (pending : List Pending) (h : 0 < pending.count .bracket) :
    closeAll output pending = .error .missingClose := by
  induction pending generalizing output with
  | nil => exact absurd h (by simp)
  | cons p rest ih =>
    cases p with
    | bracket => rfl
    | operator op => exact ih (.operator op :: output) (by simpa using h)

/-- **One token.** A token that is no bracket keeps the number of open brackets, whatever else it does; `(` adds one;
`)` takes one away if there is one, and is refused if there is none. -/
theorem step_cases (b : Builder) (t : Token) :
    (t ≠ .opening ∧ t ≠ .closing ∧ ∃ b', b.step t = .ok b' ∧ b'.unclosed = b.unclosed) ∨
    (t = .opening ∧ ∃ b', b.step t = .ok b' ∧ b'.unclosed = b.unclosed + 1) ∨
    (t = .closing ∧ ∃ b', b.step t = .ok b' ∧ b'.unclosed + 1 = b.unclosed) ∨
    (t = .closing ∧ b.unclosed = 0 ∧ b.step t = .error .tooManyClose) := by
  cases hr : t.role with
  | plain =>
    refine .inl ⟨?_, ?_, _, step_plain b t hr, rfl⟩
    · rintro rfl; exact absurd hr (by decide)
    · rintro rfl; exact absurd hr (by decide)
  | operator op =>
    obtain rfl := (t.role_eq_operator_iff op).1 hr
    refine .inl ⟨?_, ?_, _, step_operator b op, ?_⟩
    · cases op <;> decide
    · cases op <;> decide
    · have hu := (unclosed_releaseOperator b.endRun).trans (unclosed_endRun b)
      simpa [unclosed] using hu
  | opening =>
    refine .inr (.inl ⟨t.role_eq_opening_iff.1 hr, _, t.role_eq_opening_iff.1 hr ▸ step_opening b, ?_⟩)
    simp [unclosed, endRun_pending]
  | closing =>
    obtain rfl := t.role_eq_closing_iff.1 hr
    rw [step_closing, endRun_pending]
    by_cases hu : b.unclosed = 0
    · rw [closeLevel_error b.endRun.output b.pending hu]
      exact .inr (.inr (.inr ⟨rfl, hu, rfl⟩))
    · obtain ⟨output, rest, hc, hn⟩ := closeLevel_ok b.endRun.output b.pending (Nat.pos_of_ne_zero hu)
      rw [hc]
      exact .inr (.inr (.inl ⟨rfl, _, rfl, hn⟩))

/-- what a token opens is open more, and what it closes is open less; both sides count `us` behind it -/
theorem unclosed_step (b b' : Builder) (t : Token) (hb : b.step t = .ok b') (us : List Token) :
    b'.unclosed + Balance.opens us + Balance.closes (t :: us) =
      b.unclosed + Balance.opens (t :: us) + Balance.closes us := by
  rcases b.step_cases t with ⟨ho, hc, b1, hb1, hu⟩ | ⟨rfl, b1, hb1, hu⟩ | ⟨rfl, b1, hb1, hu⟩ | ⟨rfl, -, he⟩
  · obtain rfl := Except.ok.inj (hb1.symm.trans hb)
    rw [Balance.opens_cons_of_ne t us ho, Balance.closes_cons_of_ne t us hc, hu]
  · obtain rfl := Except.ok.inj (hb1.symm.trans hb)
    rw [Balance.opens_opening, Balance.closes_opening]
    omega
  · obtain rfl := Except.ok.inj (hb1.symm.trans hb)
    rw [Balance.opens_closing, Balance.closes_closing]
    omega
  · rw [he] at hb
    cases hb

/-! ## Reading and finishing -/

/-- **Reading goes on** as long as no beginning closes more brackets than were open before or are opened in it; then
the open brackets are those before and those opened, less those closed. -/
theorem read_ok (b : Builder) (ts : List Token)
    (h : ∀ us, us <+: ts → Balance.closes us ≤ b.unclosed + Balance.opens us) :
    ∃ b', b.read ts = .ok b' ∧ b'.unclosed + Balance.closes ts = b.unclosed + Balance.opens ts := by
  induction ts generalizing b with
  | nil => exact ⟨b, rfl, rfl⟩
  | cons t ts ih =>
    -- a first step that is refused would be a beginning that closes too many
    have hstep : ∃ b1, b.step t = .ok b1 := by
      rcases b.step_cases t with ⟨-, -, b1, hb, -⟩ | ⟨-, b1, hb, -⟩ | ⟨-, b1, hb, -⟩ | ⟨rfl, hu, -⟩
      · exact ⟨b1, hb⟩
      · exact ⟨b1, hb⟩
      · exact ⟨b1, hb⟩
      · have hone := h [.closing] ⟨ts, rfl⟩
        rw [Balance.opens_closing, Balance.closes_closing, hu] at hone
        exact absurd hone (by decide)
    obtain ⟨b1, hb1⟩ := hstep
    have hcount := b.unclosed_step b1 t hb1
    obtain ⟨b2, hb2, hu2⟩ := ih b1 fun us hus => by
      have := h (t :: us) (List.cons_prefix_cons.2 ⟨rfl, hus⟩)
      have := hcount us
      omega
    refine ⟨b2, by simp only [read, hb1, hb2], ?_⟩
    have := hcount ts
    omega

/-- **Reading ends** at a closing bracket that matches none. -/
theorem read_overclosed (b : Builder) (ts us : List Token) (hus : us <+: ts)
    (h : b.unclosed + Balance.opens us < Balance.closes us) : b.read ts = .error .tooManyClose := by
  induction ts generalizing b us with
  | nil =>
    obtain rfl := List.prefix_nil.1 hus
    exact absurd h (Nat.not_lt_zero _)
  | cons t ts ih =>
    rcases List.prefix_cons_iff.1 hus with rfl | ⟨vs, rfl, hvs⟩
    · exact absurd h (Nat.not_lt_zero _)
    · rcases b.step_cases t with ⟨ho, hc, b', hb, hu⟩ | ⟨rfl, b', hb, hu⟩ | ⟨rfl, b', hb, hu⟩ | ⟨rfl, -, hb⟩
      · rw [Balance.opens_cons_of_ne t vs ho, Balance.closes_cons_of_ne t vs hc] at h
        simp only [read, hb]
        exact ih b' vs hvs (by omega)
      · rw [Balance.opens_opening, Balance.closes_opening] at h
        simp only [read, hb]
        exact ih b' vs hvs (by omega)
      · rw [Balance.opens_closing, Balance.closes_closing] at h
        simp only [read, hb]
        exact ih b' vs hvs (by omega)
      · simp only [read, hb]

theorem finish_ok (b : Builder) (h : b.unclosed = 0) : ∃ p, b.finish = .ok p := by
  obtain ⟨output, ho⟩ := closeAll_ok b.endRun.output b.endRun.pending (by rw [endRun_pending]; exact h)
  exact ⟨⟨output.reverse⟩, by simp only [finish, ho]⟩

theorem finish_error (b : Builder) (h : 0 < b.unclosed) : b.finish = .error .missingClose := by
  have he := closeAll_error b.endRun.output b.endRun.pending (by rw [endRun_pending]; exact h)
  simp only [finish, he]

end Builder

/-! ## The verdict -/

namespace Program

theorem ofTokens_of_isOverclosed (ts : List Token) (h : Balance.IsOverclosed ts) :
    ofTokens ts = .error .tooManyClose := by
  obtain ⟨us, hus, hlt⟩ := h
  have hr := Builder.read_overclosed .start ts us hus (by simpa [Builder.unclosed, Builder.start] using hlt)
  simp only [ofTokens, hr]

/-- without overclosing, the whole list is read, and the open brackets are those that were not closed -/
theorem read_of_not_isOverclosed (ts : List Token) (h : ¬ Balance.IsOverclosed ts) :
    ∃ b, Builder.start.read ts = .ok b ∧ b.unclosed + Balance.closes ts = Balance.opens ts := by
  have hle := (Balance.not_isOverclosed_iff ts).1 h
  obtain ⟨b, hb, hu⟩ := Builder.read_ok .start ts fun us hus => Nat.le_add_left_of_le (hle us hus)
  have hstart : Builder.start.unclosed = 0 := rfl
  exact ⟨b, hb, by omega⟩

theorem ofTokens_of_isUnclosed (ts : List Token) (h : Balance.IsUnclosed ts) :
    ofTokens ts = .error .missingClose := by
  obtain ⟨ho, hlt⟩ := h
  obtain ⟨b, hb, hu⟩ := read_of_not_isOverclosed ts ho
  simp only [ofTokens, hb]
  exact b.finish_error (by omega)

theorem ofTokens_of_isBalanced (ts : List Token) (h : Balance.IsBalanced ts) : ∃ p, ofTokens ts = .ok p := by
  obtain ⟨ho, heq⟩ := h
  obtain ⟨b, hb, hu⟩ := read_of_not_isOverclosed ts ho
  simp only [ofTokens, hb]
  exact b.finish_ok (by omega)

/-- every token list is overclosed, unclosed or balanced -/
theorem balance_cases (ts : List Token) :
    Balance.IsOverclosed ts ∨ Balance.IsUnclosed ts ∨ Balance.IsBalanced ts := by
  by_cases ho : Balance.IsOverclosed ts
  · exact .inl ho
  · have hle := (Balance.not_isOverclosed_iff ts).1 ho ts (List.prefix_refl ts)
    rcases Nat.lt_or_eq_of_le hle with hlt | heq
    · exact .inr (.inl ⟨ho, hlt⟩)
    · exact .inr (.inr ⟨ho, heq.symm⟩)

theorem ofTokens_tooManyClose_iff (ts : List Token) :
    ofTokens ts = .error .tooManyClose ↔ Balance.IsOverclosed ts := by
  refine ⟨?_, ofTokens_of_isOverclosed ts⟩
  intro h
  rcases balance_cases ts with ho | hu | hb
  · exact ho
  · rw [ofTokens_of_isUnclosed ts hu] at h; cases h
  · obtain ⟨p, hp⟩ := ofTokens_of_isBalanced ts hb
    rw [hp] at h; cases h

theorem ofTokens_missingClose_iff (ts : List Token) :
    ofTokens ts = .error .missingClose ↔ Balance.IsUnclosed ts := by
  refine ⟨?_, ofTokens_of_isUnclosed ts⟩
  intro h
  rcases balance_cases ts with ho | hu | hb
  · rw [ofTokens_of_isOverclosed ts ho] at h; cases h
  · exact hu
  · obtain ⟨p, hp⟩ := ofTokens_of_isBalanced ts hb
    rw [hp] at h; cases h

theorem ofTokens_ok_iff (ts : List Token) : (∃ p, ofTokens ts = .ok p) ↔ Balance.IsBalanced ts := by
  refine ⟨?_, ofTokens_of_isBalanced ts⟩
  rintro ⟨p, h⟩
  rcases balance_cases ts with ho | hu | hb
  · rw [ofTokens_of_isOverclosed ts ho] at h; cases h
  · rw [ofTokens_of_isUnclosed ts hu] at h; cases h
  · exact hb

/-! ## Tokens that are no brackets -/

/-- the imbalance for which a token list has no program -/
def imbalance? (ts : List Token) : Option Imbalance :=
  match ofTokens ts with
  | .ok _ => none
  | .error cause => some cause

theorem imbalance?_brackets (ts : List Token) : imbalance? (Balance.brackets ts) = imbalance? ts := by
  rcases balance_cases ts with ho | hu | hb
  · have hb := (Balance.isOverclosed_brackets ts).2 ho
    simp only [imbalance?, ofTokens_of_isOverclosed _ hb, ofTokens_of_isOverclosed ts ho]
  · have hb := (Balance.isUnclosed_brackets ts).2 hu
    simp only [imbalance?, ofTokens_of_isUnclosed _ hb, ofTokens_of_isUnclosed ts hu]
  · obtain ⟨p, hp⟩ := ofTokens_of_isBalanced ts hb
    obtain ⟨q, hq⟩ := ofTokens_of_isBalanced _ ((Balance.isBalanced_brackets ts).2 hb)
    simp only [imbalance?, hp, hq]

end Program

end AccessRules
