/-
The builder against the structure of what it reads. Every balanced token list is the tokens of one level and of no
other; the builder writes the instructions of that level in the order in which the level has them, each operator
behind the sequence that follows it, whether or not anything stands there.

Reading from the right finds the level: a closing bracket begins a level inside the one behind it, and the opening
bracket before it puts the level that lies between into the one behind.

- `levelFrom_tokens`, `levelFrom_sound`: reading from the right and writing down undo each other.
- `levelFrom_of_isBalanced`: balanced tokens are read to the end.
- `settle_read_tokens`: what the builder does with the tokens of a level, whatever waited before them.
- `ofTokens_tokens`, `exists_level_of_ofTokens`: the program of the tokens of a level, and the level of a program.
- `ofTokens_eq_level`: the program of a token list is that of its level.
-/
import AccessRules.Program.Level
import AccessRules.Proofs.Program.Brackets

namespace AccessRules

namespace Level

/-! ## Operators and the sequences behind them -/

/-- every operator of a level with the instructions of the sequence behind it -/
def clauses : Level → List (Operator × List Instruction)
  | .nil => []
  | .run _ rest => rest.clauses
  | .group _ rest => rest.clauses
  | .operator op rest => (op, rest.firstSequence) :: rest.clauses

theorem postfixOrder_operator (op : Operator) (rest : Level) :
    (operator op rest).postfixOrder = rest.firstSequence ++ .operator op :: rest.afterSequence.postfixOrder :=
  postfixFrom_eq rest [.operator op]

theorem postfixOrder_afterSequence (l : Level) :
    l.postfixOrder = l.firstSequence ++ l.afterSequence.postfixOrder :=
  postfixFrom_eq l []

/-- the first sequence, and behind every later one its operator -/
theorem postfixOrder_eq (l : Level) :
    l.postfixOrder = l.firstSequence ++ l.clauses.flatMap fun c => c.2 ++ [.operator c.1] := by
  induction l with
  | nil => rfl
  | run c rest ih => exact congrArg (Instruction.call c :: ·) ih
  | group inner rest _ ih =>
    have hcons : (group inner rest).postfixOrder = inner.postfixOrder ++ rest.postfixOrder := rfl
    rw [hcons, ih, firstSequence, clauses, List.append_assoc]
  | operator op rest ih =>
    have hafter := List.append_cancel_left (ih.symm.trans rest.postfixOrder_afterSequence)
    rw [postfixOrder_operator, ← hafter, firstSequence, clauses, List.flatMap_cons]
    simp

/-! ## Reading from the right -/

/-- one more plain token before a level -/
def consPlain (t : Token) : Level → Level
  | .run c rest => .run ⟨t, c.tokens⟩ rest
  | l => .run ⟨t, []⟩ l

/-- the level in which the tokens begin, and the levels around it from their closing brackets on, the nearest first;
none when an opening bracket has no closing one behind it -/
def levelFrom : List Token → Option (Level × List Level)
  | [] => some (.nil, [])
  | t :: ts =>
    match t.role, levelFrom ts with
    | .plain, some (l, outer) => some (consPlain t l, outer)
    | .operator op, some (l, outer) => some (.operator op l, outer)
    | .closing, some (l, outer) => some (.nil, l :: outer)
    | .opening, some (l, next :: outer) => some (.group l next, outer)
    | _, _ => none

/-- levels behind one another's closing brackets, as they are written -/
def outerTokens (outer : List Level) : List Token := outer.flatMap fun l => .closing :: l.tokens

theorem tokens_consPlain (t : Token) (l : Level) : (consPlain t l).tokens = t :: l.tokens := by
  cases l <;> rfl

theorem isMaximal_consPlain (t : Token) (l : Level) (ht : t.role = .plain) (h : l.IsMaximal) :
    (consPlain t l).IsMaximal := by
  have hsingle : ∀ u ∈ Call.tokens ⟨t, []⟩, u.role = .plain := by
    intro u hu
    rw [List.mem_singleton.1 hu]
    exact ht
  cases l with
  | run c rest =>
    obtain ⟨hc, hb, hr⟩ := h
    refine ⟨?_, hb, hr⟩
    intro u hu
    rcases List.mem_cons.1 hu with rfl | hu
    · exact ht
    · exact hc u hu
  | nil => exact ⟨hsingle, rfl, h⟩
  | group inner rest => exact ⟨hsingle, rfl, h⟩
  | operator op rest => exact ⟨hsingle, rfl, h⟩

theorem levelFrom_plain (t : Token) (ts : List Token) (l : Level) (outer : List Level) (ht : t.role = .plain)
    (h : levelFrom ts = some (l, outer)) : levelFrom (t :: ts) = some (consPlain t l, outer) := by
  simp only [levelFrom, ht, h]

theorem levelFrom_operator (op : Operator) (ts : List Token) (l : Level) (outer : List Level)
    (h : levelFrom ts = some (l, outer)) : levelFrom (.str op.text :: ts) = some (.operator op l, outer) := by
  simp only [levelFrom, (Token.role_eq_operator_iff _ op).2 rfl, h]

theorem levelFrom_closing (ts : List Token) (l : Level) (outer : List Level) (h : levelFrom ts = some (l, outer)) :
    levelFrom (.closing :: ts) = some (.nil, l :: outer) := by
  simp only [levelFrom, (Token.role_eq_closing_iff _).2 rfl, h]

theorem levelFrom_opening (ts : List Token) (l next : Level) (outer : List Level)
    (h : levelFrom ts = some (l, next :: outer)) : levelFrom (.opening :: ts) = some (.group l next, outer) := by
  simp only [levelFrom, (Token.role_eq_opening_iff _).2 rfl, h]

/-- plain tokens before a level that does not begin with a run are one run -/
theorem levelFrom_run (c : Call) (ts : List Token) (l : Level) (outer : List Level)
    (hc : ∀ t ∈ c.tokens, t.role = .plain) (hl : l.beginsWithRun = false) (h : levelFrom ts = some (l, outer)) :
    levelFrom (c.tokens ++ ts) = some (.run c l, outer) := by
  obtain ⟨receiver, rest⟩ := c
  induction rest generalizing receiver with
  | nil =>
    have hcons : consPlain receiver l = .run ⟨receiver, []⟩ l := by
      cases l with
      | run c rest => cases hl
      | _ => rfl
    rw [← hcons]
    exact levelFrom_plain receiver ts l outer (hc receiver List.mem_cons_self) h
  | cons t rest ih =>
    have hrest := ih t fun u hu => hc u (List.mem_cons_of_mem receiver hu)
    exact levelFrom_plain receiver _ _ outer (hc receiver List.mem_cons_self) hrest

/-- **Reading back a level.** Before tokens that begin with nothing of their own level, the tokens of a level are read
as that level. -/
theorem levelFrom_tokens_append (l : Level) (hl : l.IsMaximal) (ts : List Token) (outer : List Level)
    (h : levelFrom ts = some (.nil, outer)) : levelFrom (l.tokens ++ ts) = some (l, outer) := by
  induction l generalizing ts outer with
  | nil => exact h
  | run c rest ih =>
    obtain ⟨hc, hb, hr⟩ := hl
    rw [tokens, List.append_assoc]
    exact levelFrom_run c _ rest outer hc hb (ih hr ts outer h)
  | group inner rest ihi ihr =>
    obtain ⟨hi, hr⟩ := hl
    have hclosing := levelFrom_closing _ rest outer (ihr hr ts outer h)
    have hinner := ihi hi _ (rest :: outer) hclosing
    have htokens : (group inner rest).tokens ++ ts =
        .opening :: (inner.tokens ++ .closing :: (rest.tokens ++ ts)) := by
      simp [tokens]
    rw [htokens]
    exact levelFrom_opening _ inner rest outer hinner
  | operator op rest ih => exact levelFrom_operator op _ rest outer (ih hl ts outer h)

theorem levelFrom_tokens (l : Level) (hl : l.IsMaximal) : levelFrom l.tokens = some (l, []) := by
  have h := levelFrom_tokens_append l hl [] [] rfl
  rwa [List.append_nil] at h

theorem levelFrom_sound (ts : List Token) (l : Level) (outer : List Level) (h : levelFrom ts = some (l, outer)) :
    l.tokens ++ outerTokens outer = ts ∧ l.IsMaximal ∧ ∀ o ∈ outer, o.IsMaximal := by
  induction ts generalizing l outer with
  | nil =>
    cases h
    exact ⟨rfl, trivial, fun o ho => absurd ho List.not_mem_nil⟩
  | cons t ts ih =>
    cases hts : levelFrom ts with
    | none => cases hr : t.role <;> simp [levelFrom, hr, hts] at h
    | some r =>
      obtain ⟨l', outer'⟩ := r
      obtain ⟨htokens, hl', houter⟩ := ih l' outer' hts
      cases hr : t.role with
      | plain =>
        cases (levelFrom_plain t ts l' outer' hr hts).symm.trans h
        exact ⟨by rw [tokens_consPlain, List.cons_append, htokens], isMaximal_consPlain t l' hr hl', houter⟩
      | operator op =>
        obtain rfl := (t.role_eq_operator_iff op).1 hr
        cases (levelFrom_operator op ts l' outer' hts).symm.trans h
        exact ⟨by rw [tokens, List.cons_append, htokens], hl', houter⟩
      | closing =>
        obtain rfl := t.role_eq_closing_iff.1 hr
        cases (levelFrom_closing ts l' outer' hts).symm.trans h
        refine ⟨?_, trivial, ?_⟩
        · rw [← htokens]
          simp [tokens, outerTokens]
        · intro o ho
          rcases List.mem_cons.1 ho with rfl | ho
          · exact hl'
          · exact houter o ho
      | opening =>
        obtain rfl := t.role_eq_opening_iff.1 hr
        cases outer' with
        | nil => simp [levelFrom, hr, hts] at h
        | cons next rest =>
          cases (levelFrom_opening ts l' next rest hts).symm.trans h
          refine ⟨?_, ⟨hl', houter next List.mem_cons_self⟩, fun o ho => houter o (List.mem_cons_of_mem next ho)⟩
          rw [← htokens]
          simp [tokens, outerTokens]

/-- reading goes on as long as no end opens more brackets than it closes; the levels around are the brackets that are
closed but not opened -/
theorem levelFrom_total (ts : List Token) (h : ∀ us, us <:+ ts → Balance.opens us ≤ Balance.closes us) :
    ∃ l outer, levelFrom ts = some (l, outer) ∧ outer.length + Balance.opens ts = Balance.closes ts := by
  induction ts with
  | nil => exact ⟨.nil, [], rfl, rfl⟩
  | cons t ts ih =>
    obtain ⟨l, outer, hts, hcount⟩ := ih fun us hus => h us (hus.trans (List.suffix_cons t ts))
    cases hr : t.role with
    | plain =>
      obtain ⟨ho, hc⟩ := ne_bracket_of_plain t hr
      refine ⟨consPlain t l, outer, levelFrom_plain t ts l outer hr hts, ?_⟩
      rw [Balance.opens_cons_of_ne t ts ho, Balance.closes_cons_of_ne t ts hc, hcount]
    | operator op =>
      obtain rfl := (t.role_eq_operator_iff op).1 hr
      refine ⟨.operator op l, outer, levelFrom_operator op ts l outer hts, ?_⟩
      have ho : Token.str op.text ≠ .opening := by cases op <;> decide
      have hc : Token.str op.text ≠ .closing := by cases op <;> decide
      rw [Balance.opens_cons_of_ne _ ts ho, Balance.closes_cons_of_ne _ ts hc, hcount]
    | closing =>
      obtain rfl := t.role_eq_closing_iff.1 hr
      refine ⟨.nil, l :: outer, levelFrom_closing ts l outer hts, ?_⟩
      rw [Balance.opens_closing, Balance.closes_closing, List.length_cons]
      omega
    | opening =>
      obtain rfl := t.role_eq_opening_iff.1 hr
      have hall := h (.opening :: ts) (List.suffix_refl _)
      rw [Balance.opens_opening, Balance.closes_opening] at hall
      cases outer with
      | nil =>
        -- no closing bracket is left for this one
        rw [List.length_nil] at hcount
        omega
      | cons next rest =>
        refine ⟨.group l next, rest, levelFrom_opening ts l next rest hts, ?_⟩
        rw [Balance.opens_opening, Balance.closes_opening]
        rw [List.length_cons] at hcount
        omega

/-- what a beginning of balanced tokens closes too few, the end closes too many -/
theorem opens_le_closes_of_suffix (ts us : List Token) (h : Balance.IsBalanced ts) (hus : us <:+ ts) :
    Balance.opens us ≤ Balance.closes us := by
  obtain ⟨vs, rfl⟩ := hus
  obtain ⟨ho, heq⟩ := h
  have hle := (Balance.not_isOverclosed_iff _).1 ho vs (List.prefix_append vs us)
  rw [Balance.opens_append, Balance.closes_append] at heq
  omega

theorem levelFrom_of_isBalanced (ts : List Token) (h : Balance.IsBalanced ts) :
    ∃ l, levelFrom ts = some (l, []) := by
  obtain ⟨l, outer, hts, hcount⟩ := levelFrom_total ts fun us hus => opens_le_closes_of_suffix ts us h hus
  have hlen : outer.length = 0 := by
    have heq := h.2
    omega
  obtain rfl := List.length_eq_zero_iff.1 hlen
  exact ⟨l, hts⟩

theorem reads_iff (l : Level) (ts : List Token) : l.Reads ts ↔ levelFrom ts = some (l, []) := by
  constructor
  · rintro ⟨hl, rfl⟩
    exact levelFrom_tokens l hl
  · intro h
    obtain ⟨htokens, hl, -⟩ := levelFrom_sound ts l [] h
    exact ⟨hl, by rwa [outerTokens, List.flatMap_nil, List.append_nil] at htokens⟩

/-- a token list reads as at most one level -/
theorem reads_unique (l l' : Level) (ts : List Token) (h : l.Reads ts) (h' : l'.Reads ts) : l = l' := by
  have heq := ((reads_iff l ts).1 h).symm.trans ((reads_iff l' ts).1 h')
  exact congrArg Prod.fst (Option.some.inj heq)

theorem isBalanced_iff_existsUnique (ts : List Token) : Balance.IsBalanced ts ↔ ∃! l : Level, l.Reads ts := by
  constructor
  · intro h
    obtain ⟨l, hl⟩ := levelFrom_of_isBalanced ts h
    have hreads := (reads_iff l ts).2 hl
    exact ⟨l, hreads, fun l' hl' => reads_unique l' l ts hl' hreads⟩
  · rintro ⟨l, ⟨hl, rfl⟩, -⟩
    exact tokens_isBalanced l hl

end Level

/-! ## The builder on the tokens of a level -/

namespace Builder

/-- the builder with its run ended and the operator that waits on its level let out -/
def settle (b : Builder) : Builder := b.endRun.releaseOperator

theorem endRun_of_run (output : List Instruction) (pending : List Pending) (c : Call) :
    endRun ⟨output, pending, c.tokens.reverse⟩ = ⟨.call c :: output, pending, []⟩ := by
  simp only [endRun, List.reverse_reverse, Call.ofTokens?_tokens]

theorem endRun_of_no_run (b : Builder) (h : b.run = []) : b.endRun = b := by
  obtain ⟨output, pending, run⟩ := b
  obtain rfl : run = [] := h
  rfl

theorem endRun_run (b : Builder) : b.endRun.run = [] := by
  obtain ⟨output, pending, run⟩ := b
  cases hrun : run.reverse with
  | nil => simp [endRun, Call.ofTokens?, List.reverse_eq_nil_iff.1 hrun]
  | cons t ts => simp [endRun, hrun, Call.ofTokens?]

theorem endRun_endRun (b : Builder) : b.endRun.endRun = b.endRun := b.endRun.endRun_of_no_run b.endRun_run

/-- plain tokens only lengthen the run -/
theorem read_plain (b : Builder) (ts : List Token) (h : ∀ t ∈ ts, t.role = .plain) :
    b.read ts = .ok ⟨b.output, b.pending, ts.reverse ++ b.run⟩ := by
  induction ts generalizing b with
  | nil => rfl
  | cons t ts ih =>
    rw [read, b.step_plain t (h t List.mem_cons_self), List.reverse_cons, List.append_assoc]
    exact ih ⟨b.output, b.pending, t :: b.run⟩ fun u hu => h u (List.mem_cons_of_mem t hu)

/-- a token that is not plain ends the run first -/
theorem step_endRun (b : Builder) (t : Token) (h : t.role ≠ .plain) : b.endRun.step t = b.step t := by
  cases hr : t.role with
  | plain => exact absurd hr h
  | operator op => simp only [step, hr, endRun_endRun]
  | opening => simp only [step, hr, endRun_endRun]
  | closing => simp only [step, hr, endRun_endRun]

/-- reading `ts` ends in a builder that settles as `s` -/
def SettlesAs (b : Builder) (ts : List Token) (s : Builder) : Prop := ∃ b', b.read ts = .ok b' ∧ b'.settle = s

theorem settlesAs_step (b b' : Builder) (t : Token) (ts : List Token) (s : Builder) (hb : b.step t = .ok b')
    (h : b'.SettlesAs ts s) : b.SettlesAs (t :: ts) s := by
  obtain ⟨b1, hread, hs⟩ := h
  exact ⟨b1, by simp only [read, hb, hread], hs⟩

theorem settlesAs_append (b b' : Builder) (ts us : List Token) (s : Builder) (hb : b.read ts = .ok b')
    (h : b'.SettlesAs us s) : b.SettlesAs (ts ++ us) s := by
  obtain ⟨b1, hread, hs⟩ := h
  exact ⟨b1, by simp only [read_append, hb, hread], hs⟩

/-- a level that does not begin with a run does not go on with the run before it -/
theorem settlesAs_endRun (b : Builder) (l : Level) (s : Builder) (h : l.beginsWithRun = false)
    (hs : b.endRun.SettlesAs l.tokens s) : b.SettlesAs l.tokens s := by
  cases l with
  | nil =>
    obtain ⟨b', hb, hs⟩ := hs
    cases hb
    refine ⟨b, rfl, ?_⟩
    rw [← hs, settle, settle, endRun_endRun]
  | run c rest => cases h
  | group inner rest =>
    obtain ⟨b', hb, hs⟩ := hs
    refine ⟨b', ?_, hs⟩
    rw [← hb]
    simp only [Level.tokens, List.cons_append, read, b.step_endRun .opening (by decide)]
  | operator op rest =>
    obtain ⟨b', hb, hs⟩ := hs
    refine ⟨b', ?_, hs⟩
    rw [← hb]
    simp only [Level.tokens, read, b.step_endRun (.str op.text) (by cases op <;> decide)]

/-- closing ends the run and lets the operator out of its own accord -/
theorem step_closing_of_settle (b : Builder) (output : List Instruction) (base : List Pending)
    (h : b.settle = ⟨output, .bracket :: base, []⟩) : b.step .closing = .ok ⟨output, base, []⟩ := by
  rw [step_closing, endRun_run]
  unfold settle releaseOperator at h
  split at h
  · rename_i op rest hp
    injection h with ho hr hrun
    rw [hp, hr, ← ho]
    rfl
  · rw [h]
    rfl

theorem finish_of_settle (b : Builder) (output : List Instruction) (h : b.settle = ⟨output, [], []⟩) :
    b.finish = .ok ⟨output.reverse⟩ := by
  unfold settle releaseOperator at h
  split at h
  · rename_i op rest hp
    injection h with ho hr hrun
    simp only [finish, hp, hr, closeAll, ← ho]
  · simp only [finish, h, closeAll]

/-- what waits on the level that is being read: nothing or one operator -/
def waiting (w : Option Operator) : List Pending := (w.map Pending.operator).toList

/-- the instructions of what waits -/
def late (w : Option Operator) : List Instruction := (w.map Instruction.operator).toList

/-- settling lets out what waits on the level, and nothing from behind the bracket below it -/
theorem settle_waiting (output : List Instruction) (w : Option Operator) (base : List Pending)
    (hbase : ∀ op, base.head? ≠ some (.operator op)) :
    settle ⟨output, waiting w ++ base, []⟩ = ⟨(late w).reverse ++ output, base, []⟩ := by
  cases w with
  | some op => rfl
  | none =>
    match base, hbase with
    | [], _ => rfl
    | .bracket :: rest, _ => rfl
    | .operator op :: rest, hbase => exact absurd rfl (hbase op)

/-- **A level in the builder.** Whatever was written before and whatever waits, reading the tokens of a level adds the
instructions of the level, with the waiting operator behind the first sequence, and leaves all from below the level as
it was. -/
theorem settle_read_tokens (l : Level) (hl : l.IsMaximal) (output : List Instruction) (w : Option Operator)
    (base : List Pending) (hbase : ∀ op, base.head? ≠ some (.operator op)) :
    SettlesAs ⟨output, waiting w ++ base, []⟩ l.tokens ⟨(l.postfixFrom (late w)).reverse ++ output, base, []⟩ := by
  induction l generalizing output w base with
  | nil => exact ⟨_, rfl, settle_waiting output w base hbase⟩
  | run c rest ih =>
    obtain ⟨hc, hb, hr⟩ := hl
    have hrun := read_plain ⟨output, waiting w ++ base, []⟩ c.tokens hc
    rw [List.append_nil] at hrun
    refine settlesAs_append _ _ c.tokens rest.tokens _ hrun (settlesAs_endRun _ rest _ hb ?_)
    rw [endRun_of_run]
    have hrest := ih hr (.call c :: output) w base hbase
    simpa only [Level.postfixFrom, List.reverse_cons, List.append_assoc, List.singleton_append] using hrest
  | group inner rest ihi ihr =>
    obtain ⟨hi, hr⟩ := hl
    -- inside the brackets nothing waits, and the bracket keeps what waits outside
    obtain ⟨b', hinner, hsettle⟩ := ihi hi output none (.bracket :: (waiting w ++ base)) (by simp)
    have hclosing := step_closing_of_settle b' _ _ hsettle
    have hrest := ihr hr ((inner.postfixFrom []).reverse ++ output) w base hbase
    have htokens : (Level.group inner rest).tokens = .opening :: (inner.tokens ++ .closing :: rest.tokens) := by
      simp [Level.tokens]
    rw [htokens]
    refine settlesAs_step _ _ .opening _ _ (step_opening _) ?_
    refine settlesAs_append _ b' inner.tokens _ _ hinner ?_
    refine settlesAs_step _ _ .closing _ _ hclosing ?_
    rw [Level.postfixFrom, List.reverse_append, List.append_assoc]
    exact hrest
  | operator op rest ih =>
    have hstep := step_operator ⟨output, waiting w ++ base, []⟩ op
    have hs : (endRun ⟨output, waiting w ++ base, []⟩).releaseOperator = ⟨(late w).reverse ++ output, base, []⟩ :=
      settle_waiting output w base hbase
    rw [hs] at hstep
    refine settlesAs_step _ _ (.str op.text) rest.tokens _ hstep ?_
    rw [Level.postfixFrom, List.reverse_append, List.append_assoc]
    exact ih hl ((late w).reverse ++ output) (some op) base hbase

end Builder

namespace Program

theorem ofTokens_tokens (l : Level) (hl : l.IsMaximal) : ofTokens l.tokens = .ok ⟨l.postfixOrder⟩ := by
  obtain ⟨b, hread, hsettle⟩ := Builder.settle_read_tokens l hl [] none [] (by simp)
  have hstart : Builder.start.read l.tokens = .ok b := hread
  have hfinish := b.finish_of_settle _ hsettle
  rw [List.append_nil, List.reverse_reverse] at hfinish
  simp only [ofTokens, hstart]
  exact hfinish

theorem exists_level_of_ofTokens (ts : List Token) (p : Program) (h : ofTokens ts = .ok p) :
    ∃ l : Level, l.IsMaximal ∧ l.tokens = ts ∧ p.instructions = l.postfixOrder := by
  obtain ⟨l, ⟨hl, rfl⟩, -⟩ := (Level.isBalanced_iff_existsUnique ts).1 ((ofTokens_ok_iff ts).1 ⟨p, h⟩)
  rw [ofTokens_tokens l hl] at h
  exact ⟨l, hl, rfl, (congrArg Program.instructions (Except.ok.inj h)).symm⟩

/-- **The program of a token list is that of its level.** Exactly the balanced token lists read as a level, each as one
level only. A token list has a program just when it reads as a level, and the program is then that of the level: the
first sequence, in which a run is its call and a level in brackets has its own program, and every later sequence with
the operator before it put behind it. -/
theorem ofTokens_eq_level (ts : List Token) :
    (Balance.IsBalanced ts ↔ ∃! l : Level, l.Reads ts) ∧
    (∀ p, ofTokens ts = .ok p ↔ ∃ l : Level, l.Reads ts ∧ p.instructions = l.postfixOrder) ∧
    ∀ l : Level, l.postfixOrder = l.firstSequence ++ l.clauses.flatMap fun c => c.2 ++ [.operator c.1] := by
  refine ⟨Level.isBalanced_iff_existsUnique ts, ?_, Level.postfixOrder_eq⟩
  intro p
  constructor
  · intro h
    have hbalanced := (ofTokens_ok_iff ts).1 ⟨p, h⟩
    obtain ⟨l, ⟨hl, rfl⟩, -⟩ := (Level.isBalanced_iff_existsUnique ts).1 hbalanced
    rw [ofTokens_tokens l hl] at h
    exact ⟨l, ⟨hl, rfl⟩, (congrArg Program.instructions (Except.ok.inj h)).symm⟩
  · rintro ⟨l, ⟨hl, rfl⟩, hp⟩
    rw [ofTokens_tokens l hl, ← hp]

/-- an operator with nothing behind it, in brackets that no operator stands before -/
example : ofTokens (tokenize "c (a and)") =
    .ok ⟨[.call ⟨.str "c", []⟩, .call ⟨.str "a", []⟩, .operator .and]⟩ := by decide

end Program

end AccessRules
