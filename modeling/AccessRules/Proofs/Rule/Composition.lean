/-
Rules put together. Two rule texts, each in brackets, with an operator between them are a rule: first the left one is
decided, then the right one, and the operator makes one value of the two. The right one has to be well-formed; the left
one may leave several values, for the operator takes the newest of them and nothing looks at those below.

- `tokenize_joined`, `ofText_joined`: the tokens and the program of the text, in terms of those of its parts.
- `evaluate_joined`: a program, a well-formed one behind it, and an operator.
- `run_permitted_recording`: what a rule asks behind what was asked before it.
- `permitted_joined`: the decision of the text and what is asked on the way.
-/
import AccessRules.FactFile
import AccessRules.Proofs.Evaluation.Asking
import AccessRules.Proofs.Evaluation.Verdict
import AccessRules.Proofs.Program.Levels
import AccessRules.Proofs.Rule.Meaning
import AccessRules.Proofs.Rule.Syntax
import AccessRules.Rule.Spelling

namespace AccessRules

variable {ω α β : Type} {m : Type → Type}

namespace Rule

/-- two rule texts in brackets, with an operator between them -/
def joined (op : Operator) (left right : String) : String := "(" ++ left ++ ") " ++ op.text ++ " (" ++ right ++ ")"

/-! ## The tokens and the program -/

theorem scan_before_closing (cs rest : List Char) :
    Token.scan [] (cs ++ ')' :: rest) = Token.scan [] cs ++ .closing :: Token.scan [] rest := by
  rw [scan_split cs rest ')' (by decide), List.append_assoc]
  rfl

theorem scan_before_blank (cs rest : List Char) :
    Token.scan [] (cs ++ ' ' :: rest) = Token.scan [] cs ++ Token.scan [] rest := by
  rw [scan_split cs rest ' ' (by decide), Token.ofDelimiter_blank ' ' (by decide), List.append_nil]

theorem tokenize_joined (op : Operator) (left right : String) :
    tokenize (joined op left right) =
      (.opening :: tokenize left ++ [.closing]) ++ .str op.text :: (.opening :: tokenize right ++ [.closing]) := by
  have hchars : (joined op left right).toList = '(' :: (left.toList ++ ')' :: ' ' ::
      (op.text.toList ++ ' ' :: '(' :: (right.toList ++ [')']))) := by
    simp [joined, String.toList_append]
  have hop : Token.scan [] op.text.toList = [.str op.text] := by cases op <;> decide
  have hopening (cs : List Char) : Token.scan [] ('(' :: cs) = .opening :: Token.scan [] cs :=
    Token.scan_bracket [] '(' cs (by decide)
  have hblank (cs : List Char) : Token.scan [] (' ' :: cs) = Token.scan [] cs := scan_before_blank [] cs
  calc tokenize (joined op left right)
      = .opening :: Token.scan [] (left.toList ++ ')' :: ' ' ::
          (op.text.toList ++ ' ' :: '(' :: (right.toList ++ [')']))) := by rw [tokenize, hchars, hopening]
    _ = .opening :: (tokenize left ++ .closing :: .str op.text :: Token.scan [] ('(' :: (right.toList ++ [')']))) := by
        rw [scan_before_closing, hblank, scan_before_blank, hop]
        rfl
    _ = (.opening :: tokenize left ++ [.closing]) ++ .str op.text :: (.opening :: tokenize right ++ [.closing]) := by
        rw [hopening, scan_before_closing]
        simp [tokenize, Token.scan, Token.ofLetters]

theorem ofText_joined (op : Operator) (left right : String) (p q : Program) (hp : Program.ofText left = .ok p)
    (hq : Program.ofText right = .ok q) :
    Program.ofText (joined op left right) = .ok ⟨p.instructions ++ (q.instructions ++ [.operator op])⟩ := by
  obtain ⟨l, hl, hltokens, hlpost⟩ := Program.exists_level_of_ofTokens _ p hp
  obtain ⟨r, hr, hrtokens, hrpost⟩ := Program.exists_level_of_ofTokens _ q hq
  have htokens : tokenize (joined op left right) = (Level.group l (.operator op (.group r .nil))).tokens := by
    rw [tokenize_joined, ← hltokens, ← hrtokens]
    simp [Level.tokens]
  have hmax : (Level.group l (.operator op (.group r .nil))).IsMaximal := ⟨hl, hr, trivial⟩
  calc Program.ofText (joined op left right)
      = .ok ⟨(Level.group l (.operator op (.group r .nil))).postfixOrder⟩ := by
        rw [Program.ofText, htokens, Program.ofTokens_tokens _ hmax]
    _ = .ok ⟨p.instructions ++ (q.instructions ++ [.operator op])⟩ := by
        rw [hlpost, hrpost]
        rfl

end Rule

/-! ## The decision -/

/-- behind `x` only what holds of its results matters -/
theorem bind_congr_of_satisfies [Monad m] [LawfulMonad m] {P : α → Prop} {x : m α} (h : SatisfiesM P x)
    {f g : α → m β} (hfg : ∀ a, P a → f a = g a) : x >>= f = x >>= g := by
  obtain ⟨y, rfl⟩ := h
  rw [bind_map_left, bind_map_left]
  exact bind_congr fun a => hfg a.1 a.2

namespace Program

/-- a tree and an operator, on a stack: the operator takes the newest value and that of the tree -/
theorem run_postorder_operator [Monad m] [LawfulMonad m] (host : Host ω m) (b : Binding ω) (left : Bool)
    (stack : List Bool) (t : Tree) (op : Operator) :
    run host b (left :: stack) (t.postorder ++ [.operator op]) = (do
      let right ← t.evaluate host b
      pure (op.apply left right :: stack)) := by
  simp only [run_append, run_postorder, bind_assoc, pure_bind, run_operator]

/-- instructions leave a value, if they end at all -/
theorem run_leaves_value [Monad m] [LawfulMonad m] (host : Host ω m) (b : Binding ω) (is : List Instruction)
    (hne : is ≠ []) : SatisfiesM (fun r => ∀ s, r = .ok s → s ≠ []) (run host b [] is).run := by
  rw [← fst_runNoted]
  exact (isTranscript_runNoted host b [] is).map fun {x} hx s hs => hx.2 s hs (.inl hne)

/-- **A program, a well-formed one behind it, and an operator.** Both are decided as if they stood alone. -/
theorem evaluate_joined [Monad m] [LawfulMonad m] (host : Host ω m) (b : Binding ω) (op : Operator) (p q : Program)
    (hp : p.instructions ≠ []) (hq : q.instructions ≠ []) (hw : q.isWellFormed = true) :
    evaluate host b ⟨p.instructions ++ (q.instructions ++ [.operator op])⟩ = (do
      let l ← p.evaluate host b
      let r ← q.evaluate host b
      pure (op.apply l r)) := by
  obtain ⟨t, ht⟩ := exists_postorder q hq hw
  have hne : p.instructions ++ (q.instructions ++ [.operator op]) ≠ [] := List.append_ne_nil_of_left_ne_nil hp _
  rw [evaluate_eq_run host b _ hne, evaluate_eq_run host b p hp, evaluate_of_postorder host b q t ht, ht, run_append]
  simp only [bind_assoc]
  apply ExceptT.ext
  simp only [ExceptT.run_bind]
  refine bind_congr_of_satisfies (run_leaves_value host b p.instructions hp) fun r hr => ?_
  rcases r with e | stack
  · rfl
  · obtain ⟨left, rest, rfl⟩ := List.exists_cons_of_ne_nil (hr stack rfl)
    simp only [run_postorder_operator, ExceptT.run_bind, ExceptT.run_pure, bind_assoc, pure_bind]
    refine bind_congr fun right => ?_
    cases right <;> simp

end Program

namespace Rule

/-- what a rule asks, behind what was asked before it -/
theorem run_permitted_recording [Monad m] [LawfulMonad m] (host : Host ω m) (b : Binding ω) (rule : String)
    (asked : List (Asked ω)) :
    (permitted host.recording b rule).run.run asked =
      (fun x => (x.1, asked ++ x.2)) <$> permittedRecorded host b rule := by
  cases h : Program.ofText rule with
  | error cause =>
    rw [permittedRecorded_of_imbalance host b rule cause h, permitted_of_imbalance host.recording b rule cause h,
      map_pure, List.append_nil]
    rfl
  | ok p =>
    rw [permittedRecorded_of_program host b rule p h, permitted_of_program host.recording b rule p h,
      Program.evaluateRecorded_eq, Program.evaluate_recording, Functor.map_map]

section Joined

variable [Monad m] [LawfulMonad m] (host : Host ω m) (b : Binding ω) (op : Operator) (left right : String)
  (p q : Program) (hp : Program.ofText left = .ok p) (hq : Program.ofText right = .ok q)
  (hpne : p.instructions ≠ []) (hqne : q.instructions ≠ []) (hw : q.isWellFormed = true)

include hp hq hpne hqne hw

theorem permitted_joined_eq :
    permitted host b (joined op left right) = (do
      let l ← permitted host b left
      let r ← permitted host b right
      pure (op.apply l r)) := by
  rw [permitted_of_program host b _ _ (ofText_joined op left right p q hp hq), permitted_of_program host b _ _ hp,
    permitted_of_program host b _ _ hq]
  exact Program.evaluate_joined host b op p q hpne hqne hw

theorem permittedRecorded_joined_eq :
    permittedRecorded host b (joined op left right) = (do
      let (l, asked) ← permittedRecorded host b left
      match l with
      | .error e => pure (.error e, asked)
      | .ok l =>
        let (r, asked') ← permittedRecorded host b right
        pure (r.map (op.apply l), asked ++ asked')) := by
  have hjoined : permittedRecorded host b (joined op left right) =
      (permitted host.recording b (joined op left right)).run.run [] := rfl
  rw [hjoined, permitted_joined_eq host.recording b op left right p q hp hq hpne hqne hw]
  simp only [ExceptT.run_bind, StateT.run_bind]
  refine bind_congr fun x => ?_
  obtain ⟨l, asked⟩ := x
  rcases l with e | l
  · rfl
  · simp only [StateT.run_bind, run_permitted_recording, bind_map_left]
    refine bind_congr fun y => ?_
    obtain ⟨r, asked'⟩ := y
    cases r <;> rfl

/-- **Rules put together.** Take two texts that have programs with instructions, the right one's well-formed. Their text
with an operator between them is decided by deciding the left one, then the right one unless the left one fails, and
applying the operator to the two values. What is asked is what the left one asks, and then, unless it fails, what the
right one asks. So when each of the two comes to an outcome by itself, which it does when objects are functions of what
they are asked, the whole fails as the left one if that fails, else as the right one if that fails, and else has the
value of the operator. -/
theorem permitted_joined :
    permitted host b (joined op left right) = (do
      let l ← permitted host b left
      let r ← permitted host b right
      pure (op.apply l r)) ∧
    permittedRecorded host b (joined op left right) = (do
      let (l, asked) ← permittedRecorded host b left
      match l with
      | .error e => pure (.error e, asked)
      | .ok l =>
        let (r, asked') ← permittedRecorded host b right
        pure (r.map (op.apply l), asked ++ asked')) ∧
    ∀ l asked r asked', permittedRecorded host b left = pure (l, asked) →
      permittedRecorded host b right = pure (r, asked') →
      permittedRecorded host b (joined op left right) = pure (match l, r with
        | .error e, _ => (.error e, asked)
        | .ok _, .error e => (.error e, asked ++ asked')
        | .ok l, .ok r => (.ok (op.apply l r), asked ++ asked')) := by
  have hrecord := permittedRecorded_joined_eq host b op left right p q hp hq hpne hqne hw
  refine ⟨permitted_joined_eq host b op left right p q hp hq hpne hqne hw, hrecord, ?_⟩
  intro l asked r asked' hl hr
  rw [hrecord, hl, pure_bind, hr]
  rcases l with e | l
  · rfl
  · rcases r with e | r <;> simp [Except.map]

end Joined

/-- the door is asked to admit somebody -/
def admitting (who : String) : Asked FactTable :=
  ⟨(FactTable.new "door").addFact "admits" [.str "ann"], "admits", [.str who], [.str who]⟩

/-- a text that leaves two values, the second of which counts; and a text that fails, behind which nothing is asked -/
theorem permitted_joined_at_door :
    permittedRecorded FactFile.host Program.door
      (joined .and "(door admits ann) (door admits bob)" "door admits ann") =
      pure (.ok false, [admitting "ann", admitting "bob", admitting "ann"]) ∧
    permittedRecorded FactFile.host Program.door (joined .or "gate" "door admits ann") =
      pure (.error (.unbound "gate"), []) := by
  have htwo : Program.ofText "(door admits ann) (door admits bob)" =
      .ok ⟨[.call Program.admitsAnn, .call Program.admitsBob]⟩ := by decide
  have hann : Program.ofText "door admits ann" = .ok ⟨[.call Program.admitsAnn]⟩ := by decide
  have hgate : Program.ofText "gate" = .ok ⟨[.call Program.gateOpen]⟩ := by decide
  have hright : permittedRecorded FactFile.host Program.door "door admits ann" =
      pure (.ok true, [admitting "ann"]) := by
    rw [permittedRecorded_of_program _ _ _ _ hann]
    rfl
  constructor
  · obtain ⟨-, -, houtcomes⟩ := permitted_joined FactFile.host Program.door .and _ _ _ _ htwo hann (by simp)
      (by simp) rfl
    refine houtcomes (.ok false) [admitting "ann", admitting "bob"] (.ok true) [admitting "ann"] ?_ hright
    rw [permittedRecorded_of_program _ _ _ _ htwo]
    rfl
  · obtain ⟨-, -, houtcomes⟩ := permitted_joined FactFile.host Program.door .or _ _ _ _ hgate hann (by simp)
      (by simp) rfl
    refine houtcomes (.error (.unbound "gate")) [] (.ok true) [admitting "ann"] ?_ hright
    rw [permittedRecorded_of_program _ _ _ _ hgate]
    rfl

end Rule

end AccessRules
