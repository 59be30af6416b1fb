/-
What a rule of one call comes to over a fact file, said from the members of the file alone: there is one rule for every
way in which the member of the receiver decides the call, and over a table one for fewer, for more and for as many
parameters as the rows of the operation are long.

- `effective?_eq_comparedAs?`: what a parameter is compared as.
- `matchesRow_arguments`: the arguments of a call match the row that its parameters are compared as, and no other.
- `evaluate_of_decides`, `exists_decides`: the rules give the decision of the call, and there is always one.
- `permitted_iff_decides`: from the texts of the file and the rule to the decision.
-/
import Mathlib.Tactic
import AccessRules.FactFile.Argument
import AccessRules.Proofs.FactFile.Loading
import AccessRules.Proofs.Program.Levels

namespace AccessRules

namespace FactFile

/-! ## The rules -/

/-- the token that a parameter is compared as: a literal and a name that is no key as it is written, the name of a table
too, a name with a literal as that literal, and a name with `null` as nothing -/
def comparedAs? (members : List (String × Json)) : Token → Option Token
  | .str name =>
    match Dict.lastFor name members with
    | none => some (.str name)
    | some (.object _) => some (.str name)
    | some j => Token.ofJson? j
  | t => some t

/-- `null`, false, zero or the empty text -/
def IsFalsy (j : Json) : Prop := j = .null ∨ j = .bool false ∨ j = .int 0 ∨ j = .str ""

/-- the rows that the table of a name lists for an operation, and the length of all of them; without rows it is zero -/
structure HasRows (members : List (String × Json)) (name operation : String) (length : Nat) (rows : List (List Token)) :
    Prop where
  listed : ∃ operations, Dict.lastFor name members = some (.object operations) ∧
    Dict.lastFor operation operations = some (FactTable.rowsToJson rows)
  length_eq : ∀ row ∈ rows, row.length = length
  length_of_nil : rows = [] → length = 0

/-- what a call comes to over the members of a fact file -/
inductive Decides (members : List (String × Json)) : Token → Token → List Token → Except RuleError Bool → Prop where
  | unbound (receiver operation : Token) (params : List Token)
    (h : ∀ name, receiver = .str name → Dict.lastFor name members = none) :
    Decides members receiver operation params (.error (.unbound receiver.text))
  | falsy (name : String) (operation : Token) (params : List Token) (j : Json)
    (hj : Dict.lastFor name members = some j) (hf : IsFalsy j) :
    Decides members (.str name) operation params (.ok false)
  | scalar (name : String) (operation : Token) (params : List Token) (t : Token)
    (hj : Dict.lastFor name members = some t.toJson) (ht : ¬ IsFalsy t.toJson) :
    Decides members (.str name) operation params (.error (.unsupported name operation.text))
  | noOperation (name : String) (operation : Token) (params : List Token) (operations : List (String × Json))
    (hj : Dict.lastFor name members = some (.object operations))
    (ho : Dict.lastFor operation.text operations = none) :
    Decides members (.str name) operation params (.error (.unsupported name operation.text))
  | tooFew (name : String) (operation : Token) (params : List Token) (length : Nat) (rows : List (List Token))
    (hr : HasRows members name operation.text length rows) (hlt : params.length < length) :
    Decides members (.str name) operation params (.error (.arity name operation.text .tooFew))
  | tooMany (name : String) (operation : Token) (params : List Token) (length : Nat) (rows : List (List Token))
    (hr : HasRows members name operation.text length rows) (hlt : length < params.length) :
    Decides members (.str name) operation params (.error (.arity name operation.text .tooMany))
  | asked (name : String) (operation : Token) (params : List Token) (rows : List (List Token))
    (hr : HasRows members name operation.text params.length rows) :
    Decides members (.str name) operation params
      (.ok (decide (∃ row ∈ rows, params.mapM (comparedAs? members) = some row)))

end FactFile

/-! ## Parameters -/

theorem matchesRow_arguments {ω : Type} (label : ω → String) (b : Binding ω) (row params : List Token) :
    FactTable.matchesRow label row (params.map b.argument) params = decide (b.effectiveRow? params = some row) := by
  induction params generalizing row with
  | nil => cases row <;> rfl
  | cons t params ih =>
    have hcons : b.effectiveRow? (t :: params) = (do
        let e ← b.effective? t
        let rest ← b.effectiveRow? params
        pure (e :: rest)) := List.mapM_cons
    cases row with
    | nil =>
      rw [hcons]
      cases b.effective? t <;> cases b.effectiveRow? params <;> rfl
    | cons expected row =>
      rw [List.map_cons, FactTable.matchesRow, List.head?_cons, List.tail_cons, matchesArg_argument, ih, hcons]
      cases b.effective? t <;> cases b.effectiveRow? params <;> simp

namespace FactFile

variable {members : List (String × Json)} {b : Binding FactTable}

theorem effective?_eq_comparedAs? (hb : IsDescribedBy b members) (t : Token) :
    b.effective? t = comparedAs? members t := by
  cases t with
  | bool v => rfl
  | int n => rfl
  | str name =>
    have hrel := hb name
    rw [Binding.effective?, comparedAs?, Token.str?, Option.bind_some]
    generalize Dict.lastFor name members = j? at hrel
    generalize b.get? name = v? at hrel
    cases hrel with
    | none => rfl
    | some h =>
      cases h with
      | null => rfl
      | literal u => cases u <;> simp [Value.ofToken, Value.literal?, Token.toJson, Token.ofJson?, Token.int64?_toInt]
      | table operations t hl => rfl

theorem effectiveRow?_eq_mapM (hb : IsDescribedBy b members) (params : List Token) :
    b.effectiveRow? params = params.mapM (comparedAs? members) :=
  congrArg params.mapM (funext fun t => effective?_eq_comparedAs? hb t)

/-! ## Values -/

theorem get?_of_lastFor (hb : IsDescribedBy b members)
    {name : String} {j : Json} (hj : Dict.lastFor name members = some j) :
    ∃ v, b.get? name = some v ∧ Describes name j v :=
  Json.rel_some_iff.1 (hj ▸ hb name)

theorem get?_of_no_key (hb : IsDescribedBy b members)
    {name : String} (hj : Dict.lastFor name members = none) : b.get? name = none :=
  Json.rel_none_iff.1 (hj ▸ hb name)

theorem table_of_object (hb : IsDescribedBy b members)
    {name : String} {operations : List (String × Json)} (hj : Dict.lastFor name members = some (.object operations)) :
    ∃ t : FactTable, b.get? name = some (.object t) ∧ t.Lists name operations := by
  obtain ⟨v, hv, h⟩ := get?_of_lastFor hb hj
  obtain ⟨t, rfl, hl⟩ := h.table_of_object
  exact ⟨t, hv, hl⟩

theorem literal_of_toJson (hb : IsDescribedBy b members)
    {name : String} {t : Token} (hj : Dict.lastFor name members = some t.toJson) :
    b.get? name = some (.ofToken t) := by
  obtain ⟨v, hv, h⟩ := get?_of_lastFor hb hj
  rw [hv, h.literal_of_toJson]

/-- a name is truthy unless its member is `null`, false, zero or the empty text -/
theorem isTruthy_of_describes {name : String} {j : Json} {v : Value FactTable} (h : Describes name j v) :
    v.isTruthy = true ↔ ¬ IsFalsy j := by
  cases h with
  | null => exact ⟨nofun, fun h => absurd (.inl rfl) h⟩
  | literal t =>
    cases t with
    | bool v => cases v <;> simp [Value.ofToken, Value.isTruthy, IsFalsy, Token.toJson]
    | int n => simp [Value.ofToken, Value.isTruthy, IsFalsy, Token.toJson, ← Int64.toInt_inj]
    | str s => simp [Value.ofToken, Value.isTruthy, IsFalsy, Token.toJson]
  | table operations t hl => simp [Value.isTruthy, IsFalsy]

/-! ## Tables -/

theorem rowsToJson_injective : Function.Injective FactTable.rowsToJson :=
  fun _ _ h => FactTable.rowToJson_injective.list_map (Json.array.inj h)

/-- the table of a name has the rows that are listed for it, and takes as many arguments as they are long -/
theorem table_of_hasRows (hb : IsDescribedBy b members)
    {name operation : String} {length : Nat} {rows : List (List Token)}
    (h : HasRows members name operation length rows) : ∃ t : FactTable, b.get? name = some (.object t) ∧
      t.rows.get? operation = some rows ∧ t.arity operation = some (.exact length) := by
  obtain ⟨⟨operations, hj, hrows⟩, hlength, hnil⟩ := h
  obtain ⟨t, ht, hl⟩ := table_of_object hb hj
  obtain ⟨listed, hget, hlisted, -⟩ := Json.rel_some_iff.1 (hrows ▸ hl.rows operation)
  obtain rfl := rowsToJson_injective hlisted
  refine ⟨t, ht, hget, ?_⟩
  rw [FactTable.arity, hget, Option.map_some]
  cases rows with
  | nil => rw [hnil rfl]; rfl
  | cons row rest => rw [← hlength row List.mem_cons_self]; rfl

/-! ## Calls -/

theorem evaluate_of_refused {name : String} {operation : Token} {params : List Token} {t : FactTable} {e : InvokeError}
    (ht : b.get? name = some (.object t)) (hr : (host t).refusal? operation.text params.length = some e) :
    (Call.evaluate host b ⟨.str name, operation :: params⟩).run =
      .error (Invocation.errorOf ⟨name, t, operation.text, params.map b.argument, params⟩ e) := by
  rw [← List.length_map b.argument] at hr
  have hrun : ((host t).tryInvokeFrom operation.text (params.map b.argument) params).run = .error e := by
    simp only [Receiver.tryInvokeFrom, hr]
    rfl
  rw [Call.evaluate, Call.resolve_of_object b name operation params t ht]
  exact congrArg (Invocation.outcomeOf _) hrun

theorem evaluate_of_admitted {name : String} {operation : Token} {params : List Token} {t : FactTable}
    {v : Value FactTable} (ht : b.get? name = some (.object t))
    (hr : (host t).refusal? operation.text params.length = none)
    (hv : t.lookup FactTable.name operation.text (params.map b.argument) params = .ok v) :
    (Call.evaluate host b ⟨.str name, operation :: params⟩).run = .ok v.isTrue := by
  rw [← List.length_map b.argument] at hr
  have hrun := (FactTable.tryInvokeFrom_eq_ok_iff t operation.text (params.map b.argument) params v).2 ⟨hr, hv⟩
  rw [Call.evaluate, Call.resolve_of_object b name operation params t ht]
  exact congrArg (Invocation.outcomeOf _) hrun

theorem refusal?_of_arity {t : FactTable} {operation : String} {length : Nat}
    (h : t.arity operation = some (.exact length)) (count : Nat) :
    (host t).refusal? operation count = ((Arity.exact length).fault? count).map .arity := by
  have harity : (host t).arity operation = some (.exact length) := h
  rw [Receiver.refusal?, harity]

/-- over rows of one length the number of parameters decides which rule there is -/
theorem exists_decides_of_rows {name : String} {operation : Token} {rows : List (List Token)}
    (hlisted : ∃ operations, Dict.lastFor name members = some (.object operations) ∧
      Dict.lastFor operation.text operations = some (FactTable.rowsToJson rows))
    (length : Nat) (hlength : ∀ row ∈ rows, row.length = length) (params : List Token) :
    ∃ answer, Decides members (.str name) operation params answer := by
  obtain ⟨common, hr⟩ : ∃ common, HasRows members name operation.text common rows := by
    cases rows with
    | nil => exact ⟨0, hlisted, nofun, fun _ => rfl⟩
    | cons row rest => exact ⟨length, hlisted, hlength, nofun⟩
  rcases Nat.lt_trichotomy params.length common with hlt | rfl | hlt
  · exact ⟨_, .tooFew name operation params common rows hr hlt⟩
  · exact ⟨_, .asked name operation params rows hr⟩
  · exact ⟨_, .tooMany name operation params common rows hr hlt⟩

/-- **The rules are right**: what they give to a call is its outcome. -/
theorem evaluate_of_decides (hb : IsDescribedBy b members) {receiver operation : Token} {params : List Token}
    {answer : Except RuleError Bool} (h : Decides members receiver operation params answer) :
    (Call.evaluate host b ⟨receiver, operation :: params⟩).run = answer := by
  have hsettled {c : Call} (h : c.ResolvesTo b (.settled answer)) : (c.evaluate host b).run = answer := by
    rw [Call.evaluate, Call.resolve_of_resolvesTo b c _ h]
    rfl
  cases h with
  | unbound receiver operation params h =>
    exact hsettled (.unbound _ (fun name hname => get?_of_no_key hb (h name hname)) fun _ _ => List.cons_ne_nil _ _)
  | falsy name operation params j hj hf =>
    obtain ⟨v, hv, hd⟩ := get?_of_lastFor hb hj
    have hfalsy : v.isTruthy = false := by
      rw [← Bool.not_eq_true, isTruthy_of_describes hd, not_not]
      exact hf
    exact hsettled (.falsy name operation params v hv hfalsy)
  | scalar name operation params t hj ht =>
    have hv := literal_of_toJson hb hj
    have hobject : (Value.ofToken t : Value FactTable).object? = none := by cases t <;> rfl
    have hdescribes : Describes name t.toJson (.ofToken t) := .literal t
    have htruthy : (Value.ofToken t : Value FactTable).isTruthy = true := (isTruthy_of_describes hdescribes).2 ht
    exact hsettled (.scalar name operation params _ hv hobject htruthy)
  | noOperation name operation params operations hj ho =>
    obtain ⟨t, ht, hl⟩ := table_of_object hb hj
    have hnone : t.rows.get? operation.text = none := Json.rel_none_iff.1 (ho ▸ hl.rows operation.text)
    have hrefused : (host t).refusal? operation.text params.length = some .notFound := by
      have harity : (host t).arity operation.text = none := Option.map_eq_none_iff.2 hnone
      rw [Receiver.refusal?, harity]
    exact evaluate_of_refused ht hrefused
  | tooFew name operation params length rows hr hlt =>
    obtain ⟨t, ht, hrows, harity⟩ := table_of_hasRows hb hr
    have hrefused := refusal?_of_arity harity params.length
    rw [Arity.fault?, Arity.exact, if_pos hlt, Option.map_some] at hrefused
    exact evaluate_of_refused ht hrefused
  | tooMany name operation params length rows hr hlt =>
    obtain ⟨t, ht, hrows, harity⟩ := table_of_hasRows hb hr
    have hrefused := refusal?_of_arity harity params.length
    rw [Arity.fault?, Arity.exact, if_neg (Nat.lt_asymm hlt), if_pos hlt, Option.map_some] at hrefused
    exact evaluate_of_refused ht hrefused
  | asked name operation params rows hr =>
    obtain ⟨t, ht, hrows, harity⟩ := table_of_hasRows hb hr
    have hadmitted := refusal?_of_arity harity params.length
    rw [(Arity.fault?_exact _ _).2 rfl, Option.map_none] at hadmitted
    have hlookup : t.lookup FactTable.name operation.text (params.map b.argument) params =
        .ok (.bool (decide (∃ row ∈ rows, params.mapM (comparedAs? members) = some row))) := by
      rw [FactTable.lookup, hrows]
      simp only [matchesRow_arguments, effectiveRow?_eq_mapM hb]
      refine congrArg (fun v => Except.ok (Value.bool v)) ?_
      rw [Bool.eq_iff_iff, List.any_eq_true, decide_eq_true_iff]
      simp only [decide_eq_true_eq]
    exact evaluate_of_admitted ht hadmitted hlookup

/-- **There is always a rule** for a call over a file that loads. -/
theorem exists_decides (hb : IsDescribedBy b members) (receiver operation : Token) (params : List Token) :
    ∃ answer, Decides members receiver operation params answer := by
  cases receiver with
  | bool v => exact ⟨_, .unbound _ _ _ nofun⟩
  | int n => exact ⟨_, .unbound _ _ _ nofun⟩
  | str name =>
    cases hj : Dict.lastFor name members with
    | none => exact ⟨_, .unbound _ _ _ fun name' h => Token.str.inj h ▸ hj⟩
    | some j =>
      by_cases hf : IsFalsy j
      · exact ⟨_, .falsy name operation params j hj hf⟩
      · obtain ⟨v, hv, hd⟩ := get?_of_lastFor hb hj
        cases hd with
        | null => exact absurd (.inl rfl) hf
        | literal t => exact ⟨_, .scalar name operation params t hj hf⟩
        | table operations t hl =>
          cases ho : Dict.lastFor operation.text operations with
          | none => exact ⟨_, .noOperation name operation params operations hj ho⟩
          | some j =>
            obtain ⟨rows, -, rfl, length, hlength⟩ := Json.rel_some_iff.1 (ho ▸ hl.rows operation.text)
            exact exists_decides_of_rows ⟨operations, hj, ho⟩ length hlength params

end FactFile

/-! ## Rules of one call -/

/-- a rule whose tokens are one run is decided as their call -/
theorem permitted_of_run {ω : Type} {m : Type → Type} [Monad m] [LawfulMonad m] (host : Host ω m) (b : Binding ω)
    (rule : String) (c : Call) (hrule : tokenize rule = c.tokens) (hplain : ∀ t ∈ c.tokens, t.role = .plain) :
    permitted host b rule = c.evaluate host b := by
  have hprogram : Program.ofText rule = .ok ⟨[.call c]⟩ := by
    have htokens := Program.ofTokens_tokens (.run c .nil) ⟨hplain, rfl, trivial⟩
    rw [Level.tokens, Level.tokens, List.append_nil, ← hrule] at htokens
    exact htokens
  have hevaluate : (Program.mk [.call c]).evaluate host b = c.evaluate host b := by
    simp [Program.evaluate, Program.isEmpty, Program.run, Program.step]
  rw [permitted, hprogram]
  exact hevaluate

namespace FactFile

/-- **Fact files decide single calls as their tables say.** Over a file that loads, the decision of a rule of one call
with an operation is what the rules give to it from the members of the file, and nothing else. -/
theorem permitted_iff_decides (text rule : String) (b : Binding FactTable) (hb : ofText text = .ok b)
    (receiver operation : Token) (params : List Token) (hrule : tokenize rule = receiver :: operation :: params)
    (hwords : ∀ w ∈ ["and", "or", "(", ")"], Token.str w ∉ tokenize rule) :
    ∃ members, Json.readUnfolding text = .ok (.object members) ∧
      ∀ answer, permitted b rule = answer ↔ Decides members receiver operation params answer := by
  have hplain : ∀ t ∈ Call.tokens ⟨receiver, operation :: params⟩, t.role = .plain := by
    intro t ht
    refine t.role_eq_plain_iff.2 (t.isPlain_iff.2 fun w hw htw => hwords w hw ?_)
    rw [hrule, ← htw]
    exact ht
  obtain ⟨members, hread, -, hdescribed⟩ := isDescribedBy_of_ofText text b hb
  have hdecision (answer : Except RuleError Bool) (h : Decides members receiver operation params answer) :
      permitted b rule = answer := by
    rw [permitted, permitted_of_run host b rule ⟨receiver, operation :: params⟩ hrule hplain]
    exact evaluate_of_decides hdescribed h
  refine ⟨members, hread, fun answer => ⟨?_, hdecision answer⟩⟩
  rintro rfl
  obtain ⟨answer, hanswer⟩ := exists_decides hdescribed receiver operation params
  rw [hdecision answer hanswer]
  exact hanswer

/-- a table beside names for a number, for the same numeral as a text, and for nothing -/
def numberFile : String :=
  "\x7b\"door\": \x7b\"admits\": [[\"ann\", 10], [\"door\", 7]]\x7d, \"n\": 10, \"s\": \"10\", \"gone\": null\x7d"

/-- its members -/
def numberMembers : List (String × Json) :=
  [("door", .object [("admits", .array [.array [.str "ann", .int 10], .array [.str "door", .int 7]])]),
    ("n", .int 10), ("s", .str "10"), ("gone", .null)]

/-- the name of the number is compared as the number, that of the text as the text and that of nothing as nothing; a
table is compared as its name, and zeros in front of a numeral do not count -/
theorem numberFile_decides :
    Json.readUnfolding numberFile = .ok (.object numberMembers) ∧
    tokenize "door admits door 007" = [.str "door", .str "admits", .str "door", .int 7] ∧
    Decides numberMembers (.str "door") (.str "admits") [.str "ann", .str "n"] (.ok true) ∧
    Decides numberMembers (.str "door") (.str "admits") [.str "ann", .str "s"] (.ok false) ∧
    Decides numberMembers (.str "door") (.str "admits") [.str "ann", .str "gone"] (.ok false) ∧
    Decides numberMembers (.str "door") (.str "admits") [.str "door", .int 7] (.ok true) ∧
    Decides numberMembers (.str "door") (.str "admits") [.str "ann"] (.error (.arity "door" "admits" .tooFew)) := by
  have hread : Json.readUnfolding numberFile = .ok (.object numberMembers) := rfl
  obtain ⟨b, hb⟩ : ∃ b, ofText numberFile = .ok b := ⟨_, rfl⟩
  have hdecides (rule : String) (params : List Token) (answer : Except RuleError Bool)
      (hrule : tokenize rule = .str "door" :: .str "admits" :: params)
      (hwords : ∀ w ∈ ["and", "or", "(", ")"], Token.str w ∉ tokenize rule)
      (hanswer : (ofText numberFile).map (permitted · rule) = .ok answer) :
      Decides numberMembers (.str "door") (.str "admits") params answer := by
    obtain ⟨members, hread', hiff⟩ := permitted_iff_decides numberFile rule b hb _ _ params hrule hwords
    rw [hread] at hread'
    cases hread'
    rw [hb] at hanswer
    exact (hiff answer).1 (Except.ok.inj hanswer)
  exact ⟨hread, by decide, hdecides "door admits ann n" _ _ (by decide) (by decide) rfl,
    hdecides "door admits ann s" _ _ (by decide) (by decide) rfl,
    hdecides "door admits ann gone" _ _ (by decide) (by decide) rfl,
    hdecides "door admits door 007" _ _ (by decide) (by decide) rfl,
    hdecides "door admits ann" _ _ (by decide) (by decide) rfl⟩

end FactFile

end AccessRules
