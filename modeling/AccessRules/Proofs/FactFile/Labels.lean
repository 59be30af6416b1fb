/-
Objects among the arguments of a call. A table compares such an object as the word that the rule has for it; asked from
outside of a rule it has no word and takes the label of the object. The two are the same exactly where every table is
bound under its own name, and that is how fact files bind them. A table under a second name would be compared as that
name in a rule, and as its own name outside.

- `isLabelled_of_ofText`: a fact file binds every table under its own name.
- `matchesRow_unsourced`: arguments match the same rows with their sources and without.
- `answersAlike_iff_isLabelled`: all tables answer the same either way exactly under such a binding.
- `inside_and_outside_agree`: from the text of a file to calls and to whole rules.
-/
import Mathlib.Tactic
import AccessRules.Evaluation.Resolution
import AccessRules.Proofs.FactFile.Loading

namespace AccessRules

/-! ## Tables under their own names -/

/-- every table is bound under its own name -/
def Binding.IsLabelled (b : Binding FactTable) : Prop := ∀ name t, b.get? name = some (.object t) → t.name = name

theorem FactFile.isLabelled_of_ofText {text : String} {b : Binding FactTable} (h : ofText text = .ok b) :
    b.IsLabelled := by
  obtain ⟨members, -, -, hdescribed⟩ := isDescribedBy_of_ofText text b h
  intro name t ht
  have hrel := hdescribed name
  rw [ht] at hrel
  generalize Dict.lastFor name members = j? at hrel
  cases hrel with
  | some hd =>
    obtain ⟨operations, -, hlists⟩ := hd.object
    exact hlists.name_eq

/-! ## Arguments -/

section Arguments

variable {b : Binding FactTable} (hb : b.IsLabelled)

include hb

/-- a word that stands for a table is the label of it -/
theorem matchesArg_unsourced (t expected : Token) :
    FactTable.matchesArg FactTable.name (some t) expected (b.argument t) =
      FactTable.matchesArg FactTable.name none expected (b.argument t) := by
  unfold Binding.argument
  cases hv : t.str?.bind b.get? with
  | none => simp only [FactTable.matchesArg_literal]
  | some v =>
    cases v with
    | object o =>
      -- only here the source matters, and it is the name that the table is bound under
      obtain ⟨name, hname, ho⟩ := Option.bind_eq_some_iff.1 hv
      have hlabel : o.name = name := hb name o ho
      simp [FactTable.matchesArg, hname, hlabel]
    | _ => rfl

theorem matchesRow_unsourced (row params : List Token) :
    FactTable.matchesRow FactTable.name row (params.map b.argument) params =
      FactTable.matchesRow FactTable.name row (params.map b.argument) [] := by
  induction params generalizing row with
  | nil => rfl
  | cons t params ih =>
    cases row with
    | nil => rfl
    | cons expected row =>
      have harg := matchesArg_unsourced hb t expected
      simp only [List.map_cons, FactTable.matchesRow, List.head?_cons, List.tail_cons, List.head?_nil, List.tail_nil,
        harg, ih]

theorem lookup_unsourced (t : FactTable) (operation : String) (params : List Token) :
    t.lookup FactTable.name operation (params.map b.argument) params =
      t.lookup FactTable.name operation (params.map b.argument) [] := by
  simp only [FactTable.lookup, matchesRow_unsourced hb]

end Arguments

/-! ## Answers -/

namespace FactFile

/-- asked with the parameters of a rule, a table answers the same whether it is told how they were written or not, with
its arity looked at or not -/
def AnswersAlike (b : Binding FactTable) (t : FactTable) : Prop :=
  ∀ (operation : String) (params : List Token),
    (host t).tryInvokeFrom operation (params.map b.argument) params =
      (host t).tryInvoke operation (params.map b.argument) ∧
    (host t).invokeFrom operation (params.map b.argument) params =
      (host t).invoke operation (params.map b.argument)

theorem answersAlike_of_isLabelled {b : Binding FactTable} (hb : b.IsLabelled) (t : FactTable) : AnswersAlike b t := by
  intro operation params
  have hinvoke : (host t).invokeFrom operation (params.map b.argument) params =
      (host t).invoke operation (params.map b.argument) :=
    congrArg (fun answer => ExceptT.mk (pure answer)) (lookup_unsourced hb t operation params)
  exact ⟨by simp only [Receiver.tryInvokeFrom, Receiver.tryInvoke, hinvoke], hinvoke⟩

/-- a table that permits one word for one operation -/
def permitting (word : String) : FactTable := (FactTable.new "").addFact "permits" [.str word]

/-- a table under another name than its own is told from its label by a table that permits the other name -/
theorem isLabelled_of_answersAlike {b : Binding FactTable} (h : ∀ t, AnswersAlike b t) : b.IsLabelled := by
  intro name t ht
  have harg : b.argument (.str name) = .object t := by simp [Binding.argument, Token.str?, ht]
  have hinvoke := (h (permitting name) "permits" [.str name]).2
  rw [List.map_singleton, harg] at hinvoke
  have hget : (permitting name).rows.get? "permits" = some [[.str name]] := by
    rw [permitting, FactTable.get?_addFact]
    rfl
  have hlookup : (permitting name).lookup FactTable.name "permits" [.object t] [.str name] =
      (permitting name).lookup FactTable.name "permits" [.object t] [] := hinvoke
  simpa [FactTable.lookup, hget, FactTable.matchesRow, FactTable.matchesArg, Token.str?, eq_comm] using hlookup

/-- **Labels are as good as words** for all tables exactly when each is bound under its own name. -/
theorem answersAlike_iff_isLabelled (b : Binding FactTable) : (∀ t, AnswersAlike b t) ↔ b.IsLabelled :=
  ⟨isLabelled_of_answersAlike, answersAlike_of_isLabelled⟩

/-! ## Rules -/

/-- tables that are never told how their arguments were written -/
def labelHost : Host FactTable Id := fun t =>
  { host t with invokeFrom := fun operation args _ => (host t).invoke operation args }

theorem evaluate_labelHost {b : Binding FactTable} (hb : b.IsLabelled) (c : Call) :
    c.evaluate labelHost b = c.evaluate host b := by
  unfold Call.evaluate
  cases hc : c.resolve b with
  | settled outcome => rfl
  | invocation i =>
    cases (Call.resolvesTo_iff b c _).2 hc with
    | operation name operation params o ho =>
      obtain ⟨halike, -⟩ := answersAlike_of_isLabelled hb o operation.text params
      have hask : (labelHost o).tryInvokeFrom operation.text (params.map b.argument) params =
          (host o).tryInvoke operation.text (params.map b.argument) := rfl
      simp only [Invocation.run, hask, halike]

/-- **Inside a rule and outside of one** a fact file is the same. Every table of it is bound under its own name; with the
parameters of a rule for arguments, every table answers the same from their words as from the labels of the objects
among them; and so every rule is decided the same by tables that go by labels alone. -/
theorem inside_and_outside_agree (text : String) (b : Binding FactTable) (h : ofText text = .ok b) :
    b.IsLabelled ∧
    (∀ (t : FactTable) (operation : String) (params : List Token),
      (host t).tryInvokeFrom operation (params.map b.argument) params =
        (host t).tryInvoke operation (params.map b.argument) ∧
      (host t).invokeFrom operation (params.map b.argument) params =
        (host t).invoke operation (params.map b.argument)) ∧
    ∀ rule, (AccessRules.permitted labelHost b rule).run = permitted b rule := by
  have hb := isLabelled_of_ofText h
  refine ⟨hb, answersAlike_of_isLabelled hb, fun rule => ?_⟩
  unfold permitted AccessRules.permitted
  cases Program.ofText rule with
  | error cause => rfl
  | ok p => exact congrArg ExceptT.run (p.evaluate_of_calls labelHost host b b fun c _ => evaluate_labelHost hb c)

/-- a door that admits ann through a gate, which is a table itself -/
def gateFile : String :=
  "\x7b\"door\": \x7b\"admits\": [[\"ann\", \"gate\"]]\x7d, \"gate\": \x7b\"opens\": [[]]\x7d, \"gone\": null\x7d"

/-- the gate is the word and the label of itself, until it is bound under a second name -/
theorem gateFile_agrees :
    ∃ b door gate, ofText gateFile = .ok b ∧ b.get? "door" = some (.object door) ∧
      [Token.str "ann", .str "gate"].map b.argument = [.str "ann", .object gate] ∧
      ((host door).tryInvoke "admits" [.str "ann", .object gate]).run = .ok (.bool true) ∧
      ((host door).tryInvokeFrom "admits" [.str "ann", .object gate] [.str "ann", .str "gate"]).run =
        .ok (.bool true) ∧
      (AccessRules.permitted labelHost b "door admits ann gate").run = .ok true ∧
      ¬ (b.insert "entry" (.object gate)).IsLabelled := by
  obtain ⟨b, hb⟩ : ∃ b, ofText gateFile = .ok b := ⟨_, rfl⟩
  obtain ⟨-, halike, hrules⟩ := inside_and_outside_agree gateFile b hb
  have hdecided : (ofText gateFile).map (permitted · "door admits ann gate") = .ok (.ok true) := rfl
  rw [hb] at hdecided
  have hrule := (hrules "door admits ann gate").trans (Except.ok.inj hdecided)
  cases hb
  obtain ⟨hask, -⟩ := halike _ "admits" [.str "ann", .str "gate"]
  refine ⟨_, _, _, rfl, rfl, rfl, rfl, congrArg ExceptT.run hask, hrule, fun h => ?_⟩
  have hname := h "entry" _ (Dict.get?_insert_self _ _ _)
  exact absurd hname (by decide)

end FactFile

end AccessRules
