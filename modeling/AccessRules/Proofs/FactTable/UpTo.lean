/-
Two bindings that differ in their tables only. Where one has a table the other has one that it is related to, of the
same name, and everything else is the same. Truth and matching go by the name of a table, so a call comes to the same in
both unless it asks a table, and then it asks the related one the same question, up to tables among the arguments.

- `isTruthy_eq`, `matchesRow_eq`: what can be told of values without asking.
- `arguments`: the arguments of a call under both bindings.
- `resolve_upTo`: what a call comes to under both bindings.
-/
import Mathlib.Data.List.Forall2
import AccessRules.Evaluation.Resolution
import AccessRules.FactTable
import AccessRules.Proofs.Json.Items

namespace AccessRules

variable {R : FactTable → FactTable → Prop}

/-- the same value, or two tables that `R` relates -/
inductive Value.UpTo (R : FactTable → FactTable → Prop) : Value FactTable → Value FactTable → Prop where
  | plain (v : Value FactTable) (h : v.object? = none) : UpTo R v v
  | tables {t u : FactTable} (h : R t u) : UpTo R (.object t) (.object u)

/-- the same names, with values that are the same or related tables -/
def Binding.UpTo (R : FactTable → FactTable → Prop) (b d : Binding FactTable) : Prop :=
  ∀ name, Option.Rel (Value.UpTo R) (b.get? name) (d.get? name)

/-! ## Values -/

namespace Value.UpTo

variable {v w : Value FactTable}

theorem isTruthy_eq (h : v.UpTo R w) : w.isTruthy = v.isTruthy := by
  cases h <;> rfl

/-- what a table is related to is a table -/
theorem of_object {t : FactTable} (h : (Value.object t).UpTo R w) : ∃ u, w = .object u ∧ R t u := by
  cases h with
  | plain _ ho => cases ho
  | tables htu => exact ⟨_, rfl, htu⟩

/-- and everything else to itself alone -/
theorem eq_of_plain (h : v.UpTo R w) (ho : v.object? = none) : w = v := by
  cases h with
  | plain => rfl
  | tables => cases ho

variable (hR : ∀ t u, R t u → u.name = t.name)

include hR

/-- the name of a table, by which it is matched, is the same -/
theorem matchesArg_eq (h : v.UpTo R w) (source : Option Token) (expected : Token) :
    FactTable.matchesArg FactTable.name source expected w = FactTable.matchesArg FactTable.name source expected v := by
  cases h with
  | plain => rfl
  | tables htu => simp only [FactTable.matchesArg, hR _ _ htu]

theorem matchesRow_eq (row : List Token) {args args' : List (Value FactTable)} (h : List.Forall₂ (UpTo R) args args')
    (sources : List Token) :
    FactTable.matchesRow FactTable.name row args' sources = FactTable.matchesRow FactTable.name row args sources := by
  induction row generalizing args args' sources with
  | nil => cases h <;> rfl
  | cons expected row ih =>
    cases h with
    | nil => rfl
    | cons harg hargs => rw [FactTable.matchesRow, FactTable.matchesRow, harg.matchesArg_eq hR, ih hargs]

end Value.UpTo

/-! ## Calls -/

namespace Binding.UpTo

variable {b d : Binding FactTable}

theorem get?_of_some (h : b.UpTo R d) {name : String} {v : Value FactTable} (hv : b.get? name = some v) :
    ∃ w, d.get? name = some w ∧ v.UpTo R w :=
  Json.rel_some_iff.1 (hv ▸ h name)

theorem get?_of_none (h : b.UpTo R d) {name : String} (hv : b.get? name = none) : d.get? name = none :=
  Json.rel_none_iff.1 (hv ▸ h name)

theorem argument (h : b.UpTo R d) (t : Token) : (b.argument t).UpTo R (d.argument t) := by
  cases t with
  | str name =>
    rw [Binding.argument, Binding.argument, Token.str?, Option.bind_some, Option.bind_some]
    cases hv : b.get? name with
    | none =>
      rw [h.get?_of_none hv]
      exact .plain _ rfl
    | some v =>
      obtain ⟨w, hw, hvw⟩ := h.get?_of_some hv
      rw [hw]
      exact hvw
  | int n => exact .plain _ rfl
  | bool v => exact .plain _ rfl

theorem arguments (h : b.UpTo R d) (params : List Token) :
    List.Forall₂ (Value.UpTo R) (params.map b.argument) (params.map d.argument) := by
  rw [List.forall₂_map_left_iff, List.forall₂_map_right_iff]
  exact List.forall₂_same.2 fun t _ => h.argument t

end Binding.UpTo

/-- **A call under both bindings** is settled alike, or asks two related tables the same. -/
theorem Call.resolve_upTo {b d : Binding FactTable} (h : b.UpTo R d) (c : Call) :
    (∃ outcome, c.resolve b = .settled outcome ∧ c.resolve d = .settled outcome) ∨
      ∃ name operation params t u, b.get? name = some (.object t) ∧ R t u ∧
        c.resolve b = .invocation ⟨name, t, operation, params.map b.argument, params⟩ ∧
        c.resolve d = .invocation ⟨name, u, operation, params.map d.argument, params⟩ := by
  have hsettled {outcome : Except RuleError Bool} (hd : c.ResolvesTo d (.settled outcome)) :
      c.resolve d = .settled outcome := resolve_of_resolvesTo d c _ hd
  have hc := c.resolve_resolvesTo b
  generalize c.resolve b = r at hc
  cases hc with
  | literal v => exact .inl ⟨_, rfl, hsettled (.literal v)⟩
  | name name v hv =>
    obtain ⟨w, hw, hvw⟩ := h.get?_of_some hv
    exact .inl ⟨_, rfl, hvw.isTruthy_eq ▸ hsettled (.name name w hw)⟩
  | operation name operation params t ht =>
    obtain ⟨w, hw, hvw⟩ := h.get?_of_some ht
    obtain ⟨u, rfl, htu⟩ := hvw.of_object
    exact .inr ⟨name, operation.text, params, t, u, ht, htu, rfl, resolve_of_object d name operation params u hw⟩
  | falsy name operation params v hv hf =>
    obtain ⟨w, hw, hvw⟩ := h.get?_of_some hv
    exact .inl ⟨_, rfl, hsettled (.falsy name operation params w hw (hvw.isTruthy_eq.trans hf))⟩
  | scalar name operation params v hv ho ht =>
    obtain ⟨w, hw, hvw⟩ := h.get?_of_some hv
    obtain rfl := hvw.eq_of_plain ho
    exact .inl ⟨_, rfl, hsettled (.scalar name operation params w hw ho ht)⟩
  | unbound _ hs hv => exact .inl ⟨_, rfl, hsettled (.unbound c (fun name hname => h.get?_of_none (hs name hname)) hv)⟩

end AccessRules
