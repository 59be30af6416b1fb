/-
Facts only permit. A table that takes on further facts keeps the arity of every operation it has, for that is the length
of the first row, and a new row goes to the end; so what was admitted stays admitted and what matched still matches. It
holds of tables put together from facts alone: an operation without any row would take its arity from the first fact.

- `rows_ne_nil`: an operation of such a table has a row.
- `arity_addFacts`, `lookup_addFacts`: what further facts do to the arity and to the answer of an operation.
- `evaluate_rises_of_grows`: a call under a binding whose tables grew.
- `permission_survives`: whatever was permitted stays permitted.
-/
import Mathlib.Tactic
import AccessRules.FactTable.Growth
import AccessRules.Proofs.Evaluation.Rising
import AccessRules.Proofs.Evaluation.Verdict
import AccessRules.Proofs.FactTable.UpTo

namespace AccessRules

/-! ## Tables -/

namespace FactTable

theorem addFacts_concat (t : FactTable) (facts : List (String × List Token)) (f : String × List Token) :
    t.addFacts (facts ++ [f]) = (t.addFacts facts).addFact f.1 f.2 := by
  simp [addFacts]

theorem rows_ne_nil (t : FactTable) (h : t.IsBuilt) (operation : String) (rows : List (List Token))
    (hr : t.rows.get? operation = some rows) : rows ≠ [] := by
  obtain ⟨name, facts, rfl⟩ := h
  induction facts using List.reverseRecOn generalizing rows with
  | nil => cases hr
  | append_singleton facts f ih =>
    rw [addFacts_concat, get?_addFact] at hr
    split_ifs at hr with hf
    · rw [← Option.some.inj hr]
      exact List.append_ne_nil_of_right_ne_nil _ (List.cons_ne_nil _ _)
    · exact ih rows hr

theorem get?_addFacts (t : FactTable) (facts : List (String × List Token)) (operation : String)
    (rows : List (List Token)) (h : t.rows.get? operation = some rows) :
    (t.addFacts facts).rows.get? operation = some (rows ++ rowsOf facts operation) := by
  induction facts using List.reverseRecOn with
  | nil => simpa [addFacts, rowsOf] using h
  | append_singleton facts f ih =>
    rw [addFacts_concat, get?_addFact]
    by_cases hf : f.1 = operation
    · rw [if_pos hf, hf, ih]
      simp [rowsOf, hf]
    · rw [if_neg hf, ih]
      simp [rowsOf, hf]

theorem arity_addFacts (t : FactTable) (h : t.IsBuilt) (facts : List (String × List Token)) (operation : String)
    (a : Arity) (ha : t.arity operation = some a) : (t.addFacts facts).arity operation = some a := by
  obtain ⟨rows, hr, rfl⟩ := Option.map_eq_some_iff.1 ha
  obtain ⟨row, rest, rfl⟩ := List.exists_cons_of_ne_nil (t.rows_ne_nil h operation rows hr)
  rw [arity, t.get?_addFacts facts operation _ hr]
  rfl

end FactTable

/-! ## Values -/

/-- the table took on further facts -/
def FactTable.Grown (t u : FactTable) : Prop := ∃ facts, u = t.addFacts facts

theorem FactTable.Grown.name_eq (t u : FactTable) (h : t.Grown u) : u.name = t.name := by
  obtain ⟨facts, rfl⟩ := h
  exact t.name_addFacts facts

theorem Value.Grows.upTo {v w : Value FactTable} (h : v.Grows w) : v.UpTo FactTable.Grown w := by
  obtain rfl | ⟨t, facts, rfl, rfl⟩ := h
  · cases w with
    | object t => exact .tables ⟨[], rfl⟩
    | _ => exact .plain _ rfl
  · exact .tables ⟨facts, rfl⟩

theorem Binding.Grows.upTo {b d : Binding FactTable} (h : b.Grows d) : b.UpTo FactTable.Grown d := by
  intro name
  have hname := h name
  generalize b.get? name = v? at hname
  generalize d.get? name = w? at hname
  rcases hname with hvw | _
  · exact .some hvw.upTo
  · exact .none

namespace FactTable

/-- an answer that a table gives stays an answer, and stays true -/
theorem lookup_addFacts (t : FactTable) (facts : List (String × List Token)) (operation : String)
    {args args' : List (Value FactTable)} (hargs : List.Forall₂ (Value.UpTo Grown) args args') (sources : List Token)
    (v : Value FactTable) (h : t.lookup FactTable.name operation args sources = .ok v) :
    ∃ w, (t.addFacts facts).lookup FactTable.name operation args' sources = .ok w ∧ v.isTrue ≤ w.isTrue := by
  unfold lookup at h
  cases hr : t.rows.get? operation with
  | none =>
    rw [hr] at h
    cases h
  | some rows =>
    rw [hr] at h
    rw [lookup, t.get?_addFacts facts operation rows hr]
    refine ⟨_, rfl, ?_⟩
    rw [← Except.ok.inj h]
    simp only [Value.isTrue, Value.UpTo.matchesRow_eq Grown.name_eq _ hargs, List.any_append]
    exact Bool.left_le_or _ _

end FactTable

/-! ## Calls -/

theorem FactTable.tryInvokeFrom_eq_ok_iff (t : FactTable) (operation : String) (args : List (Value FactTable))
    (sources : List Token) (v : Value FactTable) :
    ((FactFile.host t).tryInvokeFrom operation args sources).run = .ok v ↔
      (FactFile.host t).refusal? operation args.length = none ∧
        t.lookup FactTable.name operation args sources = .ok v := by
  unfold Receiver.tryInvokeFrom
  cases hr : (FactFile.host t).refusal? operation args.length with
  | none => exact (and_iff_right rfl).symm
  | some e => exact ⟨nofun, fun h => nomatch h.1⟩

theorem FactTable.refusal?_addFacts (t : FactTable) (h : t.IsBuilt) (facts : List (String × List Token))
    (operation : String) (count : Nat) (hr : (FactFile.host t).refusal? operation count = none) :
    (FactFile.host (t.addFacts facts)).refusal? operation count = none := by
  obtain ⟨a, ha, hcount⟩ := (Receiver.refusal?_eq_none_iff _ _ _).1 hr
  exact (Receiver.refusal?_eq_none_iff _ _ _).2 ⟨a, t.arity_addFacts h facts operation a ha, hcount⟩

/-- an operation of a table that has taken on further facts, asked with arguments that grew -/
theorem Invocation.run_rises (t : FactTable) (h : t.IsBuilt) (facts : List (String × List Token))
    (name operation : String) {args args' : List (Value FactTable)}
    (hargs : List.Forall₂ (Value.UpTo FactTable.Grown) args args') (sources : List Token) :
    Rises (· ≤ ·) (Invocation.run FactFile.host ⟨name, t, operation, args, sources⟩)
      (Invocation.run FactFile.host ⟨name, t.addFacts facts, operation, args', sources⟩) := by
  intro v hv
  have hrun (t : FactTable) (args : List (Value FactTable)) :
      (Invocation.run FactFile.host ⟨name, t, operation, args, sources⟩).run =
        outcomeOf ⟨name, t, operation, args, sources⟩ ((FactFile.host t).tryInvokeFrom operation args sources).run :=
    rfl
  rw [hrun] at hv
  cases hanswer : ((FactFile.host t).tryInvokeFrom operation args sources).run with
  | error e =>
    rw [hanswer] at hv
    cases hv
  | ok answer =>
    rw [hanswer] at hv
    obtain ⟨hadmitted, hlookup⟩ := (t.tryInvokeFrom_eq_ok_iff _ _ _ _).1 hanswer
    obtain ⟨answer', hlookup', hle⟩ := t.lookup_addFacts facts operation hargs sources answer hlookup
    have hadmitted' := t.refusal?_addFacts h facts operation _ hadmitted
    rw [hargs.length_eq] at hadmitted'
    refine ⟨answer'.isTrue, ?_, Except.ok.inj hv ▸ hle⟩
    rw [hrun, (FactTable.tryInvokeFrom_eq_ok_iff _ _ _ _ _).2 ⟨hadmitted', hlookup'⟩]
    rfl

theorem Call.evaluate_rises_of_grows {b d : Binding FactTable} (hb : b.IsBuilt) (h : b.Grows d) (c : Call) :
    Rises (· ≤ ·) (c.evaluate FactFile.host b) (c.evaluate FactFile.host d) := by
  rcases c.resolve_upTo h.upTo with ⟨outcome, hrb, hrd⟩ | ⟨name, operation, params, t, u, ht, ⟨facts, rfl⟩, hrb, hrd⟩
  · simp only [evaluate, hrb, hrd]
    exact fun v hv => ⟨v, hv, le_rfl⟩
  · simp only [evaluate, hrb, hrd]
    exact Invocation.run_rises t (hb name t ht) facts name operation (h.upTo.arguments params) params

/-! ## Decisions -/

/-- **Facts only permit.** When tables that were put together from facts take on further facts, of any operations and
any lengths, every program that has a value still has one, and stays true if it was; and every rule that was permitted
is permitted still. -/
theorem permission_survives (b d : Binding FactTable) (hb : b.IsBuilt) (h : b.Grows d) :
    (∀ (p : Program) (v : Bool), (p.evaluate FactFile.host b).run = .ok v →
      ∃ w, (p.evaluate FactFile.host d).run = .ok w ∧ (v = true → w = true)) ∧
    (∀ (rule : String) (v : Bool), FactFile.permitted b rule = .ok v →
      ∃ w, FactFile.permitted d rule = .ok w ∧ (v = true → w = true)) ∧
    ∀ rule, FactFile.permitted b rule = .ok true → FactFile.permitted d rule = .ok true := by
  have hprogram (p : Program) (v : Bool) (hv : (p.evaluate FactFile.host b).run = .ok v) :
      ∃ w, (p.evaluate FactFile.host d).run = .ok w ∧ (v = true → w = true) := by
    obtain ⟨w, hw, hle⟩ := p.evaluate_rises FactFile.host FactFile.host b d
      (fun c _ => c.evaluate_rises_of_grows hb h) v hv
    exact ⟨w, hw, Bool.le_iff_imp.1 hle⟩
  have hrule (rule : String) (v : Bool) (hv : FactFile.permitted b rule = .ok v) :
      ∃ w, FactFile.permitted d rule = .ok w ∧ (v = true → w = true) := by
    unfold FactFile.permitted permitted at hv ⊢
    cases hp : Program.ofText rule with
    | error cause =>
      rw [hp] at hv
      cases hv
    | ok p =>
      rw [hp] at hv
      exact hprogram p v hv
  refine ⟨hprogram, hrule, fun rule hv => ?_⟩
  obtain ⟨w, hw, himp⟩ := hrule rule true hv
  rw [hw, himp rfl]

open Program (door)

/-- further facts about the door, one of them of another length and one of another operation -/
def doorFacts : List (String × List Token) := [("admits", []), ("admits", [.str "bob"]), ("shuts", [])]

/-- the door with further facts -/
def busyDoor : Binding FactTable :=
  .ofList [("door", .object (((FactTable.new "door").addFact "admits" [.str "ann"]).addFacts doorFacts))]

theorem door_eq_insert :
    door = Binding.empty.insert "door" (.object ((FactTable.new "door").addFact "admits" [.str "ann"])) := rfl

theorem busyDoor_eq_insert : busyDoor = Binding.empty.insert "door"
    (.object (((FactTable.new "door").addFact "admits" [.str "ann"]).addFacts doorFacts)) := rfl

theorem isBuilt_door : door.IsBuilt := by
  intro name t h
  rw [door_eq_insert, Binding.get?_insert] at h
  split_ifs at h with hname
  · cases h
    exact ⟨"door", [("admits", [.str "ann"])], rfl⟩
  · cases h

theorem grows_busyDoor : door.Grows busyDoor := by
  intro name
  rw [door_eq_insert, busyDoor_eq_insert, Binding.get?_insert, Binding.get?_insert]
  split_ifs with hname
  · exact .some (.inr ⟨_, doorFacts, rfl, rfl⟩)
  · exact .none

/-- who was admitted is admitted still, and who was not may be -/
theorem permission_survives_at_door :
    FactFile.permitted busyDoor "door admits ann" = .ok true ∧
    FactFile.permitted door "door admits bob" = .ok false ∧ FactFile.permitted busyDoor "door admits bob" = .ok true ∧
    ∃ w, (Program.evaluate FactFile.host busyDoor ⟨[.call Program.admitsAnn, .call Program.admitsBob]⟩).run = .ok w := by
  obtain ⟨hprogram, -, hpermitted⟩ := permission_survives door busyDoor isBuilt_door grows_busyDoor
  refine ⟨hpermitted "door admits ann" rfl, rfl, rfl, ?_⟩
  obtain ⟨w, hw, -⟩ := hprogram ⟨[.call Program.admitsAnn, .call Program.admitsBob]⟩ false rfl
  exact ⟨w, hw⟩

end AccessRules
