/-
Order and repetition in a fact file mean nothing. Two files that say the same load together or not at all, and no rule
tells them apart. The arity of an operation is read off the row that comes first, but rows are of one length, so any row
would do; and arguments match a list when they are any one of its rows.

- `FactTable.Agrees`, `arity_eq`, `lookup_eq`: two tables with the same rows for the same operations answer alike.
- `evaluate_of_agrees`: a call under two bindings whose tables agree.
- `agrees_of_sameFacts`: files that say the same load as such bindings.
- `order_means_nothing`: two texts, and all rules.
- `embedded_key_moved`: a text in which the order of members does matter, for one of them has the key of embedded texts.
-/
import Mathlib.Tactic
import AccessRules.FactFile.Same
import AccessRules.Proofs.FactFile.Loading
import AccessRules.Proofs.FactTable.UpTo

namespace AccessRules

/-! ## Tables -/

namespace FactTable

/-- the same rows, in whatever order and however often, all of one length -/
structure SameSet (rows others : List (List Token)) : Prop where
  uniform : IsUniform others
  mem_iff : ∀ row, row ∈ rows ↔ row ∈ others

/-- two tables of one name, with the same rows for the same operations -/
structure Agrees (t u : FactTable) : Prop where
  name_eq : u.name = t.name
  rows : ∀ operation, Option.Rel SameSet (t.rows.get? operation) (u.rows.get? operation)

/-- the first row is as long as any other -/
theorem SameSet.head_length_eq {rows others : List (List Token)} (h : SameSet rows others) :
    rows.head?.map List.length = others.head?.map List.length := by
  obtain ⟨length, hlength⟩ := h.uniform
  rcases rows with _ | ⟨row, rows⟩
  · have hnil : others = [] := List.eq_nil_iff_forall_not_mem.2 fun row hrow => nomatch (h.mem_iff row).2 hrow
    rw [hnil]
  · rcases others with _ | ⟨other, others⟩
    · exact nomatch (h.mem_iff row).1 List.mem_cons_self
    · have hrow := hlength row ((h.mem_iff row).1 List.mem_cons_self)
      have hother := hlength other List.mem_cons_self
      simp only [List.head?_cons, Option.map_some, hrow, hother]

namespace Agrees

variable {t u : FactTable}

theorem arity_eq (h : t.Agrees u) (operation : String) : u.arity operation = t.arity operation := by
  have hrows := h.rows operation
  unfold arity
  generalize t.rows.get? operation = rows? at hrows
  generalize u.rows.get? operation = others? at hrows
  rcases hrows with hsame | _
  · simp only [Option.map_some, hsame.head_length_eq]
  · rfl

theorem lookup_eq (h : t.Agrees u) (operation : String) {args args' : List (Value FactTable)}
    (hargs : List.Forall₂ (Value.UpTo Agrees) args args') (sources : List Token) :
    u.lookup FactTable.name operation args' sources = t.lookup FactTable.name operation args sources := by
  have hrows := h.rows operation
  unfold lookup
  generalize t.rows.get? operation = rows? at hrows
  generalize u.rows.get? operation = others? at hrows
  rcases hrows with hsame | _
  · simp only [Value.UpTo.matchesRow_eq (fun _ _ h => h.name_eq) _ hargs]
    congr 2
    rw [Bool.eq_iff_iff, List.any_eq_true, List.any_eq_true]
    exact exists_congr fun row => and_congr_left fun _ => (hsame.mem_iff row).symm
  · rfl

/-- an operation that is refused by one is refused by the other, for the same reason, and otherwise answered the same -/
theorem tryInvokeFrom_eq (h : t.Agrees u) (operation : String) {args args' : List (Value FactTable)}
    (hargs : List.Forall₂ (Value.UpTo Agrees) args args') (sources : List Token) :
    (FactFile.host u).tryInvokeFrom operation args' sources =
      (FactFile.host t).tryInvokeFrom operation args sources := by
  have hrefusal : (FactFile.host u).refusal? operation args'.length =
      (FactFile.host t).refusal? operation args.length := by
    have harity : (FactFile.host u).arity operation = (FactFile.host t).arity operation := h.arity_eq operation
    rw [Receiver.refusal?, Receiver.refusal?, harity, hargs.length_eq]
  have hanswer : (FactFile.host u).invokeFrom operation args' sources =
      (FactFile.host t).invokeFrom operation args sources :=
    congrArg (fun answer => ExceptT.mk (pure answer)) (h.lookup_eq operation hargs sources)
  rw [Receiver.tryInvokeFrom, Receiver.tryInvokeFrom, hrefusal, hanswer]

end Agrees

end FactTable

/-! ## Rules -/

/-- **One call** comes to the same under two bindings whose tables agree, error or not. -/
theorem Call.evaluate_of_agrees {b d : Binding FactTable} (h : b.UpTo FactTable.Agrees d) (c : Call) :
    c.evaluate FactFile.host b = c.evaluate FactFile.host d := by
  rcases c.resolve_upTo h with ⟨outcome, hb, hd⟩ | ⟨name, operation, params, t, u, -, htu, hb, hd⟩
  · simp only [evaluate, hb, hd]
  · simp only [evaluate, hb, hd, Invocation.run, htu.tryInvokeFrom_eq operation (h.arguments params) params]
    rfl

theorem FactFile.permitted_of_agrees {b d : Binding FactTable} (h : b.UpTo FactTable.Agrees d) (rule : String) :
    FactFile.permitted b rule = FactFile.permitted d rule := by
  unfold FactFile.permitted AccessRules.permitted
  cases Program.ofText rule with
  | error cause => rfl
  | ok p => exact congrArg _ (Program.evaluate_of_calls _ _ b d p fun c _ => c.evaluate_of_agrees h)

/-! ## Files -/

namespace FactFile

theorem sameSet_of_sameRows {rows others : List (List Token)} (h : SameRows (FactTable.rowsToJson rows)
    (FactTable.rowsToJson others)) (hothers : FactTable.IsUniform others) : FactTable.SameSet rows others := by
  obtain ⟨hsub, hsup⟩ := h.of_array
  have hrow (row : List Token) : IsRow row.length (FactTable.rowToJson row) :=
    (FactTable.isRow_iff _ _).2 ⟨row, rfl, rfl⟩
  refine ⟨hothers, fun row => ⟨fun hmem => ?_, fun hmem => ?_⟩⟩
  · obtain ⟨k, hk, hjk⟩ := hsub _ (List.mem_map_of_mem hmem)
    obtain ⟨other, hother, rfl⟩ := List.mem_map.1 hk
    rwa [FactTable.rowToJson_injective (hjk.eq_of_isRow (.inl (hrow row)))]
  · obtain ⟨j, hj, hjk⟩ := hsup _ (List.mem_map_of_mem hmem)
    obtain ⟨other, hother, rfl⟩ := List.mem_map.1 hj
    rwa [← FactTable.rowToJson_injective (hjk.eq_of_isRow (.inr (hrow row)))]

theorem agrees_of_sameMembers {name : String} {operations others : List (String × Json)} {t u : FactTable}
    (h : SameMembers SameRows operations others) (ht : t.Lists name operations) (hu : u.Lists name others) :
    t.Agrees u := by
  refine ⟨hu.name_eq.trans ht.name_eq.symm, fun operation => ?_⟩
  have hsame := h operation
  have htrows := ht.rows operation
  have hurows := hu.rows operation
  generalize Dict.lastFor operation operations = j? at hsame htrows
  generalize Dict.lastFor operation others = k? at hsame hurows
  rcases hsame with hjk | _
  · obtain ⟨rows, hrows, rfl, -⟩ := Json.rel_some_iff.1 htrows
    obtain ⟨rows', hrows', rfl, huniform⟩ := Json.rel_some_iff.1 hurows
    rw [hrows, hrows']
    exact .some (sameSet_of_sameRows hjk huniform)
  · rw [Json.rel_none_iff.1 htrows, Json.rel_none_iff.1 hurows]
    exact .none

theorem upTo_of_describes {name : String} {j k : Json} {v w : Value FactTable} (h : SameEntry j k)
    (hv : Describes name j v) (hw : Describes name k w) : v.UpTo FactTable.Agrees w := by
  cases hv with
  | null =>
    obtain rfl := SameObject.eq_of_scalar h nofun nofun
    rw [hw.absent_of_null]
    exact .plain _ rfl
  | literal t =>
    obtain rfl := SameObject.eq_of_scalar h (by cases t <;> exact nofun) (by cases t <;> exact nofun)
    rw [hw.literal_of_toJson]
    exact .plain _ (by cases t <;> rfl)
  | table operations t ht =>
    obtain ⟨others, rfl, hsame⟩ := SameObject.of_object (fun _ _ => .reordered) h
    obtain ⟨u, rfl, hu⟩ := hw.table_of_object
    exact .tables (agrees_of_sameMembers hsame ht hu)

/-- **Files that say the same** load as bindings that differ in their tables only, and the tables agree. -/
theorem upTo_of_sameFacts {j k : Json} {b d : Binding FactTable} (h : SameFacts j k) (hb : ofJson j = .ok b)
    (hd : ofJson k = .ok d) : b.UpTo FactTable.Agrees d := by
  obtain ⟨members, rfl, -, hbdescribed⟩ := describes_of_ofJson j b hb
  obtain ⟨others, rfl, hsame⟩ := SameObject.of_object (fun _ _ => .reordered) h
  obtain ⟨_, hothers, -, hddescribed⟩ := describes_of_ofJson _ d hd
  obtain rfl := Json.object.inj hothers
  intro name
  have hmember := hsame name
  have hvalue := hbdescribed name
  have hvalue' := hddescribed name
  generalize Dict.lastFor name members = j? at hmember hvalue
  generalize Dict.lastFor name others = k? at hmember hvalue'
  rcases hmember with hjk | _
  · obtain ⟨v, hv, hdescribes⟩ := Json.rel_some_iff.1 hvalue
    obtain ⟨w, hw, hdescribes'⟩ := Json.rel_some_iff.1 hvalue'
    rw [hv, hw]
    exact .some (upTo_of_describes hjk hdescribes hdescribes')
  · rw [Json.rel_none_iff.1 hvalue, Json.rel_none_iff.1 hvalue']
    exact .none

/-- **Order and repetition mean nothing.** Take two texts that are read as JSON values which differ in the order of
members and in the order and the number of argument lists only; of a repeated key the last member counts. Then one of
them loads exactly when the other does, and when they do, every rule is decided the same, with the same error if there
is one. A text that never spells the key of embedded texts is read as the JSON that it is. -/
theorem order_means_nothing (text other : String) (j k : Json) (hj : Json.readUnfolding text = .ok j)
    (hk : Json.readUnfolding other = .ok k) (h : SameFacts j k) :
    ((∃ b, ofText text = .ok b) ↔ ∃ d, ofText other = .ok d) ∧
    (∀ b d, ofText text = .ok b → ofText other = .ok d → ∀ rule, permitted b rule = permitted d rule) ∧
    (.string Json.embeddedKey ∉ Json.lexemes text → Json.read text = .ok j) ∧
    (.string Json.embeddedKey ∉ Json.lexemes other → Json.read other = .ok k) := by
  refine ⟨?_, fun b d hb hd rule => ?_, fun hkey => ?_, fun hkey => ?_⟩
  · rw [ofText_of_json text j hj, ofText_of_json other k hk, ofJson_isOk_iff, ofJson_isOk_iff]
    exact h.isFacts_iff
  · rw [ofText_of_json text j hj] at hb
    rw [ofText_of_json other k hk] at hd
    exact permitted_of_agrees (upTo_of_sameFacts h hb hd) rule
  · rw [← Json.readUnfolding_eq_read text hkey, hj]
  · rw [← Json.readUnfolding_eq_read other hkey, hk]

/-- the operations of the door in `doorFile` -/
def doorOperations : List (String × Json) :=
  [("admits", .array [.array [.str "ann", .int 10], .array [.str "bob", .bool true]]), ("shuts", .array [])]

/-- the same operations and argument lists in another order, one list twice -/
def turnedOperations : List (String × Json) :=
  [("shuts", .array []),
    ("admits", .array [.array [.str "bob", .bool true], .array [.str "ann", .int 10], .array [.str "bob", .bool true]])]

/-- `doorFile` with its names, its operations and their argument lists in another order, and one list twice -/
def turnedDoorFile : String :=
  "\x7b\"door\": \x7b\"shuts\": [], \"admits\": [[\"bob\", true], [\"ann\", 10], [\"bob\", true]]\x7d, " ++
    "\"guest\": null\x7d"

theorem sameRows_turnedOperations : SameMembers SameRows doorOperations turnedOperations := by
  have hadmits : SameRows (.array [.array [.str "ann", .int 10], .array [.str "bob", .bool true]])
      (.array [.array [.str "bob", .bool true], .array [.str "ann", .int 10], .array [.str "bob", .bool true]]) := by
    refine .of_mem_iff fun j => ?_
    simp only [List.mem_cons, List.not_mem_nil, or_false]
    tauto
  have hsame : SameMembers SameRows doorOperations turnedOperations.reverse :=
    .cons "admits" hadmits (.cons "shuts" (.reordered (.same _)) .nil)
  exact hsame.perm (List.reverse_perm _) (by decide)

theorem sameFacts_turnedDoor : SameFacts (.object [("guest", .null), ("door", .object doorOperations)])
    (.object [("door", .object turnedOperations), ("guest", .null)]) := by
  have hsame : SameMembers SameEntry [("guest", .null), ("door", .object doorOperations)]
      [("guest", .null), ("door", .object turnedOperations)] :=
    .cons "guest" (.reordered (.same _)) (.cons "door" (.members sameRows_turnedOperations) .nil)
  exact .members (hsame.perm (.swap _ _ []) (by decide))

/-- both load, and no rule tells them apart -/
theorem order_means_nothing_at_door :
    (∃ b, ofText doorFile = .ok b) ∧ (∃ d, ofText turnedDoorFile = .ok d) ∧
    ∀ b d, ofText doorFile = .ok b → ofText turnedDoorFile = .ok d → ∀ rule, permitted b rule = permitted d rule := by
  obtain ⟨hloads, hrules, -, -⟩ := order_means_nothing doorFile turnedDoorFile _ _ rfl rfl sameFacts_turnedDoor
  have hdoor : ∃ b, ofText doorFile = .ok b := ⟨_, rfl⟩
  exact ⟨hdoor, hloads.1 hdoor, hrules⟩

/-- the key of embedded texts in front -/
def embeddedFirst : String := "\x7b\"$serde_json::private::RawValue\":1,\"a\":1\x7d"

/-- the same members, that key behind -/
def embeddedLast : String := "\x7b\"a\":1,\"$serde_json::private::RawValue\":1\x7d"

/-- the members of the first -/
def embeddedMembers : List (String × Json) := [(Json.embeddedKey, .int 1), ("a", .int 1)]

/-- two texts that are JSON with the same members in another order, no key twice: the first is refused, for its object
stands for an embedded text and holds none, and the second loads -/
theorem embedded_key_moved :
    Json.read embeddedFirst = .ok (.object embeddedMembers) ∧
    Json.read embeddedLast = .ok (.object embeddedMembers.reverse) ∧ (embeddedMembers.map Prod.fst).Nodup ∧
    SameFacts (.object embeddedMembers) (.object embeddedMembers.reverse) ∧
    (¬ ∃ b, ofText embeddedFirst = .ok b) ∧ ∃ d, ofText embeddedLast = .ok d := by
  have hnodup : (embeddedMembers.map Prod.fst).Nodup := by decide
  have hrefl : SameMembers SameEntry embeddedMembers embeddedMembers := .refl (fun j => .reordered (.same j)) _
  have hrefused : ofText embeddedFirst = .error (.notJson .malformed) := rfl
  refine ⟨rfl, rfl, hnodup, .members (hrefl.perm (List.reverse_perm _).symm hnodup), ?_, _, rfl⟩
  rw [hrefused]
  exact nofun

end FactFile

end AccessRules
