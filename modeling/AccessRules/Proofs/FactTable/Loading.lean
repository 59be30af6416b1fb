/-
What the table of a name loads as. Loading is the other way round of writing down: a list of argument lists loads
exactly when it is rows of one length written down, and gives those rows; an object of such lists gives a table with
those operations, in ascending order.

- `rowsOfJson_eq_ok_iff`: the argument lists of an operation.
- `lists_of_ofMembers`, `ofMembers_isOk_iff`: the operations of a table, and which of them load.
- `sameAs_addFacts_iff`: a table put together from its facts, one by one.
-/
import Mathlib.Tactic
import AccessRules.FactFile.Format
import AccessRules.Proofs.FactTable.Growth
import AccessRules.Proofs.Json.Items
import AccessRules.Text.Bytes

namespace AccessRules

/-! ## Rows -/

namespace FactTable

/-- an argument list, written down -/
def rowToJson (row : List Token) : Json := .array (row.map Token.toJson)

/-- argument lists, written down -/
def rowsToJson (rows : List (List Token)) : Json := .array (rows.map rowToJson)

theorem rowToJson_injective : Function.Injective rowToJson := by
  have htoken : Function.Injective Token.toJson := fun _ _ => Token.toJson_inj
  exact fun r s h => htoken.list_map (Json.array.inj h)

/-- all rows have one length -/
def IsUniform (rows : List (List Token)) : Prop := ∃ length, ∀ row ∈ rows, row.length = length

theorem rowOfJson_eq_ok_iff (j : Json) (row : List Token) : rowOfJson j = .ok row ↔ j = rowToJson row := by
  cases j with
  | array items =>
    rw [rowToJson, Json.array.injEq, ← Token.mapM_ofJson?_eq_some_iff, rowOfJson]
    cases items.mapM Token.ofJson? with
    | none => exact ⟨nofun, nofun⟩
    | some row' => exact ⟨fun h => congrArg some (Except.ok.inj h), fun h => congrArg Except.ok (Option.some.inj h)⟩
  | _ => exact ⟨nofun, nofun⟩

theorem rowsOfItems_nil_eq_ok_iff (first : Option Nat) (rows : List (List Token)) :
    rowsOfItems first [] = .ok rows ↔ rows = [] :=
  ⟨fun h => (Except.ok.inj h).symm, fun h => congrArg Except.ok h.symm⟩

theorem map_eq_ok_iff {ε α β : Type} (f : α → β) (x : Except ε α) (b : β) :
    x.map f = .ok b ↔ ∃ a, x = .ok a ∧ f a = b := by
  cases x with
  | ok a => simp [Except.map]
  | error e => simp [Except.map]

/-- one more argument list in front, as long as the first if it is not the first itself -/
theorem rowsOfItems_cons_eq_ok_iff (first : Option Nat) (j : Json) (items : List Json) (rows : List (List Token)) :
    rowsOfItems first (j :: items) = .ok rows ↔ ∃ row rest, j = rowToJson row ∧ (∀ n ∈ first, row.length = n) ∧
      rowsOfItems (some row.length) items = .ok rest ∧ rows = row :: rest := by
  have hall (row : List Token) :
      first.all (fun n => decide (n = row.length)) = true ↔ ∀ n ∈ first, row.length = n := by
    cases first with
    | none => simp
    | some n => simp [eq_comm]
  have hfirst (row : List Token) (h : ∀ n ∈ first, row.length = n) : first.getD row.length = row.length := by
    cases first with
    | none => rfl
    | some n => exact (h n rfl).symm
  constructor
  · intro h
    unfold rowsOfItems at h
    split at h
    · cases h
    · rename_i row hrow
      split_ifs at h with hlength
      have hlength := (hall row).1 hlength
      obtain ⟨rest, hrest, rfl⟩ := (map_eq_ok_iff _ _ _).1 h
      rw [hfirst row hlength] at hrest
      exact ⟨row, rest, (rowOfJson_eq_ok_iff j row).1 hrow, hlength, hrest, rfl⟩
  · rintro ⟨row, rest, hj, hlength, hrest, rfl⟩
    simp only [rowsOfItems, (rowOfJson_eq_ok_iff j row).2 hj, (hall row).2 hlength, if_true, hfirst row hlength, hrest]
    rfl

theorem rowsOfItems_some_eq_ok_iff (length : Nat) (items : List Json) (rows : List (List Token)) :
    rowsOfItems (some length) items = .ok rows ↔
      items = rows.map rowToJson ∧ ∀ row ∈ rows, row.length = length := by
  induction items generalizing rows with
  | nil =>
    rw [rowsOfItems_nil_eq_ok_iff]
    constructor
    · rintro rfl
      exact ⟨rfl, nofun⟩
    · rintro ⟨h, -⟩
      exact List.map_eq_nil_iff.1 h.symm
  | cons j items ih =>
    rw [rowsOfItems_cons_eq_ok_iff]
    constructor
    · rintro ⟨row, rest, rfl, hlength, hrest, rfl⟩
      have hlength := hlength length rfl
      obtain ⟨hitems, hall⟩ := (ih rest).1 (hlength ▸ hrest)
      exact ⟨by rw [List.map_cons, hitems], List.forall_mem_cons.2 ⟨hlength, hall⟩⟩
    · rintro ⟨hitems, hall⟩
      obtain ⟨row, rest, rfl, rfl, rfl⟩ := List.map_eq_cons_iff.1 hitems.symm
      obtain ⟨hlength, hall⟩ := List.forall_mem_cons.1 hall
      refine ⟨row, rest, rfl, fun n hn => hlength.trans (Option.some.inj hn), ?_, rfl⟩
      rw [hlength]
      exact (ih rest).2 ⟨rfl, hall⟩

/-- **Rows of one length, written down**, are what loads as the argument lists of an operation. -/
theorem rowsOfJson_eq_ok_iff (j : Json) (rows : List (List Token)) :
    rowsOfJson j = .ok rows ↔ j = rowsToJson rows ∧ IsUniform rows := by
  cases j with
  | array items =>
    rw [rowsToJson, Json.array.injEq, rowsOfJson]
    cases items with
    | nil =>
      rw [rowsOfItems_nil_eq_ok_iff]
      constructor
      · rintro rfl
        exact ⟨rfl, 0, nofun⟩
      · rintro ⟨h, -⟩
        exact List.map_eq_nil_iff.1 h.symm
    | cons j items =>
      rw [rowsOfItems_cons_eq_ok_iff]
      constructor
      · rintro ⟨row, rest, rfl, -, hrest, rfl⟩
        obtain ⟨hitems, hall⟩ := (rowsOfItems_some_eq_ok_iff _ _ _).1 hrest
        exact ⟨by rw [List.map_cons, hitems], row.length, List.forall_mem_cons.2 ⟨rfl, hall⟩⟩
      · rintro ⟨hitems, length, hall⟩
        obtain ⟨row, rest, rfl, rfl, rfl⟩ := List.map_eq_cons_iff.1 hitems.symm
        obtain ⟨rfl, hall⟩ := List.forall_mem_cons.1 hall
        exact ⟨row, rest, rfl, nofun, (rowsOfItems_some_eq_ok_iff _ _ _).2 ⟨rfl, hall⟩, rfl⟩
  | _ => exact ⟨nofun, nofun⟩

theorem isRow_iff (length : Nat) (j : Json) :
    FactFile.IsRow length j ↔ ∃ row : List Token, j = rowToJson row ∧ row.length = length := by
  constructor
  · intro h
    cases j with
    | array items =>
      obtain ⟨hlength, hall⟩ := h
      obtain ⟨row, rfl⟩ := (FactFile.forall_isLiteral_iff items).1 hall
      exact ⟨row, rfl, by rw [← hlength, List.length_map]⟩
    | _ => exact h.elim
  · rintro ⟨row, rfl, rfl⟩
    exact ⟨List.length_map _, (FactFile.forall_isLiteral_iff _).2 ⟨row, rfl⟩⟩

theorem isRows_iff (j : Json) : FactFile.IsRows j ↔ ∃ rows, rowsOfJson j = .ok rows := by
  constructor
  · intro h
    cases j with
    | array items =>
      obtain ⟨length, hall⟩ := h
      have hrange : items ∈ Set.range (List.map rowToJson) := by
        rw [Set.range_list_map]
        intro j hj
        obtain ⟨row, rfl, -⟩ := (isRow_iff length j).1 (hall j hj)
        exact ⟨row, rfl⟩
      obtain ⟨rows, rfl⟩ := hrange
      refine ⟨rows, (rowsOfJson_eq_ok_iff _ _).2 ⟨rfl, length, fun row hrow => ?_⟩⟩
      obtain ⟨hlength, -⟩ := hall _ (List.mem_map_of_mem hrow)
      rwa [List.length_map] at hlength
    | _ => exact h.elim
  · rintro ⟨rows, h⟩
    obtain ⟨rfl, length, hall⟩ := (rowsOfJson_eq_ok_iff j rows).1 h
    refine ⟨length, fun j hj => ?_⟩
    obtain ⟨row, hrow, rfl⟩ := List.mem_map.1 hj
    exact (isRow_iff length _).2 ⟨row, rfl, hall row hrow⟩

end FactTable

/-! ## Tables -/

theorem ascending_bytes_settle (members : List (String × Json)) :
    ((Json.settle members).map Prod.fst).Pairwise fun s t => Text.bytes s < Text.bytes t :=
  (Json.ascending_keys_settle members).imp fun h => (Text.lt_iff_bytes_lt _ _).1 h

namespace FactTable

theorem ofMembers_eq_ok_iff (t : FactTable) (members : List (String × Json)) (u : FactTable) :
    t.ofMembers members = .ok u ↔ ∃ entries,
      List.Forall₂ (LoadsAs fun _ j rows => rowsOfJson j = .ok rows) members entries ∧
      u = { t with rows := t.rows.extend entries } := by
  refine LoadsAs.ok_iff ofMembers (fun t entries => { t with rows := t.rows.extend entries }) (fun _ => rfl)
    (fun t m members rows h => ?_) (fun t m members u h => ?_) (fun _ _ _ => rfl) t members u
  · simp only [ofMembers, h]
    rfl
  · rw [ofMembers] at h
    split at h
    · cases h
    · exact ⟨_, ‹_›⟩

/-- the table has the name and, in ascending order of bytes, the operations, each with the rows that its last value
lists -/
structure Lists (t : FactTable) (name : String) (operations : List (String × Json)) : Prop where
  name_eq : t.name = name
  ascending : t.rows.keys.Pairwise fun s u => Text.bytes s < Text.bytes u
  rows : ∀ operation, Option.Rel (fun j rows => j = rowsToJson rows ∧ IsUniform rows)
    (Dict.lastFor operation operations) (t.rows.get? operation)

/-- **The members of a table** load exactly when each of them is rows of one length written down, and what they load as
lists them. -/
theorem lists_of_ofMembers (name : String) (operations : List (String × Json)) (t : FactTable)
    (h : (FactTable.new name).ofMembers (Json.settle operations) = .ok t) : t.Lists name operations := by
  obtain ⟨entries, hentries, rfl⟩ := (ofMembers_eq_ok_iff _ _ _).1 h
  have hkeys := LoadsAs.keys_eq hentries
  have hnodup : (entries.map Prod.fst).Nodup := hkeys ▸ Json.nodup_keys_settle operations
  have hrows : (Dict.ofList entries).entries = entries := Dict.entries_ofList entries hnodup
  refine ⟨rfl, ?_, fun operation => ?_⟩
  · have heq : (Dict.ofList entries).keys = (Json.settle operations).map Prod.fst := by
      rw [Dict.keys, hrows, hkeys]
    exact heq ▸ ascending_bytes_settle operations
  · have hfind := LoadsAs.find_rel hentries operation
    rw [Json.find_settle] at hfind
    have hget : (Dict.ofList entries).get? operation = Dict.find operation entries := by rw [Dict.get?, hrows]
    have hrel : Option.Rel (fun j rows => j = rowsToJson rows ∧ IsUniform rows)
        (Dict.lastFor operation operations) (Dict.find operation entries) := by
      simpa only [rowsOfJson_eq_ok_iff] using hfind
    exact hget ▸ hrel

theorem ofMembers_isOk_iff (t : FactTable) (operations : List (String × Json)) :
    (∃ u, t.ofMembers (Json.settle operations) = .ok u) ↔
      ∀ operation j, Dict.lastFor operation operations = some j → FactFile.IsRows j := by
  constructor
  · rintro ⟨u, h⟩ operation j hj
    obtain ⟨entries, hentries, -⟩ := (ofMembers_eq_ok_iff _ _ _).1 h
    exact (isRows_iff j).2 ((LoadsAs.exists_iff _ _).1 ⟨entries, hentries⟩ _ ((Json.mem_settle_iff _ _ _).2 hj))
  · intro h
    obtain ⟨entries, hentries⟩ := (LoadsAs.exists_iff (fun _ j rows => rowsOfJson j = .ok rows)
      (Json.settle operations)).2 fun m hm => (isRows_iff m.2).1 (h m.1 m.2 ((Json.mem_settle_iff _ _ _).1 hm))
    exact ⟨_, (ofMembers_eq_ok_iff _ _ _).2 ⟨entries, hentries, rfl⟩⟩

theorem ofMembers_error (t : FactTable) (members : List (String × Json)) (e : FactsError)
    (h : t.ofMembers members = .error e) : ∃ name fault, e = .invalidEntry name fault := by
  induction members generalizing t with
  | nil => cases h
  | cons m members ih =>
    rw [ofMembers] at h
    split at h
    · exact ⟨_, _, (Except.error.inj h).symm⟩
    · exact ih _ h

/-! ## Fact by fact -/

/-- the facts of a table, operation by operation -/
def factsOf (entries : List (String × List (List Token))) : List (String × List Token) :=
  entries.flatMap fun e => e.2.map fun row => (e.1, row)

theorem addFacts_append (t : FactTable) (facts more : List (String × List Token)) :
    t.addFacts (facts ++ more) = (t.addFacts facts).addFacts more := List.foldl_append

/-- the first fact brings its operation, the others go behind it -/
theorem addFacts_rows (t : FactTable) (operation : String) (rows : List (List Token))
    (hnew : t.rows.get? operation = none) (hrows : rows ≠ []) :
    t.addFacts (rows.map fun row => (operation, row)) = { t with rows := t.rows.insert operation rows } := by
  induction rows using List.reverseRecOn with
  | nil => exact absurd rfl hrows
  | append_singleton rows row ih =>
    rw [List.map_append, List.map_singleton, addFacts_concat]
    by_cases hrows : rows = []
    · rw [hrows, List.map_nil, addFacts, List.foldl_nil, addFact, hnew]
      rfl
    · rw [ih hrows, addFact, Dict.get?_insert_self, Dict.insert_insert]
      rfl

theorem addFacts_factsOf (t : FactTable) (entries : List (String × List (List Token)))
    (hnodup : ((t.rows.entries ++ entries).map Prod.fst).Nodup) (hrows : ∀ e ∈ entries, e.2 ≠ []) :
    t.addFacts (factsOf entries) = { t with rows := t.rows.extend entries } := by
  induction entries generalizing t with
  | nil => rfl
  | cons e entries ih =>
    have hcons : factsOf (e :: entries) = (e.2.map fun row => (e.1, row)) ++ factsOf entries := rfl
    have hnotMem : e.1 ∉ t.rows.keys := by
      intro hmem
      rw [List.map_append] at hnodup
      exact (List.nodup_append.1 hnodup).2.2 e.1 hmem e.1 (List.mem_cons_self ..) rfl
    have hnew : t.rows.get? e.1 = none :=
      Option.not_isSome_iff_eq_none.1 fun h => hnotMem ((t.rows.contains_iff e.1).1 h)
    have hentries : (t.rows.insert e.1 e.2).entries = t.rows.entries ++ [e] := Dict.put_of_notMem _ _ _ hnotMem
    rw [hcons, addFacts_append, addFacts_rows t e.1 e.2 hnew (hrows e List.mem_cons_self)]
    refine ih _ ?_ fun d hd => hrows d (List.mem_cons_of_mem e hd)
    rw [hentries, List.append_assoc]
    exact hnodup

/-- **Put together from its facts** a table comes out as it is exactly when each of its operations has a row. -/
theorem sameAs_addFacts_iff (t : FactTable) :
    t.sameAs ((FactTable.new t.name).addFacts (factsOf t.rows.entries)) = true ↔
      ∀ operation rows, t.rows.get? operation = some rows → rows ≠ [] := by
  constructor
  · intro h operation rows hr
    obtain ⟨-, hsame⟩ := Bool.and_eq_true_iff.1 h
    obtain ⟨-, hall⟩ := Bool.and_eq_true_iff.1 hsame
    have hget := of_decide_eq_true (List.all_eq_true.1 hall _ ((t.rows.get?_eq_some_iff _ _).1 hr))
    exact rows_ne_nil _ ⟨t.name, _, rfl⟩ operation rows hget
  · intro h
    have hrows : ∀ e ∈ t.rows.entries, e.2 ≠ [] := fun e he => h e.1 e.2 ((t.rows.get?_eq_some_iff _ _).2 he)
    have hnodup : (((FactTable.new t.name).rows.entries ++ t.rows.entries).map Prod.fst).Nodup := t.rows.nodup
    have hself : (FactTable.new t.name).addFacts (factsOf t.rows.entries) = t := by
      rw [addFacts_factsOf _ _ hnodup hrows]
      exact congrArg (FactTable.mk t.name) t.rows.ofList_entries
    rw [hself, sameAs, Dict.sameAs, beq_self_eq_true, beq_self_eq_true, Bool.true_and, Bool.true_and]
    exact List.all_eq_true.2 fun e he => decide_eq_true ((t.rows.get?_eq_some_iff _ _).2 he)

end FactTable

end AccessRules
