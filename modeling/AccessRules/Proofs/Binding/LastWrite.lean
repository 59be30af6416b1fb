/-
Bindings as maps in which the last write wins. However a binding comes about, its names stand in the order in which they
were first bound, and each has the value that it was bound to last. Two bindings are the same when every name has the
same value in both, objects by identity; the order of their names plays no part in that, nor in any decision.

- `Dict.sameAs_iff`: dictionaries are the same when every key has the same value in both.
- `replace_after`, `contains_after_iff`: what binding a name gives back, and which names are bound.
- `permitted_of_sameAs`: bindings that are the same decide every rule alike.
- `last_write_wins`: a binding by its changes, and sameness.
-/
import Mathlib.Tactic
import AccessRules.Binding.History
import AccessRules.FactFile
import AccessRules.Proofs.Evaluation.Names

namespace AccessRules

/-! ## The same dictionary -/

namespace Dict

variable {α : Type}

theorem get?_eq_none_iff (d : Dict α) (k : String) : d.get? k = none ↔ k ∉ d.keys := by
  rw [← d.contains_iff k, contains, Bool.not_eq_true, Option.isSome_eq_false_iff, Option.isNone_iff_eq_none]

/-- keys of one dictionary that are all in another as large are all its keys -/
theorem mem_keys_of_subset {d e : Dict α} (hsize : d.size = e.size) (hsub : d.keys ⊆ e.keys) {k : String}
    (hk : k ∈ e.keys) : k ∈ d.keys := by
  have hlength : e.keys.length ≤ d.keys.length := by
    rw [keys, keys, List.length_map, List.length_map]
    exact hsize.ge
  have hperm : d.keys.Perm e.keys := (d.nodup.subperm hsub).perm_of_length_le hlength
  exact hperm.mem_iff.2 hk

theorem size_eq_of_get? {d e : Dict α} (h : ∀ k, d.get? k = e.get? k) : d.size = e.size := by
  have hmem (k : String) : k ∈ d.keys ↔ k ∈ e.keys := by
    rw [← d.contains_iff k, ← e.contains_iff k, contains, contains, h k]
  have hperm : d.keys.Perm e.keys := (List.perm_ext_iff_of_nodup d.nodup e.nodup).2 hmem
  simpa [keys, size] using hperm.length_eq

theorem sameAs_iff [DecidableEq α] (d e : Dict α) : d.sameAs e = true ↔ ∀ k, d.get? k = e.get? k := by
  rw [sameAs, Bool.and_eq_true, beq_iff_eq, List.all_eq_true]
  constructor
  · rintro ⟨hsize, hall⟩ k
    have hfound (k : String) (v : α) (hv : d.get? k = some v) : e.get? k = some v :=
      of_decide_eq_true (hall (k, v) ((d.get?_eq_some_iff k v).1 hv))
    cases hk : d.get? k with
    | some v => exact (hfound k v hk).symm
    | none =>
      refine ((e.get?_eq_none_iff k).2 fun hmem => ?_).symm
      have hsub : d.keys ⊆ e.keys := by
        intro j hj
        obtain ⟨v, hv⟩ := Option.isSome_iff_exists.1 ((d.contains_iff j).2 hj)
        refine (e.contains_iff j).1 ?_
        rw [contains, hfound j v hv]
        rfl
      exact (d.get?_eq_none_iff k).1 hk (mem_keys_of_subset hsize hsub hmem)
  · intro h
    refine ⟨size_eq_of_get? h, fun p hp => decide_eq_true ?_⟩
    rw [← h p.1]
    exact (d.get?_eq_some_iff p.1 p.2).2 hp

end Dict

namespace Binding

variable {ω : Type} {m : Type → Type}

/-! ## What changes come to -/

theorem replace_after (changes : List (Change ω)) (name : String) (v : Value ω) :
    (after changes).replace name v = (Dict.lastFor name (written changes), after (changes ++ [.insert name v])) := by
  have hstep : after (changes ++ [.insert name v]) = (after changes).insert name v := by
    rw [after, List.foldl_append]
    rfl
  rw [replace, get?_after, hstep]

theorem size_eq_length_names (b : Binding ω) : b.size = b.names.length := (List.length_map _).symm

theorem contains_after_iff (changes : List (Change ω)) (name : String) :
    (after changes).contains name = true ↔ name ∈ (written changes).map Prod.fst := by
  have hget : (after changes).contains name = (Dict.lastFor name (written changes)).isSome :=
    congrArg Option.isSome (get?_after changes name)
  rw [hget, Dict.isSome_lastFor_iff]

/-! ## Bindings that are the same -/

theorem sameAs_iff_get? [DecidableEq ω] (b c : Binding ω) : b.sameAs c = true ↔ ∀ name, b.get? name = c.get? name :=
  b.values.sameAs_iff c.values

theorem permitted_of_sameAs [DecidableEq ω] [Monad m] (host : Host ω m) {b c : Binding ω} (h : b.sameAs c = true)
    (rule : String) : permitted host b rule = permitted host c rule := by
  have hget := (b.sameAs_iff_get? c).1 h
  unfold permitted
  cases Program.ofText rule with
  | ok p => exact p.evaluate_congr host b c fun name _ => hget name
  | error cause => rfl

/-- **The last write wins.** Whatever was written one by one or many at a time, the names of a binding are those written
since it was last collected, each once and where it was first written, and the value of a name is the one written last;
writing a name gives back the value that it replaces. Two bindings are the same exactly when every name has the same
value in both, or none, and such bindings decide every rule alike, with the same effects. -/
theorem last_write_wins [DecidableEq ω] [Monad m] (host : Host ω m) (changes : List (Change ω)) :
    ((after changes).names = ((written changes).map Prod.fst).eraseDups ∧ (after changes).names.Nodup) ∧
    (∀ name, (after changes).get? name = Dict.lastFor name (written changes)) ∧
    (∀ name v, (after changes).replace name v =
      (Dict.lastFor name (written changes), after (changes ++ [.insert name v]))) ∧
    (after changes).size = (after changes).names.length ∧
    (∀ name, (after changes).contains name = true ↔ name ∈ (written changes).map Prod.fst) ∧
    (∀ b c : Binding ω, b.sameAs c = true ↔ ∀ name, b.get? name = c.get? name) ∧
    ∀ b c : Binding ω, b.sameAs c = true → ∀ rule, permitted host b rule = permitted host c rule := by
  refine ⟨⟨?_, (after changes).values.nodup⟩, get?_after changes, replace_after changes, size_eq_length_names _,
    contains_after_iff changes, sameAs_iff_get?, fun b c h rule => permitted_of_sameAs host h rule⟩
  rw [names_after, distinct_eq_eraseDups]

/-- doors that let everyone in, told apart by number alone -/
def twinDoors : Host ℕ Id := fun _ => ((FactTable.new "door").addFact "admits" []).receiver fun _ => "door"

/-- names written again in every way, before and after a collection -/
def rewrites : List (Change ℕ) :=
  [.insert "a" (.int 1), .collect [("b", .int 1), ("a", .absent), ("b", .int 2)], .extend [("c", .str "x")],
    .insertAbsent "b", .insertObject "door" 0, .insert "a" (.bool true)]

/-- a binding by its changes, the same door bound before and after another name, and another door of the same facts -/
theorem last_write_wins_of_twins :
    (after rewrites).names = ["b", "a", "c", "door"] ∧ (after rewrites).get? "b" = some .absent ∧
    ((after rewrites).replace "a" (.int 5)).1 = some (.bool true) ∧
    permitted twinDoors (.ofList [("door", .object 0), ("n", .int 1)]) "door admits" =
      permitted twinDoors (.ofList [("n", .int 1), ("door", .object 0)]) "door admits" ∧
    (ofList [("door", .object 0)] : Binding ℕ).sameAs (.ofList [("door", .object 1)]) = false := by
  obtain ⟨⟨hnames, -⟩, hget, hreplace, -, -, hsame, hpermitted⟩ := last_write_wins twinDoors rewrites
  refine ⟨hnames.trans (by decide), (hget "b").trans (by decide), ?_, hpermitted _ _ (by decide) _, ?_⟩
  · rw [hreplace]
    decide
  · refine Bool.eq_false_iff.2 fun h => ?_
    exact absurd ((hsame _ _).1 h "door") (by decide)

end Binding

end AccessRules
