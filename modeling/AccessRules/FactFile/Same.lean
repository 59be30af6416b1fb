/-
When two fact files say the same: they differ in the order of the members of objects, anywhere, and in the order and the
number of argument lists. Of a repeated key the last member counts.

- `SameMembers.cons`, `SameMembers.perm`: members one by one, and in another order.
- `SameRows.of_mem_iff`: argument lists in another order or number.
- `Reordered.eq_of_isRow`: nothing in an argument list can be in another order.
- `SameRows.isRows_iff`, `SameEntry.isEntry_iff`, `SameFacts.isFacts_iff`: what says the same is in the format together.
-/
import Mathlib.Data.List.Forall2
import AccessRules.FactFile.Format

namespace AccessRules.FactFile

/-- the same keys, with values that `Same` relates -/
def SameMembers (Same : Json → Json → Prop) (members others : List (String × Json)) : Prop :=
  ∀ key, Option.Rel Same (Dict.lastFor key members) (Dict.lastFor key others)

/-- the same value, with the members of objects in whatever order -/
inductive Reordered : Json → Json → Prop where
  | same (j : Json) : Reordered j j
  | array {items others : List Json} (h : List.Forall₂ Reordered items others) :
    Reordered (.array items) (.array others)
  | object {members others : List (String × Json)}
    (h : ∀ key, Option.Rel Reordered (Dict.lastFor key members) (Dict.lastFor key others)) :
    Reordered (.object members) (.object others)

/-- the same argument lists, in whatever order and however often -/
inductive SameRows : Json → Json → Prop where
  | reordered {j k : Json} (h : Reordered j k) : SameRows j k
  | lists {items others : List Json} (hsub : ∀ j ∈ items, ∃ k ∈ others, Reordered j k)
    (hsup : ∀ k ∈ others, ∃ j ∈ items, Reordered j k) : SameRows (.array items) (.array others)

/-- the same value, or the same members in whatever order, with values that `Same` relates -/
inductive SameObject (Same : Json → Json → Prop) : Json → Json → Prop where
  | reordered {j k : Json} (h : Reordered j k) : SameObject Same j k
  | members {members others : List (String × Json)} (h : SameMembers Same members others) :
    SameObject Same (.object members) (.object others)

/-- the same literal, or the same operations in whatever order -/
def SameEntry : Json → Json → Prop := SameObject SameRows

/-- the same names in whatever order -/
def SameFacts : Json → Json → Prop := SameObject SameEntry

/-! ## Members -/

namespace SameMembers

variable {Same Alike : Json → Json → Prop} {members others : List (String × Json)}

theorem nil : SameMembers Same [] [] := fun _ => .none

theorem cons {j k : Json} (key : String) (hjk : Same j k) (h : SameMembers Same members others) :
    SameMembers Same ((key, j) :: members) ((key, k) :: others) := by
  intro other
  have hother := h other
  rw [Dict.lastFor_cons, Dict.lastFor_cons]
  generalize Dict.lastFor other members = j? at hother
  generalize Dict.lastFor other others = k? at hother
  rcases hother with hlast | _
  · exact .some hlast
  · by_cases hkey : key = other
    · simp only [if_pos hkey]
      exact .some hjk
    · simp only [if_neg hkey]
      exact .none

/-- members without a repeated key can be put in another order -/
theorem perm {rest : List (String × Json)} (h : SameMembers Same members others) (hperm : others.Perm rest)
    (hnodup : (others.map Prod.fst).Nodup) : SameMembers Same members rest := by
  intro key
  rw [← Dict.lastFor_perm key hperm hnodup]
  exact h key

theorem mono (h : SameMembers Same members others) (hmono : ∀ j k, Same j k → Alike j k) :
    SameMembers Alike members others := by
  intro key
  have hkey := h key
  generalize Dict.lastFor key members = j? at hkey
  generalize Dict.lastFor key others = k? at hkey
  rcases hkey with hjk | _
  · exact .some (hmono _ _ hjk)
  · exact .none

theorem refl (hrefl : ∀ j, Same j j) (members : List (String × Json)) : SameMembers Same members members := by
  intro key
  cases Dict.lastFor key members with
  | none => exact .none
  | some j => exact .some (hrefl j)

/-- all values have a property together -/
theorem forall_iff (h : SameMembers Same members others) {P : Json → Prop} (hP : ∀ j k, Same j k → (P j ↔ P k)) :
    (∀ key j, Dict.lastFor key members = some j → P j) ↔ ∀ key k, Dict.lastFor key others = some k → P k := by
  refine forall_congr' fun key => ?_
  have hkey := h key
  generalize Dict.lastFor key members = j? at hkey
  generalize Dict.lastFor key others = k? at hkey
  rcases hkey with hjk | _
  · simpa using hP _ _ hjk
  · simp

end SameMembers

namespace SameObject

variable {Same : Json → Json → Prop}

/-- what says the same as an object is one with the same members -/
theorem of_object (hSame : ∀ j k, Reordered j k → Same j k) {members : List (String × Json)} {k : Json}
    (h : SameObject Same (.object members) k) : ∃ others, k = .object others ∧ SameMembers Same members others := by
  rcases h with h | hmembers
  · rcases h with _ | _ | hmembers
    · exact ⟨members, rfl, .refl (fun j => hSame j j (.same j)) members⟩
    · exact ⟨_, rfl, .mono hmembers hSame⟩
  · exact ⟨_, rfl, hmembers⟩

/-- what says the same as a value without parts is that value -/
theorem eq_of_scalar {j k : Json} (h : SameObject Same j k) (harray : ∀ items, j ≠ .array items)
    (hobject : ∀ members, j ≠ .object members) : k = j := by
  rcases h with h | _
  · rcases h with _ | _ | _
    · rfl
    · exact absurd rfl (harray _)
    · exact absurd rfl (hobject _)
  · exact absurd rfl (hobject _)

/-- a property that an object has through the values of its members, and that arrays have together -/
theorem iff {P Q : Json → Prop} (hSame : ∀ j k, Reordered j k → Same j k) (hP : ∀ j k, Same j k → (P j ↔ P k))
    (hobject : ∀ members, Q (.object members) ↔ ∀ key j, Dict.lastFor key members = some j → P j)
    (harray : ∀ items others, Q (.array items) ↔ Q (.array others)) {j k : Json} (h : SameObject Same j k) :
    Q j ↔ Q k := by
  have hmembers {members others : List (String × Json)} (h : SameMembers Same members others) :
      Q (.object members) ↔ Q (.object others) := by
    rw [hobject, hobject]
    exact h.forall_iff hP
  rcases h with h | h
  · rcases h with _ | _ | h
    · rfl
    · exact harray _ _
    · exact hmembers (.mono h hSame)
  · exact hmembers h

end SameObject

/-! ## Argument lists -/

namespace Reordered

theorem eq_of_isLiteral {j k : Json} (h : Reordered j k) (hl : IsLiteral j ∨ IsLiteral k) : j = k := by
  rcases h with _ | _ | _
  · rfl
  · exact (hl.elim id id).elim
  · exact (hl.elim id id).elim

theorem eq_of_isRow {j k : Json} (h : Reordered j k) {length : Nat} (hr : IsRow length j ∨ IsRow length k) :
    j = k := by
  rcases h with _ | hitems | _
  · rfl
  · congr 1
    refine List.ext_get hitems.length_eq fun i hi hi' => (hitems.get hi hi').eq_of_isLiteral ?_
    exact hr.imp (fun hr => hr.2 _ (List.get_mem _ _)) fun hr => hr.2 _ (List.get_mem _ _)
  · exact (hr.elim id id).elim

end Reordered

theorem exists_mem_of_forall₂ {α β : Type} {R : α → β → Prop} {xs : List α} {ys : List β} (h : List.Forall₂ R xs ys) :
    ∀ x ∈ xs, ∃ y ∈ ys, R x y := by
  intro x hx
  obtain ⟨i, rfl⟩ := List.mem_iff_get.1 hx
  exact ⟨ys.get ⟨i, h.length_eq ▸ i.2⟩, List.get_mem _ _, h.get i.2 _⟩

namespace SameRows

theorem of_mem_iff {items others : List Json} (h : ∀ j, j ∈ items ↔ j ∈ others) :
    SameRows (.array items) (.array others) :=
  .lists (fun j hj => ⟨j, (h j).1 hj, .same j⟩) fun k hk => ⟨k, (h k).2 hk, .same k⟩

/-- lists of which each argument list is in the other, up to the order of members -/
theorem of_array {items others : List Json} (h : SameRows (.array items) (.array others)) :
    (∀ j ∈ items, ∃ k ∈ others, Reordered j k) ∧ ∀ k ∈ others, ∃ j ∈ items, Reordered j k := by
  rcases h with h | ⟨hsub, hsup⟩
  · rcases h with _ | hitems
    · exact ⟨fun j hj => ⟨j, hj, .same j⟩, fun k hk => ⟨k, hk, .same k⟩⟩
    · exact ⟨exists_mem_of_forall₂ hitems, exists_mem_of_forall₂ hitems.flip⟩
  · exact ⟨hsub, hsup⟩

theorem isRows_array_iff {items others : List Json} (h : SameRows (.array items) (.array others)) :
    IsRows (.array items) ↔ IsRows (.array others) := by
  obtain ⟨hsub, hsup⟩ := h.of_array
  refine exists_congr fun length => ⟨fun hall k hk => ?_, fun hall j hj => ?_⟩
  · obtain ⟨j, hj, hjk⟩ := hsup k hk
    rw [← hjk.eq_of_isRow (.inl (hall j hj))]
    exact hall j hj
  · obtain ⟨k, hk, hjk⟩ := hsub j hj
    rw [hjk.eq_of_isRow (.inr (hall k hk))]
    exact hall k hk

end SameRows

/-! ## The format -/

theorem SameRows.isRows_iff {j k : Json} (h : SameRows j k) : IsRows j ↔ IsRows k := by
  rcases h with h | ⟨hsub, hsup⟩
  · rcases h with _ | hitems | _
    · rfl
    · exact isRows_array_iff (.reordered (.array hitems))
    · exact Iff.rfl
  · exact isRows_array_iff (.lists hsub hsup)

theorem SameEntry.isEntry_iff {j k : Json} (h : SameEntry j k) : IsEntry j ↔ IsEntry k := by
  have hsame : ∀ j k, Reordered j k → SameRows j k := fun _ _ => .reordered
  exact SameObject.iff hsame (fun _ _ => SameRows.isRows_iff) (fun _ => Iff.rfl) (fun _ _ => Iff.rfl) h

theorem SameFacts.isFacts_iff {j k : Json} (h : SameFacts j k) : IsFacts j ↔ IsFacts k := by
  have hsame : ∀ j k, Reordered j k → SameEntry j k := fun _ _ => .reordered
  exact SameObject.iff hsame (fun _ _ => SameEntry.isEntry_iff) (fun _ => Iff.rfl) (fun _ _ => Iff.rfl) h

end AccessRules.FactFile
