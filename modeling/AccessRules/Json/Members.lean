/-
Settled members: ascending keys, each with the value that was written last.

- `settle_sorted`: the keys ascend, so that none stands twice.
- `find_settle`: a key has the value that was written last for it.
- `mem_settle_iff`: the settled members are the keys with those values.
-/
import AccessRules.Dict.History
import AccessRules.Json

namespace AccessRules.Json

variable {α : Type}

/-- the keys ascend -/
def IsSorted (members : List (String × α)) : Prop := members.Pairwise fun m n => m.1 < n.1

/-- a list stays above a key when a greater one is put into it -/
theorem forall_lt_insertMember (low key : String) (v : α) (members : List (String × α)) (hk : low < key)
    (h : ∀ m ∈ members, low < m.1) : ∀ m ∈ insertMember key v members, low < m.1 := by
  induction members with
  | nil =>
    intro m hm
    rw [insertMember, List.mem_singleton] at hm
    exact hm ▸ hk
  | cons n rest ih =>
    intro m hm
    unfold insertMember at hm
    split at hm
    · rcases List.mem_cons.1 hm with rfl | hm
      · exact hk
      · exact h m (List.mem_cons_of_mem n hm)
    · split at hm
      · rcases List.mem_cons.1 hm with rfl | hm
        · exact hk
        · exact h m hm
      · rcases List.mem_cons.1 hm with rfl | hm
        · exact h _ (List.mem_cons_self ..)
        · exact ih (fun m hm => h m (List.mem_cons_of_mem n hm)) m hm

theorem insertMember_sorted (key : String) (v : α) (members : List (String × α)) (h : IsSorted members) :
    IsSorted (insertMember key v members) := by
  induction members with
  | nil => exact List.pairwise_singleton _ _
  | cons n rest ih =>
    obtain ⟨hn, hr⟩ := List.pairwise_cons.1 h
    unfold insertMember
    split
    · rename_i he
      exact List.pairwise_cons.2 ⟨fun m hm => he ▸ hn m hm, hr⟩
    · rename_i hne
      split
      · rename_i hlt
        refine List.pairwise_cons.2 ⟨fun m hm => ?_, h⟩
        rcases List.mem_cons.1 hm with rfl | hm
        · exact hlt
        · exact String.lt_trans hlt (hn m hm)
      · rename_i hge
        have hlt : n.1 < key := by
          refine Decidable.by_contra fun hn => ?_
          exact hne (String.le_antisymm (String.not_lt.1 hn) (String.not_lt.1 hge))
        exact List.pairwise_cons.2 ⟨forall_lt_insertMember n.1 key v rest hlt hn, ih hr⟩

theorem foldl_insertMember_sorted (members settled : List (String × α)) (h : IsSorted settled) :
    IsSorted (members.foldl (fun ms m => insertMember m.1 m.2 ms) settled) := by
  induction members generalizing settled with
  | nil => exact h
  | cons m members ih => exact ih _ (insertMember_sorted m.1 m.2 settled h)

theorem settle_sorted (members : List (String × α)) : IsSorted (settle members) :=
  foldl_insertMember_sorted members [] List.Pairwise.nil

/-! ## Values -/

theorem find_insertMember (key : String) (v : α) (members : List (String × α)) (k : String) :
    Dict.find k (insertMember key v members) = if key = k then some v else Dict.find k members := by
  induction members with
  | nil => simp [insertMember, Dict.find]
  | cons n rest ih =>
    unfold insertMember
    split
    · rename_i he
      by_cases hk : key = k
      · simp [Dict.find, hk]
      · have hn : ¬ n.1 = k := fun hn => hk (he.trans hn)
        simp [Dict.find, hk, hn]
    · split
      · simp [Dict.find]
      · rename_i hne _
        by_cases hk : key = k
        · have hn : ¬ n.1 = k := fun hn => hne (hk.trans hn.symm)
          rw [Dict.find, if_neg hn, ih, if_pos hk, if_pos hk]
        · simp [Dict.find, ih, hk]

theorem find_foldl_insertMember (members settled : List (String × α)) (k : String) :
    Dict.find k (members.foldl (fun ms m => insertMember m.1 m.2 ms) settled) =
      (Dict.lastFor k members).or (Dict.find k settled) := by
  induction members generalizing settled with
  | nil => rfl
  | cons m members ih =>
    rw [List.foldl_cons, ih, find_insertMember, Dict.lastFor_cons, Option.or_assoc]
    by_cases hk : m.1 = k
    · simp [hk]
    · simp [hk]

theorem find_settle (members : List (String × α)) (k : String) :
    Dict.find k (settle members) = Dict.lastFor k members := by
  rw [settle, find_foldl_insertMember, Dict.find, Option.or_none]

theorem ascending_keys_settle (members : List (String × α)) :
    ((settle members).map Prod.fst).Pairwise (· < ·) :=
  List.pairwise_map.2 (settle_sorted members)

theorem nodup_keys_settle (members : List (String × α)) : ((settle members).map Prod.fst).Nodup :=
  (ascending_keys_settle members).imp fun h => by
    rintro rfl
    exact String.lt_irrefl _ h

theorem mem_settle_iff (members : List (String × α)) (k : String) (v : α) :
    (k, v) ∈ settle members ↔ Dict.lastFor k members = some v := by
  rw [← find_settle]
  exact ⟨Dict.find_of_mem (nodup_keys_settle members), Dict.mem_of_find⟩

theorem mem_keys_settle_iff (members : List (String × α)) (k : String) :
    k ∈ (settle members).map Prod.fst ↔ k ∈ members.map Prod.fst := by
  constructor
  · intro h
    obtain ⟨⟨_, v⟩, hm, rfl⟩ := List.mem_map.1 h
    exact (Dict.isSome_lastFor_iff _ members).1 (Option.isSome_iff_exists.2 ⟨v, (mem_settle_iff members _ v).1 hm⟩)
  · intro h
    obtain ⟨v, hv⟩ := Option.isSome_iff_exists.1 ((Dict.isSome_lastFor_iff k members).2 h)
    exact List.mem_map_of_mem ((mem_settle_iff members k v).2 hv)

end AccessRules.Json
