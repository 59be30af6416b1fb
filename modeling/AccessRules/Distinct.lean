/-
Texts without repetitions, each where it first stands.

- `mem_distinct`: the same texts are listed.
- `distinct_nodup`: none is listed twice.
- `distinct_eq_self`: a list without repetitions stays as it is.
- `distinct_eq_eraseDups`: of each text the first place is kept.
-/
namespace AccessRules

/-- `n` at the end, unless it is there already -/
def addNew (seen : List String) (n : String) : List String := if n ∈ seen then seen else seen ++ [n]

/-- the texts without repetitions, each where it first stands -/
def distinct (names : List String) : List String := names.foldl addNew []

theorem mem_foldl_addNew (names seen : List String) (n : String) :
    n ∈ names.foldl addNew seen ↔ n ∈ seen ∨ n ∈ names := by
  induction names generalizing seen with
  | nil => simp
  | cons m names ih =>
    rw [List.foldl_cons, ih]
    unfold addNew
    by_cases h : m ∈ seen
    · rw [if_pos h, List.mem_cons]
      constructor
      · rintro (h' | h')
        · exact .inl h'
        · exact .inr (.inr h')
      · rintro (h' | h' | h')
        · exact .inl h'
        · exact .inl (h' ▸ h)
        · exact .inr h'
    · simp [h, or_assoc]

theorem mem_distinct (names : List String) (n : String) : n ∈ distinct names ↔ n ∈ names := by
  simp [distinct, mem_foldl_addNew]

theorem nodup_foldl_addNew (names seen : List String) (h : seen.Nodup) : (names.foldl addNew seen).Nodup := by
  induction names generalizing seen with
  | nil => exact h
  | cons m names ih =>
    rw [List.foldl_cons]
    apply ih
    unfold addNew
    split
    · exact h
    · rename_i hm
      refine List.nodup_append.2 ⟨h, by simp, fun a ha b hb => ?_⟩
      rw [List.mem_singleton.1 hb]
      exact fun he => hm (he ▸ ha)

theorem distinct_nodup (names : List String) : (distinct names).Nodup := nodup_foldl_addNew names [] List.nodup_nil

theorem foldl_addNew_of_nodup (names seen : List String) (h : (seen ++ names).Nodup) :
    names.foldl addNew seen = seen ++ names := by
  induction names generalizing seen with
  | nil => simp
  | cons m names ih =>
    have hm : m ∉ seen := by
      intro hs
      obtain ⟨_, _, hd⟩ := List.nodup_append.1 h
      exact hd m hs m (List.mem_cons_self ..) rfl
    have hn : addNew seen m = seen ++ [m] := if_neg hm
    rw [List.foldl_cons, hn, ih _ (by simpa using h)]
    simp

theorem distinct_eq_self (names : List String) (h : names.Nodup) : distinct names = names := by
  simpa [distinct] using foldl_addNew_of_nodup names [] h

theorem foldl_addNew_eq (names seen : List String) :
    names.foldl addNew seen = seen ++ (names.removeAll seen).eraseDups := by
  induction names generalizing seen with
  | nil => simp [List.removeAll]
  | cons m names ih =>
    rw [List.foldl_cons, ih, addNew]
    split
    · rename_i hm
      simp [List.removeAll, hm]
    · rename_i hm
      have hcons : (m :: names).removeAll seen = m :: names.removeAll seen := by simp [List.removeAll, hm]
      have hrest : names.removeAll (seen ++ [m]) = (names.removeAll seen).filter fun n => !n == m := by
        rw [List.removeAll, List.removeAll, List.filter_filter]
        refine List.filter_congr fun n _ => ?_
        rw [Bool.eq_iff_iff]
        simp [and_comm]
      rw [hcons, List.eraseDups_cons, hrest, List.append_assoc]
      rfl

theorem distinct_eq_eraseDups (names : List String) : distinct names = names.eraseDups := by
  have hall : names.removeAll [] = names := List.filter_eq_self.2 fun n _ => rfl
  rw [distinct, foldl_addNew_eq, hall, List.nil_append]

end AccessRules
