/-
What a sequence of writes to a dictionary comes to: every key written, in order of first writing, with the value written
last.

- `keys_extend`, `keys_ofList`: the keys.
- `get?_extend`, `get?_ofList`: the values.
- `IsLast.lastFor_eq`, `exists_isLast`: the value written last by the place where it stands.
- `entries_extend`: writes of new keys, each once, are the entries that come behind.
- `lastFor_perm`: of such writes the order does not matter to the values.
-/
import AccessRules.Dict
import AccessRules.Distinct

namespace AccessRules.Dict

variable {α : Type}

/-- the value that the pairs give to `k` last -/
def lastFor (k : String) (pairs : List (String × α)) : Option α :=
  (pairs.reverse.find? fun p => p.1 = k).map Prod.snd

theorem lastFor_cons (k : String) (p : String × α) (pairs : List (String × α)) :
    lastFor k (p :: pairs) = (lastFor k pairs).or (if p.1 = k then some p.2 else none) := by
  simp only [lastFor, List.reverse_cons, List.find?_append]
  cases pairs.reverse.find? fun p => decide (p.1 = k) with
  | some q => rfl
  | none =>
    by_cases h : p.1 = k
    · simp [h]
    · simp [h]

theorem isSome_lastFor_iff (k : String) (pairs : List (String × α)) :
    (lastFor k pairs).isSome = true ↔ k ∈ pairs.map Prod.fst := by
  induction pairs with
  | nil => simp [lastFor]
  | cons p pairs ih =>
    rw [lastFor_cons, Option.isSome_or, Bool.or_eq_true, ih, List.map_cons, List.mem_cons, or_comm]
    by_cases h : p.1 = k
    · simp [h]
    · simp [h, Ne.symm h]

theorem lastFor_eq_none (k : String) (pairs : List (String × α)) (h : k ∉ pairs.map Prod.fst) :
    lastFor k pairs = none := by
  rw [← Option.not_isSome_iff_eq_none, isSome_lastFor_iff]
  exact h

/-- the pair at `place` is the last one for `k` -/
def IsLast (pairs : List (String × α)) (k : String) (place : Nat) (v : α) : Prop :=
  ∃ before after, pairs = before ++ (k, v) :: after ∧ before.length = place ∧ k ∉ after.map Prod.fst

theorem exists_isLast (k : String) (pairs : List (String × α)) (h : k ∈ pairs.map Prod.fst) :
    ∃ place v, IsLast pairs k place v := by
  induction pairs with
  | nil => cases h
  | cons p pairs ih =>
    by_cases hlater : k ∈ pairs.map Prod.fst
    · obtain ⟨_, v, before, after, rfl, -, hafter⟩ := ih hlater
      exact ⟨_, v, p :: before, after, rfl, rfl, hafter⟩
    · obtain rfl : k = p.1 := (List.mem_cons.1 h).resolve_right hlater
      exact ⟨0, p.2, [], pairs, rfl, rfl, hlater⟩

theorem IsLast.lastFor_eq {pairs : List (String × α)} {k : String} {place : Nat} {v : α}
    (h : IsLast pairs k place v) : lastFor k pairs = some v := by
  obtain ⟨before, after, rfl, -, hafter⟩ := h
  induction before with
  | nil => rw [List.nil_append, lastFor_cons, lastFor_eq_none k after hafter, if_pos rfl, Option.none_or]
  | cons p before ih => rw [List.cons_append, lastFor_cons, ih, Option.some_or]

theorem keys_extend (d : Dict α) (pairs : List (String × α)) :
    (d.extend pairs).keys = (pairs.map Prod.fst).foldl addNew d.keys := by
  induction pairs generalizing d with
  | nil => rfl
  | cons p pairs ih =>
    calc (d.extend (p :: pairs)).keys
        = ((d.insert p.1 p.2).extend pairs).keys := rfl
      _ = (pairs.map Prod.fst).foldl addNew (d.insert p.1 p.2).keys := ih _
      _ = ((p :: pairs).map Prod.fst).foldl addNew d.keys := by rw [keys_insert]; rfl

theorem keys_ofList (pairs : List (String × α)) : (ofList pairs).keys = distinct (pairs.map Prod.fst) :=
  keys_extend empty pairs

theorem get?_extend (d : Dict α) (pairs : List (String × α)) (k : String) :
    (d.extend pairs).get? k = (lastFor k pairs).or (d.get? k) := by
  induction pairs generalizing d with
  | nil => rfl
  | cons p pairs ih =>
    have h : (d.extend (p :: pairs)).get? k = ((d.insert p.1 p.2).extend pairs).get? k := rfl
    rw [h, ih, get?_insert, lastFor_cons, Option.or_assoc]
    by_cases hk : p.1 = k
    · simp [hk]
    · simp [hk]

theorem get?_ofList (pairs : List (String × α)) (k : String) : (ofList pairs).get? k = lastFor k pairs := by
  rw [ofList, get?_extend, get?_empty, Option.or_none]

/-! ## Entries -/

theorem eq_of_entries {d e : Dict α} (h : d.entries = e.entries) : d = e := by
  cases d
  cases e
  cases h
  rfl

theorem put_put (k : String) (u v : α) (es : List (String × α)) : put k v (put k u es) = put k v es := by
  induction es with
  | nil => simp [put]
  | cons e rest ih =>
    by_cases h : e.1 = k
    · simp [put, h]
    · simp [put, h, ih]

/-- of two writes of one key the second counts -/
theorem insert_insert (d : Dict α) (k : String) (u v : α) : (d.insert k u).insert k v = d.insert k v :=
  eq_of_entries (put_put k u v d.entries)

theorem put_of_notMem (k : String) (v : α) (es : List (String × α)) (h : k ∉ es.map Prod.fst) :
    put k v es = es ++ [(k, v)] := by
  induction es with
  | nil => rfl
  | cons e rest ih =>
    rw [List.map_cons, List.mem_cons, not_or] at h
    have hne : ¬ e.1 = k := fun he => h.1 he.symm
    rw [put, if_neg hne, ih h.2, List.cons_append]

theorem entries_extend (d : Dict α) (pairs : List (String × α)) (h : ((d.entries ++ pairs).map Prod.fst).Nodup) :
    (d.extend pairs).entries = d.entries ++ pairs := by
  induction pairs generalizing d with
  | nil => exact (List.append_nil _).symm
  | cons p pairs ih =>
    have hsplit : d.entries ++ p :: pairs = (d.entries ++ [p]) ++ pairs := by simp
    have hnew : p.1 ∉ d.entries.map Prod.fst := by
      rw [List.map_append, List.map_cons] at h
      intro hmem
      exact (List.nodup_append.1 h).2.2 p.1 hmem p.1 (List.mem_cons_self ..) rfl
    have hinsert : (d.insert p.1 p.2).entries = d.entries ++ [p] := put_of_notMem p.1 p.2 d.entries hnew
    rw [hsplit] at h ⊢
    rw [← hinsert] at h ⊢
    exact ih (d.insert p.1 p.2) h

theorem entries_ofList (pairs : List (String × α)) (h : (pairs.map Prod.fst).Nodup) :
    (ofList pairs).entries = pairs :=
  entries_extend empty pairs h

/-- a key that stands once has its value, wherever it stands -/
theorem lastFor_eq_some_iff (k : String) (v : α) (pairs : List (String × α)) (h : (pairs.map Prod.fst).Nodup) :
    lastFor k pairs = some v ↔ (k, v) ∈ pairs := by
  rw [← get?_ofList, get?_eq_some_iff, entries_ofList pairs h]

theorem lastFor_perm (k : String) {pairs others : List (String × α)} (hperm : pairs.Perm others)
    (h : (pairs.map Prod.fst).Nodup) : lastFor k pairs = lastFor k others := by
  apply Option.ext
  intro v
  have hothers : (others.map Prod.fst).Nodup := (hperm.map Prod.fst).nodup_iff.1 h
  rw [lastFor_eq_some_iff k v pairs h, lastFor_eq_some_iff k v others hothers]
  exact hperm.mem_iff

theorem ofList_entries (d : Dict α) : ofList d.entries = d := eq_of_entries (entries_ofList d.entries d.nodup)

end AccessRules.Dict
