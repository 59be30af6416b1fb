/-
Dictionaries keyed by text, in the order of first insertion. Writing a key again keeps its place and changes its value.
No key occurs twice: the type says so, and every operation keeps it.

- `get?_insert`: a key holds the value written last.
- `keys_insert`: a new key goes to the end, a known one stays where it is.
- `get?_eq_some_iff`, `contains_iff`: look-up and membership in terms of the entries.
-/
namespace AccessRules

/-- text keys with values, in order of first insertion -/
structure Dict (α : Type) where
  entries : List (String × α)
  nodup : (entries.map Prod.fst).Nodup

namespace Dict

variable {α β : Type}

/-! ## Operations -/

/-- no entries -/
def empty : Dict α := ⟨[], by simp⟩

instance : Inhabited (Dict α) := ⟨empty⟩

/-- the keys in order -/
def keys (d : Dict α) : List String := d.entries.map Prod.fst

/-- the values in order -/
def values (d : Dict α) : List α := d.entries.map Prod.snd

/-- number of keys -/
def size (d : Dict α) : Nat := d.entries.length

/-- the value of the first entry for `k` -/
def find (k : String) : List (String × α) → Option α
  | [] => none
  | e :: rest => if e.1 = k then some e.2 else find k rest

/-- the value of `k`, if it has one -/
def get? (d : Dict α) (k : String) : Option α := find k d.entries

/-- `k` has a value -/
def contains (d : Dict α) (k : String) : Bool := (d.get? k).isSome

/-- write `k` into an entry list: in place when it is there, at the end otherwise -/
def put (k : String) (v : α) : List (String × α) → List (String × α)
  | [] => [(k, v)]
  | e :: rest => if e.1 = k then (k, v) :: rest else e :: put k v rest

theorem keys_put (k : String) (v : α) (es : List (String × α)) :
    (put k v es).map Prod.fst = if k ∈ es.map Prod.fst then es.map Prod.fst else es.map Prod.fst ++ [k] := by
  induction es with
  | nil => simp [put]
  | cons e rest ih =>
    by_cases h : e.1 = k
    · simp [put, h]
    · have h' : ¬ k = e.1 := fun he => h he.symm
      simp only [put, h, if_false, List.map_cons, ih, List.mem_cons, h', false_or]
      split <;> simp

theorem find_put (k : String) (v : α) (es : List (String × α)) (j : String) :
    find j (put k v es) = if k = j then some v else find j es := by
  induction es with
  | nil => simp [put, find]
  | cons e rest ih =>
    by_cases h : e.1 = k
    · by_cases hj : k = j <;> simp [put, find, h, hj]
    · by_cases hj : k = j
      · subst hj; simp [put, find, h, ih]
      · simp [put, find, h, hj, ih]

/-- write `k`, whether or not it is there -/
def insert (d : Dict α) (k : String) (v : α) : Dict α :=
  ⟨put k v d.entries, by
    rw [keys_put]
    split
    · exact d.nodup
    · rename_i h
      exact List.nodup_append.2 ⟨d.nodup, by simp, fun a ha b hb => by
        rw [List.mem_singleton.1 hb]; exact fun he => h (he ▸ ha)⟩⟩

/-- write pairs one after another -/
def extend (d : Dict α) (pairs : List (String × α)) : Dict α :=
  pairs.foldl (fun d p => d.insert p.1 p.2) d

/-- the dictionary that holds the pairs, later ones winning -/
def ofList (pairs : List (String × α)) : Dict α := empty.extend pairs

/-- change every value -/
def mapValues (f : α → β) (d : Dict α) : Dict β :=
  ⟨d.entries.map fun e => (e.1, f e.2), by
    rw [List.map_map]; exact d.nodup⟩

/-- the same keys with the same values, in whatever order -/
def sameAs [DecidableEq α] (d e : Dict α) : Bool :=
  d.size == e.size && d.entries.all fun p => e.get? p.1 = some p.2

/-! ## Look-up after each operation -/

@[simp] theorem get?_empty (k : String) : (empty : Dict α).get? k = none := rfl

@[simp] theorem get?_insert (d : Dict α) (k : String) (v : α) (j : String) :
    (d.insert k v).get? j = if k = j then some v else d.get? j :=
  find_put k v d.entries j

theorem get?_insert_self (d : Dict α) (k : String) (v : α) : (d.insert k v).get? k = some v := by simp

theorem keys_insert (d : Dict α) (k : String) (v : α) :
    (d.insert k v).keys = if k ∈ d.keys then d.keys else d.keys ++ [k] :=
  keys_put k v d.entries

theorem mem_of_find {es : List (String × α)} {k : String} {v : α} (h : find k es = some v) : (k, v) ∈ es := by
  induction es with
  | nil => simp [find] at h
  | cons e rest ih =>
    by_cases he : e.1 = k
    · simp only [find, he, if_true, Option.some.injEq] at h
      exact List.mem_cons.2 (.inl (Prod.ext he.symm h.symm))
    · simp only [find, he, if_false] at h
      exact List.mem_cons_of_mem _ (ih h)

theorem find_of_mem {es : List (String × α)} (hn : (es.map Prod.fst).Nodup) {k : String} {v : α}
    (h : (k, v) ∈ es) : find k es = some v := by
  induction es with
  | nil => simp at h
  | cons e rest ih =>
    rw [List.map_cons, List.nodup_cons] at hn
    rcases List.mem_cons.1 h with he | hr
    · simp [find, ← he]
    · have hne : ¬ e.1 = k := fun hk => hn.1 (hk ▸ List.mem_map_of_mem hr)
      simpa [find, hne] using ih hn.2 hr

theorem get?_eq_some_iff (d : Dict α) (k : String) (v : α) : d.get? k = some v ↔ (k, v) ∈ d.entries :=
  ⟨mem_of_find, find_of_mem d.nodup⟩

theorem contains_iff (d : Dict α) (k : String) : d.contains k = true ↔ k ∈ d.keys := by
  constructor
  · intro h
    obtain ⟨v, hv⟩ := Option.isSome_iff_exists.1 h
    exact List.mem_map_of_mem ((get?_eq_some_iff d k v).1 hv)
  · intro h
    obtain ⟨⟨k', v⟩, hm, rfl⟩ := List.mem_map.1 h
    exact Option.isSome_iff_exists.2 ⟨v, (get?_eq_some_iff d k' v).2 hm⟩

theorem extend_append (d : Dict α) (ps qs : List (String × α)) : d.extend (ps ++ qs) = (d.extend ps).extend qs :=
  List.foldl_append

end Dict

end AccessRules
