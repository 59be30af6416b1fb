/-
What the items of an array and the members of an object are read as, one by one.

- `exists_forall₂_iff`, `mapM_eq_some_iff`: items are read together when each of them is read by itself.
- `rel_some_iff`, `rel_none_iff`: what is looked up is related when it is there on both sides, or on neither.
- `LoadsAs.find_rel`, `LoadsAs.exists_iff`: members keep their keys.
- `LoadsAs.ok_iff`: members that are put in one after another.
-/
import Mathlib.Data.List.Forall2
import Mathlib.Tactic.SplitIfs
import AccessRules.Json

namespace AccessRules

namespace Json

/-! ## Items -/

variable {α β : Type}

theorem exists_forall₂_iff (R : α → β → Prop) (xs : List α) :
    (∃ ys, List.Forall₂ R xs ys) ↔ ∀ x ∈ xs, ∃ y, R x y := by
  induction xs with
  | nil => exact ⟨fun _ => nofun, fun _ => ⟨[], .nil⟩⟩
  | cons x xs ih =>
    rw [List.forall_mem_cons, ← ih]
    constructor
    · rintro ⟨_, h | ⟨hx, hrest⟩⟩
      exact ⟨⟨_, hx⟩, _, hrest⟩
    · rintro ⟨⟨y, hy⟩, ys, hrest⟩
      exact ⟨y :: ys, .cons hy hrest⟩

theorem mapM_eq_some_iff (f : α → Option β) (xs : List α) (ys : List β) :
    xs.mapM f = some ys ↔ List.Forall₂ (fun x y => f x = some y) xs ys := by
  induction xs generalizing ys with
  | nil => simp [eq_comm]
  | cons x xs ih =>
    simp only [List.mapM_cons, Option.pure_def, Option.bind_eq_bind, Option.bind_eq_some_iff, Option.some.injEq, ih,
      List.forall₂_cons_left_iff]
    constructor
    · rintro ⟨y, hy, ys, hys, rfl⟩
      exact ⟨y, ys, hy, hys, rfl⟩
    · rintro ⟨y, ys, hy, hys, rfl⟩
      exact ⟨y, hy, ys, hys, rfl⟩

/-! ## Look-ups -/

theorem rel_some_iff {R : α → β → Prop} {x : α} {y? : Option β} :
    Option.Rel R (some x) y? ↔ ∃ y, y? = some y ∧ R x y := by
  constructor
  · rintro (h | _)
    exact ⟨_, rfl, h⟩
  · rintro ⟨y, rfl, h⟩
    exact .some h

theorem rel_none_iff {R : α → β → Prop} {y? : Option β} : Option.Rel R none y? ↔ y? = none := by
  constructor
  · rintro (_ | _)
    rfl
  · rintro rfl
    exact .none

end Json

/-! ## Members -/

/-- the entry has the key of the member, and a value that the member's loads as -/
def LoadsAs {α : Type} (Loads : String → Json → α → Prop) (m : String × Json) (e : String × α) : Prop :=
  e.1 = m.1 ∧ Loads m.1 m.2 e.2

namespace LoadsAs

variable {α : Type} {Loads : String → Json → α → Prop} {members : List (String × Json)} {entries : List (String × α)}

theorem keys_eq (h : List.Forall₂ (LoadsAs Loads) members entries) :
    entries.map Prod.fst = members.map Prod.fst := by
  induction h with
  | nil => rfl
  | cons he _ ih => rw [List.map_cons, List.map_cons, he.1, ih]

theorem find_rel (h : List.Forall₂ (LoadsAs Loads) members entries) (key : String) :
    Option.Rel (Loads key) (Dict.find key members) (Dict.find key entries) := by
  induction h with
  | nil => exact .none
  | cons he _ ih =>
    rw [Dict.find, Dict.find, he.1]
    split_ifs with hkey
    · exact .some (hkey ▸ he.2)
    · exact ih

theorem exists_iff (Loads : String → Json → α → Prop) (members : List (String × Json)) :
    (∃ entries, List.Forall₂ (LoadsAs Loads) members entries) ↔ ∀ m ∈ members, ∃ a, Loads m.1 m.2 a := by
  rw [Json.exists_forall₂_iff]
  refine forall₂_congr fun m _ => ⟨?_, ?_⟩
  · rintro ⟨e, -, he⟩
    exact ⟨e.2, he⟩
  · rintro ⟨a, ha⟩
    exact ⟨(m.1, a), rfl, ha⟩

/-- loading that puts in one member after another gives what all of them are loaded as, put in together -/
theorem ok_iff {σ ε : Type} (load : σ → List (String × Json) → Except ε σ) (putAll : σ → List (String × α) → σ)
    (hnil : ∀ s, load s [] = .ok (putAll s []))
    (hput : ∀ s m ms a, Loads m.1 m.2 a → load s (m :: ms) = load (putAll s [(m.1, a)]) ms)
    (hfirst : ∀ s m ms u, load s (m :: ms) = .ok u → ∃ a, Loads m.1 m.2 a)
    (hcons : ∀ s e es, putAll s (e :: es) = putAll (putAll s [e]) es) (s : σ) (members : List (String × Json)) (u : σ) :
    load s members = .ok u ↔ ∃ entries, List.Forall₂ (LoadsAs Loads) members entries ∧ u = putAll s entries := by
  induction members generalizing s with
  | nil =>
    rw [hnil]
    constructor
    · intro h
      exact ⟨[], .nil, (Except.ok.inj h).symm⟩
    · rintro ⟨_, ⟨⟩, rfl⟩
      rfl
  | cons m members ih =>
    constructor
    · intro h
      obtain ⟨a, ha⟩ := hfirst s m members u h
      rw [hput s m members a ha, ih] at h
      obtain ⟨entries, hentries, rfl⟩ := h
      exact ⟨(m.1, a) :: entries, .cons ⟨rfl, ha⟩ hentries, (hcons s _ entries).symm⟩
    · rintro ⟨_, _ | ⟨⟨hkey, ha⟩, hentries⟩, rfl⟩
      rename_i e entries
      rw [hput s m members e.2 ha, ih]
      refine ⟨entries, hentries, ?_⟩
      rw [hcons, ← hkey]

end LoadsAs

end AccessRules
