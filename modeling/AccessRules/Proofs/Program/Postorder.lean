/-
Instruction lists as listings of trees. Reading instructions from left to right with trees in the place of values
builds the trees that a list is the listing of; it goes on as long as no operator starves. So an instruction list in
which none starves is one listing of trees, and only one, with as many trees as values stand ready at the end.

- `build_listing`, `listing_of_build`: building and listing undo each other.
- `listing_injective`, `postorder_injective`: a list is the listing of at most one sequence of trees, and of one tree.
- `exists_listing`: it is a listing when no operator starves.
- `depth_of_no_starved`, `depth_before_starved`: starving by the count of calls and operators, and starving by the
  values that stand ready, are the same.
- `isWellFormed_iff_postorder`: a program with instructions is well-formed when it is the listing of one tree.
-/
import Mathlib.Tactic
import AccessRules.Evaluation.Failure
import AccessRules.Program.Tree

namespace AccessRules

namespace Tree

/-! ## Building trees -/

/-- the trees that instructions make of those that stand ready, the newest first; none when an operator starves -/
def build : List Tree → List Instruction → Option (List Tree)
  | ready, [] => some ready
  | ready, .call c :: rest => build (.call c :: ready) rest
  | right :: left :: ready, .operator op :: rest => build (.node op left right :: ready) rest
  | _, .operator _ :: _ => none

theorem listing_append (ts us : List Tree) : listing (ts ++ us) = listing ts ++ listing us := List.flatMap_append

theorem listing_singleton (t : Tree) : listing [t] = t.postorder := by
  simp [listing]

/-- the listing of a tree builds that tree, whatever comes behind it -/
theorem build_postorder (t : Tree) (ready : List Tree) (rest : List Instruction) :
    build ready (t.postorder ++ rest) = build (t :: ready) rest := by
  induction t generalizing ready rest with
  | call c => rfl
  | node op left right ihl ihr =>
    have hassoc : (node op left right).postorder ++ rest =
        left.postorder ++ (right.postorder ++ .operator op :: rest) := by
      simp [postorder]
    rw [hassoc, ihl, ihr]
    rfl

theorem build_listing (ts ready : List Tree) : build ready (listing ts) = some (ts.reverse ++ ready) := by
  induction ts generalizing ready with
  | nil => rfl
  | cons t ts ih =>
    have hcons : listing (t :: ts) = t.postorder ++ listing ts := rfl
    rw [hcons, build_postorder, ih]
    simp

theorem listing_injective (ts us : List Tree) (h : listing ts = listing us) : ts = us := by
  have hb := build_listing ts []
  rw [h, build_listing us []] at hb
  have hr : us.reverse = ts.reverse := by simpa using hb
  exact (List.reverse_injective hr).symm

theorem postorder_injective (t u : Tree) (h : t.postorder = u.postorder) : t = u := by
  have hl : listing [t] = listing [u] := by rw [listing_singleton, listing_singleton, h]
  exact List.singleton_inj.1 (listing_injective _ _ hl)

theorem listing_of_build (ready : List Tree) (is : List Instruction) (ts : List Tree) (h : build ready is = some ts) :
    listing ts.reverse = listing ready.reverse ++ is := by
  induction is generalizing ready with
  | nil =>
    rw [← Option.some.inj h]
    simp
  | cons i is ih =>
    cases i with
    | call c =>
      rw [ih (.call c :: ready) h, List.reverse_cons, listing_append, listing_singleton]
      simp [postorder]
    | operator op =>
      rcases ready with _ | ⟨right, _ | ⟨left, ready⟩⟩
      · cases h
      · cases h
      · rw [ih (.node op left right :: ready) h]
        simp only [List.reverse_cons, listing_append, listing_singleton, postorder, List.append_assoc]
        rfl

/-- trees and values are made and taken in step -/
theorem build_of_depth (ready : List Tree) (is : List Instruction) (d : Nat)
    (h : Program.depth ready.length is = some d) : ∃ ts, build ready is = some ts ∧ ts.length = d := by
  induction is generalizing ready with
  | nil => exact ⟨ready, rfl, Option.some.inj h⟩
  | cons i is ih =>
    cases i with
    | call c => exact ih (.call c :: ready) h
    | operator op =>
      match ready, h with
      | right :: left :: ready, h => exact ih (.node op left right :: ready) h

theorem exists_listing (is : List Instruction) (d : Nat) (h : Program.depth 0 is = some d) :
    ∃ ts, listing ts = is ∧ ts.length = d := by
  obtain ⟨ts, hb, hl⟩ := build_of_depth [] is d h
  refine ⟨ts.reverse, ?_, by rw [List.length_reverse, hl]⟩
  rw [listing_of_build [] is ts hb]
  rfl

end Tree

/-! ## Starving -/

namespace Program

/-- as far as no operator starves, the values that stand ready can be told -/
theorem depth_take (is : List Instruction) (k : Nat) (hk : k ≤ is.length) (h : ∀ j < k, starvesAt is j = false) :
    ∃ d, depth 0 (is.take k) = some d := by
  induction k with
  | zero => exact ⟨0, rfl⟩
  | succ k ih =>
    obtain ⟨d, hd⟩ := ih (by omega) fun j hj => h j (by omega)
    have hlt : k < is.length := hk
    rw [List.take_succ_eq_append_getElem hlt, depth_append, hd, Option.bind_some]
    cases hi : is[k] with
    | call c => exact ⟨d + 1, rfl⟩
    | operator op =>
      have hs := h k (by omega)
      have hsurplus := surplus_of_depth 0 _ d hd
      simp only [starvesAt, List.getElem?_eq_getElem hlt, hi, decide_eq_false_iff_not] at hs
      obtain ⟨e, rfl⟩ : ∃ e, d = e + 2 := ⟨d - 2, by omega⟩
      exact ⟨e + 1, rfl⟩

theorem depth_of_no_starved (is : List Instruction) (h : firstStarved? is = none) : ∃ d, depth 0 is = some d := by
  have hnone : ∀ j < is.length, starvesAt is j = false := by simpa [firstStarved?] using h
  have hd := depth_take is is.length le_rfl hnone
  rwa [List.take_length] at hd

/-- where the first operator starves, fewer than two values stand ready -/
theorem depth_before_starved (is : List Instruction) (i : Nat) (h : firstStarved? is = some i) :
    ∃ op d, is[i]? = some (.operator op) ∧ depth 0 (is.take i) = some d ∧ d < 2 := by
  obtain ⟨hs, hmem, hbefore⟩ := List.find?_range_eq_some.1 h
  obtain ⟨d, hd⟩ := depth_take is i (Nat.le_of_lt (List.mem_range.1 hmem)) fun j hj => by simpa using hbefore j hj
  have hsurplus := surplus_of_depth 0 _ d hd
  unfold starvesAt at hs
  split at hs
  · rename_i op hop
    exact ⟨op, d, hop, hd, by have := of_decide_eq_true hs; omega⟩
  · cases hs

/-! ## Well-formed programs -/

theorem depth_pos (is : List Instruction) (d : Nat) (hne : is ≠ []) (h : depth 0 is = some d) : 0 < d := by
  obtain ⟨ts, hts, rfl⟩ := Tree.exists_listing is d h
  refine List.length_pos_iff.2 ?_
  rintro rfl
  exact hne hts.symm

theorem isWellFormed_iff_depth (p : Program) (hne : p.instructions ≠ []) :
    p.isWellFormed = true ↔ depth 0 p.instructions = some 1 := by
  have hempty : p.isEmpty = false := by simpa [isEmpty] using hne
  simp [isWellFormed, hempty]

/-- a well-formed program with instructions is the listing of one tree -/
theorem exists_postorder (p : Program) (hne : p.instructions ≠ []) (hw : p.isWellFormed = true) :
    ∃ t : Tree, p.instructions = t.postorder := by
  obtain ⟨ts, hts, hlen⟩ := Tree.exists_listing p.instructions 1 ((isWellFormed_iff_depth p hne).1 hw)
  obtain ⟨t, rfl⟩ := List.length_eq_one_iff.1 hlen
  exact ⟨t, by rw [← hts, Tree.listing_singleton]⟩

theorem isWellFormed_iff_postorder (p : Program) :
    p.isWellFormed = true ↔ p.instructions = [] ∨ ∃ t : Tree, p.instructions = t.postorder := by
  obtain ⟨is⟩ := p
  constructor
  · intro hw
    by_cases hne : is = []
    · exact .inl hne
    · exact .inr (exists_postorder ⟨is⟩ hne hw)
  · rintro (rfl | ⟨t, rfl⟩)
    · rfl
    · exact t.isWellFormed_postorder

end Program

end AccessRules
