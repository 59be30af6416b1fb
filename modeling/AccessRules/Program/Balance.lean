/-
Brackets by counting. A token list is balanced when no beginning of it closes more brackets than it opens, and as a
whole it closes as many as it opens.

- `Balanced.append`: balanced lists one after another are balanced.
- `Balanced.inBrackets`: so is a balanced list in brackets.
-/
import AccessRules.Program.OfTokens

namespace AccessRules

/-- the token `(` -/
def Token.opening : Token := .str "("

/-- the token `)` -/
def Token.closing : Token := .str ")"

namespace Balance

/-- number of opening brackets -/
def opens (ts : List Token) : Nat := ts.count .opening

/-- number of closing brackets -/
def closes (ts : List Token) : Nat := ts.count .closing

/-- some beginning closes more brackets than it opens -/
def IsOverclosed (ts : List Token) : Prop := ∃ us, us <+: ts ∧ opens us < closes us

/-- no beginning closes too many brackets, but the whole opens more than it closes -/
def IsUnclosed (ts : List Token) : Prop := ¬ IsOverclosed ts ∧ closes ts < opens ts

/-- no beginning closes too many brackets, and the whole closes as many as it opens -/
def IsBalanced (ts : List Token) : Prop := ¬ IsOverclosed ts ∧ opens ts = closes ts

theorem opens_append (ts us : List Token) : opens (ts ++ us) = opens ts + opens us := List.count_append

theorem closes_append (ts us : List Token) : closes (ts ++ us) = closes ts + closes us := List.count_append

theorem not_isOverclosed_iff (ts : List Token) : ¬ IsOverclosed ts ↔ ∀ us, us <+: ts → closes us ≤ opens us := by
  constructor
  · intro h us hus
    exact Nat.le_of_not_lt fun hlt => h ⟨us, hus, hlt⟩
  · rintro h ⟨us, hus, hlt⟩
    exact absurd (h us hus) (Nat.not_le_of_lt hlt)

/-- a beginning of two lists is a beginning of the first, or the first with a beginning of the second -/
theorem prefix_append_cases {us ts vs : List Token} (h : us <+: ts ++ vs) :
    us <+: ts ∨ ∃ ws, ws <+: vs ∧ us = ts ++ ws := by
  obtain ⟨rest, hrest⟩ := h
  rcases List.append_eq_append_iff.1 hrest with ⟨as, hts, _⟩ | ⟨cs, hus, hvs⟩
  · exact .inl ⟨as, hts.symm⟩
  · exact .inr ⟨cs, ⟨rest, hvs.symm⟩, hus⟩

theorem IsBalanced.append {ts us : List Token} (ht : IsBalanced ts) (hu : IsBalanced us) : IsBalanced (ts ++ us) := by
  obtain ⟨hto, hte⟩ := ht
  obtain ⟨huo, hue⟩ := hu
  rw [not_isOverclosed_iff] at hto huo
  refine ⟨(not_isOverclosed_iff _).2 fun vs hvs => ?_, ?_⟩
  · rcases prefix_append_cases hvs with hvs | ⟨ws, hws, rfl⟩
    · exact hto vs hvs
    · have hw := huo ws hws
      rw [opens_append, closes_append]
      omega
  · rw [opens_append, closes_append]
    omega

theorem IsBalanced.inBrackets {ts : List Token} (h : IsBalanced ts) :
    IsBalanced (.opening :: ts ++ [.closing]) := by
  obtain ⟨ho, he⟩ := h
  rw [not_isOverclosed_iff] at ho
  have h1 : opens [.opening] = 1 ∧ closes [.opening] = 0 := by decide
  have h2 : opens [.closing] = 0 ∧ closes [.closing] = 1 := by decide
  have hcons : Token.opening :: ts ++ [Token.closing] = [.opening] ++ (ts ++ [.closing]) := rfl
  rw [hcons]
  refine ⟨(not_isOverclosed_iff _).2 fun vs hvs => ?_, ?_⟩
  · rcases prefix_append_cases hvs with hvs | ⟨ws, hws, rfl⟩
    · rcases List.prefix_cons_iff.1 hvs with rfl | ⟨t, rfl, ht⟩
      · decide
      · rw [List.prefix_nil.1 ht]; decide
    · rw [opens_append, closes_append, h1.1, h1.2]
      rcases prefix_append_cases hws with hws | ⟨xs, hxs, rfl⟩
      · have := ho ws hws
        omega
      · have hle : closes xs ≤ closes [.closing] := hxs.sublist.count_le Token.closing
        rw [opens_append, closes_append]
        omega
  · simp only [opens_append, closes_append, h1.1, h1.2, h2.1, h2.2]
    omega

end Balance

end AccessRules
