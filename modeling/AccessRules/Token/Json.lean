/-
Tokens as JSON: a boolean, an integer of 64 bits or a string, without any mark of which it is.

- `ofJson?_toJson`: a token is read back as itself.
- `ofJson?_eq_some`: only what a token is written as is read as that token.
- `mapM_ofJson?_eq_some_iff`: the same of lists of tokens.
-/
import AccessRules.Json
import AccessRules.Token

namespace AccessRules.Token

/-- the JSON form of a token -/
def toJson : Token → Json
  | .bool b => .bool b
  | .int n => .int n.toInt
  | .str s => .str s

/-- the signed 64-bit integer `n`, when it is one -/
def int64? (n : Int) : Option Int64 :=
  if Int64.minValue.toInt ≤ n ∧ n ≤ Int64.maxValue.toInt then some (Int64.ofInt n) else none

/-- the token of a JSON form -/
def ofJson? : Json → Option Token
  | .bool b => some (.bool b)
  | .int n => (int64? n).map .int
  | .str s => some (.str s)
  | _ => none

theorem int64?_toInt (n : Int64) : int64? n.toInt = some n := by
  simp only [int64?, n.minValue_le_toInt, n.toInt_le, and_self, if_true, Int64.ofInt_toInt]

theorem toInt_of_int64? {n : Int} {i : Int64} (h : int64? n = some i) : i.toInt = n := by
  unfold int64? at h
  split at h
  · rename_i hb
    rw [← Option.some.inj h]
    exact Int64.toInt_ofInt_of_le hb.1 (Int.lt_add_one_of_le hb.2)
  · cases h

theorem ofJson?_toJson (t : Token) : ofJson? t.toJson = some t := by
  cases t <;> simp [toJson, ofJson?, int64?_toInt]

theorem toJson_inj {t u : Token} (h : t.toJson = u.toJson) : t = u := by
  have ht := ofJson?_toJson t
  rw [h, ofJson?_toJson] at ht
  exact (Option.some.inj ht).symm

theorem ofJson?_eq_some {j : Json} {t : Token} (h : ofJson? j = some t) : j = t.toJson := by
  cases j <;> simp only [ofJson?, Option.map_eq_some_iff, Option.some.injEq, reduceCtorEq] at h
  · exact h ▸ rfl
  · obtain ⟨i, hi, rfl⟩ := h
    simp [toJson, toInt_of_int64? hi]
  · exact h ▸ rfl

theorem mapM_ofJson?_eq_some_iff (items : List Json) (ts : List Token) :
    items.mapM ofJson? = some ts ↔ items = ts.map toJson := by
  induction items generalizing ts with
  | nil => cases ts <;> simp
  | cons j items ih =>
    simp only [List.mapM_cons, Option.pure_def, Option.bind_eq_bind, Option.bind_eq_some_iff, Option.some.injEq]
    constructor
    · rintro ⟨t, ht, us, hus, rfl⟩
      rw [ofJson?_eq_some ht, (ih us).1 hus, List.map_cons]
    · intro h
      obtain ⟨t, us, rfl, rfl, rfl⟩ := List.map_eq_cons_iff.1 h.symm
      exact ⟨t, ofJson?_toJson t, us, (ih us).2 rfl, rfl⟩

end AccessRules.Token
