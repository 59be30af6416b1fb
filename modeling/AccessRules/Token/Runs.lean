/-
Runs of plain tokens. Operators and brackets part the tokens of a rule. What stands between two of them, if anything, is
a run: it is as long as it can be, and plain throughout.

- `runs_append_cons`: a token that is not plain parts the runs before it from those behind it.
- `runs_append_run`: plain tokens before others that do not go on with them are one run.
- `flatten_runs`: the runs one after another are the plain tokens in their order.
-/
import AccessRules.Token

namespace AccessRules.Token

/-- the token is none of the texts that order a rule, the operators and the brackets -/
def isPlain (t : Token) : Bool := ["and", "or", "(", ")"].all fun w => !t.is w

/-- the runs of plain tokens in their order -/
def runs (ts : List Token) : List (List Token) := (ts.splitOnP fun t => !t.isPlain).filter fun r => !r.isEmpty

/-- the texts of a run, save that in its second place -/
def namesIn (r : List Token) : List String := (r.eraseIdx 1).filterMap str?

theorem isPlain_iff (t : Token) : t.isPlain = true ↔ ∀ w ∈ ["and", "or", "(", ")"], t ≠ .str w := by
  simp only [isPlain, is, List.all_eq_true, Bool.not_eq_true', decide_eq_false_iff_not, ne_eq]

/-! ## Where runs end -/

theorem runs_nil : runs [] = [] := rfl

theorem runs_append_cons (ts us : List Token) (d : Token) (hd : d.isPlain = false) :
    runs (ts ++ d :: us) = runs ts ++ runs us := by
  have hsplit : (ts ++ d :: us).splitOnP (fun t => !t.isPlain) =
      ts.splitOnP (fun t => !t.isPlain) ++ us.splitOnP (fun t => !t.isPlain) :=
    List.splitOnP_append_cons ts us (by rw [hd]; rfl)
  rw [runs, hsplit, List.filter_append]
  rfl

theorem runs_cons_of_not_plain (us : List Token) (d : Token) (hd : d.isPlain = false) : runs (d :: us) = runs us :=
  runs_append_cons [] us d hd

theorem runs_of_plain (r : List Token) (hne : r ≠ []) (hr : ∀ t ∈ r, t.isPlain = true) : runs r = [r] := by
  have hsplit : (r.splitOnP fun t => !t.isPlain) = [r] :=
    List.splitOnP_eq_singleton fun t ht => by rw [hr t ht]; rfl
  simp [runs, hsplit, hne]

theorem runs_append_run (r ts : List Token) (hne : r ≠ []) (hr : ∀ t ∈ r, t.isPlain = true)
    (hts : ∀ t, ts.head? = some t → t.isPlain = false) : runs (r ++ ts) = r :: runs ts := by
  cases ts with
  | nil => rw [List.append_nil, runs_of_plain r hne hr, runs_nil]
  | cons d us =>
    have hd := hts d rfl
    rw [runs_append_cons r us d hd, runs_of_plain r hne hr, runs_cons_of_not_plain us d hd]
    rfl

/-! ## What is in runs -/

theorem flatten_splitOnP (p : Token → Bool) (ts : List Token) :
    (ts.splitOnP p).flatten = ts.filter fun t => !p t := by
  induction ts with
  | nil => rfl
  | cons t ts ih =>
    rw [List.splitOnP_cons_eq_if_modifyHead]
    cases hp : p t with
    | true => simpa [hp] using ih
    | false =>
      obtain ⟨r, rs, hsplit⟩ := List.exists_cons_of_ne_nil (List.splitOnP_ne_nil p ts)
      rw [hsplit] at ih
      simpa [hp, hsplit] using ih

theorem flatten_runs (ts : List Token) : (runs ts).flatten = ts.filter isPlain := by
  rw [runs, List.flatten_filter_not_isEmpty, flatten_splitOnP]
  simp

theorem ne_nil_of_mem_runs (ts r : List Token) (h : r ∈ runs ts) : r ≠ [] := by
  have hr := (List.mem_filter.1 h).2
  simpa using hr

theorem isPlain_of_mem_runs (ts r : List Token) (h : r ∈ runs ts) (t : Token) (ht : t ∈ r) : t.isPlain = true := by
  have hmem : t ∈ (runs ts).flatten := List.mem_flatten.2 ⟨r, h, ht⟩
  rw [flatten_runs] at hmem
  exact (List.mem_filter.1 hmem).2

end AccessRules.Token
