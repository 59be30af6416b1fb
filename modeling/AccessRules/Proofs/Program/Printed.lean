/-
Programs as they are printed. Printing drops the kinds of tokens and quotes nothing, so there are programs that look
alike. Those of rules do not: their tokens are such that a rule gives them back from their texts, and none is a bracket or
an operator. So a printed program is read as the tokens of its instructions one after another, and an operator and the
brackets of a call say where an instruction ends.

- `flatMap_inj_of_prefixFree`: a list is told by its code words put together, when none begins another.
- `isReadable_of_ofText`: the calls of a rule hold nothing that is read in another way.
- `tokenize_text_eq`: what is read from a printed program.
- `text_inj_of_ofText`: programs of rules that are printed alike are the same.
-/
import Mathlib.Tactic
import AccessRules.Proofs.Program.Conservation
import AccessRules.Proofs.Token.Splitting

namespace AccessRules

/-! ## Code words put together -/

theorem flatMap_inj_of_prefixFree {α β : Type} {P : α → Prop} {f : α → List β} (hne : ∀ a, P a → f a ≠ [])
    (hfree : ∀ a b, P a → P b → f a <+: f b → a = b) {xs ys : List α} (hxs : ∀ a ∈ xs, P a) (hys : ∀ a ∈ ys, P a)
    (h : xs.flatMap f = ys.flatMap f) : xs = ys := by
  induction xs generalizing ys with
  | nil =>
    cases ys with
    | nil => rfl
    | cons y ys => exact absurd (List.append_eq_nil_iff.1 h.symm).1 (hne y (hys y List.mem_cons_self))
  | cons x xs ih =>
    obtain ⟨hx, hxs⟩ := List.forall_mem_cons.1 hxs
    cases ys with
    | nil => exact absurd (List.append_eq_nil_iff.1 h).1 (hne x hx)
    | cons y ys =>
      obtain ⟨hy, hrest⟩ := List.forall_mem_cons.1 hys
      rw [List.flatMap_cons, List.flatMap_cons] at h
      have hheads : x = y := by
        have hfirst : f x <+: f y ++ ys.flatMap f := h ▸ List.prefix_append (f x) _
        rcases List.prefix_or_prefix_of_prefix hfirst (List.prefix_append (f y) _) with hxy | hyx
        · exact hfree x y hx hy hxy
        · exact (hfree y x hy hx hyx).symm
      subst hheads
      exact congrArg (x :: ·) (ih hxs hrest (List.append_cancel_left h))

/-! ## Instructions -/

namespace Instruction

/-- the tokens that a printed instruction is read as -/
def written : Instruction → List Token
  | .operator op => [.str op.text]
  | .call c => .opening :: c.tokens ++ [.closing]

/-- a call holds only tokens that a rule can give and that order nothing in it -/
def IsReadable : Instruction → Prop
  | .operator _ => True
  | .call c => ∀ t ∈ c.tokens, t.isCanonical = true ∧ t.isPlain = true

theorem tokenize_text_eq (i : Instruction) (h : i.IsReadable) : tokenize i.text = i.written := by
  cases i with
  | operator op => cases op <;> decide
  | call c =>
    have hread : ∀ t ∈ c.tokens, tokenize t.text = [t] := fun t ht => Token.tokenize_text t (h t ht).1
    have htokens : tokenize (String.intercalate " " (c.tokens.map Token.text)) = c.tokens := by
      have hblank := Token.tokenize_intercalate ' ' (by decide) (c.tokens.map Token.text)
      rw [List.flatMap_map, List.flatMap_congr hread, List.flatMap_singleton'] at hblank
      exact hblank
    have hchars : c.text.toList =
        '(' :: ((String.intercalate " " (c.tokens.map Token.text)).toList ++ ')' :: []) := by
      simp [Call.text, String.toList_append]
    have hend : Token.scan [] [] = [] := rfl
    rw [text, tokenize, hchars, Token.scan_bracket [] '(' _ (by decide), Rule.scan_split _ _ ')' (by decide),
      ← tokenize, htokens, hend, List.append_nil]
    rfl

theorem written_ne_nil (i : Instruction) : i.written ≠ [] := by cases i <;> exact List.cons_ne_nil _ _

/-- what stands before the closing bracket is told by what stands before the first of them -/
theorem tokens_eq_of_closing {ts us vs ws : List Token} (hts : .closing ∉ ts) (hus : .closing ∉ us)
    (h : ts ++ .closing :: vs = us ++ .closing :: ws) : ts = us := by
  have hbefore {ts : List Token} (hts : .closing ∉ ts) (vs : List Token) :
      (ts ++ .closing :: vs).takeWhile (fun t => decide (t ≠ .closing)) = ts := by
    have hall : ∀ t ∈ ts, decide (t ≠ .closing) = true := fun t ht => decide_eq_true fun he => hts (he ▸ ht)
    rw [List.takeWhile_append_of_pos hall, List.takeWhile_cons_of_neg (by simp), List.append_nil]
  rw [← hbefore hts vs, h, hbefore hus ws]

theorem IsReadable.closing_notMem {c : Call} (h : (call c).IsReadable) : .closing ∉ c.tokens := by
  intro hmem
  exact absurd (h _ hmem).2 (by decide)

/-- no instruction is written as the beginning of another -/
theorem written_prefixFree {i j : Instruction} (hi : i.IsReadable) (hj : j.IsReadable) (h : i.written <+: j.written) :
    i = j := by
  have hopening (op : Operator) : Token.str op.text ≠ .opening := by cases op <;> decide
  cases i with
  | operator op =>
    cases j with
    | operator op' =>
      have hsome : some op = some op' := by
        rw [← op.ofToken?_text, (List.cons_prefix_cons.1 h).1, op'.ofToken?_text]
      rw [Option.some.inj hsome]
    | call d => exact absurd (List.cons_prefix_cons.1 h).1 (hopening op)
  | call c =>
    cases j with
    | operator op => exact absurd (List.cons_prefix_cons.1 h).1.symm (hopening op)
    | call d =>
      obtain ⟨rest, hrest⟩ := h
      have htokens : c.tokens ++ .closing :: rest = d.tokens ++ .closing :: [] := by
        simpa [written] using hrest
      have heq := tokens_eq_of_closing hi.closing_notMem hj.closing_notMem htokens
      have hsome : some c = some d := by rw [← c.ofTokens?_tokens, heq, d.ofTokens?_tokens]
      rw [Option.some.inj hsome]

end Instruction

/-! ## Programs of rules -/

namespace Program

theorem isReadable_of_ofText {rule : String} {p : Program} (h : ofText rule = .ok p) :
    ∀ i ∈ p.instructions, i.IsReadable := by
  intro i hi
  cases i with
  | operator op => trivial
  | call c =>
    intro t ht
    obtain ⟨hmem, hplain⟩ := mem_of_mem_tokens h hi ht
    exact ⟨Token.isCanonical_of_mem_tokenize rule t hmem, hplain⟩

theorem tokenize_text_eq (p : Program) (h : ∀ i ∈ p.instructions, i.IsReadable) :
    tokenize p.text = p.instructions.flatMap Instruction.written := by
  have hread : ∀ i ∈ p.instructions, tokenize i.text = i.written := fun i hi => i.tokenize_text_eq (h i hi)
  calc tokenize p.text
      = (p.instructions.map Instruction.text).flatMap tokenize := Token.tokenize_intercalate ' ' (by decide) _
    _ = p.instructions.flatMap fun i => tokenize i.text := List.flatMap_map _ _ _
    _ = p.instructions.flatMap Instruction.written := List.flatMap_congr hread

/-- **Programs of rules** that are printed alike are the same. -/
theorem text_inj_of_ofText {rule other : String} {p q : Program} (hp : ofText rule = .ok p) (hq : ofText other = .ok q)
    (h : p.text = q.text) : p = q := by
  have hpi := isReadable_of_ofText hp
  have hqi := isReadable_of_ofText hq
  have htokens : p.instructions.flatMap Instruction.written = q.instructions.flatMap Instruction.written := by
    rw [← p.tokenize_text_eq hpi, h, q.tokenize_text_eq hqi]
  have hinstructions := flatMap_inj_of_prefixFree (fun i _ => i.written_ne_nil)
    (fun _ _ => Instruction.written_prefixFree) hpi hqi htokens
  cases p
  cases q
  exact congrArg Program.mk hinstructions

/-- two programs that are printed alike, of which no rule has the first -/
example : text ⟨[.call ⟨.str "a b", []⟩]⟩ = text ⟨[.call ⟨.str "a", [.str "b"]⟩]⟩ := by decide

end Program

end AccessRules
