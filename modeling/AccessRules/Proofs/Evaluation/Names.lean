/-
The names of a program are all that it looks up. Two bindings that give the same values to those names decide the
program alike, with the same effects and the same questions to objects, and other names may be bound at will. When all
names of a program are bound, an unknown name can only be a receiver that is no name at all.

- `resolve_congr`: what a call comes to under two such bindings.
- `run_failsOnly`: the errors of instructions, from those of their calls.
- `evaluate_of_names`: the decision of a program under two bindings, and when a name is unknown to it.
-/
import Mathlib.Tactic
import AccessRules.Evaluation.Recording
import AccessRules.Proofs.Evaluation.Verdict

namespace AccessRules

variable {ω : Type} {m : Type → Type}

/-! ## Two bindings -/

theorem argument_congr (b d : Binding ω) (t : Token) (h : ∀ name, t.str? = some name → b.get? name = d.get? name) :
    b.argument t = d.argument t := by
  cases t with
  | str name => simp only [Binding.argument, Token.str?, Option.bind_some, h name rfl]
  | int n => rfl
  | bool v => rfl

namespace Call

theorem receiver_mem_names (name : String) (rest : List Token) : name ∈ names ⟨.str name, rest⟩ := by
  simp [names, Token.str?]

theorem param_mem_names (c : Call) (t : Token) (ht : t ∈ c.params) (name : String) (hname : t.str? = some name) :
    name ∈ c.names :=
  List.mem_filterMap.2 ⟨t, List.mem_cons_of_mem _ ht, hname⟩

theorem ResolvesTo.congr {b : Binding ω} {c : Call} {r : Resolved ω} (hr : c.ResolvesTo b r) (d : Binding ω)
    (h : ∀ name ∈ c.names, b.get? name = d.get? name) : c.ResolvesTo d r := by
  cases hr with
  | literal v => exact .literal v
  | name name v hv => exact .name name v (h name (receiver_mem_names name []) ▸ hv)
  | operation name operation params o ho =>
    have hargs : params.map b.argument = params.map d.argument := by
      apply List.map_congr_left
      intro t ht
      exact argument_congr b d t fun n hn => h n (param_mem_names ⟨.str name, operation :: params⟩ t ht n hn)
    rw [hargs]
    exact .operation name operation params o (h name (receiver_mem_names name _) ▸ ho)
  | falsy name operation params v hv hf =>
    exact .falsy name operation params v (h name (receiver_mem_names name _) ▸ hv) hf
  | scalar name operation params v hv ho ht =>
    exact .scalar name operation params v (h name (receiver_mem_names name _) ▸ hv) ho ht
  | unbound _ hs hb =>
    refine .unbound c (fun name hname => ?_) hb
    obtain ⟨receiver, rest⟩ := c
    obtain rfl : receiver = .str name := hname
    rw [← h name (receiver_mem_names name rest)]
    exact hs name rfl

theorem resolve_congr (b d : Binding ω) (c : Call) (h : ∀ name ∈ c.names, b.get? name = d.get? name) :
    c.resolve b = c.resolve d :=
  (resolve_of_resolvesTo d c _ ((resolve_resolvesTo b c).congr d h)).symm

end Call

namespace Program

theorem mem_names (p : Program) (i : Instruction) (hi : i ∈ p.instructions) (name : String) (hname : name ∈ i.names) :
    name ∈ p.names :=
  (mem_distinct _ name).2 (List.mem_flatMap.2 ⟨i, hi, hname⟩)

theorem evaluate_congr [Monad m] (host : Host ω m) (b d : Binding ω) (p : Program)
    (h : ∀ name ∈ p.names, b.get? name = d.get? name) : p.evaluate host b = p.evaluate host d := by
  refine evaluate_of_calls host host b d p fun c hc => ?_
  have hresolve := c.resolve_congr b d fun name hname => h name (p.mem_names (.call c) hc name hname)
  simp only [Call.evaluate, hresolve]

/-! ## Names that are unknown -/

theorem step_failsOnly [Monad m] [LawfulMonad m] (Q : RuleError → Prop) (host : Host ω m) (b : Binding ω)
    (stack : List Bool) (i : Instruction) (hop : Q .missingOperand)
    (hcall : ∀ c, i = .call c → FailsOnly Q (c.evaluate host b)) : FailsOnly Q (step host b stack i) := by
  cases i with
  | operator op =>
    rw [step_operator]
    exact .settled _ fun e he => ((combine_eq_error_iff op stack e).1 he).1 ▸ hop
  | call c => exact .bind _ _ (hcall c rfl) fun v => .settled (.ok (v :: stack)) fun e he => nomatch he

theorem run_failsOnly [Monad m] [LawfulMonad m] (Q : RuleError → Prop) (host : Host ω m) (b : Binding ω)
    (stack : List Bool) (is : List Instruction) (hop : Q .missingOperand)
    (hcall : ∀ c, .call c ∈ is → FailsOnly Q (c.evaluate host b)) : FailsOnly Q (run host b stack is) := by
  induction is generalizing stack with
  | nil => exact .settled (.ok stack) fun e he => nomatch he
  | cons i rest ih =>
    have hstep := step_failsOnly Q host b stack i hop fun c hc => hcall c (hc ▸ List.mem_cons_self)
    exact .bind _ _ hstep fun stack => ih stack fun c hc => hcall c (List.mem_cons_of_mem i hc)

theorem evaluate_failsOnly [Monad m] [LawfulMonad m] (Q : RuleError → Prop) (host : Host ω m) (b : Binding ω)
    (p : Program) (hop : Q .missingOperand)
    (hcall : ∀ c, .call c ∈ p.instructions → FailsOnly Q (c.evaluate host b)) : FailsOnly Q (p.evaluate host b) := by
  unfold evaluate
  split_ifs
  · exact .settled (.ok false) fun e he => nomatch he
  · refine .bind _ _ (run_failsOnly Q host b [] p.instructions hop hcall) fun stack => ?_
    cases stack with
    | nil => exact .settled (.error .missingOperand) fun e he => Except.error.inj he ▸ hop
    | cons v rest => exact .settled (.ok v) fun e he => nomatch he

end Program

/-- the receiver is a literal that cannot be looked up: an integer, or a boolean in a call of two tokens or more -/
def Call.IsUnnamed (c : Call) : Prop :=
  (∃ n, c.receiver = .int n) ∨ (∃ v, c.receiver = .bool v) ∧ 2 ≤ c.tokens.length

theorem Call.isUnnamed_of_unbound (b : Binding ω) (c : Call) (name : String)
    (hbound : ∀ name ∈ c.names, b.get? name ≠ none) (h : c.resolve b = .settled (.error (.unbound name))) :
    name = c.receiver.text ∧ c.IsUnnamed := by
  have hc := c.resolve_resolvesTo b
  rw [h] at hc
  cases hc with
  | unbound _ hs hb =>
    refine ⟨rfl, ?_⟩
    obtain ⟨receiver, rest⟩ := c
    cases receiver with
    | str name => exact absurd (hs name rfl) (hbound name (receiver_mem_names name rest))
    | int n => exact .inl ⟨n, rfl⟩
    | bool v =>
      refine .inr ⟨⟨v, rfl⟩, ?_⟩
      have hpos : 0 < rest.length := List.length_pos_iff.2 (hb v rfl)
      simp only [tokens, List.length_cons]
      omega

/-- when its names are bound, a call finds a name unknown only if it is no name -/
theorem Call.evaluate_failsOnly_unnamed [Monad m] [LawfulMonad m] (host : Host ω m) (b : Binding ω) (c : Call)
    (hbound : ∀ name ∈ c.names, b.get? name ≠ none) :
    FailsOnly (fun e => ∀ name, e = .unbound name → name = c.receiver.text ∧ c.IsUnnamed) (c.evaluate host b) := by
  refine c.evaluate_failsOnly_of _ host b (fun e he name hname => ?_) fun i e _ name hname => ?_
  · exact c.isUnnamed_of_unbound b name hbound (hname ▸ he)
  · cases e <;> cases hname

namespace Program

/-- **The names are enough.** Bindings that agree on the names of a program decide it alike, and ask the same of the
same objects on the way; so a name that is not among them may be bound to anything. When every name of a program is
bound, a name is found unknown only if it is the receiver of a call and is no name: an integer, or a boolean with an
operation. -/
theorem evaluate_of_names [Monad m] [LawfulMonad m] (host : Host ω m) (b : Binding ω) (p : Program) :
    (∀ d : Binding ω, (∀ name ∈ p.names, b.get? name = d.get? name) →
      p.evaluate host b = p.evaluate host d ∧ p.evaluateRecorded host b = p.evaluateRecorded host d) ∧
    (∀ name v, name ∉ p.names → p.evaluate host (b.insert name v) = p.evaluate host b ∧
      p.evaluateRecorded host (b.insert name v) = p.evaluateRecorded host b) ∧
    ((∀ name ∈ p.names, b.contains name = true) →
      FailsOnly (fun e => ∀ name, e = .unbound name →
        ∃ c, .call c ∈ p.instructions ∧ name = c.receiver.text ∧ c.IsUnnamed) (p.evaluate host b)) := by
  have hagree (b d : Binding ω) (h : ∀ name ∈ p.names, b.get? name = d.get? name) :
      p.evaluate host b = p.evaluate host d ∧ p.evaluateRecorded host b = p.evaluateRecorded host d := by
    refine ⟨p.evaluate_congr host b d h, ?_⟩
    rw [evaluateRecorded, p.evaluate_congr host.recording b d h]
    rfl
  refine ⟨hagree b, fun name v hname => hagree _ b fun n hn => ?_, fun hbound => ?_⟩
  · have hne : name ≠ n := fun he => hname (he ▸ hn)
    rw [Binding.get?_insert, if_neg hne]
  · refine p.evaluate_failsOnly _ host b nofun fun c hc => ?_
    have hnames : ∀ name ∈ c.names, b.get? name ≠ none := by
      intro name hname
      exact Option.isSome_iff_ne_none.1 (hbound name (p.mem_names (.call c) hc name hname))
    refine (c.evaluate_failsOnly_unnamed host b hnames).imp _ fun e he name hname => ?_
    exact ⟨c, hc, he name hname⟩

def lone (receiver : Token) : Instruction := .call ⟨receiver, []⟩

/-- a name more than the program has, a binding that has the others only, and an integer that no binding knows -/
theorem evaluate_of_names_at_door :
    evaluate FactFile.host (door.insert "window" .absent) ⟨[.call admitsAnn]⟩ = pure true ∧
    evaluate FactFile.host ((Binding.ofList [("window", .bool true)]).extend door.values.entries)
      ⟨[.call admitsAnn]⟩ = pure true ∧
    (evaluate FactFile.host door ⟨[lone (.str "door"), lone (.int 5)]⟩ = throw (.unbound "5") ∧
      FailsOnly (fun e => ∀ name, e = .unbound name → ∃ c, .call c ∈ [lone (.str "door"), lone (.int 5)] ∧
        name = c.receiver.text ∧ c.IsUnnamed)
        (evaluate FactFile.host door ⟨[lone (.str "door"), lone (.int 5)]⟩)) := by
  obtain ⟨hagree, hinsert, -⟩ := evaluate_of_names FactFile.host door ⟨[.call admitsAnn]⟩
  have hann : evaluate FactFile.host door ⟨[.call admitsAnn]⟩ = pure true := rfl
  refine ⟨?_, ?_, rfl, ?_⟩
  · rw [(hinsert "window" .absent (by decide)).1, hann]
  · rw [← hann]
    refine (hagree _ fun name hname => ?_).1.symm
    have hnames : name = "door" ∨ name = "ann" := by simpa using (show name ∈ ["door", "ann"] from hname)
    rcases hnames with rfl | rfl <;> rfl
  · exact (evaluate_of_names FactFile.host door ⟨[lone (.str "door"), lone (.int 5)]⟩).2.2 (by decide)

end Program

end AccessRules
