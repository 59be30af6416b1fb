/-
Two runs side by side, of which the second says yes wherever the first does. A result rises when a value of the first run
is answered by a value of the second that is at least as true; an error of the first may become anything. The operators
are monotone, so when all calls rise, so do the stacks value by value, and with them the decision of any program,
sensible or not.

- `Rises.bind`: rising results one after another.
- `step_rises`, `run_rises`: one instruction, and instructions one after another, on stacks that are related value by
  value.
- `evaluate_rises`: the decision of a program rises when its calls do.
-/
import Mathlib.Tactic
import AccessRules.Evaluation.Resolution

namespace AccessRules

variable {ω α β : Type}

/-- a value of the first has a value of the second that `R` relates it to -/
def Rises (R : α → β → Prop) (x : ExceptT RuleError Id α) (y : ExceptT RuleError Id β) : Prop :=
  ∀ v, x.run = .ok v → ∃ w, y.run = .ok w ∧ R v w

namespace Rises

theorem pure {R : α → β → Prop} {v : α} {w : β} (h : R v w) :
    Rises R (Pure.pure v : ExceptT RuleError Id α) (Pure.pure w) := by
  intro v' hv
  exact ⟨w, rfl, Except.ok.inj hv ▸ h⟩

theorem of_error {R : α → β → Prop} {x : ExceptT RuleError Id α} {y : ExceptT RuleError Id β} {e : RuleError}
    (h : x.run = .error e) : Rises R x y := by
  intro v hv
  rw [h] at hv
  cases hv

theorem bind {α' β' : Type} {R : α → β → Prop} {S : α' → β' → Prop} {x : ExceptT RuleError Id α}
    {y : ExceptT RuleError Id β} {f : α → ExceptT RuleError Id α'} {g : β → ExceptT RuleError Id β'}
    (h : Rises R x y) (hf : ∀ v w, R v w → Rises S (f v) (g w)) : Rises S (x >>= f) (y >>= g) := by
  intro v' hv'
  rw [ExceptT.run_bind] at hv'
  cases hx : x.run with
  | error e =>
    rw [hx] at hv'
    cases hv'
  | ok v =>
    rw [hx] at hv'
    obtain ⟨w, hy, hvw⟩ := h v hx
    obtain ⟨w', hw', hrel⟩ := hf v w hvw v' hv'
    refine ⟨w', ?_, hrel⟩
    rw [ExceptT.run_bind, hy]
    exact hw'

end Rises

theorem Operator.apply_le_apply (op : Operator) {left right left' right' : Bool} (hl : left ≤ left')
    (hr : right ≤ right') : op.apply left right ≤ op.apply left' right' := by
  revert left right left' right'
  cases op <;> decide

namespace Program

theorem combine_rises (op : Operator) {s t : List Bool} (h : List.Forall₂ (· ≤ ·) s t) :
    Rises (List.Forall₂ (· ≤ ·)) (ExceptT.mk (combine op s)) (ExceptT.mk (combine op t)) := by
  cases h with
  | nil => exact .of_error rfl
  | cons hr h =>
    cases h with
    | nil => exact .of_error rfl
    | cons hl h => exact .pure (.cons (op.apply_le_apply hl hr) h)

variable (host host' : Host ω Id) (b b' : Binding ω)

theorem step_rises (i : Instruction) {s t : List Bool} (hst : List.Forall₂ (· ≤ ·) s t)
    (hcall : ∀ c, i = .call c → Rises (· ≤ ·) (c.evaluate host b) (c.evaluate host' b')) :
    Rises (List.Forall₂ (· ≤ ·)) (step host b s i) (step host' b' t i) := by
  cases i with
  | operator op =>
    rw [step_operator, step_operator]
    exact combine_rises op hst
  | call c => exact (hcall c rfl).bind fun v w hvw => .pure (.cons hvw hst)

theorem run_rises (is : List Instruction) {s t : List Bool} (hst : List.Forall₂ (· ≤ ·) s t)
    (hcall : ∀ c, .call c ∈ is → Rises (· ≤ ·) (c.evaluate host b) (c.evaluate host' b')) :
    Rises (List.Forall₂ (· ≤ ·)) (run host b s is) (run host' b' t is) := by
  induction is generalizing s t with
  | nil => exact .pure hst
  | cons i rest ih =>
    have hstep := step_rises host host' b b' i hst fun c hc => hcall c (hc ▸ List.mem_cons_self)
    exact hstep.bind fun s' t' hst' => ih hst' fun c hc => hcall c (List.mem_cons_of_mem i hc)

theorem evaluate_rises (p : Program)
    (hcall : ∀ c, .call c ∈ p.instructions → Rises (· ≤ ·) (c.evaluate host b) (c.evaluate host' b')) :
    Rises (· ≤ ·) (p.evaluate host b) (p.evaluate host' b') := by
  unfold evaluate
  split_ifs
  · exact .pure le_rfl
  · refine (run_rises host host' b b' p.instructions .nil hcall).bind fun s t hst => ?_
    cases hst with
    | nil => exact .of_error rfl
    | cons hvw _ => exact .pure hvw

end Program

end AccessRules
