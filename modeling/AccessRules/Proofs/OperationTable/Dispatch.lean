/-
What a call of a table comes to. The name of an operation is looked up twice, once for its arity and once for its handler,
and both times it is the last registration that is found. So a handler only ever runs on as many arguments as were
declared with it; everything else is refused before anything runs.

Which handler runs, and how often, is seen on a table of the same registrations whose handlers write down that they ran.

- `refusal?_of_isLast`, `invoke_of_isLast`: the two look-ups find the same registration.
- `tryInvoke_of_refuses`, `tryInvoke_of_admits`: a call by the last registration of its name.
- `isLast_observed`: observed registrations are found where those that they observe are.
- `latest_registration_answers`: all of it together.
-/
import Mathlib.Tactic
import AccessRules.OperationTable.History

namespace AccessRules

/-! ## Pairs whose values are changed by their places -/

namespace Dict

variable {α β : Type}

theorem map_fst_mapIdx (g : Nat → α → β) (pairs : List (String × α)) :
    (pairs.mapIdx fun place p => (p.1, g place p.2)).map Prod.fst = pairs.map Prod.fst := by
  induction pairs generalizing g with
  | nil => rfl
  | cons p pairs ih =>
    rw [List.mapIdx_cons, List.map_cons, List.map_cons, ih fun place => g (place + 1)]

/-- the keys stay, so the last pair for a key stays where it is -/
theorem IsLast.mapIdx {pairs : List (String × α)} {k : String} {place : Nat} {v : α} (h : IsLast pairs k place v)
    (g : Nat → α → β) : IsLast (pairs.mapIdx fun place p => (p.1, g place p.2)) k place (g place v) := by
  obtain ⟨before, after, rfl, rfl, hafter⟩ := h
  refine ⟨before.mapIdx fun place p => (p.1, g place p.2),
    after.mapIdx fun i p => (p.1, g (i + 1 + before.length) p.2), ?_, List.length_mapIdx, ?_⟩
  · rw [List.mapIdx_append, List.mapIdx_cons, Nat.zero_add]
  · rwa [map_fst_mapIdx fun i => g (i + 1 + before.length)]

end Dict

variable {ω : Type} {m : Type → Type}

/-! ## Handlers that write down that they ran -/

/-- a run of a handler: the place of its registration, and the arguments that it ran on -/
structure HandlerRun (ω : Type) where
  place : Nat
  args : List (Value ω)
deriving DecidableEq

/-- effects of `m`, with a list of the handlers that ran -/
abbrev Observed (ω : Type) (m : Type → Type) : Type → Type := StateT (List (HandlerRun ω)) m

/-- the operation with a handler that writes down that it ran, as the one registered at `place` -/
def Operation.observed [Monad m] (place : Nat) (op : Operation ω m) : Operation ω (Observed ω m) where
  arity := op.arity
  handler args := ExceptT.mk fun runs => do
    let result ← (op.handler args).run
    pure (result, runs ++ [⟨place, args⟩])

namespace OperationTable

/-- the registrations with handlers that write down that they ran -/
def observed [Monad m] (registrations : List (String × Operation ω m)) :
    List (String × Operation ω (Observed ω m)) :=
  registrations.mapIdx fun place r => (r.1, r.2.observed place)

/-- the answer to a call of the table of the registrations, with the handlers that ran for it -/
def answerObserved [Monad m] (label : String) (registrations : List (String × Operation ω m)) (operation : String)
    (args : List (Value ω)) : m (Except InvokeError (Value ω) × List (HandlerRun ω)) :=
  ((ofRegistrations label (observed registrations)).receiver.tryInvoke operation args).run []

/-- a call fails with `e`, and no handler runs for it -/
def Refuses [Monad m] (label : String) (registrations : List (String × Operation ω m)) (operation : String)
    (args : List (Value ω)) (e : InvokeError) : Prop :=
  (ofRegistrations label registrations).receiver.tryInvoke operation args = throw e ∧
    answerObserved label registrations operation args = pure (.error e, [])

/-- for a call the handler of `op`, registered at `place`, runs once and on its arguments, and answers it -/
def Runs [Monad m] (label : String) (registrations : List (String × Operation ω m)) (operation : String)
    (args : List (Value ω)) (place : Nat) (op : Operation ω m) : Prop :=
  (ofRegistrations label registrations).receiver.tryInvoke operation args = op.handler args ∧
    answerObserved label registrations operation args = do
      let result ← (op.handler args).run
      pure (result, [⟨place, args⟩])

/-! ## What is looked up -/

section LookUp

variable (label : String) {registrations : List (String × Operation ω m)} {operation : String} {place : Nat}
  {op : Operation ω m}

theorem get?_of_isLast (h : Dict.IsLast registrations operation place op) :
    (ofRegistrations label registrations).entries.get? operation = some op := by
  rw [get?_ofRegistrations, h.lastFor_eq]

variable [Monad m]

theorem refusal?_of_isLast (h : Dict.IsLast registrations operation place op) (count : Nat) :
    (ofRegistrations label registrations).receiver.refusal? operation count = (op.arity.fault? count).map .arity := by
  have harity : (ofRegistrations label registrations).receiver.arity operation = some op.arity := by
    simp only [receiver, get?_of_isLast label h, Option.map_some]
  simp only [Receiver.refusal?, harity]

theorem invoke_of_isLast (h : Dict.IsLast registrations operation place op) (args : List (Value ω)) :
    (ofRegistrations label registrations).receiver.invoke operation args = op.handler args := by
  simp only [receiver, get?_of_isLast label h]

theorem refusal?_of_unregistered (h : operation ∉ registrations.map Prod.fst) (count : Nat) :
    (ofRegistrations label registrations).receiver.refusal? operation count = some .notFound := by
  have harity : (ofRegistrations label registrations).receiver.arity operation = none := by
    simp only [receiver, get?_ofRegistrations, Dict.lastFor_eq_none operation registrations h, Option.map_none]
  simp only [Receiver.refusal?, harity]

theorem tryInvoke_of_unregistered (h : operation ∉ registrations.map Prod.fst) (args : List (Value ω)) :
    (ofRegistrations label registrations).receiver.tryInvoke operation args = throw .notFound :=
  Receiver.tryInvoke_eq_of_refuses _ _ _ _ (refusal?_of_unregistered label h args.length)

theorem tryInvoke_of_fault (h : Dict.IsLast registrations operation place op) {args : List (Value ω)}
    {fault : Arity.Fault} (hfault : op.arity.fault? args.length = some fault) :
    (ofRegistrations label registrations).receiver.tryInvoke operation args = throw (.arity fault) := by
  refine Receiver.tryInvoke_eq_of_refuses _ _ _ _ ?_
  rw [refusal?_of_isLast label h, hfault]
  rfl

theorem tryInvoke_of_no_fault (h : Dict.IsLast registrations operation place op) {args : List (Value ω)}
    (hfault : op.arity.fault? args.length = none) :
    (ofRegistrations label registrations).receiver.tryInvoke operation args = op.handler args := by
  have hadmits : (ofRegistrations label registrations).receiver.refusal? operation args.length = none := by
    rw [refusal?_of_isLast label h, hfault]
    rfl
  rw [Receiver.tryInvoke_eq_of_admits _ _ _ hadmits, invoke_of_isLast label h]

/-- a table makes no difference of what its arguments were written as -/
theorem tryInvokeFrom_eq_tryInvoke (t : OperationTable ω m) (operation : String) (args : List (Value ω))
    (sources : List Token) :
    t.receiver.tryInvokeFrom operation args sources = t.receiver.tryInvoke operation args := rfl

end LookUp

/-! ## Registrations that are observed -/

section Observation

variable [Monad m] {registrations : List (String × Operation ω m)}

theorem map_fst_observed : (observed registrations).map Prod.fst = registrations.map Prod.fst :=
  Dict.map_fst_mapIdx Operation.observed registrations

theorem isLast_observed {operation : String} {place : Nat} {op : Operation ω m}
    (h : Dict.IsLast registrations operation place op) :
    Dict.IsLast (observed registrations) operation place (op.observed place) :=
  h.mapIdx Operation.observed

end Observation

/-! ## What a call comes to -/

section Call

variable [Monad m] (label : String) {registrations : List (String × Operation ω m)} {operation : String} {place : Nat}
  {op : Operation ω m} {args : List (Value ω)}

theorem refuses_of_unregistered (h : operation ∉ registrations.map Prod.fst) :
    Refuses label registrations operation args .notFound := by
  have hobserved : operation ∉ (observed registrations).map Prod.fst := by rwa [map_fst_observed]
  refine ⟨tryInvoke_of_unregistered label h args, ?_⟩
  rw [answerObserved, tryInvoke_of_unregistered label hobserved args]
  rfl

theorem refuses_of_fault (h : Dict.IsLast registrations operation place op) {fault : Arity.Fault}
    (hfault : op.arity.fault? args.length = some fault) :
    Refuses label registrations operation args (.arity fault) := by
  refine ⟨tryInvoke_of_fault label h hfault, ?_⟩
  rw [answerObserved, tryInvoke_of_fault label (isLast_observed h) hfault]
  rfl

theorem runs_of_no_fault (h : Dict.IsLast registrations operation place op)
    (hfault : op.arity.fault? args.length = none) : Runs label registrations operation args place op := by
  refine ⟨tryInvoke_of_no_fault label h hfault, ?_⟩
  rw [answerObserved, tryInvoke_of_no_fault label (isLast_observed h) hfault]
  rfl

variable (registrations operation args)

/-- **The latest registration answers.** Whatever was registered, the names of a table are those registered, each once
and in the order of their first registration, and the tokens that arguments were written as make no difference. A name
that was never registered is not found. A name that was has a last registration, and a call of it compares the number of
arguments with the bounds of that registration, the least bound first: too few and too many are refused before any
handler runs, so that bounds which leave no room let none run ever; otherwise the handler of that registration runs once,
on the arguments as they are, and its value or error is the answer. -/
theorem latest_registration_answers :
    ((ofRegistrations label registrations).operations = (registrations.map Prod.fst).eraseDups ∧
      (ofRegistrations label registrations).operations.Nodup) ∧
    (∀ sources, (ofRegistrations label registrations).receiver.tryInvokeFrom operation args sources =
      (ofRegistrations label registrations).receiver.tryInvoke operation args) ∧
    (operation ∉ registrations.map Prod.fst → Refuses label registrations operation args .notFound) ∧
    (operation ∈ registrations.map Prod.fst → ∃ place op, Dict.IsLast registrations operation place op) ∧
    ∀ place op, Dict.IsLast registrations operation place op →
      (args.length < op.arity.min → Refuses label registrations operation args (.arity .tooFew)) ∧
      (op.arity.min ≤ args.length → op.arity.max < args.length →
        Refuses label registrations operation args (.arity .tooMany)) ∧
      (op.arity.max < op.arity.min → ∃ fault, Refuses label registrations operation args (.arity fault)) ∧
      (op.arity.min ≤ args.length → args.length ≤ op.arity.max →
        Runs label registrations operation args place op) := by
  refine ⟨⟨?_, (ofRegistrations label registrations).entries.nodup⟩, tryInvokeFrom_eq_tryInvoke _ operation args,
    refuses_of_unregistered label, Dict.exists_isLast operation registrations, ?_⟩
  · rw [operations_ofRegistrations, distinct_eq_eraseDups]
  · intro place op h
    refine ⟨?_, ?_, ?_, ?_⟩
    · intro hmin
      exact refuses_of_fault label h (op.arity.fault?_of_lt_min args.length hmin)
    · intro hmin hmax
      exact refuses_of_fault label h (op.arity.fault?_of_max_lt args.length hmin hmax)
    · intro hempty
      obtain ⟨fault, hfault⟩ := Option.ne_none_iff_exists'.1 (op.arity.fault?_of_empty_range hempty args.length)
      exact ⟨fault, refuses_of_fault label h hfault⟩
    · intro hmin hmax
      exact runs_of_no_fault label h ((op.arity.fault?_eq_none_iff args.length).2 ⟨hmin, hmax⟩)

end Call

/-- a door that is told twice what to admit, with an operation between whose bounds leave no room -/
def doorRegistrations : List (String × Operation Nat Id) :=
  [("admits", ⟨.exact 2, fun _ => pure (.bool true)⟩), ("opens", ⟨⟨2, 1⟩, fun _ => pure (.bool true)⟩),
    ("admits", ⟨⟨0, 1⟩, fun _ => throw (.failed "jammed")⟩)]

/-- the second handler for `admits` answers, with its error, and the first never runs again; `opens` takes no number of
arguments -/
theorem latest_registration_answers_at_door :
    (ofRegistrations "door" doorRegistrations).operations = ["admits", "opens"] ∧
    answerObserved "door" doorRegistrations "admits" [.str "ann"] =
      (.error (.failed "jammed"), [⟨2, [.str "ann"]⟩]) ∧
    Refuses "door" doorRegistrations "admits" [.str "ann", .int 1] (.arity .tooMany) ∧
    (∃ fault, Refuses "door" doorRegistrations "opens" [.str "ann"] (.arity fault)) ∧
    Refuses "door" doorRegistrations "shuts" [] .notFound := by
  have hadmits : Dict.IsLast doorRegistrations "admits" 2 ⟨⟨0, 1⟩, fun _ => throw (.failed "jammed")⟩ :=
    ⟨doorRegistrations.take 2, [], rfl, rfl, by decide⟩
  have hopens : Dict.IsLast doorRegistrations "opens" 1 ⟨⟨2, 1⟩, fun _ => pure (.bool true)⟩ :=
    ⟨doorRegistrations.take 1, doorRegistrations.drop 2, rfl, rfl, by decide⟩
  obtain ⟨⟨hnames, -⟩, -, hunknown, -⟩ := latest_registration_answers "door" doorRegistrations "shuts" []
  obtain ⟨-, -, -, -, hone⟩ := latest_registration_answers "door" doorRegistrations "admits" [.str "ann"]
  obtain ⟨-, -, -, -, htwo⟩ := latest_registration_answers "door" doorRegistrations "admits" [.str "ann", .int 1]
  obtain ⟨-, -, -, -, hopen⟩ := latest_registration_answers "door" doorRegistrations "opens" [.str "ann"]
  obtain ⟨-, -, -, hruns⟩ := hone 2 _ hadmits
  obtain ⟨-, hmany, -, -⟩ := htwo 2 _ hadmits
  obtain ⟨-, -, hempty, -⟩ := hopen 1 _ hopens
  refine ⟨hnames.trans (by decide), ?_, hmany (by decide) (by decide), hempty (by decide), hunknown (by decide)⟩
  exact (hruns (by decide) (by decide)).2

end OperationTable

end AccessRules
