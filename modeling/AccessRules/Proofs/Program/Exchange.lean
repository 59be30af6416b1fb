/-
The JSON text of a program and of its parts: what is written is read back as itself, and what is read is a program
written down, except that an operator may also be written as an object that gives its word alone.

- `readAs?_compact`: from values to texts.
- `ofJson?_eq_some_iff` (for operators, calls and instructions): the JSON forms that are read.
- `readAs?_eq_some_iff`: the texts that are read as a program, each with the program.
- `exists_readAs?_iff`: the texts that are read as some program, told by the form of their items.
- `exchange_faithful`: all of it, for every type that is exchanged.
-/
import Mathlib.Tactic
import AccessRules.Arity.Json
import AccessRules.FactFile.Format
import AccessRules.Program.Json
import AccessRules.Proofs.Json.Items
import AccessRules.Proofs.Json.RoundTrip

namespace AccessRules

/-! ## From values to texts -/

/-- the values of a type are read back from the lines they are written in -/
def ReadsBack {α : Type} (toJson : α → Json) (ofText? : String → Option α) : Prop :=
  ∀ a, ofText? (toJson a).compact = some a

namespace Json

theorem readAs?_compact {α : Type} {ofJson? : Json → Option α} {j : Json} {a : α} (h : IsWritable 127 j)
    (ha : ofJson? j = some a) : readAs? ofJson? j.compact = some a := by
  simp only [readAs?, read_compact h, Except.toOption, Option.bind_some, ha]

theorem readAs?_eq_some_iff {α : Type} (ofJson? : Json → Option α) (text : String) (a : α) :
    readAs? ofJson? text = some a ↔ ∃ j, read text = .ok j ∧ ofJson? j = some a := by
  rw [readAs?]
  cases read text with
  | ok j => simp [Except.toOption]
  | error e => simp [Except.toOption]

end Json

/-! ## What is written is writable -/

open Json (IsWritable)

theorem Token.isWritable (depth : Nat) (t : Token) : IsWritable depth t.toJson := by
  cases t with
  | bool b => exact .bool b
  | int n =>
    have hmax : n.toInt < 2 ^ 63 := n.toInt_lt
    have hsize : UInt64.size = 2 ^ 64 := rfl
    exact .int n.toInt n.minValue_le_toInt (by omega)
  | str s => exact .str s

theorem Call.isWritable (depth : Nat) (c : Call) : IsWritable (depth + 1) c.toJson := by
  refine .array _ fun j hj => ?_
  obtain ⟨t, _, rfl⟩ := List.mem_map.1 hj
  exact t.isWritable depth

theorem Instruction.isWritable (depth : Nat) (i : Instruction) : IsWritable (depth + 1) i.toJson := by
  cases i with
  | operator op => exact .str op.text
  | call c => exact c.isWritable depth

theorem Program.isWritable (depth : Nat) (p : Program) : IsWritable (depth + 2) p.toJson := by
  refine .array _ fun j hj => ?_
  obtain ⟨i, _, rfl⟩ := List.mem_map.1 hj
  exact i.isWritable depth

theorem Arity.isWritable (depth : Nat) (a : Arity) (hmin : a.min < UInt64.size) (hmax : a.max < UInt64.size) :
    IsWritable (depth + 1) a.toJson := by
  have hcount (n : Nat) (h : n < UInt64.size) : IsWritable depth (.int n) := by
    have hmin : Int64.minValue.toInt ≤ n := (by decide : Int64.minValue.toInt ≤ 0).trans (Int.natCast_nonneg n)
    exact .int n hmin (Int.ofNat_lt.2 h)
  refine .object _ fun m hm => ?_
  rcases List.mem_pair.1 hm with rfl | rfl
  · exact hcount a.min hmin
  · exact hcount a.max hmax

/-! ## What is read -/

theorem Json.case?_eq_some_iff (j : Json) (s : String) :
    j.case? = some s ↔ j = .str s ∨ j = .object [(s, .null)] := by
  unfold Json.case?
  split <;> simp_all

theorem Operator.ofName?_eq_some_iff (name : String) (op : Operator) : ofName? name = some op ↔ name = op.text := by
  refine ⟨fun h => ?_, fun h => h ▸ ofName?_text op⟩
  unfold ofName? at h
  split_ifs at h with hand hor <;> cases h
  · exact hand
  · exact hor

theorem Operator.ofJson?_eq_some_iff (j : Json) (op : Operator) :
    ofJson? j = some op ↔ j = .str op.text ∨ j = .object [(op.text, .null)] := by
  simp only [ofJson?, Option.bind_eq_some_iff, ofName?_eq_some_iff, exists_eq_right, Json.case?_eq_some_iff]

theorem Call.ofJson?_eq_some_iff (j : Json) (c : Call) : ofJson? j = some c ↔ j = c.toJson := by
  refine ⟨fun h => ?_, fun h => h ▸ ofJson?_toJson c⟩
  cases j with
  | array items =>
    obtain ⟨ts, hts, hc⟩ := Option.bind_eq_some_iff.1 h
    rw [(Token.mapM_ofJson?_eq_some_iff items ts).1 hts, ← tokens_of_ofTokens? hc, toJson]
  | _ => cases h

namespace Instruction

/-- the JSON forms of an instruction: an operator has two of them -/
inductive IsForm : Json → Instruction → Prop where
  | word (op : Operator) : IsForm (.str op.text) (.operator op)
  | case (op : Operator) : IsForm (.object [(op.text, .null)]) (.operator op)
  | call (c : Call) : IsForm c.toJson (.call c)

theorem ofJson?_eq_some_iff (j : Json) (i : Instruction) : ofJson? j = some i ↔ IsForm j i := by
  constructor
  · intro h
    unfold ofJson? at h
    split at h
    · rename_i op hop
      cases h
      rcases (Operator.ofJson?_eq_some_iff j op).1 hop with rfl | rfl
      · exact .word op
      · exact .case op
    · obtain ⟨c, hc, rfl⟩ := Option.map_eq_some_iff.1 h
      rw [(Call.ofJson?_eq_some_iff j c).1 hc]
      exact .call c
  · rintro (op | op | c)
    · exact ofJson?_toJson (.operator op)
    · cases op <;> rfl
    · exact ofJson?_toJson (.call c)

theorem mapM_ofJson?_eq_some_iff (items : List Json) (is : List Instruction) :
    items.mapM ofJson? = some is ↔ List.Forall₂ IsForm items is := by
  simp only [Json.mapM_eq_some_iff, ofJson?_eq_some_iff]

/-- the word of an operator, or an object that gives the word alone -/
def IsOperatorForm (j : Json) : Prop :=
  j = .str "and" ∨ j = .str "or" ∨ j = .object [("and", .null)] ∨ j = .object [("or", .null)]

/-- an array of literals that is not empty -/
def IsCallForm : Json → Prop
  | .array literals => literals ≠ [] ∧ ∀ l ∈ literals, FactFile.IsLiteral l
  | _ => False

theorem exists_isForm_iff (j : Json) : (∃ i, IsForm j i) ↔ IsOperatorForm j ∨ IsCallForm j := by
  constructor
  · rintro ⟨_, op | op | c⟩
    · cases op
      · exact .inl (.inl rfl)
      · exact .inl (.inr (.inl rfl))
    · cases op
      · exact .inl (.inr (.inr (.inl rfl)))
      · exact .inl (.inr (.inr (.inr rfl)))
    · exact .inr ⟨nofun, (FactFile.forall_isLiteral_iff _).2 ⟨c.tokens, rfl⟩⟩
  · rintro ((rfl | rfl | rfl | rfl) | h)
    · exact ⟨_, .word .and⟩
    · exact ⟨_, .word .or⟩
    · exact ⟨_, .case .and⟩
    · exact ⟨_, .case .or⟩
    · cases j with
      | array literals =>
        obtain ⟨hne, hliterals⟩ := h
        obtain ⟨ts, rfl⟩ := (FactFile.forall_isLiteral_iff literals).1 hliterals
        cases ts with
        | nil => exact absurd rfl hne
        | cons receiver rest => exact ⟨_, .call ⟨receiver, rest⟩⟩
      | _ => cases h

end Instruction

namespace Program

theorem readAs?_eq_some_iff (text : String) (p : Program) :
    Json.readAs? ofJson? text = some p ↔
      ∃ items, Json.read text = .ok (.array items) ∧ List.Forall₂ Instruction.IsForm items p.instructions := by
  rw [Json.readAs?_eq_some_iff]
  constructor
  · rintro ⟨j, hread, hj⟩
    cases j with
    | array items =>
      obtain ⟨is, his, rfl⟩ := Option.map_eq_some_iff.1 hj
      exact ⟨items, hread, (Instruction.mapM_ofJson?_eq_some_iff items is).1 his⟩
    | _ => cases hj
  · rintro ⟨items, hread, his⟩
    refine ⟨.array items, hread, ?_⟩
    rw [ofJson?, (Instruction.mapM_ofJson?_eq_some_iff items p.instructions).2 his, Option.map_some]

theorem exists_readAs?_iff (text : String) :
    (∃ p, Json.readAs? ofJson? text = some p) ↔
      ∃ items, Json.read text = .ok (.array items) ∧
        ∀ j ∈ items, Instruction.IsOperatorForm j ∨ Instruction.IsCallForm j := by
  simp only [readAs?_eq_some_iff, ← Instruction.exists_isForm_iff, ← Json.exists_forall₂_iff]
  constructor
  · rintro ⟨p, items, hread, hp⟩
    exact ⟨items, hread, p.instructions, hp⟩
  · rintro ⟨items, hread, is, his⟩
    exact ⟨⟨is⟩, items, hread, his⟩

end Program

/-! ## All that is exchanged -/

theorem arity_reads_back (a : Arity) (hmin : a.min < UInt64.size) (hmax : a.max < UInt64.size) :
    Arity.ofText? a.toJson.compact = some a := by
  simp only [Arity.ofText?, Json.readOuter_compact (a.isWritable 0 hmin hmax), Except.toOption, Option.bind_some,
    a.ofJson?_toJson hmin hmax]

/-- **What is written is read back, and what is read is a program.** Programs, tokens, calls, instructions, operators,
faults and imbalances come back as they were, whatever texts and integers they hold, and so does an arity of two
numbers of 64 bits; a call never comes back as an operator. A text is read as a program exactly when it is an array
whose items are the forms of its instructions in order: operators, and arrays of literals that are not empty. -/
theorem exchange_faithful :
    (ReadsBack Program.toJson (Json.readAs? Program.ofJson?) ∧
      ReadsBack Token.toJson (Json.readAs? Token.ofJson?) ∧
      ReadsBack Call.toJson (Json.readAs? Call.ofJson?) ∧
      ReadsBack Instruction.toJson (Json.readAs? Instruction.ofJson?) ∧
      ReadsBack Operator.toJson (Json.readAs? Operator.ofJson?) ∧
      ReadsBack Arity.Fault.toJson (Json.readAs? Arity.Fault.ofJson?) ∧
      ReadsBack Imbalance.toJson (Json.readAs? Imbalance.ofJson?) ∧
      ∀ a : Arity, a.min < UInt64.size → a.max < UInt64.size → Arity.ofText? a.toJson.compact = some a) ∧
    (∀ c : Call, Json.readAs? Instruction.ofJson? c.toJson.compact = some (.call c) ∧
      Json.readAs? Operator.ofJson? c.toJson.compact = none) ∧
    (∀ text p, Json.readAs? Program.ofJson? text = some p ↔
      ∃ items, Json.read text = .ok (.array items) ∧ List.Forall₂ Instruction.IsForm items p.instructions) ∧
    (∀ text, (∃ p, Json.readAs? Program.ofJson? text = some p) ↔
      ∃ items, Json.read text = .ok (.array items) ∧
        ∀ j ∈ items, Instruction.IsOperatorForm j ∨ Instruction.IsCallForm j) ∧
    ∀ text p, Json.readAs? Program.ofJson? text = some p → ∀ c, .call c ∈ p.instructions → c.tokens ≠ [] := by
  refine ⟨⟨?_, ?_, ?_, ?_, ?_, ?_, ?_, arity_reads_back⟩, fun c => ⟨?_, ?_⟩, Program.readAs?_eq_some_iff,
    Program.exists_readAs?_iff, fun _ _ _ _ _ => List.cons_ne_nil _ _⟩
  · exact fun p => Json.readAs?_compact (p.isWritable _) p.ofJson?_toJson
  · exact fun t => Json.readAs?_compact (t.isWritable _) t.ofJson?_toJson
  · exact fun c => Json.readAs?_compact (c.isWritable _) c.ofJson?_toJson
  · exact fun i => Json.readAs?_compact (i.isWritable _) i.ofJson?_toJson
  · exact fun op => Json.readAs?_compact (.str _) op.ofJson?_toJson
  · exact fun f => Json.readAs?_compact (.str _) f.ofJson?_toJson
  · exact fun i => Json.readAs?_compact (.str _) i.ofJson?_toJson
  · exact Json.readAs?_compact (c.isWritable _) (Instruction.ofJson?_toJson (.call c))
  · simp only [Json.readAs?, Json.read_compact (c.isWritable 126), Except.toOption, Option.bind_some]
    rfl

/-- a program whose first call is the word of an operator, and whose second holds a quote, a line end and a negative
number -/
theorem exchange_faithful_of_two_calls :
    let p : Program := ⟨[.call ⟨.str "and", []⟩, .call ⟨.str "\"\n", [.int (-1), .str "True"]⟩, .operator .and]⟩
    let a : Arity := ⟨1, 3⟩
    p.toJson.compact = "[[\"and\"],[\"\\\"\\n\",-1,\"True\"],\"and\"]" ∧
      Json.readAs? Program.ofJson? p.toJson.compact = some p ∧
      a.toJson.compact = "\x7b\"min\":1,\"max\":3\x7d" ∧
      Arity.ofText? a.toJson.compact = some a :=
  ⟨by decide +kernel, exchange_faithful.1.1 _, by decide +kernel,
    exchange_faithful.1.2.2.2.2.2.2.2 ⟨1, 3⟩ (by decide) (by decide)⟩

end AccessRules
