/-
What is written over several lines is read back as itself too. Line ends and the blanks that indent a line lie between
lexemes, where the scanner leaves no trace of them, so the lexemes are those of the same value in one line.

- `isPassed_newLine`: a line end and the blanks after it are passed over.
- `scansAs_prettyChars`: the lexemes of a value that is written over several lines, at any indentation.
- `read_pretty`: a value of integers of 64 bits is read back from the lines it is written in, with blanks after it or
  without.
-/
import AccessRules.Proofs.Json.RoundTrip

namespace AccessRules.Json

/-! ## Blanks -/

theorem scan_blanks (blanks rest : List Char) (h : ∀ c ∈ blanks, isSpace c = true) :
    scan .between (blanks ++ rest) = scan .between rest := by
  induction blanks with
  | nil => rfl
  | cons c blanks ih =>
    rw [List.cons_append, scan_blank c _ (h c (List.mem_cons_self ..))]
    exact ih fun d hd => h d (List.mem_cons_of_mem _ hd)

/-- no numeral goes on with a blank -/
theorem endsNumeral_blank (c : Char) (cs : List Char) (h : isSpace c = true) : EndsNumeral (c :: cs) := by
  intro d hd s hs
  obtain rfl : c = d := Option.some.inj hd
  have hc : c = ' ' ∨ c = '\t' ∨ c = '\n' ∨ c = '\r' := by simpa [isSpace, or_assoc] using h
  rcases hc with rfl | rfl | rfl | rfl <;> cases s <;> first | rfl | cases hs

theorem isSpace_of_mem_newLine (depth : Nat) (c : Char) (h : c ∈ newLine depth) : isSpace c = true := by
  rcases List.mem_cons.1 h with rfl | h
  · rfl
  · rw [List.eq_of_mem_replicate h]
    rfl

theorem isPassed_newLine (depth : Nat) : IsPassed (newLine depth) :=
  fun _ => scan_blanks _ _ (isSpace_of_mem_newLine depth)

theorem endsNumeral_newLine (depth : Nat) (rest : List Char) : EndsNumeral (newLine depth ++ rest) :=
  endsNumeral_blank '\n' _ rfl

/-! ## The lexemes of indented values -/

theorem prettyItems_eq_join (depth : Nat) (items : List Json) :
    prettyItems depth items = joinItems (newLine depth) (prettyChars depth) items := by
  induction items with
  | nil => rfl
  | cons j items ih =>
    cases items with
    | nil => rfl
    | cons k items => exact congrArg (newLine depth ++ prettyChars depth j ++ ',' :: ·) ih

theorem prettyMembers_eq_join (depth : Nat) (members : List (String × Json)) :
    prettyMembers depth members = joinMembers (newLine depth) [' '] (prettyChars depth) members := by
  induction members with
  | nil => rfl
  | cons m members ih =>
    cases members with
    | nil => rfl
    | cons n members =>
      exact congrArg (newLine depth ++ stringChars m.1 ++ ':' :: ' ' :: prettyChars depth m.2 ++ ',' :: ·) ih

/-- at every indentation the characters are scanned as the lexemes -/
def ScansIndented (j : Json) : Prop := ∀ depth, ScansAs (prettyChars depth j) (lexemesOf j)

theorem scansIndented_array (items : List Json) (h : ∀ j ∈ items, ScansIndented j) : ScansIndented (.array items) := by
  intro depth rest _
  cases items with
  | nil =>
    simp only [prettyChars, lexemesOf, itemLexemes, List.cons_append, List.nil_append]
    rw [(scan_mark _).1, (scan_mark _).2.1]
  | cons j items =>
    have hends := endsNumeral_newLine depth (']' :: rest)
    simp only [prettyChars, lexemesOf, List.append_assoc, List.cons_append, List.nil_append]
    rw [(scan_mark _).1, prettyItems_eq_join,
      scansAs_joinItems (isPassed_newLine _) _ (fun i hi => h i hi (depth + 1)) _ hends, isPassed_newLine,
      (scan_mark _).2.1]

theorem scansIndented_object (members : List (String × Json)) (h : ∀ m ∈ members, ScansIndented m.2) :
    ScansIndented (.object members) := by
  intro depth rest _
  cases members with
  | nil =>
    simp only [prettyChars, lexemesOf, memberLexemes, List.cons_append, List.nil_append]
    rw [(scan_mark _).2.2.1, (scan_mark _).2.2.2.1]
  | cons m members =>
    have hends := endsNumeral_newLine depth ('\x7d' :: rest)
    simp only [prettyChars, lexemesOf, List.append_assoc, List.cons_append, List.nil_append]
    rw [(scan_mark _).2.2.1, prettyMembers_eq_join,
      scansAs_joinMembers (isPassed_newLine _) (fun _ => rfl) _ (fun i hi => h i hi (depth + 1)) _ hends,
      isPassed_newLine, (scan_mark _).2.2.2.1]

theorem scansAs_prettyChars {depth : Nat} {j : Json} (h : IsWritable depth j) : ScansIndented j := by
  induction h with
  | null => exact fun _ rest _ => scan_wordChars none rest
  | bool b => exact fun _ rest _ => scan_wordChars (some b) rest
  | int n hmin hmax => exact fun _ rest hrest => scan_decimal n hmin hmax rest hrest
  | str s => exact fun _ rest _ => scan_stringChars s rest
  | array items _ ih => exact scansIndented_array items ih
  | object members _ ih => exact scansIndented_object members ih

/-! ## Whole texts -/

theorem read_pretty {j : Json} (h : IsWritable 127 j) (blanks : List Char) (hblanks : ∀ c ∈ blanks, isSpace c = true) :
    read (pretty j ++ String.ofList blanks) = .ok j := by
  have hends : EndsNumeral blanks := by
    cases blanks with
    | nil => exact endsNumeral_nil
    | cons c cs => exact endsNumeral_blank c cs (hblanks c (List.mem_cons_self ..))
  have hscan : scan .between blanks = [] := by simpa [scan, Mode.finish] using scan_blanks blanks [] hblanks
  have hdepth : ∀ n ≤ 127, Rules.strict.admitsDepth n = true := fun n hn => decide_eq_true (Nat.lt_succ_of_le hn)
  have hread := readBy_of_scansAs .strict rfl h hdepth (scansAs_prettyChars h 0) hends hscan
  rwa [String.ofList_append] at hread

end AccessRules.Json
