/-
What the commands print that show the parts of a rule: its tokens, its program or the names of its program. As text they
print without quotes and without types, as JSON with both, and yet neither loses anything: what is printed of two rules
is equal, in either format, exactly when the parts that are shown are.

- `tokenize_lines`: lines are read one after another.
- `printTokens_inj`, `printProgram_inj`, `printNames_inj`: what is printed of a rule tells it, in either format.
- `exists_program_of_status`, `run_parse`, `run_names`: when such a command succeeds, and what it prints then.
- `stdout_eq_iff`: what a command prints of two rules, and what it shows of them.
- `formats_tell_the_same`: equal texts, equal JSON and equal parts.
-/
import Mathlib.Tactic
import AccessRules.CommandLine
import AccessRules.Proofs.CommandLine.Check
import AccessRules.Proofs.Program.Exchange
import AccessRules.Proofs.Program.Printed

namespace AccessRules.CommandLine

/-! ## Lines -/

theorem tokenize_lines (ls : List String) : tokenize (lines ls) = ls.flatMap tokenize := by
  induction ls with
  | nil => rfl
  | cons l ls ih =>
    have hcons : lines (l :: ls) = l ++ String.singleton '\n' ++ lines ls := by
      rw [lines, List.map_cons, String.join_cons]
      rfl
    rw [hcons, Token.tokenize_blank l (lines ls) '\n' (by decide), ih, List.flatMap_cons]

theorem lines_singleton_inj {s t : String} (h : lines [s] = lines [t]) : s = t := by
  have hends : s ++ "\n" = t ++ "\n" := by simpa [lines] using h
  exact String.append_left_inj "\n" |>.1 hends

/-- JSON that can be written is told by its lines -/
theorem jsonLines_inj {j k : Json} (hj : Json.IsWritable 127 j) (hk : Json.IsWritable 127 k)
    (h : jsonLines j = jsonLines k) : j = k := by
  have hread := read_jsonLines hj
  rw [h, read_jsonLines hk] at hread
  exact (Except.ok.inj hread).symm

/-! ## What is printed of a rule -/

/-- what the column with the kind of a token is read as -/
def kindToken : Token → Token
  | .bool _ => .str "bool"
  | .int _ => .str "int"
  | .str _ => .str "str"

theorem tokenize_tokenLine (t : Token) (h : t.isCanonical = true) : tokenize (tokenLine t) = [kindToken t, t] := by
  have hbool : tokenize "bool" = [.str "bool"] := by decide
  have hint : tokenize "int " = [.str "int"] := by decide
  have hstr : tokenize "str " = [.str "str"] := by decide
  have hkind : tokenize (kindColumn t) = [kindToken t] := by
    cases t with
    | bool b => exact hbool
    | int n => exact hint
    | str s => exact hstr
  calc tokenize (tokenLine t)
      = tokenize (kindColumn t) ++ tokenize t.text := Token.tokenize_blank (kindColumn t) t.text ' ' (by decide)
    _ = [kindToken t, t] := by rw [hkind, Token.tokenize_text t h, List.singleton_append]

theorem printTokens_inj (rule other : String) (format : Format)
    (h : printTokens (tokenize rule) format = printTokens (tokenize other) format) :
    tokenize rule = tokenize other := by
  have hcanonical := Token.isCanonical_of_mem_tokenize
  cases format with
  | text =>
    have hlines (rule : String) :
        tokenize (lines ((tokenize rule).map tokenLine)) = (tokenize rule).flatMap fun t => [kindToken t, t] := by
      rw [tokenize_lines, List.flatMap_map]
      exact List.flatMap_congr fun t ht => tokenize_tokenLine t (hcanonical rule t ht)
    have hread := congrArg tokenize h
    rw [printTokens, printTokens, hlines rule, hlines other] at hread
    refine flatMap_inj_of_prefixFree (fun _ _ => List.cons_ne_nil _ _) (fun t u _ _ hpre => ?_) (hcanonical rule)
      (hcanonical other) hread
    exact (List.cons_prefix_cons.1 (List.cons_prefix_cons.1 hpre).2).1
  | json =>
    have hwritable (ts : List Token) : Json.IsWritable 127 (tokensToJson ts) := by
      refine .array _ fun j hj => ?_
      obtain ⟨t, _, rfl⟩ := List.mem_map.1 hj
      exact t.isWritable _
    have hitems := Json.array.inj (jsonLines_inj (hwritable _) (hwritable _) h)
    exact List.map_injective_iff.2 (fun _ _ => Token.toJson_inj) hitems

section Programs

variable {rule other : String} {p q : Program}

theorem printProgram_inj (hp : Program.ofText rule = .ok p) (hq : Program.ofText other = .ok q) (format : Format)
    (h : printProgram p format = printProgram q format) : p = q := by
  cases format with
  | text => exact Program.text_inj_of_ofText hp hq (lines_singleton_inj h)
  | json =>
    have hjson := jsonLines_inj (p.isWritable 125) (q.isWritable 125) h
    have hsome : some p = some q := by rw [← p.ofJson?_toJson, hjson, q.ofJson?_toJson]
    exact Option.some.inj hsome

/-- the names of a rule's program are words that are read as names -/
theorem tokenize_of_mem_names (hp : Program.ofText rule = .ok p) (name : String) (h : name ∈ p.names) :
    tokenize name = [.str name] := by
  obtain ⟨i, hi, hname⟩ := List.mem_flatMap.1 ((mem_distinct _ name).1 h)
  cases i with
  | operator op => cases hname
  | call c =>
    obtain ⟨t, ht, hstr⟩ := List.mem_filterMap.1 hname
    have htokens : t ∈ c.tokens := by
      rcases List.mem_cons.1 ht with rfl | ht
      · exact List.mem_cons_self
      · exact List.mem_cons_of_mem _ (List.mem_of_mem_tail ht)
    have hcanonical := (Program.isReadable_of_ofText hp _ hi t htokens).1
    cases t with
    | str s =>
      obtain rfl : s = name := Option.some.inj hstr
      exact Token.tokenize_text (.str s) hcanonical
    | _ => cases hstr

theorem printNames_inj (hp : Program.ofText rule = .ok p) (hq : Program.ofText other = .ok q) (format : Format)
    (h : printNames p.names format = printNames q.names format) : p.names = q.names := by
  cases format with
  | text =>
    have hlines {rule : String} {p : Program} (hp : Program.ofText rule = .ok p) :
        tokenize (lines p.names) = p.names.map Token.str := by
      rw [tokenize_lines, List.flatMap_congr (tokenize_of_mem_names hp), List.map_eq_flatMap]
    have hread := congrArg tokenize h
    rw [printNames, printNames, hlines hp, hlines hq] at hread
    exact List.map_injective_iff.2 (fun _ _ => Token.str.inj) hread
  | json =>
    have hwritable (names : List String) : Json.IsWritable 127 (.array (names.map Json.str)) := by
      refine .array _ fun j hj => ?_
      obtain ⟨name, _, rfl⟩ := List.mem_map.1 hj
      exact .str name
    have hitems := Json.array.inj (jsonLines_inj (hwritable _) (hwritable _) h)
    exact List.map_injective_iff.2 (fun _ _ => Json.str.inj) hitems

end Programs

/-! ## Commands -/

/-- the commands that show the parts of a rule -/
inductive Inspection where
  | tokenize
  | parse
  | names

/-- the command over a rule, in a format -/
def Inspection.command (rule : String) (format : Format) : Inspection → Command
  | .tokenize => .tokenize rule format
  | .parse => .parse rule format
  | .names => .names rule format

/-- the command shows the same of both rules: the same tokens, the same program or the same names -/
def Inspection.ShowsSame (rule other : String) : Inspection → Prop
  | .tokenize => AccessRules.tokenize rule = AccessRules.tokenize other
  | .parse => Program.ofText rule = Program.ofText other
  | .names => (Program.ofText rule).map Program.names = (Program.ofText other).map Program.names

section Runs

variable (files : String → Except ReadError ByteArray) {rule other : String} {format : Format}

/-- showing the program of a rule or its names succeeds only for a rule that has a program -/
theorem exists_program_of_status (i : Inspection) (hi : i ≠ .tokenize)
    (h : ((i.command rule format).run files).status = 0) : ∃ p, Program.ofText rule = .ok p := by
  cases hp : Program.ofText rule with
  | ok p => exact ⟨p, rfl⟩
  | error cause =>
    have hfailed : (i.command rule format).run files = .failed (.unparsed cause) := by
      cases i with
      | tokenize => exact absurd rfl hi
      | parse => simp only [Inspection.command, Command.run, hp]
      | names => simp only [Inspection.command, Command.run, hp]
    rw [hfailed] at h
    cases h

theorem run_parse {p : Program} (hp : Program.ofText rule = .ok p) :
    (Inspection.parse.command rule format).run files = .done (printProgram p format) := by
  simp only [Inspection.command, Command.run, hp]

theorem run_names {p : Program} (hp : Program.ofText rule = .ok p) :
    (Inspection.names.command rule format).run files = .done (printNames p.names format) := by
  simp only [Inspection.command, Command.run, hp]

/-- **What is printed tells what is shown**, in every format. -/
theorem stdout_eq_iff (i : Inspection) (hrule : ((i.command rule format).run files).status = 0)
    (hother : ((i.command other format).run files).status = 0) :
    ((i.command rule format).run files).stdout = ((i.command other format).run files).stdout ↔
      i.ShowsSame rule other := by
  cases i with
  | tokenize => exact ⟨printTokens_inj rule other format, fun hsame => congrArg (printTokens · format) hsame⟩
  | parse =>
    obtain ⟨p, hp⟩ := exists_program_of_status files .parse nofun hrule
    obtain ⟨q, hq⟩ := exists_program_of_status files .parse nofun hother
    simp only [run_parse files hp, run_parse files hq, Inspection.ShowsSame, hp, hq, Except.ok.injEq]
    exact ⟨printProgram_inj hp hq format, fun hsame => congrArg (printProgram · format) hsame⟩
  | names =>
    obtain ⟨p, hp⟩ := exists_program_of_status files .names nofun hrule
    obtain ⟨q, hq⟩ := exists_program_of_status files .names nofun hother
    simp only [run_names files hp, run_names files hq, Inspection.ShowsSame, hp, hq, Except.map, Except.ok.injEq]
    exact ⟨printNames_inj hp hq format, fun hsame => congrArg (printNames · format) hsame⟩

/-- whether a command succeeds does not depend on the format -/
theorem status_of_format (i : Inspection) (format' : Format) (h : ((i.command rule format).run files).status = 0) :
    ((i.command rule format').run files).status = 0 := by
  cases i with
  | tokenize => rfl
  | parse =>
    obtain ⟨p, hp⟩ := exists_program_of_status files .parse nofun h
    rw [run_parse files hp]
    rfl
  | names =>
    obtain ⟨p, hp⟩ := exists_program_of_status files .names nofun h
    rw [run_names files hp]
    rfl

end Runs

/-- **Either format tells the same, and all.** When one of the commands that show the parts of a rule succeeds on two
rules as text, it succeeds on them as JSON, and its texts are equal exactly when its JSON is; in either format that is
exactly when the tokens, the programs or the names that it shows of the two rules are equal. In particular programs of
two rules are printed alike only if they are the same. -/
theorem formats_tell_the_same (files : String → Except ReadError ByteArray) (rule other : String) :
    (∀ i : Inspection, ((i.command rule .text).run files).status = 0 →
      ((i.command other .text).run files).status = 0 →
      ((i.command rule .json).run files).status = 0 ∧ ((i.command other .json).run files).status = 0 ∧
      (((i.command rule .text).run files).stdout = ((i.command other .text).run files).stdout ↔
        ((i.command rule .json).run files).stdout = ((i.command other .json).run files).stdout) ∧
      ∀ format : Format, ((i.command rule format).run files).stdout = ((i.command other format).run files).stdout ↔
        i.ShowsSame rule other) ∧
    ∀ p q, Program.ofText rule = .ok p → Program.ofText other = .ok q → (p.text = q.text ↔ p = q) := by
  refine ⟨fun i hrule hother => ?_, fun p q hp hq => ⟨Program.text_inj_of_ofText hp hq, congrArg Program.text⟩⟩
  have hstatus (format : Format) := status_of_format files i format hrule
  have hstatus' (format : Format) := status_of_format files i format hother
  have htold (format : Format) := stdout_eq_iff files i (hstatus format) (hstatus' format)
  exact ⟨hstatus .json, hstatus' .json, (htold .text).trans (htold .json).symm, htold⟩

/-- no files at all -/
def noFiles : String → Except ReadError ByteArray := fun _ => .error .notFound

/-- rules of the same tokens, rules of other tokens, rules of one program, rules with the same names in another order, and
programs that are printed differently -/
theorem formats_tell_the_same_of_names :
    ((Inspection.tokenize.command "page(limit 007)" .text).run noFiles).stdout =
      ((Inspection.tokenize.command "page ( limit 7 )" .text).run noFiles).stdout ∧
    ((Inspection.tokenize.command "page limit" .text).run noFiles).stdout ≠
      ((Inspection.tokenize.command "page  Limit" .text).run noFiles).stdout ∧
    ((Inspection.parse.command "page limit 007" .json).run noFiles).stdout =
      ((Inspection.parse.command "(page  limit 7)" .json).run noFiles).stdout ∧
    ((Inspection.names.command "a x and b x" .json).run noFiles).stdout ≠
      ((Inspection.names.command "b x and a x" .json).run noFiles).stdout ∧
    Program.text ⟨[.call ⟨.str "a", []⟩, .operator .and]⟩ ≠
      Program.text ⟨[.call ⟨.str "a", []⟩, .operator .or]⟩ := by
  obtain ⟨hblanks, -⟩ := formats_tell_the_same noFiles "page(limit 007)" "page ( limit 7 )"
  obtain ⟨hcase, -⟩ := formats_tell_the_same noFiles "page limit" "page  Limit"
  obtain ⟨hspelling, -⟩ := formats_tell_the_same noFiles "page limit 007" "(page  limit 7)"
  obtain ⟨horder, -⟩ := formats_tell_the_same noFiles "a x and b x" "b x and a x"
  obtain ⟨-, hprogram⟩ := formats_tell_the_same noFiles "a and" "a or"
  refine ⟨?_, ?_, ?_, ?_, ?_⟩
  · have hsame : tokenize "page(limit 007)" = tokenize "page ( limit 7 )" := by decide
    exact ((hblanks .tokenize rfl rfl).2.2.2 .text).2 hsame
  · have hother : tokenize "page limit" ≠ tokenize "page  Limit" := by decide
    exact fun htext => hother (((hcase .tokenize rfl rfl).2.2.2 .text).1 htext)
  · exact (hspelling .parse (by decide) (by decide)).2.2.1.1 (by decide)
  · intro hjson
    exact absurd ((horder .names (by decide) (by decide)).2.2.1.2 hjson) (by decide)
  · intro htext
    exact absurd ((hprogram _ _ (by decide) (by decide)).1 htext) (by decide)

end AccessRules.CommandLine
