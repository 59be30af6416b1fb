/-
What a check tells. The facts are loaded first, then the rule is decided, and the first of the two that fails is what
the messages are about; nothing is printed then. A decision is printed as a word or as a JSON object that holds the
rule as it was given, and told once more by the status.

- `exists_ofContents_ok_iff`: which contents of a file load.
- `reports_printDecision`: what is printed says what was decided, in either format.
- `check_tells_decision`: the status, the messages and the printed text of a check, out of the arguments and the files.
-/
import AccessRules.CommandLine
import AccessRules.FileTree
import AccessRules.Proofs.CommandLine.Arguments
import AccessRules.Proofs.FactFile.Loading
import AccessRules.Proofs.Json.Pretty

namespace AccessRules

namespace FactFile

/-! ## Contents of a file -/

/-- the ways in which a file gives no facts: it cannot be read, it is no text, its text is no JSON, or the JSON is not in
the format of fact files -/
inductive IsUnloadable : Except ReadError ByteArray → Prop where
  | unreadable (cause : ReadError) : IsUnloadable (.error cause)
  | notText (bytes : ByteArray) (h : String.fromUTF8? bytes = none) : IsUnloadable (.ok bytes)
  | notJson (bytes : ByteArray) (text : String) (fault : Json.Fault) (htext : String.fromUTF8? bytes = some text)
    (h : Json.readUnfolding text = .error fault) : IsUnloadable (.ok bytes)
  | notFacts (bytes : ByteArray) (text : String) (j : Json) (htext : String.fromUTF8? bytes = some text)
    (hjson : Json.readUnfolding text = .ok j) (h : ¬ IsFacts j) : IsUnloadable (.ok bytes)

theorem ofContents_ok {bytes : ByteArray} {text : String} (h : String.fromUTF8? bytes = some text) :
    ofContents (.ok bytes) = ofText text := by
  simp only [ofContents, h]

theorem fromUTF8?_toUTF8 (text : String) : String.fromUTF8? text.toUTF8 = some text := by
  rw [String.fromUTF8?, String.toUTF8_eq_toByteArray, dif_pos text.isValidUTF8]
  rfl

theorem exists_ofContents_ok_iff (contents : Except ReadError ByteArray) :
    (∃ b, ofContents contents = .ok b) ↔ ¬ IsUnloadable contents := by
  constructor
  · rintro ⟨b, hb⟩ h
    cases h with
    | unreadable cause => cases hb
    | notText bytes h =>
      simp only [ofContents, h] at hb
      cases hb
    | notJson bytes text fault htext h =>
      rw [ofContents_ok htext, (ofText_eq_notJson_iff text fault).2 h] at hb
      cases hb
    | notFacts bytes text j htext hjson h =>
      rw [ofContents_ok htext, ofText_of_json text j hjson] at hb
      exact h ((ofJson_isOk_iff j).1 ⟨b, hb⟩)
  · intro h
    cases contents with
    | error cause => exact absurd (.unreadable cause) h
    | ok bytes =>
      cases htext : String.fromUTF8? bytes with
      | none => exact absurd (.notText bytes htext) h
      | some text =>
        rw [ofContents_ok htext]
        cases hjson : Json.readUnfolding text with
        | error fault => exact absurd (.notJson bytes text fault htext hjson) h
        | ok j =>
          rw [ofText_of_json text j hjson, ofJson_isOk_iff]
          by_contra hfacts
          exact h (.notFacts bytes text j htext hjson hfacts)

theorem isUnloadable_iff (contents : Except ReadError ByteArray) :
    IsUnloadable contents ↔ ∃ e, ofContents contents = .error e := by
  rw [← not_iff_not, ← exists_ofContents_ok_iff]
  cases ofContents contents <;> simp

end FactFile

namespace CommandLine

/-! ## Messages -/

/-- the chain of facts that do not load begins with their own message -/
theorem factsChain_eq_cons (e : FactsError) : ∃ causes, factsChain e = e.message :: causes := by
  cases e <;> exact ⟨_, rfl⟩

/-! ## Printed decisions -/

/-- the printed text says what was decided: a word alone on its line, or JSON of the rule and the decision -/
def Reports (rule : String) (holds : Bool) (printed : String) : Format → Prop
  | .text => printed = if holds then "permitted\n" else "denied\n"
  | .json => Json.read printed = .ok (.object [("rule", .str rule), ("permitted", .bool holds)])

theorem read_jsonLines {j : Json} (h : Json.IsWritable 127 j) : Json.read (jsonLines j) = .ok j :=
  Json.read_pretty h ['\n'] fun c hc => by rw [List.mem_singleton.1 hc]; rfl

theorem reports_printDecision (rule : String) (holds : Bool) (format : Format) :
    Reports rule holds (printDecision rule holds format) format := by
  cases format with
  | text => cases holds <;> rfl
  | json =>
    have hwritable : Json.IsWritable 127 (.object [("rule", .str rule), ("permitted", .bool holds)]) := by
      refine .object _ fun m hm => ?_
      rcases List.mem_pair.1 hm with rfl | rfl
      · exact .str rule
      · exact .bool holds
    exact read_jsonLines hwritable

/-! ## Checks -/

/-- **A check tells what was decided.** Its rule is one of the arguments, to the letter, and the path of its facts is one
of them or the end of one. Facts do not load when the file cannot be read, is no text, no JSON or not in the format;
then the status is 1, nothing is printed, and the messages begin with the path and what is wrong, whatever the rule is.
Otherwise, if the rule is not decided, the status is 1, nothing is printed, and the messages are about the rule.
Otherwise there are no messages, the status is 0 when the rule holds and 2 when it does not, and the same is printed in
the format that was asked for, as JSON together with the rule. -/
theorem check_tells_decision (files : String → Except ReadError ByteArray) (args : List String) (rule path : String)
    (format : Format) (h : Command.ofArguments args = .ok (.check rule path format)) :
    (rule ∈ args ∧ ∃ arg ∈ args, path.toList <:+ arg.toList) ∧
    (FactFile.IsUnloadable (files path) ↔ ∃ e, FactFile.ofContents (files path) = .error e) ∧
    (∀ e, FactFile.ofContents (files path) = .error e →
      ∃ causes, run files args = ⟨1, "", ("loading facts from " ++ path) :: e.message :: causes⟩) ∧
    ∀ b, FactFile.ofContents (files path) = .ok b →
      (∀ e, FactFile.permitted b rule = .error e →
        run files args = ⟨1, "", ["evaluating rule \x60" ++ rule ++ "\x60", e.message]⟩) ∧
      ((run files args).status = 0 ↔ FactFile.permitted b rule = .ok true) ∧
      ((run files args).status = 2 ↔ FactFile.permitted b rule = .ok false) ∧
      ∀ holds, FactFile.permitted b rule = .ok holds →
        (run files args).errors = [] ∧ Reports rule holds (run files args).stdout format := by
  obtain ⟨-, harg⟩ := path_of_ofArguments h rfl
  refine ⟨⟨rule_mem_of_ofArguments h, harg⟩, FactFile.isUnloadable_iff _, fun e he => ?_, fun b hb => ?_⟩
  · obtain ⟨causes, hcauses⟩ := factsChain_eq_cons e
    refine ⟨causes, ?_⟩
    rw [run_of_command files h, Command.run, checkRule_of_unloaded rule path format he, Outcome.failed, Failure.chain,
      hcauses]
  · cases hp : FactFile.permitted b rule with
    | error e =>
      have hrun : run files args = ⟨1, "", ["evaluating rule \x60" ++ rule ++ "\x60", e.message]⟩ :=
        (run_of_command files h).trans (checkRule_of_undecided rule path format hb hp)
      refine ⟨fun e' he' => ?_, ?_, ?_, nofun⟩
      · rw [hrun, Except.error.inj he']
      · simp [hrun]
      · simp [hrun]
    | ok holds =>
      have hrun : run files args = ⟨if holds then 0 else 2, printDecision rule holds format, []⟩ :=
        (run_of_command files h).trans (checkRule_of_decided rule path format hb hp)
      refine ⟨nofun, ?_, ?_, fun holds' hholds => ?_⟩
      · cases holds <;> simp [hrun]
      · cases holds <;> simp [hrun]
      · obtain rfl : holds = holds' := Except.ok.inj hholds
        rw [hrun]
        exact ⟨rfl, reports_printDecision rule holds format⟩

/-- one file, with a door that admits ann with 10 and bob, in the directory where paths begin -/
def doorTree : FileTree := ⟨[(["srv", "doors"], FactFile.doorFile.toUTF8)], ["srv"]⟩

theorem doorTree_read :
    doorTree.read "doors" = .ok FactFile.doorFile.toUTF8 ∧ doorTree.read "gates" = .error .notFound := by
  have hdoors : FileTree.IsName "doors" := ⟨by decide, by decide, by decide, by decide, by decide⟩
  have hgates : FileTree.IsName "gates" := ⟨by decide, by decide, by decide, by decide, by decide⟩
  exact ⟨doorTree.read_name "doors" hdoors, doorTree.read_name "gates" hgates⟩

/-- a rule that holds, one that does not, one that cannot be decided, and a file that is not there -/
theorem doorFiles_check :
    ((run doorTree.read ["check", "door admits ann 10", "-vfjson", "--bindings", "doors"]).status = 0 ∧
      Json.read (run doorTree.read ["check", "door admits ann 10", "-vfjson", "--bindings", "doors"]).stdout =
        .ok (.object [("rule", .str "door admits ann 10"), ("permitted", .bool true)])) ∧
    ((run doorTree.read ["check", "door admits ann 1", "-b=doors"]).status = 2 ∧
      (run doorTree.read ["check", "door admits ann 1", "-b=doors"]).stdout = "denied\n") ∧
    run doorTree.read ["check", "door opens", "--bindings", "doors"] = ⟨1, "", ["evaluating rule \x60door opens\x60",
      "Object \"door\" has no operation \"opens\""]⟩ ∧
    ∃ causes, run doorTree.read ["check", "(", "--bindings", "gates"] =
      ⟨1, "", "loading facts from gates" :: (FactsError.unreadable .notFound).message :: causes⟩ := by
  obtain ⟨hdoors, hgates⟩ := doorTree_read
  have hload : FactFile.ofContents (doorTree.read "doors") = FactFile.ofText FactFile.doorFile := by
    rw [hdoors]
    exact FactFile.ofContents_ok (FactFile.fromUTF8?_toUTF8 _)
  obtain ⟨b, hb⟩ : ∃ b, FactFile.ofText FactFile.doorFile = .ok b := ⟨_, rfl⟩
  have hdecided (rule : String) (answer : Except RuleError Bool)
      (hanswer : (FactFile.ofText FactFile.doorFile).map (FactFile.permitted · rule) = .ok answer) :
      FactFile.permitted b rule = answer := by
    rw [hb] at hanswer
    exact Except.ok.inj hanswer
  refine ⟨?_, ?_, ?_, ?_⟩
  · obtain ⟨-, -, -, htold⟩ := check_tells_decision doorTree.read
      ["check", "door admits ann 10", "-vfjson", "--bindings", "doors"] "door admits ann 10" "doors" .json rfl
    obtain ⟨-, hstatus, -, hprinted⟩ := htold b (hload.trans hb)
    have hp := hdecided "door admits ann 10" (.ok true) rfl
    exact ⟨hstatus.2 hp, (hprinted true hp).2⟩
  · obtain ⟨-, -, -, htold⟩ := check_tells_decision doorTree.read
      ["check", "door admits ann 1", "-b=doors"] "door admits ann 1" "doors" .text rfl
    obtain ⟨-, -, hstatus, hprinted⟩ := htold b (hload.trans hb)
    have hp := hdecided "door admits ann 1" (.ok false) rfl
    exact ⟨hstatus.2 hp, (hprinted false hp).2⟩
  · obtain ⟨-, -, -, htold⟩ := check_tells_decision doorTree.read
      ["check", "door opens", "--bindings", "doors"] "door opens" "doors" .text
      (ofArguments_check _ _ rfl rfl (by decide)).1
    exact (htold b (hload.trans hb)).1 _ (hdecided "door opens" (.error (.unsupported "door" "opens")) rfl)
  · obtain ⟨-, -, hfailed, -⟩ := check_tells_decision doorTree.read
      ["check", "(", "--bindings", "gates"] "(" "gates" .text (ofArguments_check _ _ rfl rfl (by decide)).1
    exact hfailed (.unreadable .notFound) (by rw [hgates]; rfl)

end CommandLine

end AccessRules
