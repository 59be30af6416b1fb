/-
What the commands print and answer with. Status 0 stands for success and, for a check, for a rule that holds; 2 for a
rule that does not hold and for arguments that are refused; 1 for everything that fails. Help that is asked for is a
success; its text is left to the program and is no part of the outcome, nor is how the JSON reader describes a fault.

- `checkRule_of_unloaded`, `checkRule_of_undecided`, `checkRule_of_decided`: the three ways a check can end.
- `run_refused`: refused arguments give status 2 and print nothing.
-/
import AccessRules.CommandLine.Arguments
import AccessRules.FactFile
import AccessRules.Json.Writer
import AccessRules.Program.Json

namespace AccessRules.CommandLine

/-! ## Results -/

/-- why a command fails -/
inductive Failure where
  /-- the rule does not parse -/
  | unparsed (cause : Imbalance)
  /-- the facts of a check do not load -/
  | unloaded (path : String) (cause : FactsError)
  /-- the rule of a check is not decided -/
  | undecided (rule : String) (cause : RuleError)

/-- the messages of facts that do not load, the cause of a cause after it; behind a text that is no JSON the cause is left
out, for it holds nothing but the words of the JSON reader -/
def factsChain : FactsError → List String
  | .unreadable cause => [(FactsError.unreadable cause).message, cause.text]
  | e => [e.message]

/-- the messages of a failure, the outermost first -/
def Failure.chain : Failure → List String
  | .unparsed cause => [(RuleError.unbalanced cause).message]
  | .unloaded path cause => ("loading facts from " ++ path) :: factsChain cause
  | .undecided rule cause => ["evaluating rule \x60" ++ rule ++ "\x60", cause.message]

/-- what a command leaves behind -/
structure Outcome where
  status : Nat
  stdout : String
  errors : List String
deriving DecidableEq

namespace Outcome

/-- success with something printed -/
def done (stdout : String) : Outcome := ⟨0, stdout, []⟩

/-- a failure, with nothing printed -/
def failed (f : Failure) : Outcome := ⟨1, "", f.chain⟩

/-- refused arguments -/
def refused : Outcome := ⟨2, "", []⟩

/-- help was asked for -/
def helped : Outcome := ⟨0, "", []⟩

/-- what is left behind when the arguments come to no command -/
def stopped : Stop → Outcome
  | .refused => refused
  | .help => helped

end Outcome

/-! ## Printing -/

/-- lines, each with its end -/
def lines (ls : List String) : String := String.join (ls.map (· ++ "\n"))

/-- a JSON value over several lines, with the end of the last -/
def jsonLines (j : Json) : String := j.pretty ++ "\n"

/-- the kind of a token, four columns wide -/
def kindColumn : Token → String
  | .bool _ => "bool"
  | .int _ => "int "
  | .str _ => "str "

/-- a token with its kind before it -/
def tokenLine (t : Token) : String := kindColumn t ++ " " ++ t.text

/-- the tokens of a rule -/
def printTokens (ts : List Token) : Format → String
  | .text => lines (ts.map tokenLine)
  | .json => jsonLines (tokensToJson ts)

/-- a program -/
def printProgram (p : Program) : Format → String
  | .text => lines [p.text]
  | .json => jsonLines p.toJson

/-- names -/
def printNames (names : List String) : Format → String
  | .text => lines names
  | .json => jsonLines (.array (names.map Json.str))

/-- the decision of a check -/
def printDecision (rule : String) (holds : Bool) : Format → String
  | .text => lines [if holds then "permitted" else "denied"]
  | .json => jsonLines (.object [("rule", .str rule), ("permitted", .bool holds)])

/-! ## Commands -/

/-- decide a rule over the facts of a file; the facts are loaded before the rule is looked at -/
def checkRule (rule path : String) (format : Format) (contents : Except ReadError ByteArray) : Outcome :=
  match FactFile.ofContents contents with
  | .error e => .failed (.unloaded path e)
  | .ok b =>
    match FactFile.permitted b rule with
    | .error e => .failed (.undecided rule e)
    | .ok holds => ⟨if holds then 0 else 2, printDecision rule holds format, []⟩

/-- carry out a command -/
def Command.run (files : String → Except ReadError ByteArray) : Command → Outcome
  | .tokenize rule format => .done (printTokens (AccessRules.tokenize rule) format)
  | .parse rule format =>
    match Program.ofText rule with
    | .ok p => .done (printProgram p format)
    | .error e => .failed (.unparsed e)
  | .names rule format =>
    match Program.ofText rule with
    | .ok p => .done (printNames p.names format)
    | .error e => .failed (.unparsed e)
  | .check rule path format => checkRule rule path format (files path)

/-- carry out what the arguments ask for, where `files` gives the contents of every path -/
def run (files : String → Except ReadError ByteArray) (args : List String) : Outcome :=
  match Command.ofArguments args with
  | .ok c => c.run files
  | .error e => .stopped e

section Check

variable (rule path : String) (format : Format) {contents : Except ReadError ByteArray} {b : Binding FactTable}

theorem checkRule_of_unloaded {e : FactsError} (h : FactFile.ofContents contents = .error e) :
    checkRule rule path format contents = .failed (.unloaded path e) := by
  rw [checkRule, h]

theorem checkRule_of_undecided {e : RuleError} (hb : FactFile.ofContents contents = .ok b)
    (h : FactFile.permitted b rule = .error e) :
    checkRule rule path format contents = .failed (.undecided rule e) := by
  simp only [checkRule, hb, h]

theorem checkRule_of_decided {holds : Bool} (hb : FactFile.ofContents contents = .ok b)
    (h : FactFile.permitted b rule = .ok holds) :
    checkRule rule path format contents = ⟨if holds then 0 else 2, printDecision rule holds format, []⟩ := by
  simp only [checkRule, hb, h]

end Check

section Run

variable (files : String → Except ReadError ByteArray) {args : List String}

theorem run_of_command {c : Command} (h : Command.ofArguments args = .ok c) : run files args = c.run files := by
  rw [run, h]

theorem run_refused (h : Command.ofArguments args = .error .refused) : run files args = ⟨2, "", []⟩ := by
  simp [run, h, Outcome.stopped, Outcome.refused]

end Run

end AccessRules.CommandLine
