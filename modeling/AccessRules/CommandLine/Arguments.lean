/-
The arguments of the command line. A verb comes first, then the rule; options may stand before, between and after.
`--verbose` and `--log-format` may be given anywhere, the other options only after the verb. Each option that takes a
value is given once; `--log-format` counts before and after the verb apart.

A value may be attached (`--format=json`, `-f=json`, `-fjson`, or at the end of a cluster such as `-vfjson`) or be the
next argument, which then may not look like an option. After `--` every argument is taken as it is.

`--help`, `-h` and the word `help` in the place of the verb end the reading where they stand, whatever comes later.

- `step_waiting_option`: an option does not serve as the value of the option before it.
- `ofArguments_nil`: no arguments are refused.
-/

namespace AccessRules.CommandLine

/-! ## Commands -/

/-- how results are printed -/
inductive Format where
  | text
  | json
deriving DecidableEq, Inhabited

/-- what to do with a rule -/
inductive Verb where
  | tokenize
  | parse
  | names
  | check
deriving DecidableEq, Inhabited

/-- what is asked for -/
inductive Command where
  | tokenize (rule : String) (format : Format)
  | parse (rule : String) (format : Format)
  | names (rule : String) (format : Format)
  | check (rule : String) (bindings : String) (format : Format)
deriving DecidableEq

/-- the verb of a name -/
def Verb.ofName? (name : String) : Option Verb :=
  if name = "tokenize" then some .tokenize
  else if name = "parse" then some .parse
  else if name = "names" then some .names
  else if name = "check" then some .check
  else none

/-- why arguments come to no command -/
inductive Stop where
  /-- they are not accepted -/
  | refused
  /-- they ask for help -/
  | help
deriving DecidableEq

/-! ## Options -/

/-- the options that take a value -/
inductive Setting where
  | logFormat
  | format
  | bindings
deriving DecidableEq

/-- an option may stand after the verb, or before it when there is none yet -/
def Setting.isAllowed (verb : Option Verb) : Setting → Bool
  | .logFormat => true
  | .format => verb.isSome
  | .bindings => verb = some .check

/-- the option of a long name -/
def Setting.ofName? (name : List Char) : Option Setting :=
  if name = "log-format".toList then some .logFormat
  else if name = "format".toList then some .format
  else if name = "bindings".toList then some .bindings
  else none

/-- the option of a letter -/
def Setting.ofLetter? (c : Char) : Option Setting :=
  if c = 'f' then some .format else if c = 'b' then some .bindings else none

/-- what has been given so far -/
structure Given where
  verb : Option Verb
  logFormat : Bool
  format : Option Format
  bindings : Option String
  rule : Option String
  /-- an option that waits for the next argument -/
  waiting : Option Setting
  /-- `--log-format` had a next argument before the verb that is no value for it -/
  faulty : Bool
  /-- after `--` -/
  literal : Bool
deriving DecidableEq

namespace Given

/-- nothing given yet -/
def start : Given := ⟨none, false, none, none, none, none, false, false⟩

/-- give an option its value, unless it has one or the value is none of its own -/
def set (g : Given) (s : Setting) (v : String) : Except Stop Given :=
  match s with
  | .logFormat =>
    if g.logFormat = false ∧ (v = "pretty" ∨ v = "json") then .ok { g with logFormat := true, waiting := none }
    else .error .refused
  | .format =>
    if g.format.isSome then .error .refused
    else if v = "text" then .ok { g with format := some .text, waiting := none }
    else if v = "json" then .ok { g with format := some .json, waiting := none }
    else .error .refused
  | .bindings =>
    if g.bindings.isSome ∨ v = "" then .error .refused else .ok { g with bindings := some v, waiting := none }

/-- the next argument for the option that waits; before the verb one that does not do is found out later -/
def take (g : Given) (s : Setting) (v : String) : Except Stop Given :=
  match g.set s v with
  | .ok next => .ok next
  | .error e => if g.verb.isNone then .ok { g with waiting := none, faulty := true } else .error e

/-- an argument that is no option: the verb, then the rule -/
def positional (g : Given) (arg : String) : Except Stop Given :=
  match g.verb with
  | none =>
    if g.literal then .error .refused
    else
      match Verb.ofName? arg with
      | none => .error .refused
      | some v => .ok { g with verb := some v, logFormat := false }
  | some _ => if g.rule.isSome then .error .refused else .ok { g with rule := some arg }

/-- the value that is attached to an option by what follows its name, an equals sign in front of it or not -/
def attached? : List Char → Option String
  | [] => none
  | '=' :: v => some (String.ofList v)
  | v => some (String.ofList v)

/-- an option that takes a value, with the value if one is attached -/
def choose (g : Given) (s : Option Setting) (attached : Option String) : Except Stop Given :=
  match s with
  | none => .error .refused
  | some s =>
    if !s.isAllowed g.verb then .error .refused
    else
      match attached with
      | none => .ok { g with waiting := some s }
      | some v => g.set s v

/-- a long option, without its two dashes -/
def long (g : Given) (option : List Char) : Except Stop Given :=
  let name := option.takeWhile (· ≠ '=')
  let attached := attached? (option.dropWhile (· ≠ '='))
  if name = "verbose".toList then if attached.isNone then .ok g else .error .refused
  else if name = "help".toList then .error (if attached.isNone then .help else .refused)
  else g.choose (Setting.ofName? name) attached

/-- a cluster of letters, without its dash; the first that takes a value takes the rest of them -/
def cluster (g : Given) : List Char → Except Stop Given
  | [] => .ok g
  | 'v' :: rest => cluster g rest
  | 'h' :: _ => .error .help
  | c :: rest => g.choose (Setting.ofLetter? c) (attached? rest)

/-- the argument has the look of an option: a dash with something after it -/
def isOption (arg : String) : Bool := arg.toList.head? == some '-' && arg ≠ "-"

/-- an argument with the look of an option; before the verb it brings out that the one before it was faulty -/
def option (g : Given) (arg : String) : Except Stop Given :=
  if g.verb.isNone && g.faulty then .error .refused
  else
    match arg.toList.tail with
    | '-' :: name => g.long name
    | letters => g.cluster letters

/-- take one argument -/
def step (g : Given) (arg : String) : Except Stop Given :=
  if g.literal then g.positional arg
  else
    match g.waiting with
    | some s => if isOption arg then .error .refused else g.take s arg
    | none =>
      if arg = "--" then .ok { g with literal := true }
      else if isOption arg then g.option arg
      else g.positional arg

/-- a verb may come next -/
def awaitsVerb (g : Given) : Bool := g.verb.isNone && g.waiting.isNone && !g.literal

/-- what may come after the word `help`: nothing, a verb, or the word itself -/
def isHelpTopic : List String → Bool
  | [] => true
  | [name] => name = "help" || (Verb.ofName? name).isSome
  | _ => false

/-- take arguments one after another -/
def read : Given → List String → Except Stop Given
  | g, [] => .ok g
  | g, arg :: rest =>
    if g.awaitsVerb && arg = "help" then .error (if isHelpTopic rest then .help else .refused)
    else
      match g.step arg with
      | .ok next => read next rest
      | .error e => .error e

/-- the command, when everything it needs was given -/
def command? (g : Given) : Option Command :=
  let format := g.format.getD .text
  match g.waiting, g.verb, g.rule with
  | none, some .tokenize, some rule => some (.tokenize rule format)
  | none, some .parse, some rule => some (.parse rule format)
  | none, some .names, some rule => some (.names rule format)
  | none, some .check, some rule => g.bindings.map fun bindings => .check rule bindings format
  | _, _, _ => none

/-- what was given as a command, unless something in it is missing or faulty -/
def finish (g : Given) : Except Stop Command :=
  match g.command? with
  | some c => if g.faulty then .error .refused else .ok c
  | none => .error .refused

theorem step_waiting_option (g : Given) (s : Setting) (arg : String) (hl : g.literal = false)
    (hw : g.waiting = some s) (h : isOption arg = true) : g.step arg = .error .refused := by
  simp [step, hl, hw, h]

end Given

namespace Command

/-- the command that the arguments ask for -/
def ofArguments (args : List String) : Except Stop Command :=
  match Given.start.read args with
  | .ok g => g.finish
  | .error e => .error e

theorem ofArguments_nil : ofArguments [] = .error .refused := rfl

/-- the file that a command reads -/
def file? : Command → Option String
  | .check _ bindings _ => some bindings
  | _ => none

end Command

end AccessRules.CommandLine
