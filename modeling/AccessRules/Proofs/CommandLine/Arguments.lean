/-
Where the parts of a command come from. One argument changes little: an option leaves the rule as it is and may give
the path of the facts an end of that argument; any other argument is itself the verb, the rule or a value. So the rule
of a command is one of its arguments, to the letter, and the path is one of them or the end of one.

- `step_takes`: what one argument may change.
- `read_takes`: what many may.
- `rule_mem_of_ofArguments`, `path_of_ofArguments`: the rule and the path of a command.
- `ofArguments_check`: the plain way to write a check is accepted, with either format.
- `ofArguments_check_alone`: a check without a path is refused.
-/
import AccessRules.CommandLine.Arguments

namespace AccessRules.CommandLine

namespace Given

variable {g next : Given}

/-! ## One argument -/

/-- the rule stays, and the path does too or becomes an end of the source that is not empty -/
structure Sets (source : List Char) (g next : Given) : Prop where
  rule : next.rule = g.rule
  path : next.bindings = g.bindings ∨ ∃ p : String, next.bindings = some p ∧ p ≠ "" ∧ p.toList <:+ source

/-- the rule stays or becomes one of the arguments, and the path stays or becomes an end of one that is not empty -/
structure Takes (args : List String) (g next : Given) : Prop where
  rule : next.rule = g.rule ∨ ∃ arg ∈ args, next.rule = some arg
  path : next.bindings = g.bindings ∨
    ∃ arg ∈ args, ∃ p : String, next.bindings = some p ∧ p ≠ "" ∧ p.toList <:+ arg.toList

theorem Sets.of_eq {source : List Char} (hrule : next.rule = g.rule) (hpath : next.bindings = g.bindings) :
    Sets source g next :=
  ⟨hrule, .inl hpath⟩

theorem Sets.of_suffix {part source : List Char} (h : Sets part g next) (hs : part <:+ source) :
    Sets source g next := by
  refine ⟨h.rule, ?_⟩
  rcases h.path with hp | ⟨p, hp, hne, hsuffix⟩
  · exact .inl hp
  · exact .inr ⟨p, hp, hne, hsuffix.trans hs⟩

theorem Sets.takes {arg : String} (h : Sets arg.toList g next) : Takes [arg] g next := by
  refine ⟨.inl h.rule, ?_⟩
  rcases h.path with hp | hp
  · exact .inl hp
  · exact .inr ⟨arg, List.mem_singleton_self _, hp⟩

theorem Takes.refl (args : List String) (g : Given) : Takes args g g := ⟨.inl rfl, .inl rfl⟩

theorem Takes.trans {args more : List String} {mid : Given} (h : Takes args g mid) (h' : Takes more mid next) :
    Takes (args ++ more) g next := by
  refine ⟨?_, ?_⟩
  · rcases h'.rule with hrule | ⟨arg, harg, hrule⟩
    · rcases h.rule with hfirst | ⟨arg, harg, hfirst⟩
      · exact .inl (hrule.trans hfirst)
      · exact .inr ⟨arg, List.mem_append_left _ harg, hrule.trans hfirst⟩
    · exact .inr ⟨arg, List.mem_append_right _ harg, hrule⟩
  · rcases h'.path with hpath | ⟨arg, harg, hpath⟩
    · rcases h.path with hfirst | ⟨arg, harg, p, hfirst, hp⟩
      · exact .inl (hpath.trans hfirst)
      · exact .inr ⟨arg, List.mem_append_left _ harg, p, hpath.trans hfirst, hp⟩
    · exact .inr ⟨arg, List.mem_append_right _ harg, hpath⟩

theorem set_sets {s : Setting} {v : String} (h : g.set s v = .ok next) : Sets v.toList g next := by
  cases s with
  | bindings =>
    rw [set] at h
    split at h
    · cases h
    · rename_i hv
      cases h
      exact ⟨rfl, .inr ⟨v, rfl, fun he => hv (.inr he), List.suffix_refl _⟩⟩
  | _ =>
    rw [set] at h
    repeat' split at h
    all_goals cases h
    all_goals exact .of_eq rfl rfl

theorem take_sets {s : Setting} {v : String} (h : g.take s v = .ok next) : Sets v.toList g next := by
  unfold take at h
  repeat' split at h
  all_goals cases h
  · exact set_sets ‹_›
  · exact .of_eq rfl rfl

theorem attached?_suffix {cs : List Char} {v : String} (h : v ∈ attached? cs) : v.toList <:+ cs := by
  unfold attached? at h
  split at h <;> cases h
  · exact String.toList_ofList.symm ▸ List.suffix_cons ..
  · exact String.toList_ofList.symm ▸ List.suffix_refl _

theorem choose_sets {s : Option Setting} {cs : List Char} (h : g.choose s (attached? cs) = .ok next) :
    Sets cs g next := by
  unfold choose at h
  repeat' split at h
  · cases h
  · cases h
  · cases h
    exact .of_eq rfl rfl
  · exact (set_sets h).of_suffix (attached?_suffix ‹_›)

theorem long_sets {option : List Char} (h : g.long option = .ok next) : Sets option g next := by
  rw [long] at h
  split at h
  · split at h <;> cases h
    exact .of_eq rfl rfl
  · split at h
    · cases h
    · exact (choose_sets h).of_suffix (List.dropWhile_suffix _)

theorem cluster_sets {letters : List Char} (h : g.cluster letters = .ok next) : Sets letters g next := by
  fun_induction cluster g letters with
  | case1 =>
    cases h
    exact .of_eq rfl rfl
  -- a `v` takes nothing; any other letter that is an option takes all that is left
  | case2 rest ih => exact (ih h).of_suffix (List.suffix_cons ..)
  | case3 => cases h
  | case4 c rest => exact (choose_sets h).of_suffix (List.suffix_cons ..)

theorem positional_takes {arg : String} (h : g.positional arg = .ok next) : Takes [arg] g next := by
  unfold positional at h
  repeat' split at h
  all_goals cases h
  · exact ⟨.inl rfl, .inl rfl⟩
  · exact ⟨.inr ⟨arg, List.mem_singleton_self _, rfl⟩, .inl rfl⟩

theorem option_sets {arg : String} (h : g.option arg = .ok next) : Sets arg.toList g next := by
  have htail : arg.toList.tail <:+ arg.toList := List.tail_suffix _
  unfold option at h
  split at h
  · cases h
  · split at h
    · rename_i name hname
      rw [hname] at htail
      exact (long_sets h).of_suffix ((List.suffix_cons ..).trans htail)
    · exact (cluster_sets h).of_suffix htail

theorem step_takes {arg : String} (h : g.step arg = .ok next) : Takes [arg] g next := by
  unfold step at h
  repeat' split at h
  · exact positional_takes h
  · cases h
  · exact (take_sets h).takes
  · cases h
    exact ⟨.inl rfl, .inl rfl⟩
  · exact (option_sets h).takes
  · exact positional_takes h

/-! ## Many arguments -/

theorem read_of_step {arg : String} (h : g.step arg = .ok next) (hword : (g.awaitsVerb && arg = "help") = false)
    (rest : List String) : g.read (arg :: rest) = next.read rest := by
  rw [read, hword, h]
  rfl

theorem read_takes {args : List String} (h : g.read args = .ok next) : Takes args g next := by
  -- on the arguments, from whatever was given before them
  induction args generalizing g with
  | nil =>
    cases h
    exact .refl [] _
  | cons arg args ih =>
    rw [read] at h
    split at h
    · cases h
    · split at h
      · rename_i mid hmid
        exact (step_takes hmid).trans (ih h)
      · cases h

end Given

/-! ## Commands -/

/-- the rule that a command is about -/
def Command.rule : Command → String
  | .tokenize rule _ => rule
  | .parse rule _ => rule
  | .names rule _ => rule
  | .check rule _ _ => rule

theorem Given.parts_of_finish {g : Given} {c : Command} (h : g.finish = .ok c) :
    g.rule = some c.rule ∧ ∀ path ∈ c.file?, g.bindings = some path := by
  unfold finish command? at h
  split at h
  · rename_i c' hc'
    split at h <;> cases h
    split at hc'
    case h_4 =>
      obtain ⟨path, hpath, rfl⟩ := Option.map_eq_some_iff.1 hc'
      exact ⟨‹_›, fun p hp => by rw [hpath]; exact hp⟩
    all_goals cases hc'
    all_goals exact ⟨‹_›, nofun⟩
  · cases h

section Accepted

variable {args : List String} {c : Command} (h : Command.ofArguments args = .ok c)

include h

theorem exists_read_of_ofArguments : ∃ g, Given.start.read args = .ok g ∧ g.finish = .ok c := by
  unfold Command.ofArguments at h
  split at h
  · exact ⟨_, ‹_›, h⟩
  · cases h

theorem rule_mem_of_ofArguments : c.rule ∈ args := by
  obtain ⟨g, hread, hfinish⟩ := exists_read_of_ofArguments h
  obtain ⟨hrule, -⟩ := Given.parts_of_finish hfinish
  rcases (Given.read_takes hread).rule with hstart | ⟨arg, harg, htaken⟩
  · cases hrule.symm.trans hstart
  · rwa [Option.some.inj (hrule.symm.trans htaken)]

theorem path_of_ofArguments {path : String} (hpath : path ∈ c.file?) :
    path ≠ "" ∧ ∃ arg ∈ args, path.toList <:+ arg.toList := by
  obtain ⟨g, hread, hfinish⟩ := exists_read_of_ofArguments h
  have hgiven := (Given.parts_of_finish hfinish).2 path hpath
  rcases (Given.read_takes hread).path with hstart | ⟨arg, harg, p, htaken, hne, hsuffix⟩
  · cases hgiven.symm.trans hstart
  · obtain rfl : path = p := Option.some.inj (hgiven.symm.trans htaken)
    exact ⟨hne, arg, harg, hsuffix⟩

end Accepted

/-! ## Plain checks -/

/-- a check with its rule and nothing more -/
def Given.checking (rule : String) : Given := ⟨some .check, false, none, none, some rule, none, false, false⟩

theorem Given.read_check {rule : String} (hrule : isOption rule = false) (rest : List String) :
    start.read ("check" :: rule :: rest) = (checking rule).read rest := by
  have hdashes : rule ≠ "--" := by
    rintro rfl
    cases hrule
  let verb : Given := ⟨some .check, false, none, none, none, none, false, false⟩
  have hverb : start.step "check" = .ok verb := rfl
  have hnamed : verb.step rule = .ok (checking rule) := by
    simp [step, positional, verb, checking, hdashes, hrule]
  rw [read_of_step hverb rfl, read_of_step hnamed rfl]

/-- a rule and a path that do not look like options make a check, with the format behind them or without -/
theorem ofArguments_check (rule path : String) (hrule : Given.isOption rule = false)
    (hpath : Given.isOption path = false) (hne : path ≠ "") :
    Command.ofArguments ["check", rule, "--bindings", path] = .ok (.check rule path .text) ∧
    Command.ofArguments ["check", rule, "--bindings", path, "--format", "json"] = .ok (.check rule path .json) := by
  let waiting : Given := { Given.checking rule with waiting := some .bindings }
  let given : Given := { Given.checking rule with bindings := some path }
  have hwaiting : (Given.checking rule).step "--bindings" = .ok waiting := rfl
  have hgiven : waiting.step path = .ok given := by
    simp [Given.step, Given.take, Given.set, waiting, Given.checking, given, hpath, hne]
  have hread (rest : List String) :
      Given.start.read ("check" :: rule :: "--bindings" :: path :: rest) = given.read rest := by
    rw [Given.read_check hrule, Given.read_of_step hwaiting rfl, Given.read_of_step hgiven rfl]
  constructor
  · rw [Command.ofArguments, hread]
    rfl
  · rw [Command.ofArguments, hread]
    rfl

/-- without a path there is no check -/
theorem ofArguments_check_alone (rule : String) (hrule : Given.isOption rule = false) :
    Command.ofArguments ["check", rule] = .error .refused := by
  rw [Command.ofArguments, Given.read_check hrule]
  rfl

end AccessRules.CommandLine
