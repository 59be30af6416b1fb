/-
What a cache holds at any moment of a run: of the programs made since it was last cleared the last ones, as many as it
has room for, in the order in which they were made. All of it follows from what one question can do: forget everything,
change nothing, or make one program for a rule that is not stored.

The serial numbers of the programs that are made count up, so that a program is told from every other by its number:
what is stored is the program that was made when its rule was stored, and a rule that is stored no more gets another.

- `makesRoom_evict`, `stored_of_makesRoom`: the loop that makes room, round by round, comes to an end with what eviction
  leaves.
- `step_cases`: what one question can do.
- `holdsLast_step`, `holdsLast_run`: the last programs made are stored, by one question and by a run.
- `serials_madeIn`: the serial numbers of the programs made in a run.
- `keptSinceMade_of_get?`: a stored program was made in the run, and has been stored from then on.
- `first_in_first_out`: all of it together.
-/
import Mathlib.Tactic
import Mathlib.Data.List.DropRight
import AccessRules.FactFile
import AccessRules.Proofs.ProgramCache.Soundness

namespace AccessRules.ProgramCache

variable {ω : Type} {m : Type → Type}

/-! ## Making room -/

/-- the loop that makes room for one more rule: while the rules fill the cache, the oldest goes, if there is one; it
takes that many rounds -/
inductive MakesRoom (capacity : Nat) : List (String × Parsed) → Nat → List (String × Parsed) → Prop where
  | done (es : List (String × Parsed)) (h : es.length < capacity) : MakesRoom capacity es 0 es
  | round (es left : List (String × Parsed)) (rounds : Nat) (h : capacity ≤ es.length)
    (rest : MakesRoom capacity es.tail rounds left) : MakesRoom capacity es (rounds + 1) left

theorem makesRoom_evict (capacity : Nat) (h : 0 < capacity) (es : List (String × Parsed)) :
    MakesRoom capacity es (es.length + 1 - capacity) (evict capacity es) := by
  induction es with
  | nil =>
    have hnone : ([] : List (String × Parsed)).length + 1 - capacity = 0 := Nat.sub_eq_zero_of_le h
    rw [hnone]
    exact .done [] h
  | cons e rest ih =>
    unfold evict
    split_ifs with hfull
    · have hmore : (e :: rest).length + 1 - capacity = (rest.length + 1 - capacity) + 1 := by
        rw [List.length_cons]
        omega
      rw [hmore]
      exact .round (e :: rest) _ _ hfull ih
    · have hnone : (e :: rest).length + 1 - capacity = 0 := by
        rw [List.length_cons]
        omega
      rw [hnone]
      exact .done (e :: rest) (Nat.lt_of_not_le hfull)

/-- the loop ends in one way only -/
theorem makesRoom_unique (capacity : Nat) {es left left' : List (String × Parsed)} {rounds rounds' : Nat}
    (h : MakesRoom capacity es rounds left) (h' : MakesRoom capacity es rounds' left') :
    rounds = rounds' ∧ left = left' := by
  induction h generalizing rounds' with
  | done es hlt =>
    cases h' with
    | done _ _ => exact ⟨rfl, rfl⟩
    | round _ _ _ hle _ => exact absurd hle (Nat.not_le_of_lt hlt)
  | round es left rounds hle _ ih =>
    cases h' with
    | done _ hlt => exact absurd hle (Nat.not_le_of_lt hlt)
    | round _ _ _ _ rest' =>
      obtain ⟨hrounds, hleft⟩ := ih rest'
      exact ⟨congrArg (· + 1) hrounds, hleft⟩

/-- without room for any rule the loop would never end -/
theorem not_makesRoom_zero {es left : List (String × Parsed)} {rounds : Nat} : ¬ MakesRoom 0 es rounds left := by
  intro h
  induction h with
  | done es hlt => exact Nat.not_lt_zero _ hlt
  | round _ _ _ _ _ ih => exact ih

theorem makesRoom_iff (capacity : Nat) (es : List (String × Parsed)) :
    (∃ rounds left, MakesRoom capacity es rounds left) ↔ 0 < capacity := by
  constructor
  · rintro ⟨rounds, left, hroom⟩
    refine Nat.pos_of_ne_zero ?_
    rintro rfl
    exact not_makesRoom_zero hroom
  · intro hpos
    exact ⟨_, _, makesRoom_evict capacity hpos es⟩

/-- unless the cache holds too much, at most one rule goes to make room -/
theorem stored_of_makesRoom (c : ProgramCache) (hsize : c.size ≤ c.capacity) {rounds : Nat}
    {left : List (String × Parsed)} (hroom : MakesRoom c.capacity c.stored rounds left) :
    rounds ≤ 1 ∧ ∀ rule p, (c.store rule p).stored = left ++ [(rule, p)] := by
  have hpos := (makesRoom_iff c.capacity c.stored).1 ⟨rounds, left, hroom⟩
  obtain ⟨rfl, rfl⟩ := makesRoom_unique c.capacity hroom (makesRoom_evict c.capacity hpos c.stored)
  refine ⟨?_, fun rule p => ?_⟩
  · have hlength : c.stored.length ≤ c.capacity := hsize
    omega
  · rw [store, if_neg (Nat.ne_of_gt hpos)]

theorem evict_eq_drop (capacity : Nat) (es : List (String × Parsed)) :
    evict capacity es = es.drop (es.length + 1 - capacity) := by
  induction es with
  | nil => rw [evict, List.drop_nil]
  | cons e rest ih =>
    unfold evict
    split_ifs with hfull
    · rw [ih, List.length_cons, Nat.succ_sub hfull, List.drop_succ_cons]
    · have hnone : (e :: rest).length + 1 - capacity = 0 := by
        rw [List.length_cons]
        omega
      rw [hnone, List.drop_zero]

/-! ## One question -/

theorem step_of_wanted [Monad m] (host : Host ω m) (c : ProgramCache) (a : Ask ω) (rule : String)
    (h : a.wanted? = some rule) : c.step host a = (c.getOrParse rule).2 := by
  cases a with
  | getOrParse wanted => rw [← Option.some.inj h]; rfl
  | permitted b wanted => rw [← Option.some.inj h]; exact step_permitted host b c wanted
  | get _ => cases h
  | clear => cases h

/-- a rule that is stored or does not parse leaves the cache as it is, and no program is made for it -/
theorem step_of_no_program [Monad m] (host : Host ω m) (c : ProgramCache) (a : Ask ω) (rule : String)
    (h : a.wanted? = some rule) (hrule : c.get? rule ≠ none ∨ ∃ cause, Program.ofText rule = .error cause) :
    c.step host a = c ∧ c.made a = [] := by
  rw [step_of_wanted host c a rule h, getOrParse, made, h]
  cases hget : c.get? rule with
  | some p => simp only [hget, and_self]
  | none =>
    obtain hstored | ⟨cause, hcause⟩ := hrule
    · exact absurd hget hstored
    · simp only [hget, hcause, and_self]

/-- a rule that is not stored and parses gets the program with the next serial number, which is stored -/
theorem step_of_program [Monad m] (host : Host ω m) (c : ProgramCache) (a : Ask ω) (rule : String) (program : Program)
    (h : a.wanted? = some rule) (hget : c.get? rule = none) (hprogram : Program.ofText rule = .ok program) :
    c.step host a = c.store rule ⟨c.next, program⟩ ∧ c.made a = [(rule, ⟨c.next, program⟩)] := by
  rw [step_of_wanted host c a rule h, getOrParse, made, h]
  simp only [hget, hprogram, and_self]

/-- **One question** forgets everything, or changes nothing, or makes one program. -/
theorem step_cases [Monad m] (host : Host ω m) (c : ProgramCache) (a : Ask ω) :
    (a = .clear ∧ c.step host a = c.clear ∧ c.made a = []) ∨
    (a ≠ .clear ∧ c.step host a = c ∧ c.made a = []) ∨
    ∃ rule program, a ≠ .clear ∧ c.get? rule = none ∧ c.step host a = c.store rule ⟨c.next, program⟩ ∧
      c.made a = [(rule, ⟨c.next, program⟩)] := by
  cases hw : a.wanted? with
  | none =>
    cases a with
    | get rule => exact .inr (.inl ⟨nofun, rfl, rfl⟩)
    | clear => exact .inl ⟨rfl, rfl, rfl⟩
    | getOrParse rule => cases hw
    | permitted b rule => cases hw
  | some rule =>
    have hne : a ≠ .clear := by
      rintro rfl
      cases hw
    cases hget : c.get? rule with
    | some p =>
      have hstored : c.get? rule ≠ none := by rw [hget]; exact Option.some_ne_none p
      exact .inr (.inl ⟨hne, step_of_no_program host c a rule hw (.inl hstored)⟩)
    | none =>
      cases hprogram : Program.ofText rule with
      | error cause => exact .inr (.inl ⟨hne, step_of_no_program host c a rule hw (.inr ⟨cause, hprogram⟩)⟩)
      | ok program =>
        obtain ⟨hstep, hmade⟩ := step_of_program host c a rule program hw hget hprogram
        exact .inr (.inr ⟨rule, program, hne, hget, hstep, hmade⟩)

/-- unless the cache is cleared or a rule that is not stored and parses is wanted, nothing changes -/
theorem step_of_quiet [Monad m] (host : Host ω m) (c : ProgramCache) (a : Ask ω) (hne : a ≠ .clear)
    (hrule : ∀ rule, a.wanted? = some rule → c.get? rule ≠ none ∨ ∃ cause, Program.ofText rule = .error cause) :
    c.step host a = c := by
  cases hw : a.wanted? with
  | some rule => exact (step_of_no_program host c a rule hw (hrule rule hw)).1
  | none =>
    cases a with
    | get rule => rfl
    | clear => exact absurd rfl hne
    | getOrParse rule => cases hw
    | permitted b rule => cases hw

theorem capacity_step [Monad m] (host : Host ω m) (c : ProgramCache) (a : Ask ω) :
    (c.step host a).capacity = c.capacity := by
  obtain ⟨-, hstep, -⟩ | ⟨-, hstep, -⟩ | ⟨rule, program, -, -, hstep, -⟩ := step_cases host c a
  · rw [hstep]; rfl
  · rw [hstep]
  · rw [hstep, store]
    split_ifs <;> rfl

/-- the serial numbers are given out one after another -/
theorem next_step [Monad m] (host : Host ω m) (c : ProgramCache) (a : Ask ω) :
    (c.step host a).next = c.next + (c.made a).length ∧
      (c.made a).map (fun e => e.2.serial) = List.range' c.next (c.made a).length := by
  obtain ⟨-, hstep, hmade⟩ | ⟨-, hstep, hmade⟩ | ⟨rule, program, -, -, hstep, hmade⟩ := step_cases host c a
  · rw [hstep, hmade]; exact ⟨rfl, rfl⟩
  · rw [hstep, hmade]; exact ⟨rfl, rfl⟩
  · rw [hstep, hmade, store]
    split_ifs <;> exact ⟨rfl, rfl⟩

/-! ## What is stored -/

/-- the programs stored are the last ones made, and no rule is stored twice -/
structure History.HoldsLast (h : History) : Prop where
  stored : h.cache.stored = h.made.rtake h.cache.capacity
  distinct : (h.cache.stored.map Prod.fst).Nodup

theorem History.holdsLast_start (capacity : Nat) : (start capacity).HoldsLast :=
  ⟨(List.rtake_nil _).symm, List.nodup_nil⟩

/-- room for one more leaves all but the oldest of the last ones -/
theorem evict_rtake (capacity : Nat) (es : List (String × Parsed)) :
    evict (capacity + 1) (es.rtake (capacity + 1)) = es.rtake capacity := by
  rw [evict_eq_drop, List.rtake, List.rtake, List.length_drop, List.drop_drop]
  congr 1
  omega

theorem rule_notMem_of_get? (c : ProgramCache) (rule : String) (h : c.get? rule = none) :
    rule ∉ c.stored.map Prod.fst := by
  intro hmem
  obtain ⟨e, he, rfl⟩ := List.mem_map.1 hmem
  have hnone := List.find?_eq_none.1 (Option.map_eq_none_iff.1 h)
  exact hnone e he (decide_eq_true rfl)

/-- a program just made is the last one, and the oldest of the last ones goes to make room for it -/
theorem History.HoldsLast.store {h : History} (hl : h.HoldsLast) (rule : String) (p : Parsed)
    (hget : h.cache.get? rule = none) : (History.mk (h.cache.store rule p) (h.made ++ [(rule, p)])).HoldsLast := by
  obtain ⟨hstored, hdistinct⟩ := hl
  unfold ProgramCache.store
  cases hcap : h.cache.capacity with
  | zero =>
    rw [hcap, List.rtake_zero] at hstored
    rw [if_pos rfl]
    exact ⟨hstored.trans (List.rtake_zero _).symm, hdistinct⟩
  | succ k =>
    rw [if_neg (Nat.succ_ne_zero k)]
    constructor
    · rw [hcap] at hstored
      rw [List.rtake_concat_succ, hstored, evict_rtake]
    · rw [List.map_append]
      have hsub : ((evict (k + 1) h.cache.stored).map Prod.fst).Sublist (h.cache.stored.map Prod.fst) := by
        rw [evict_eq_drop]
        exact (List.drop_sublist _ _).map Prod.fst
      refine (hsub.nodup hdistinct).append (List.nodup_singleton rule) ?_
      exact List.disjoint_singleton.2 fun hmem => h.cache.rule_notMem_of_get? rule hget (hsub.subset hmem)

theorem History.step_of_ne_clear [Monad m] (host : Host ω m) (h : History) (a : Ask ω) (hne : a ≠ .clear) :
    h.step host a = ⟨h.cache.step host a, h.made ++ h.cache.made a⟩ := by
  cases a with
  | clear => exact absurd rfl hne
  | _ => rfl

/-- **One question keeps the last ones stored.** -/
theorem History.holdsLast_step [Monad m] (host : Host ω m) (h : History) (hl : h.HoldsLast) (a : Ask ω) :
    (h.step host a).HoldsLast := by
  obtain ⟨rfl, -, -⟩ | ⟨hne, hstep, hmade⟩ | ⟨rule, program, hne, hget, hstep, hmade⟩ := step_cases host h.cache a
  · exact ⟨(List.rtake_nil _).symm, List.nodup_nil⟩
  · rw [h.step_of_ne_clear host a hne, hstep, hmade, List.append_nil]
    exact hl
  · rw [h.step_of_ne_clear host a hne, hstep, hmade]
    exact hl.store rule _ hget

theorem History.holdsLast_run [Monad m] (host : Host ω m) (h : History) (hl : h.HoldsLast) (asks : List (Ask ω)) :
    (h.run host asks).HoldsLast := by
  induction asks generalizing h with
  | nil => exact hl
  | cons a asks ih => exact ih (h.step host a) (History.holdsLast_step host h hl a)

theorem History.capacity_run [Monad m] (host : Host ω m) (h : History) (asks : List (Ask ω)) :
    (h.run host asks).cache.capacity = h.cache.capacity := by
  induction asks generalizing h with
  | nil => rfl
  | cons a asks ih => exact (ih (h.step host a)).trans (capacity_step host h.cache a)

/-! ## Serial numbers -/

/-- all programs made in a run, whether or not the cache was cleared meanwhile -/
def History.madeIn [Monad m] (host : Host ω m) (h : History) : List (Ask ω) → List (String × Parsed)
  | [] => []
  | a :: asks => h.cache.made a ++ (h.step host a).madeIn host asks

theorem History.serials_madeIn [Monad m] (host : Host ω m) (h : History) (asks : List (Ask ω)) :
    (h.run host asks).cache.next = h.cache.next + (h.madeIn host asks).length ∧
      (h.madeIn host asks).map (fun e => e.2.serial) =
        List.range' h.cache.next (h.madeIn host asks).length := by
  induction asks generalizing h with
  | nil => exact ⟨rfl, rfl⟩
  | cons a asks ih =>
    obtain ⟨hnext, hserials⟩ := next_step host h.cache a
    obtain ⟨ihnext, ihserials⟩ := ih (h.step host a)
    have hcache : (h.step host a).cache.next = h.cache.next + (h.cache.made a).length := hnext
    rw [hcache] at ihnext ihserials
    constructor
    · rw [madeIn, List.length_append, ← Nat.add_assoc]
      exact ihnext
    · rw [madeIn, List.map_append, hserials, ihserials, List.length_append, ← List.range'_append_1]

/-! ## The program of a stored rule -/

theorem get?_of_mem (c : ProgramCache) (hd : (c.stored.map Prod.fst).Nodup) (rule : String) (p : Parsed)
    (h : (rule, p) ∈ c.stored) : c.get? rule = some p := by
  cases hget : c.get? rule with
  | none => exact absurd (List.mem_map_of_mem h) (c.rule_notMem_of_get? rule hget)
  | some q =>
    have hq := c.mem_of_get? rule q hget
    have heq := List.inj_on_of_nodup_map hd hq h rfl
    exact congrArg some (congrArg Prod.snd heq)

/-- what is stored was stored before, or has just been made -/
theorem get?_store (c : ProgramCache) (hd : (c.stored.map Prod.fst).Nodup) (made rule : String) (q p : Parsed)
    (h : (c.store made q).get? rule = some p) : (rule, p) = (made, q) ∨ c.get? rule = some p := by
  have hmem := (c.store made q).mem_of_get? rule p h
  unfold store at hmem
  split_ifs at hmem
  · exact .inr (c.get?_of_mem hd rule p hmem)
  · rcases List.mem_append.1 hmem with hmem | hmem
    · exact .inr (c.get?_of_mem hd rule p (mem_of_mem_evict _ _ _ hmem))
    · exact .inl (List.mem_singleton.1 hmem)

/-- at some question of the run the program was made for the rule, and from then on it was stored -/
def History.KeptSinceMade [Monad m] (host : Host ω m) (h : History) (asks : List (Ask ω)) (rule : String)
    (p : Parsed) : Prop :=
  ∃ before a after, asks = before ++ a :: after ∧ (h.run host before).cache.made a = [(rule, p)] ∧
    ∀ further, further <+: after → (h.run host (before ++ a :: further)).cache.get? rule = some p

theorem History.KeptSinceMade.concat [Monad m] {host : Host ω m} {h : History} {asks : List (Ask ω)} {rule : String}
    {p : Parsed} (hk : h.KeptSinceMade host asks rule p) (a : Ask ω)
    (hget : (h.run host (asks ++ [a])).cache.get? rule = some p) : h.KeptSinceMade host (asks ++ [a]) rule p := by
  obtain ⟨before, made, after, rfl, hmade, hkept⟩ := hk
  refine ⟨before, made, after ++ [a], by simp, hmade, fun further hf => ?_⟩
  rcases List.prefix_concat_iff.1 hf with rfl | hf
  · simpa using hget
  · exact hkept further hf

theorem History.keptSinceMade_of_get? [Monad m] (host : Host ω m) (capacity : Nat) (asks : List (Ask ω))
    (rule : String) (p : Parsed) (hget : ((start capacity).run host asks).cache.get? rule = some p) :
    (start capacity).KeptSinceMade host asks rule p := by
  induction asks using List.reverseRecOn generalizing rule p with
  | nil => cases hget
  | append_singleton asks a ih =>
    have hcache : ((start capacity).run host (asks ++ [a])).cache =
        ((start capacity).run host asks).cache.step host a := by
      rw [run_append]
      rfl
    have hlast := holdsLast_run host _ (holdsLast_start capacity) asks
    have hget' := hget
    rw [hcache] at hget'
    obtain ⟨-, hstep, -⟩ | ⟨-, hstep, -⟩ | ⟨made, program, -, -, hstep, hmade⟩ :=
      step_cases host ((start capacity).run host asks).cache a
    · rw [hstep] at hget'
      cases hget'
    · rw [hstep] at hget'
      exact (ih rule p hget').concat a hget
    · rw [hstep] at hget'
      rcases get?_store _ hlast.distinct made rule _ p hget' with hnew | hold
      · refine ⟨asks, a, [], rfl, by rw [hmade, hnew], fun further hf => ?_⟩
        rw [List.prefix_nil.1 hf]
        exact hget
      · exact (ih rule p hold).concat a hget

/-- the program that is made next is none of those made before -/
theorem History.serial_ne_next [Monad m] (host : Host ω m) (capacity : Nat) (asks : List (Ask ω))
    (e : String × Parsed) (he : e ∈ (start capacity).madeIn host asks) :
    e.2.serial ≠ ((start capacity).run host asks).cache.next := by
  obtain ⟨hnext, hserials⟩ := serials_madeIn host (start capacity) asks
  have hmem : e.2.serial ∈ ((start capacity).madeIn host asks).map fun e => e.2.serial := List.mem_map_of_mem he
  rw [hserials, List.mem_range'_1] at hmem
  rw [hnext]
  exact Nat.ne_of_lt hmem.2

/-! ## The whole -/

theorem History.HoldsLast.size_le {h : History} (hl : h.HoldsLast) : h.cache.size ≤ h.cache.capacity := by
  rw [size, hl.stored, List.rtake, List.length_drop]
  omega

theorem History.HoldsLast.stored_eq {h : History} (hl : h.HoldsLast) :
    h.cache.stored = h.made.rtake (min h.cache.capacity h.made.length) := by
  have hfew : h.made.length - h.cache.capacity = h.made.length - min h.cache.capacity h.made.length := by omega
  rw [hl.stored, List.rtake, hfew, List.rtake]

theorem get?_of_no_room (c : ProgramCache) (h : c.size ≤ 0) (rule : String) : c.get? rule = none := by
  have hnone : c.stored = [] := List.length_eq_zero_iff.1 (Nat.le_zero.1 h)
  rw [get?, hnone]
  rfl

/-- **First in, first out.** After any run of a new cache, with `made` the programs made since it was last cleared:
- the last of them are stored, as many as there is room for, in the order in which they were made, no rule twice;
- no question but `clear` changes anything, unless it wants a rule that is not stored and parses;
- every program made in the run has a serial number of its own; a stored rule is answered with the program that was made
  when it was stored; any other rule that parses, and so every rule when there is no room, with one made anew;
- the loop that makes room ends exactly when there is room at all, and then drops at most one rule. -/
theorem first_in_first_out [Monad m] (host : Host ω m) (capacity : Nat) (asks : List (Ask ω)) :
    let start := History.start capacity
    let h := start.run host asks
    let c := h.cache
    (c.stored = h.made.rtake (min capacity h.made.length) ∧ (c.stored.map Prod.fst).Nodup ∧ c.size ≤ capacity) ∧
    (∀ a, a ≠ .clear → (∀ rule, a.wanted? = some rule →
      c.get? rule ≠ none ∨ ∃ cause, Program.ofText rule = .error cause) → c.step host a = c) ∧
    ((start.madeIn host asks).map fun e => e.2.serial).Nodup ∧
    (∀ rule p, c.get? rule = some p → c.getOrParse rule = (.ok p, c) ∧ start.KeptSinceMade host asks rule p) ∧
    (∀ rule program, c.get? rule = none → Program.ofText rule = .ok program →
      ∃ p, (c.getOrParse rule).1 = .ok p ∧ p.program = program ∧
        ∀ e ∈ start.madeIn host asks, e.2.serial ≠ p.serial) ∧
    (capacity = 0 → ∀ rule, c.get? rule = none) ∧
    ((∃ rounds left, MakesRoom capacity c.stored rounds left) ↔ 0 < capacity) ∧
    ∀ rounds left, MakesRoom capacity c.stored rounds left →
      rounds ≤ 1 ∧ ∀ rule p, (c.store rule p).stored = left ++ [(rule, p)] := by
  intro start h c
  have hl : h.HoldsLast := History.holdsLast_run host _ (History.holdsLast_start capacity) asks
  have hcap : c.capacity = capacity := History.capacity_run host start asks
  have hsize : c.size ≤ capacity := hcap ▸ hl.size_le
  refine ⟨⟨hcap ▸ hl.stored_eq, hl.distinct, hsize⟩, step_of_quiet host c, ?_, ?_, ?_, ?_, makesRoom_iff capacity _, ?_⟩
  · rw [(History.serials_madeIn host start asks).2]
    exact List.nodup_range'
  · intro rule p hget
    exact ⟨c.getOrParse_hit rule p hget, History.keptSinceMade_of_get? host capacity asks rule p hget⟩
  · intro rule program hget hprogram
    refine ⟨⟨c.next, program⟩, ?_, rfl, History.serial_ne_next host capacity asks⟩
    simp only [getOrParse, hget, hprogram]
  · rintro rfl rule
    exact c.get?_of_no_room hsize rule
  · intro rounds left hroom
    rw [← hcap] at hroom
    exact c.stored_of_makesRoom hl.size_le hroom

/-- questions about three rules, about the first of them before and after the others, and about one that does not
parse -/
def threeRules : List (Ask FactTable) :=
  [.getOrParse "a x", .permitted .empty "b x", .get "a x", .getOrParse "(d", .getOrParse "c x", .getOrParse "a x"]

/-- a cache with room for two of them: the first rule made room for the third, and then the second for the first, which
got another program; a hit and a rule that does not parse change nothing, and the second rule would get a fifth
program -/
theorem first_in_first_out_of_three :
    let h := (History.start 2).run FactFile.host threeRules
    let aX : Parsed := ⟨3, ⟨[.call ⟨.str "a", [.str "x"]⟩]⟩⟩
    h.cache.stored.map Prod.fst = ["c x", "a x"] ∧ h.cache.getOrParse "a x" = (.ok aX, h.cache) ∧
    (History.start 2).KeptSinceMade FactFile.host threeRules "a x" aX ∧
    h.cache.step FactFile.host (.permitted .empty "c x") = h.cache ∧
    h.cache.step FactFile.host (.permitted .empty "(d") = h.cache ∧
    (∃ p, (h.cache.getOrParse "b x").1 = .ok p ∧
      ∀ e ∈ (History.start 2).madeIn FactFile.host threeRules, e.2.serial ≠ p.serial) ∧
    ∀ rounds left, MakesRoom 2 h.cache.stored rounds left → rounds ≤ 1 := by
  intro h aX
  obtain ⟨⟨hstored, -, -⟩, hquiet, -, hshared, hanew, -, -, hroom⟩ := first_in_first_out FactFile.host 2 threeRules
  have hget : h.cache.get? "a x" = some aX := by decide
  obtain ⟨hhit, hkept⟩ := hshared "a x" aX hget
  obtain ⟨p, hp, -, hfresh⟩ := hanew "b x" ⟨[.call ⟨.str "b", [.str "x"]⟩]⟩ (by decide) (by decide)
  refine ⟨by rw [hstored]; decide, hhit, hkept, ?_, ?_, ⟨p, hp, hfresh⟩, fun rounds left h => (hroom rounds left h).1⟩
  · refine hquiet _ nofun fun rule hrule => .inl ?_
    rw [← Option.some.inj hrule]
    decide
  · refine hquiet _ nofun fun rule hrule => .inr ⟨.missingClose, ?_⟩
    rw [← Option.some.inj hrule]
    decide

end AccessRules.ProgramCache
