/-
What is written as JSON is read back as itself. The lexemes of a value stand between its characters and its reading:
the scanner makes them out of the characters that are written, and the reader makes the value out of them.

A number ends only where something else begins, so a value is scanned in front of a mark or of the end of the text.

- `scan_stringChars`, `scan_decimal`, `scan_wordChars`: the lexeme of a written string, integer or word.
- `scansAs_joinItems`, `scansAs_joinMembers`: the lexemes of items and members, whatever blanks stand between them.
- `scansAs_compactChars`: the lexemes of a value that is written in one line.
- `readsAs_lexemesOf`: the reader takes the lexemes of a value for that value, wherever a value may stand.
- `readBy_compact`: a value of integers of 64 bits is read back from the line it is written in, as deep as the rules
  allow.
-/
import AccessRules.Json.Reader
import AccessRules.Json.Writer

namespace AccessRules.Json

open Text

/-! ## Strings -/

theorem hexValue?_hexDigit (n : Nat) (h : n < 16) : hexValue? (hexDigit n) = some n ∧ (hexDigit n).utf8Size = 1 := by
  have hall : ∀ n < 16, hexValue? (hexDigit n) = some n ∧ (hexDigit n).utf8Size = 1 := by decide
  exact hall n h

theorem unescape?_escapeLetter? {c e : Char} (h : escapeLetter? c = some e) : e ≠ 'u' ∧ unescape? e = some c := by
  unfold escapeLetter? at h
  repeat' split at h
  all_goals cases h
  all_goals subst_vars
  all_goals decide

/-- a hexadecimal digit of a code that goes on -/
theorem step_code (bytes number digit : Nat) (hb : 1 < bytes) (hd : digit < 16) (high : Option Nat)
    (chars : Option (List Char)) :
    (Mode.string (.code bytes (some number) high) chars).step (hexDigit digit) =
      .go (.string (.code (bytes - 1) (some (number * 16 + digit)) high) chars) := by
  obtain ⟨hv, hs⟩ := hexValue?_hexDigit digit hd
  simp [Mode.step, stringStep, hv, hs, Nat.not_le.2 hb]

/-- the last hexadecimal digit of a code -/
theorem step_code_one (number digit : Nat) (hd : digit < 16) (high : Option Nat) (chars : Option (List Char)) :
    (Mode.string (.code 1 (some number) high) chars).step (hexDigit digit) =
      endCode (some (number * 16 + digit)) high chars := by
  obtain ⟨hv, hs⟩ := hexValue?_hexDigit digit hd
  simp [Mode.step, stringStep, hv, hs]

theorem endCode_control (c : Char) (hc : c.toNat < 0x20) (acc : List Char) :
    endCode (some c.toNat) none (some acc) = .go (.string .plain (some (c :: acc))) := by
  have hlow : isLow c.toNat = false := by
    simp only [isLow, Bool.and_eq_false_iff, decide_eq_false_iff_not]
    omega
  have hhigh : isHigh c.toNat = false := by
    simp only [isHigh, Bool.and_eq_false_iff, decide_eq_false_iff_not]
    omega
  simp [endCode, hlow, hhigh, Char.ofNat_toNat]

/-- a character that is written inside a string is the next one of the string that is read -/
theorem scan_escaped (c : Char) (acc rest : List Char) :
    scan (.string .plain (some acc)) (escaped c ++ rest) = scan (.string .plain (some (c :: acc))) rest := by
  have hslash : (Mode.string .plain (some acc)).step '\\' = .go (.string .escape (some acc)) := rfl
  unfold escaped
  cases hl : escapeLetter? c with
  | some e =>
    obtain ⟨hu, he⟩ := unescape?_escapeLetter? hl
    have hletter : (Mode.string .escape (some acc)).step e = .go (.string .plain (some (c :: acc))) := by
      simp [Mode.step, stringStep, escapeStep, hu, he]
    simp [scan, hslash, hletter, Scanned.go]
  | none =>
    by_cases hc : c.toNat < 0x20
    · have hu : (Mode.string .escape (some acc)).step 'u' = .go (.string (.code 4 (some 0) none) (some acc)) := rfl
      have hzero : '0' = hexDigit 0 := rfl
      have hnumber : c.toNat / 16 * 16 + c.toNat % 16 = c.toNat := Nat.div_add_mod' _ _
      have hend : (Mode.string (.code 1 (some (c.toNat / 16)) none) (some acc)).step (hexDigit (c.toNat % 16)) =
          .go (.string .plain (some (c :: acc))) := by
        rw [step_code_one _ _ (Nat.mod_lt _ (by decide)), hnumber, endCode_control c hc]
      rw [if_pos hc, hzero]
      simp [scan, hslash, hu, step_code, hend, Scanned.go, show c.toNat / 16 < 16 by omega]
    · have hq : c ≠ '"' := by rintro rfl; cases hl
      have hb : c ≠ '\\' := by rintro rfl; cases hl
      have hplain : (Mode.string .plain (some acc)).step c = .go (.string .plain (some (c :: acc))) := by
        simp [Mode.step, stringStep, plainStep, hq, hb, hc]
      rw [if_neg hc]
      simp [scan, hplain, Scanned.go]

theorem scan_flatMap_escaped (cs acc rest : List Char) :
    scan (.string .plain (some acc)) (cs.flatMap escaped ++ '"' :: rest) =
      .string (String.ofList (acc.reverse ++ cs)) :: scan .between rest := by
  induction cs generalizing acc with
  | nil =>
    have hquote : (Mode.string .plain (some acc)).step '"' = .give (.string (String.ofList acc.reverse)) := rfl
    simp [scan, hquote, Scanned.give]
  | cons c cs ih => simp [scan_escaped, ih]

theorem scan_stringChars (s : String) (rest : List Char) :
    scan .between (stringChars s ++ rest) = .string s :: scan .between rest := by
  have hquote : Mode.between.step '"' = .go (.string .plain (some [])) := rfl
  have hbody := scan_flatMap_escaped s.toList [] rest
  simp only [List.reverse_nil, List.nil_append, String.ofList_toList] at hbody
  simp [stringChars, scan, hquote, Scanned.go, hbody]

/-! ## Words -/

theorem scan_word (letters : List Char) (hne : letters ≠ []) (j : Json) (rest : List Char) :
    scan (.word letters j) (letters ++ rest) = .scalar j :: scan .between rest := by
  induction letters with
  | nil => exact absurd rfl hne
  | cons l ls ih =>
    cases ls with
    | nil => simp [scan, Mode.step, Scanned.give]
    | cons m ls => simpa [scan, Mode.step, Scanned.go] using ih (by simp)

/-- the value of a word -/
def wordValue : Option Bool → Json
  | none => .null
  | some b => .bool b

theorem scan_wordChars (word : Option Bool) (rest : List Char) :
    scan .between (wordChars word ++ rest) = .scalar (wordValue word) :: scan .between rest := by
  match word with
  | none => exact scan_word "ull".toList (by decide) .null rest
  | some true => exact scan_word "rue".toList (by decide) (.bool true) rest
  | some false => exact scan_word "alse".toList (by decide) (.bool false) rest

/-! ## Numbers -/

/-- the characters do not continue a numeral that might end -/
def EndsNumeral (cs : List Char) : Prop := ∀ c ∈ cs.head?, ∀ s : NumeralState, s.isComplete = true → s.step c = .done

theorem endsNumeral_nil : EndsNumeral [] := by simp [EndsNumeral]

theorem endsNumeral_mark (c : Char) (cs : List Char) (h : c = ',' ∨ c = ']' ∨ c = '\x7d') : EndsNumeral (c :: cs) := by
  intro d hd s hs
  obtain rfl : c = d := Option.some.inj hd
  rcases h with rfl | rfl | rfl <;> cases s <;> first | rfl | cases hs

theorem scan_number_done (s : NumeralState) (hs : s.isComplete = true) (numeral cs : List Char) (h : EndsNumeral cs) :
    scan (.number s numeral) cs = numberLexeme numeral :: scan .between cs := by
  cases cs with
  | nil => simp [scan, Mode.finish, hs]
  | cons c cs =>
    have hdone : s.step c = .done := h c rfl s hs
    simp [scan, Mode.step, hdone]

theorem scan_whole (ds numeral rest : List Char) (h : ∀ c ∈ ds, c.isDigit = true) :
    scan (.number .whole numeral) (ds ++ rest) = scan (.number .whole (ds.reverse ++ numeral)) rest := by
  induction ds generalizing numeral with
  | nil => rfl
  | cons d ds ih =>
    have hd : NumeralState.whole.step d = .more .whole := if_pos (h d (List.mem_cons_self ..))
    simp [scan, Mode.step, hd, Scanned.go, ih _ fun c hc => h c (List.mem_cons_of_mem _ hc)]

/-- the numeral of a number other than zero has no leading zero -/
theorem digits_eq_cons {n : Nat} (h : 0 < n) : ∃ d ds, digits n = d :: ds ∧ d ≠ '0' := by
  induction n using Nat.strongRecOn with
  | ind n ih =>
    by_cases hn : n < 10
    · have hne : ∀ k < 10, 0 < k → Nat.digitChar k ≠ '0' := by decide
      exact ⟨n.digitChar, [], Nat.toDigits_of_lt_base hn, hne n hn h⟩
    · obtain ⟨d, ds, hd, hz⟩ := ih (n / 10) (by omega) (by omega)
      refine ⟨d, ds ++ [(n % 10).digitChar], ?_, hz⟩
      rw [digits, Nat.toDigits_of_base_le (by decide) (Nat.not_lt.1 hn)]
      exact congrArg (· ++ [(n % 10).digitChar]) hd

theorem beginLexeme_digit (d : Char) (hd : d.isDigit = true) (hz : d ≠ '0') :
    beginLexeme d = .go (.number .whole [d]) := by
  have ne : ∀ c : Char, c.isDigit = false → d ≠ c := by
    rintro c hc rfl
    simp [hd] at hc
  simp [beginLexeme, isSpace, hd, hz, ne ' ' (by decide), ne '\t' (by decide), ne '\n' (by decide),
    ne '\r' (by decide), ne '[' (by decide), ne ']' (by decide), ne '\x7b' (by decide), ne '\x7d' (by decide),
    ne ',' (by decide), ne ':' (by decide), ne '"' (by decide), ne 'n' (by decide), ne 't' (by decide),
    ne 'f' (by decide), ne '-' (by decide)]

/-- the scan of an integer up to its end -/
theorem scan_decimal_open (n : Int) (rest : List Char) :
    ∃ s : NumeralState, s.isComplete = true ∧
      scan .between (decimal n ++ rest) = scan (.number s (decimal n).reverse) rest := by
  cases n with
  | ofNat n =>
    rcases Nat.eq_zero_or_pos n with rfl | hn
    · exact ⟨.zero, rfl, rfl⟩
    · obtain ⟨d, ds, hds, hz⟩ := digits_eq_cons hn
      have hdigit : ∀ c ∈ d :: ds, c.isDigit = true := hds ▸ isDigit_of_mem_digits n
      have hbegin := beginLexeme_digit d (hdigit d (List.mem_cons_self ..)) hz
      refine ⟨.whole, rfl, ?_⟩
      simp [decimal, hds, scan, Mode.step, hbegin, Scanned.go,
        scan_whole ds [d] rest fun c hc => hdigit c (List.mem_cons_of_mem _ hc)]
  | negSucc n =>
    obtain ⟨d, ds, hds, hz⟩ := digits_eq_cons (Nat.succ_pos n)
    have hdigit : ∀ c ∈ d :: ds, c.isDigit = true := hds ▸ isDigit_of_mem_digits (n + 1)
    have hminus : Mode.between.step '-' = .go (.number .minus ['-']) := rfl
    have hbegin : (Mode.number .minus ['-']).step d = .go (.number .whole [d, '-']) := by
      simp [Mode.step, NumeralState.step, hz, hdigit d (List.mem_cons_self ..)]
    refine ⟨.whole, rfl, ?_⟩
    simp [decimal, hds, scan, hminus, hbegin, Scanned.go,
      scan_whole ds [d, '-'] rest fun c hc => hdigit c (List.mem_cons_of_mem _ hc)]

theorem scan_decimal (n : Int) (hmin : Int64.minValue.toInt ≤ n) (hmax : n < UInt64.size) (rest : List Char)
    (h : EndsNumeral rest) :
    scan .between (decimal n ++ rest) = .scalar (.int n) :: scan .between rest := by
  obtain ⟨s, hs, hopen⟩ := scan_decimal_open n rest
  rw [hopen, scan_number_done s hs _ rest h]
  simp [numberLexeme, ofNumeral?_decimal n hmin hmax]

/-! ## The lexemes of a value -/

mutual

/-- the lexemes of a value -/
def lexemesOf : Json → List Lexeme
  | .null => [.scalar .null]
  | .bool b => [.scalar (.bool b)]
  | .int n => [.scalar (.int n)]
  | .real numeral => [.scalar (.real numeral)]
  | .str s => [.string s]
  | .array items => .openArray :: itemLexemes items ++ [.closeArray]
  | .object members => .openObject :: memberLexemes members ++ [.closeObject]

/-- the lexemes of items -/
def itemLexemes : List Json → List Lexeme
  | [] => []
  | [j] => lexemesOf j
  | j :: rest => lexemesOf j ++ .comma :: itemLexemes rest

/-- the lexemes of members -/
def memberLexemes : List (String × Json) → List Lexeme
  | [] => []
  | [(k, j)] => .string k :: .colon :: lexemesOf j
  | (k, j) :: rest => .string k :: .colon :: lexemesOf j ++ .comma :: memberLexemes rest

end

/-- integers are of 64 bits, there are no other numbers, and at most `depth` arrays and objects lie inside one
another -/
inductive IsWritable : Nat → Json → Prop where
  | null {depth : Nat} : IsWritable depth .null
  | bool {depth : Nat} (b : Bool) : IsWritable depth (.bool b)
  | int {depth : Nat} (n : Int) (hmin : Int64.minValue.toInt ≤ n) (hmax : n < UInt64.size) : IsWritable depth (.int n)
  | str {depth : Nat} (s : String) : IsWritable depth (.str s)
  | array {depth : Nat} (items : List Json) (h : ∀ j ∈ items, IsWritable depth j) :
    IsWritable (depth + 1) (.array items)
  | object {depth : Nat} (members : List (String × Json)) (h : ∀ m ∈ members, IsWritable depth m.2) :
    IsWritable (depth + 1) (.object members)

/-- the characters are scanned as the lexemes in front of all that ends a number -/
def ScansAs (cs : List Char) (ls : List Lexeme) : Prop :=
  ∀ rest, EndsNumeral rest → scan .between (cs ++ rest) = ls ++ scan .between rest

/-- the scanner passes over the characters between two lexemes -/
def IsPassed (cs : List Char) : Prop := ∀ rest, scan .between (cs ++ rest) = scan .between rest

/-- items with commas between them, with a lead before each -/
def joinItems (lead : List Char) (write : Json → List Char) : List Json → List Char
  | [] => []
  | [j] => lead ++ write j
  | j :: rest => lead ++ write j ++ ',' :: joinItems lead write rest

/-- members with commas between them, with a lead before each key and a gap before each value -/
def joinMembers (lead gap : List Char) (write : Json → List Char) : List (String × Json) → List Char
  | [] => []
  | [(k, j)] => lead ++ stringChars k ++ ':' :: (gap ++ write j)
  | (k, j) :: rest => lead ++ stringChars k ++ ':' :: (gap ++ write j) ++ ',' :: joinMembers lead gap write rest

section Join

variable {lead gap : List Char} {write : Json → List Char}

theorem scansAs_joinItems (hlead : IsPassed lead) (items : List Json)
    (h : ∀ j ∈ items, ScansAs (write j) (lexemesOf j)) : ScansAs (joinItems lead write items) (itemLexemes items) := by
  induction items with
  | nil => exact fun rest _ => rfl
  | cons j items ih =>
    have hj : ScansAs (write j) (lexemesOf j) := h j (List.mem_cons_self ..)
    intro rest hrest
    cases items with
    | nil =>
      simp only [joinItems, itemLexemes, List.append_assoc]
      rw [hlead, hj rest hrest]
    | cons k items =>
      -- an item that is a number ends in front of the comma
      have hitems := ih (fun i hi => h i (List.mem_cons_of_mem _ hi)) rest hrest
      have hcomma := endsNumeral_mark ',' (joinItems lead write (k :: items) ++ rest) (.inl rfl)
      have hmark := (scan_mark (joinItems lead write (k :: items) ++ rest)).2.2.2.2.1
      simp only [joinItems, itemLexemes, List.append_assoc, List.cons_append]
      rw [hlead, hj _ hcomma, hmark, hitems]

theorem scansAs_joinMembers (hlead : IsPassed lead) (hgap : IsPassed gap) (members : List (String × Json))
    (h : ∀ m ∈ members, ScansAs (write m.2) (lexemesOf m.2)) :
    ScansAs (joinMembers lead gap write members) (memberLexemes members) := by
  have hcolon (cs : List Char) : scan .between (':' :: (gap ++ cs)) = .colon :: scan .between cs := by
    rw [(scan_mark _).2.2.2.2.2, hgap]
  induction members with
  | nil => exact fun rest _ => rfl
  | cons m members ih =>
    obtain ⟨k, j⟩ := m
    have hj : ScansAs (write j) (lexemesOf j) := h (k, j) (List.mem_cons_self ..)
    intro rest hrest
    cases members with
    | nil =>
      simp only [joinMembers, memberLexemes, List.append_assoc, List.cons_append]
      rw [hlead, scan_stringChars, hcolon, hj rest hrest]
    | cons m members =>
      have hmembers := ih (fun i hi => h i (List.mem_cons_of_mem _ hi)) rest hrest
      have hcomma := endsNumeral_mark ',' (joinMembers lead gap write (m :: members) ++ rest) (.inl rfl)
      have hmark := (scan_mark (joinMembers lead gap write (m :: members) ++ rest)).2.2.2.2.1
      simp only [joinMembers, memberLexemes, List.append_assoc, List.cons_append]
      rw [hlead, scan_stringChars, hcolon, hj _ hcomma, hmark, hmembers]

end Join

theorem isPassed_nil : IsPassed [] := fun _ => rfl

theorem compactItems_eq_join (items : List Json) : compactItems items = joinItems [] compactChars items := by
  induction items with
  | nil => rfl
  | cons j items ih =>
    cases items with
    | nil => rfl
    | cons k items => exact congrArg (compactChars j ++ ',' :: ·) ih

theorem compactMembers_eq_join (members : List (String × Json)) :
    compactMembers members = joinMembers [] [] compactChars members := by
  induction members with
  | nil => rfl
  | cons m members ih =>
    cases members with
    | nil => rfl
    | cons n members => exact congrArg (stringChars m.1 ++ ':' :: compactChars m.2 ++ ',' :: ·) ih

theorem scansAs_compactChars {depth : Nat} {j : Json} (h : IsWritable depth j) :
    ScansAs (compactChars j) (lexemesOf j) := by
  induction h with
  | null => exact fun rest _ => scan_wordChars none rest
  | bool b => exact fun rest _ => scan_wordChars (some b) rest
  | int n hmin hmax => exact fun rest hrest => scan_decimal n hmin hmax rest hrest
  | str s => exact fun rest _ => scan_stringChars s rest
  | array items _ ih =>
    intro rest _
    have hclose := endsNumeral_mark ']' rest (.inr (.inl rfl))
    simp only [compactChars, lexemesOf, List.append_assoc, List.cons_append, List.nil_append]
    rw [(scan_mark _).1, compactItems_eq_join, scansAs_joinItems isPassed_nil items ih _ hclose, (scan_mark _).2.1]
  | object members _ ih =>
    intro rest _
    have hclose := endsNumeral_mark '\x7d' rest (.inr (.inr rfl))
    simp only [compactChars, lexemesOf, List.append_assoc, List.cons_append, List.nil_append]
    rw [(scan_mark _).2.2.1, compactMembers_eq_join, scansAs_joinMembers isPassed_nil isPassed_nil members ih _ hclose,
      (scan_mark _).2.2.2.1]

/-! ## Reading the lexemes -/

theorem run_of_step {rules : Rules} {r r' : Reader} {l : Lexeme} (h : r.step rules l = .ok r') (ms : List Lexeme) :
    r.run rules (l :: ms) = r'.run rules ms := by
  simp only [Reader.run, h]

section Reading

variable (rules : Rules)

/-- the lexemes are read as the value inside the frames, whatever follows -/
def ReadsAs (frames : List Frame) (ls : List Lexeme) (j : Json) : Prop :=
  ∀ ms, (Reader.value frames).run rules (ls ++ ms) = (Reader.after j frames).run rules ms

/-- the first item of an array is read like any other, for no value begins with the end of an array -/
theorem run_firstItem (j : Json) (items : List Json) (frames : List Frame) (ms : List Lexeme) :
    (Reader.firstItem frames).run rules (itemLexemes (j :: items) ++ ms) =
      (Reader.value (.array [] :: frames)).run rules (itemLexemes (j :: items) ++ ms) := by
  cases items <;> cases j <;> rfl

/-- the rest of an array, from an item on -/
theorem run_itemLexemes (frames : List Frame) (items : List Json) (j : Json) (before : List Json)
    (h : ∀ i ∈ j :: items, ∀ before, ReadsAs rules (.array before :: frames) (lexemesOf i) i) (ms : List Lexeme) :
    (Reader.value (.array before :: frames)).run rules (itemLexemes (j :: items) ++ .closeArray :: ms) =
      (Reader.after (.array (before.reverse ++ j :: items)) frames).run rules ms := by
  induction items generalizing j before with
  | nil =>
    rw [itemLexemes, h j (List.mem_cons_self ..) before, run_of_step rfl, List.reverse_cons]
  | cons k items ih =>
    have hk := ih k (j :: before) fun i hi => h i (List.mem_cons_of_mem _ hi)
    simp only [itemLexemes, List.append_assoc, List.cons_append]
    rw [h j (List.mem_cons_self ..) before, run_of_step rfl, hk, List.reverse_cons, List.append_assoc,
      List.singleton_append]

/-- without embedded texts every key is a key -/
theorem step_nextKey (hunfold : rules.unfold = none) (before : List (String × Json)) (frames : List Frame)
    (k : String) :
    (Reader.nextKey before frames).step rules (.string k) = .ok (.colon k before frames) := by
  cases before with
  | nil => simp [Reader.step, Reader.firstKey, hunfold]
  | cons m before => rfl

/-- the rest of an object, from a key on -/
theorem run_memberLexemes (hunfold : rules.unfold = none) (frames : List Frame) (members : List (String × Json))
    (m : String × Json) (before : List (String × Json))
    (h : ∀ i ∈ m :: members, ∀ before, ReadsAs rules (.object before i.1 :: frames) (lexemesOf i.2) i.2)
    (ms : List Lexeme) :
    (Reader.nextKey before frames).run rules (memberLexemes (m :: members) ++ .closeObject :: ms) =
      (Reader.after (.object (before.reverse ++ m :: members)) frames).run rules ms := by
  induction members generalizing m before with
  | nil =>
    simp only [memberLexemes, List.cons_append]
    rw [run_of_step (step_nextKey rules hunfold before frames m.1), run_of_step rfl,
      h m (List.mem_cons_self ..) before, run_of_step rfl, List.reverse_cons]
  | cons n members ih =>
    have hn := ih n (m :: before) fun i hi => h i (List.mem_cons_of_mem _ hi)
    simp only [memberLexemes, List.append_assoc, List.cons_append]
    rw [run_of_step (step_nextKey rules hunfold before frames m.1), run_of_step rfl,
      h m (List.mem_cons_self ..) before, run_of_step rfl, hn, List.reverse_cons, List.append_assoc,
      List.singleton_append]

/-- the lexemes of a value are read as the value where the rules admit the nesting that it needs -/
theorem readsAs_lexemesOf (hunfold : rules.unfold = none) {depth : Nat} {j : Json} (h : IsWritable depth j)
    (frames : List Frame) (hdepth : ∀ n ≤ frames.length + depth, rules.admitsDepth n = true) :
    ReadsAs rules frames (lexemesOf j) j := by
  induction h generalizing frames with
  | null => exact run_of_step rfl
  | bool b => exact run_of_step rfl
  | int n hmin hmax => exact run_of_step rfl
  | str s => exact run_of_step rfl
  | @array depth items _ ih =>
    have hinside (before : List Json) (n : Nat) (hn : n ≤ (Frame.array before :: frames).length + depth) :
        rules.admitsDepth n = true := hdepth n (by simp only [List.length_cons] at hn; omega)
    have hopen : (Reader.value frames).step rules .openArray = .ok (.firstItem frames) :=
      if_pos (hdepth _ (by omega))
    intro ms
    simp only [lexemesOf, List.append_assoc, List.cons_append, List.nil_append]
    rw [run_of_step hopen]
    cases items with
    | nil => exact run_of_step rfl ms
    | cons i items =>
      rw [run_firstItem]
      exact run_itemLexemes rules frames items i [] (fun i hi before => ih i hi _ (hinside before)) ms
  | @object depth members _ ih =>
    have hinside (before : List (String × Json)) (k : String) (n : Nat)
        (hn : n ≤ (Frame.object before k :: frames).length + depth) : rules.admitsDepth n = true :=
      hdepth n (by simp only [List.length_cons] at hn; omega)
    have hopen : (Reader.value frames).step rules .openObject = .ok (.nextKey [] frames) :=
      if_pos (hdepth _ (by omega))
    intro ms
    simp only [lexemesOf, List.append_assoc, List.cons_append, List.nil_append]
    rw [run_of_step hopen]
    cases members with
    | nil => exact run_of_step rfl ms
    | cons m members =>
      exact run_memberLexemes rules hunfold frames members m [] (fun m hm before => ih m hm _ (hinside before m.1)) ms

end Reading

/-! ## Whole texts -/

/-- a value is read from characters that are scanned as its lexemes, with nothing but blanks behind them -/
theorem readBy_of_scansAs (rules : Rules) (hunfold : rules.unfold = none) {depth : Nat} {j : Json}
    (h : IsWritable depth j) (hdepth : ∀ n ≤ depth, rules.admitsDepth n = true) {cs : List Char}
    (hscan : ScansAs cs (lexemesOf j)) {rest : List Char} (hends : EndsNumeral rest)
    (hblank : scan .between rest = []) :
    readBy rules (String.ofList (cs ++ rest)) = .ok j := by
  have hread := readsAs_lexemesOf rules hunfold h [] (by simpa using hdepth) []
  simp only [readBy, lexemes, String.toList_ofList, hscan rest hends, hblank, hread]
  rfl

theorem readBy_compact (rules : Rules) (hunfold : rules.unfold = none) {depth : Nat} {j : Json}
    (h : IsWritable depth j) (hdepth : ∀ n ≤ depth, rules.admitsDepth n = true) :
    readBy rules (compact j) = .ok j := by
  simpa [compact] using readBy_of_scansAs rules hunfold h hdepth (scansAs_compactChars h) endsNumeral_nil rfl

theorem read_compact {j : Json} (h : IsWritable 127 j) : read (compact j) = .ok j :=
  readBy_compact .strict rfl h fun _ hn => decide_eq_true (Nat.lt_succ_of_le hn)

theorem readOuter_compact {depth : Nat} {j : Json} (h : IsWritable depth j) : readOuter (compact j) = .ok j :=
  readBy_compact .outer rfl h fun _ _ => rfl

end AccessRules.Json
