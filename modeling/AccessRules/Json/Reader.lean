/-
Reading JSON: one value with blanks around it and nothing else. The reader goes lexeme by lexeme; its state says what
may come next, and the frames say in which arrays and objects that is.

A broken lexeme counts as what it began as: where that may stand, its own fault is the fault of the text; anywhere
else it is out of place.

There are three ways to read a text:
- `read` takes the grammar as it is, with less than 128 arrays and objects around any place;
- `readOuter` is for readers who look at the outermost array or object alone: inside of it every nesting is admitted,
  and so are lexemes that stand for nothing;
- `readUnfolding` also unfolds embedded texts: an object with a key of its own in front stands for the value of the
  JSON text under that key.

- `Reader.run_append`: reading in two parts is reading on from the first part's state.
- `readUnfolding_eq_read`: a text that never spells the key of embedded texts is read by the grammar as it is.
-/
import AccessRules.Json.Lexeme

namespace AccessRules.Json

/-! ## Rules -/

/-- what a reader lets pass -/
structure Rules where
  /-- the nesting at which a text is refused, if there is one -/
  depthLimit : Option Nat
  /-- whether an unsound lexeme passes that far inside -/
  passesUnsound : Nat → Bool
  /-- the value of an embedded text, when such texts are unfolded -/
  unfold : Option (String → Option Json)

namespace Rules

/-- the grammar as it is -/
def strict : Rules := ⟨some 128, fun _ => false, none⟩

/-- only the outermost array or object matters -/
def outer : Rules := ⟨none, fun depth => 0 < depth, none⟩

/-- the grammar with embedded texts -/
def unfolding (valueOf : String → Option Json) : Rules := { strict with unfold := some valueOf }

/-- so many arrays and objects may be open -/
def admitsDepth (r : Rules) (depth : Nat) : Bool := r.depthLimit.all fun limit => depth < limit

end Rules

/-- the key in front of an embedded text -/
def embeddedKey : String := "$serde_json::private::RawValue"

/-! ## States -/

/-- an array or object that is still open around the value to come; what it holds is kept newest first -/
inductive Frame where
  | array (before : List Json)
  | object (before : List (String × Json)) (key : String)

/-- what may come next -/
inductive Reader where
  /-- a value -/
  | value (frames : List Frame)
  /-- the first item of an array, or its end -/
  | firstItem (frames : List Frame)
  /-- a key, or, when there is no member yet, the end of the object -/
  | nextKey (before : List (String × Json)) (frames : List Frame)
  /-- the colon after a key -/
  | colon (key : String) (before : List (String × Json)) (frames : List Frame)
  /-- the colon before an embedded text -/
  | embeddedColon (valueOf : String → Option Json) (frames : List Frame)
  /-- an embedded text -/
  | embeddedText (valueOf : String → Option Json) (frames : List Frame)
  /-- the end of the object that holds an embedded text -/
  | embeddedEnd (j : Json) (frames : List Frame)
  /-- what follows a complete value -/
  | after (j : Json) (frames : List Frame)

namespace Reader

/-- the lexeme has to begin a value -/
def beginValue (rules : Rules) (frames : List Frame) : Lexeme → Except Fault Reader
  | .scalar j => .ok (.after j frames)
  | .string s => .ok (.after (.str s) frames)
  | .unsound _ => if rules.passesUnsound frames.length then .ok (.after .null frames) else .error .malformed
  | .openArray => if rules.admitsDepth (frames.length + 1) then .ok (.firstItem frames) else .error .malformed
  | .openObject => if rules.admitsDepth (frames.length + 1) then .ok (.nextKey [] frames) else .error .malformed
  | .broken _ fault => .error fault
  | _ => .error .malformed

/-- the first key of an object -/
def firstKey (rules : Rules) (key : String) (frames : List Frame) : Reader :=
  match rules.unfold with
  | some valueOf => if key = embeddedKey then .embeddedColon valueOf frames else .colon key [] frames
  | none => .colon key [] frames

/-- read one lexeme -/
def step (rules : Rules) : Reader → Lexeme → Except Fault Reader
  | .value frames, l => beginValue rules frames l
  | .firstItem frames, .closeArray => .ok (.after (.array []) frames)
  | .firstItem frames, l => beginValue rules (.array [] :: frames) l
  | .nextKey [] frames, .string s => .ok (firstKey rules s frames)
  | .nextKey before frames, .string s => .ok (.colon s before frames)
  | .nextKey [] frames, .closeObject => .ok (.after (.object []) frames)
  | .nextKey before frames, .unsound .string =>
    if rules.passesUnsound frames.length then .ok (.colon "" before frames) else .error .malformed
  | .nextKey _ _, .broken .string fault => .error fault
  | .colon key before frames, .colon => .ok (.value (.object before key :: frames))
  | .embeddedColon valueOf frames, .colon => .ok (.embeddedText valueOf frames)
  | .embeddedText valueOf frames, .string s =>
    match valueOf s with
    | some j => .ok (.embeddedEnd j frames)
    | none => .error .malformed
  | .embeddedText _ _, .broken _ fault => .error fault
  | .embeddedEnd j frames, .closeObject => .ok (.after j frames)
  | .after j (.array before :: frames), .comma => .ok (.value (.array (j :: before) :: frames))
  | .after j (.array before :: frames), .closeArray => .ok (.after (.array (j :: before).reverse) frames)
  | .after j (.object before key :: frames), .comma => .ok (.nextKey ((key, j) :: before) frames)
  | .after j (.object before key :: frames), .closeObject =>
    .ok (.after (.object ((key, j) :: before).reverse) frames)
  | _, _ => .error .malformed

/-- read lexemes one after another, up to the first that is out of place -/
def run (rules : Rules) : Reader → List Lexeme → Except Fault Reader
  | r, [] => .ok r
  | r, l :: ls =>
    match r.step rules l with
    | .ok r => run rules r ls
    | .error e => .error e

/-- the value, when it is complete -/
def finish : Reader → Except Fault Json
  | .after j [] => .ok j
  | _ => .error .endsEarly

theorem run_append (rules : Rules) (r : Reader) (ls ms : List Lexeme) :
    r.run rules (ls ++ ms) = match r.run rules ls with
      | .ok r => r.run rules ms
      | .error e => .error e := by
  induction ls generalizing r with
  | nil => rfl
  | cons l ls ih =>
    simp only [List.cons_append, run]
    cases r.step rules l with
    | ok r => exact ih r
    | error e => rfl

/-- in the middle of an embedded text -/
def isEmbedded : Reader → Bool
  | .embeddedColon .. | .embeddedText .. | .embeddedEnd .. => true
  | _ => false

theorem isEmbedded_of_step_strict {r r' : Reader} (l : Lexeme) (hr : r.isEmbedded = false)
    (h : r.step .strict l = .ok r') : r'.isEmbedded = false := by
  unfold step beginValue at h
  repeat' split at h
  all_goals cases h
  all_goals first | rfl | cases hr

theorem step_unfolding (valueOf : String → Option Json) {r : Reader} {l : Lexeme} (hr : r.isEmbedded = false)
    (hl : l ≠ .string embeddedKey) : r.step (.unfolding valueOf) l = r.step .strict l := by
  have hkey (key : String) (h : l = .string key) : key ≠ embeddedKey := fun he => hl (he ▸ h)
  unfold step
  split <;> try rfl
  simp [firstKey, Rules.unfolding, Rules.strict, hkey]

theorem run_unfolding (valueOf : String → Option Json) {r : Reader} {ls : List Lexeme} (hr : r.isEmbedded = false)
    (hls : .string embeddedKey ∉ ls) : r.run (.unfolding valueOf) ls = r.run .strict ls := by
  induction ls generalizing r with
  | nil => rfl
  | cons l ls ih =>
    have hl : l ≠ .string embeddedKey := fun he => hls (he ▸ List.mem_cons_self ..)
    rw [run, run, step_unfolding valueOf hr hl]
    cases hstep : r.step .strict l with
    | ok r' => exact ih (isEmbedded_of_step_strict l hr hstep) fun hmem => hls (List.mem_cons_of_mem _ hmem)
    | error e => rfl

end Reader

/-! ## Texts -/

/-- the value of a text under given rules -/
def readBy (rules : Rules) (text : String) : Except Fault Json :=
  match (Reader.value []).run rules (lexemes text) with
  | .ok r => r.finish
  | .error e => .error e

/-- the value of a JSON text -/
def read (text : String) : Except Fault Json := readBy .strict text

/-- the value of a JSON text whose outermost array or object alone is looked at -/
def readOuter (text : String) : Except Fault Json := readBy .outer text

/-- the value of a JSON text with embedded texts in it, at most `depth` inside one another -/
def readUnfoldingTo : Nat → String → Except Fault Json
  | 0 => readBy (.unfolding fun _ => none)
  | depth + 1 => readBy (.unfolding fun s => (readUnfoldingTo depth s).toOption)

/-- the value of a JSON text with embedded texts in it; each of them is shorter than the text around it -/
def readUnfolding (text : String) : Except Fault Json := readUnfoldingTo text.length text

/-- the value of a JSON text, taken as a type -/
def readAs? {α : Type} (ofJson? : Json → Option α) (text : String) : Option α := (read text).toOption.bind ofJson?

theorem readUnfolding_eq_read (text : String) (h : .string embeddedKey ∉ lexemes text) :
    readUnfolding text = read text := by
  have hby (valueOf : String → Option Json) : readBy (.unfolding valueOf) text = read text := by
    rw [readBy, Reader.run_unfolding valueOf rfl h]
    rfl
  rw [readUnfolding]
  cases text.length with
  | zero => exact hby _
  | succ depth => exact hby _

end AccessRules.Json
