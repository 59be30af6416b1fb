/-
What a fact file loads as. A text loads exactly when it is JSON in the format of fact files, and gives every name what
its member describes: nothing, a literal, or the table of its operations.

- `valueOfJson_eq_ok_iff`, `describes_of_valueOfJson`: the value of a name.
- `extend_eq_ok_iff`: names one after another.
- `ofText_loads_exactly`: which texts load, and as what.
-/
import Mathlib.Tactic
import AccessRules.Proofs.FactTable.Loading

namespace AccessRules

namespace FactFile

/-- a member of a file and the value of its name: `null` and the absent value, a literal and the same literal, an object
and the table that lists its operations -/
inductive Describes (name : String) : Json → Value FactTable → Prop where
  | null : Describes name .null .absent
  | literal (t : Token) : Describes name t.toJson (.ofToken t)
  | table (operations : List (String × Json)) (t : FactTable) (h : t.Lists name operations) :
    Describes name (.object operations) (.object t)

/-- every name has the value that its last member describes, and there are no other names -/
def IsDescribedBy (b : Binding FactTable) (members : List (String × Json)) : Prop :=
  ∀ name, Option.Rel (Describes name) (Dict.lastFor name members) (b.get? name)

theorem Describes.object {name : String} {j : Json} {t : FactTable} (h : Describes name j (.object t)) :
    ∃ operations, j = .object operations ∧ t.Lists name operations := by
  generalize hv : Value.object t = v at h
  cases h with
  | null => cases hv
  | literal u => cases u <;> cases hv
  | table operations u hl =>
    cases hv
    exact ⟨operations, rfl, hl⟩

theorem Describes.table_of_object {name : String} {operations : List (String × Json)} {v : Value FactTable}
    (h : Describes name (.object operations) v) : ∃ t : FactTable, v = .object t ∧ t.Lists name operations := by
  generalize hj : Json.object operations = j at h
  cases h with
  | null => cases hj
  | literal t => cases t <;> cases hj
  | table operations' t hl =>
    cases hj
    exact ⟨t, rfl, hl⟩

theorem Describes.absent_of_null {name : String} {v : Value FactTable} (h : Describes name .null v) : v = .absent := by
  generalize hj : Json.null = j at h
  cases h with
  | null => rfl
  | literal t => cases t <;> cases hj
  | table operations t hl => cases hj

theorem Describes.literal_of_toJson {name : String} {t : Token} {v : Value FactTable}
    (h : Describes name t.toJson v) : v = .ofToken t := by
  generalize hj : t.toJson = j at h
  cases h with
  | null => cases t <;> cases hj
  | literal u => rw [Token.toJson_inj hj]
  | table operations t' hl => cases t <;> cases hj

/-- apart from `null` and objects, a value is a literal or no entry -/
theorem valueOfJson_of_scalar (name : String) (j : Json) (hnull : j ≠ .null)
    (hobject : ∀ members, j ≠ .object members) :
    (∃ t : Token, j = t.toJson ∧ valueOfJson name j = .ok (.ofToken t)) ∨
      valueOfJson name j = .error (.invalidEntry name .notEntry) := by
  cases ht : Token.ofJson? j with
  | some t =>
    obtain rfl := Token.ofJson?_eq_some ht
    exact .inl ⟨t, rfl, valueOfJson_literal name t⟩
  | none =>
    refine .inr ?_
    cases j with
    | null => exact absurd rfl hnull
    | object members => exact absurd rfl (hobject members)
    | _ => simp only [valueOfJson, ht]

theorem valueOfJson_eq_ok_iff (name : String) (j : Json) (v : Value FactTable) :
    valueOfJson name j = .ok v ↔ (j = .null ∧ v = .absent) ∨ (∃ t : Token, j = t.toJson ∧ v = .ofToken t) ∨
      ∃ operations t, j = .object operations ∧ v = .object t ∧
        (FactTable.new name).ofMembers (Json.settle operations) = .ok t := by
  have hscalar := valueOfJson_of_scalar name j
  constructor
  · intro h
    cases j with
    | null => exact .inl ⟨rfl, (Except.ok.inj h).symm⟩
    | object operations =>
      obtain ⟨t, ht, rfl⟩ := (FactTable.map_eq_ok_iff _ _ _).1 h
      exact .inr (.inr ⟨operations, t, rfl, rfl, ht⟩)
    | _ =>
      obtain ⟨t, hj, hv⟩ | he := hscalar (by simp) (by simp)
      · exact .inr (.inl ⟨t, hj, Except.ok.inj (h.symm.trans hv)⟩)
      · cases h.symm.trans he
  · rintro (⟨rfl, rfl⟩ | ⟨t, rfl, rfl⟩ | ⟨operations, t, rfl, rfl, ht⟩)
    · rfl
    · exact valueOfJson_literal name t
    · exact (FactTable.map_eq_ok_iff _ _ _).2 ⟨t, ht, rfl⟩

theorem describes_of_valueOfJson (name : String) (j : Json) (v : Value FactTable) (h : valueOfJson name j = .ok v) :
    Describes name j v := by
  obtain ⟨rfl, rfl⟩ | ⟨t, rfl, rfl⟩ | ⟨operations, t, rfl, rfl, ht⟩ := (valueOfJson_eq_ok_iff name j v).1 h
  · exact .null
  · exact .literal t
  · exact .table operations t (FactTable.lists_of_ofMembers name operations t ht)

theorem valueOfJson_isOk_iff (name : String) (j : Json) : (∃ v, valueOfJson name j = .ok v) ↔ IsEntry j := by
  simp only [valueOfJson_eq_ok_iff]
  constructor
  · rintro ⟨v, ⟨rfl, -⟩ | ⟨t, rfl, -⟩ | ⟨operations, t, rfl, -, ht⟩⟩
    · trivial
    · have hliteral := (isLiteral_iff t.toJson).2 ⟨t, t.ofJson?_toJson⟩
      cases t <;> exact hliteral
    · exact (FactTable.ofMembers_isOk_iff _ operations).1 ⟨t, ht⟩
  · intro h
    have hliteral (h : IsLiteral j) : ∃ t : Token, j = t.toJson := by
      obtain ⟨t, ht⟩ := (isLiteral_iff j).1 h
      exact ⟨t, Token.ofJson?_eq_some ht⟩
    cases j with
    | null => exact ⟨.absent, .inl ⟨rfl, rfl⟩⟩
    | object operations =>
      obtain ⟨t, ht⟩ := (FactTable.ofMembers_isOk_iff (FactTable.new name) operations).2 h
      exact ⟨.object t, .inr (.inr ⟨operations, t, rfl, rfl, ht⟩)⟩
    | _ =>
      obtain ⟨t, ht⟩ := hliteral h
      exact ⟨.ofToken t, .inr (.inl ⟨t, ht, rfl⟩)⟩

theorem extend_eq_ok_iff (b : Binding FactTable) (members : List (String × Json)) (d : Binding FactTable) :
    extend b members = .ok d ↔ ∃ entries,
      List.Forall₂ (LoadsAs fun name j v => valueOfJson name j = .ok v) members entries ∧ d = b.extend entries := by
  refine LoadsAs.ok_iff extend Binding.extend (fun _ => rfl) (fun b m members v h => ?_) (fun b m members d h => ?_)
    (fun _ _ _ => rfl) b members d
  · simp only [extend, h]
    rfl
  · rw [extend] at h
    split at h
    · cases h
    · exact ⟨_, ‹_›⟩

/-! ## Files -/

/-- the members of a file load exactly when each of them is an entry -/
theorem ofJson_isOk_iff (j : Json) : (∃ b, ofJson j = .ok b) ↔ IsFacts j := by
  cases j with
  | object members =>
    constructor
    · rintro ⟨b, h⟩ name j hj
      obtain ⟨entries, hentries, -⟩ := (extend_eq_ok_iff _ _ _).1 h
      have hmem := (Json.mem_settle_iff members name j).2 hj
      exact (valueOfJson_isOk_iff name j).1 ((LoadsAs.exists_iff _ _).1 ⟨entries, hentries⟩ _ hmem)
    · intro h
      obtain ⟨entries, hentries⟩ := (LoadsAs.exists_iff (fun name j v => valueOfJson name j = .ok v)
        (Json.settle members)).2 fun m hm =>
          (valueOfJson_isOk_iff m.1 m.2).2 (h m.1 m.2 ((Json.mem_settle_iff _ _ _).1 hm))
      exact ⟨_, (extend_eq_ok_iff _ _ _).2 ⟨entries, hentries, rfl⟩⟩
  | _ => exact ⟨nofun, False.elim⟩

theorem describes_of_ofJson (j : Json) (b : Binding FactTable) (h : ofJson j = .ok b) :
    ∃ members, j = .object members ∧ b.names = (Json.settle members).map Prod.fst ∧
      IsDescribedBy b members := by
  cases j with
  | object members =>
    obtain ⟨entries, hentries, rfl⟩ := (extend_eq_ok_iff _ _ _).1 h
    have hkeys := LoadsAs.keys_eq hentries
    have hnodup : (entries.map Prod.fst).Nodup := hkeys ▸ Json.nodup_keys_settle members
    have hvalues : (Dict.ofList entries).entries = entries := Dict.entries_ofList entries hnodup
    refine ⟨members, rfl, ?_, fun name => ?_⟩
    · have heq : (Dict.ofList entries).keys = (Json.settle members).map Prod.fst := by
        rw [Dict.keys, hvalues, hkeys]
      exact heq
    · have hfind := LoadsAs.find_rel hentries name
      rw [Json.find_settle] at hfind
      have hget : (Binding.empty.extend entries).get? name = Dict.find name (Dict.ofList entries).entries := rfl
      rw [hget, hvalues]
      generalize Dict.lastFor name members = j? at hfind ⊢
      generalize Dict.find name entries = v? at hfind ⊢
      cases hfind with
      | none => exact .none
      | some hv => exact .some (describes_of_valueOfJson name _ _ hv)
  | _ => cases h

/-! ## Faults -/

theorem valueOfJson_error (name : String) (j : Json) (e : FactsError) (h : valueOfJson name j = .error e) :
    ∃ name fault, e = .invalidEntry name fault := by
  have hscalar := valueOfJson_of_scalar name j
  cases j with
  | null => cases h
  | object operations =>
    cases ht : (FactTable.new name).ofMembers (Json.settle operations) with
    | ok t =>
      rw [valueOfJson, ht] at h
      cases h
    | error e' =>
      rw [valueOfJson, ht] at h
      rw [← Except.error.inj h]
      exact FactTable.ofMembers_error _ _ e' ht
  | _ =>
    obtain ⟨t, -, hv⟩ | he := hscalar (by simp) (by simp)
    · cases h.symm.trans hv
    · exact ⟨name, .notEntry, Except.error.inj (h.symm.trans he)⟩

theorem extend_error (b : Binding FactTable) (members : List (String × Json)) (e : FactsError)
    (h : extend b members = .error e) : ∃ name fault, e = .invalidEntry name fault := by
  induction members generalizing b with
  | nil => cases h
  | cons m members ih =>
    rw [extend] at h
    split at h
    · rename_i hv
      rw [← Except.error.inj h]
      exact valueOfJson_error m.1 m.2 _ hv
    · exact ih _ h

theorem ofJson_error (j : Json) (e : FactsError) (h : ofJson j = .error e) :
    ∃ name fault, e = .invalidEntry name fault := by
  cases j with
  | object members => exact extend_error _ _ e h
  | _ => exact ⟨_, _, (Except.error.inj h).symm⟩

theorem ofText_of_json (text : String) (j : Json) (h : Json.readUnfolding text = .ok j) : ofText text = ofJson j := by
  rw [ofText, h]

theorem ofText_eq_notJson_iff (text : String) (fault : Json.Fault) :
    ofText text = .error (.notJson fault) ↔ Json.readUnfolding text = .error fault := by
  cases hj : Json.readUnfolding text with
  | error fault' =>
    rw [ofText, hj]
    simp
  | ok j =>
    rw [ofText_of_json text j hj]
    refine ⟨fun h => ?_, nofun⟩
    obtain ⟨name, entryFault, he⟩ := ofJson_error j _ h
    cases he

/-! ## Texts -/

theorem isDescribedBy_of_ofText (text : String) (b : Binding FactTable) (h : ofText text = .ok b) :
    ∃ members, Json.readUnfolding text = .ok (.object members) ∧
      b.names = (Json.settle members).map Prod.fst ∧ IsDescribedBy b members := by
  cases hj : Json.readUnfolding text with
  | error fault =>
    rw [ofText, hj] at h
    cases h
  | ok j =>
    rw [ofText_of_json text j hj] at h
    obtain ⟨members, rfl, hdescribed⟩ := describes_of_ofJson j b h
    exact ⟨members, rfl, hdescribed⟩

/-- **Which texts load, and as what.** The grammar is that of JSON, but for texts that spell the key of embedded texts.
A text that is no JSON is refused as such, and no other is. A JSON value loads exactly when it is in the format of fact
files. What loads has the keys as its names, in ascending order of their bytes, each with the value that its last member
describes: nothing, the literal, or the table that has the key as its name and lists its operations in that order, too,
with all their rows, which are of one length. Such a table is also what comes of its facts one by one, unless one of its
operations has no row. -/
theorem ofText_loads_exactly (text : String) :
    (.string Json.embeddedKey ∉ Json.lexemes text → Json.readUnfolding text = Json.read text) ∧
    (∀ fault, ofText text = .error (.notJson fault) ↔ Json.readUnfolding text = .error fault) ∧
    (∀ j, Json.readUnfolding text = .ok j → ((∃ b, ofText text = .ok b) ↔ IsFacts j)) ∧
    ∀ b, ofText text = .ok b → ∃ members, Json.readUnfolding text = .ok (.object members) ∧
      (∀ name, name ∈ b.names ↔ name ∈ members.map Prod.fst) ∧
      (b.names.Pairwise fun s t => Text.bytes s < Text.bytes t) ∧
      IsDescribedBy b members ∧
      ∀ name t, b.get? name = some (.object t) →
        (t.sameAs ((FactTable.new name).addFacts (FactTable.factsOf t.rows.entries)) = true ↔
          ∀ operation rows, t.rows.get? operation = some rows → rows ≠ []) := by
  refine ⟨Json.readUnfolding_eq_read text, ofText_eq_notJson_iff text, ?_, ?_⟩
  · intro j hj
    rw [ofText_of_json text j hj]
    exact ofJson_isOk_iff j
  · intro b hb
    obtain ⟨members, hread, hnames, hdescribed⟩ := isDescribedBy_of_ofText text b hb
    refine ⟨members, hread, ?_, hnames ▸ ascending_bytes_settle members, hdescribed, ?_⟩
    · intro name
      rw [hnames]
      exact Json.mem_keys_settle_iff members name
    · intro name t ht
      have hrel := hdescribed name
      rw [ht] at hrel
      generalize Dict.lastFor name members = j? at hrel
      cases hrel with
      | some h =>
        obtain ⟨operations, -, hl⟩ := h.object
        rw [← hl.name_eq]
        exact t.sameAs_addFacts_iff

/-- a file with a table and a name that is absent -/
def doorFile : String :=
  "\x7b\"guest\": null, \"door\": \x7b\"admits\": [[\"ann\", 10], [\"bob\", true]], \"shuts\": []\x7d\x7d"

/-- a file with argument lists of two lengths -/
def unevenFile : String := "\x7b\"door\": \x7b\"admits\": [[\"ann\"], [\"bob\", 10]]\x7d\x7d"

/-- the door shuts for nobody, so that its facts alone do not make it; the second file is JSON and does not load, and a
text that breaks off is no JSON -/
theorem doorFile_loads :
    (∃ b t, ofText doorFile = .ok b ∧ (b.names.Pairwise fun s t => Text.bytes s < Text.bytes t) ∧
      b.get? "door" = some (.object t) ∧ t.rows.keys = ["admits", "shuts"] ∧
      ¬ t.sameAs ((FactTable.new "door").addFacts (FactTable.factsOf t.rows.entries)) = true) ∧
    (¬ ∃ b, ofText unevenFile = .ok b) ∧ Json.readUnfolding "[1" = Json.read "[1" ∧
    ofText "[1" = .error (.notJson .endsEarly) := by
  refine ⟨?_, ?_, ?_, ?_⟩
  · obtain ⟨-, -, -, hloads⟩ := ofText_loads_exactly doorFile
    obtain ⟨members, -, -, hnames, -, hfacts⟩ := hloads _ rfl
    refine ⟨_, _, rfl, hnames, rfl, rfl, fun hsame => ?_⟩
    exact (hfacts "door" _ rfl).1 hsame "shuts" [] rfl rfl
  · obtain ⟨-, -, hformat, -⟩ := ofText_loads_exactly unevenFile
    intro hloads
    obtain ⟨length, hrows⟩ := (hformat _ rfl).1 hloads "door" _ rfl "admits" _ rfl
    have hann := (hrows (.array [.str "ann"]) List.mem_cons_self).1
    have hbob := (hrows (.array [.str "bob", .int 10]) (List.mem_cons_of_mem _ List.mem_cons_self)).1
    cases hann.trans hbob.symm
  · have hlexemes : Json.lexemes "[1" = [.openArray, .scalar (.int 1)] := rfl
    exact (ofText_loads_exactly "[1").1 (by simp [hlexemes])
  · exact ((ofText_loads_exactly "[1").2.1 .endsEarly).2 rfl

end FactFile

end AccessRules
