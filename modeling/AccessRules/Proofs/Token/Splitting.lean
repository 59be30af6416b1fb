/-
Reading splits a text at its delimiters, the blanks and brackets, and does nothing else. What stands before a delimiter
and what stands behind it are read each by itself, and a text without delimiters is one word. So every character but the
blanks comes into one token, and all that blanks do is to keep words apart.

- `tokenize_delimiter`: a text that is split at a delimiter.
- `tokenize_intercalate`: a text that is many texts with a blank between each two.
- `Spelling.flatMap_letters`: the words and brackets of a text hold its characters in their order, all but the blanks.
- `scan_respaced`, `scan_of_respacings`: other blanks in one place, and in any number of places.
- `tokenize_splits`: reading as splitting at delimiters.
-/
import Mathlib.Tactic
import AccessRules.Proofs.Token.WrittenOut
import AccessRules.Rule.Spelling

namespace AccessRules

open Text

/-! ## One delimiter -/

namespace Token

open Rule

theorem tokenize_delimiter (before behind : String) (d : Char) (h : isDelimiter d = true) :
    tokenize (before ++ String.singleton d ++ behind) = tokenize before ++ ofDelimiter d ++ tokenize behind := by
  have hchars : (before ++ String.singleton d ++ behind).toList = before.toList ++ d :: behind.toList := by
    simp [String.toList_append]
  rw [tokenize, hchars, scan_split before.toList behind.toList d h]
  rfl

theorem tokenize_blank (before behind : String) (d : Char) (h : isBlank d = true) :
    tokenize (before ++ String.singleton d ++ behind) = tokenize before ++ tokenize behind := by
  have hdelimiter : isDelimiter d = true := by simp [isDelimiter, h]
  rw [tokenize_delimiter before behind d hdelimiter, ofDelimiter_blank d h, List.append_nil]

/-- texts with a blank between each two are read one after another -/
theorem tokenize_intercalate (d : Char) (h : isBlank d = true) (texts : List String) :
    tokenize (String.intercalate (String.singleton d) texts) = texts.flatMap tokenize := by
  induction texts with
  | nil => rfl
  | cons s texts ih =>
    cases texts with
    | nil => simp
    | cons t texts =>
      rw [String.intercalate_cons_cons, tokenize_blank _ _ d h, ih]
      rfl

end Token

/-! ## Where the characters go -/

namespace Rule

/-- a word with no delimiter in it, or a lone bracket -/
def Piece.IsUndivided : Piece → Prop
  | .word w => w ≠ "" ∧ ∀ c ∈ w.toList, isDelimiter c = false
  | .bracket c => isBracket c = true

theorem Spelling.isUndivided {ps : List Piece} {cs : List Char} (h : Spelling ps cs) : ∀ p ∈ ps, p.IsUndivided := by
  induction h with
  | nil => nofun
  | blank c hc _ ih => exact ih
  | bracket c hc _ ih => exact List.forall_mem_cons.2 ⟨hc, ih⟩
  | word w hw _ _ ih => exact List.forall_mem_cons.2 ⟨(isWord_iff w).1 hw, ih⟩

theorem Spelling.flatMap_letters {ps : List Piece} {cs : List Char} (h : Spelling ps cs) :
    ps.flatMap Piece.letters = cs.filter fun c => !isBlank c := by
  induction h with
  | nil => rfl
  | blank c hc _ ih => rw [ih, List.filter_cons_of_neg (by simp [hc])]
  | bracket c hc _ ih =>
    rw [List.flatMap_cons, ih, List.filter_cons_of_pos (by simp [Token.isBlank_of_isBracket c hc])]
    rfl
  | word w hw _ _ ih =>
    have hletters : (w.toList.filter fun c => !isBlank c) = w.toList := by
      refine List.filter_eq_self.2 fun c hc => ?_
      have hdelimiter := ((isWord_iff w).1 hw).2 c hc
      simp [(Bool.or_eq_false_iff.1 hdelimiter).1]
    rw [List.flatMap_cons, ih, List.filter_append, hletters, Piece.letters]

end Rule

/-! ## Other blanks -/

namespace Token

open Rule

/-- the second text is the first with other blanks in one place: another gap where there was one, or blanks that are new
beside a bracket -/
inductive Respaced : List Char → List Char → Prop where
  | gap (before behind gap other : List Char) (hgap : gap ≠ []) (hother : other ≠ [])
    (hblank : ∀ c ∈ gap ++ other, isBlank c = true) : Respaced (before ++ gap ++ behind) (before ++ other ++ behind)
  | beforeBracket (before behind gap : List Char) (k : Char) (hk : isBracket k = true)
    (hblank : ∀ c ∈ gap, isBlank c = true) : Respaced (before ++ k :: behind) (before ++ gap ++ k :: behind)
  | behindBracket (before behind gap : List Char) (k : Char) (hk : isBracket k = true)
    (hblank : ∀ c ∈ gap, isBlank c = true) : Respaced (before ++ k :: behind) (before ++ k :: (gap ++ behind))

/-- a gap parts what stands before it from what stands behind it -/
theorem scan_across_gap (before gap behind : List Char) (hgap : gap ≠ []) (hblank : ∀ c ∈ gap, isBlank c = true) :
    scan [] (before ++ gap ++ behind) = scan [] before ++ scan [] behind := by
  obtain ⟨c, gap, rfl⟩ := List.exists_cons_of_ne_nil hgap
  obtain ⟨hc, hrest⟩ := List.forall_mem_cons.1 hblank
  have hdelimiter : isDelimiter c = true := by simp [isDelimiter, hc]
  rw [List.append_assoc, List.cons_append, scan_split _ _ c hdelimiter, ofDelimiter_blank c hc, List.append_nil,
    scan_gap gap behind hrest]

theorem scan_respaced {cs ds : List Char} (h : Respaced cs ds) : scan [] cs = scan [] ds := by
  have hdelimiter {k : Char} (hk : isBracket k = true) : isDelimiter k = true := by simp [isDelimiter, hk]
  cases h with
  | gap before behind gap other hgap hother hblank =>
    obtain ⟨hfirst, hsecond⟩ := List.forall_mem_append.1 hblank
    rw [scan_across_gap before gap behind hgap hfirst, scan_across_gap before other behind hother hsecond]
  | beforeBracket before behind gap k hk hblank =>
    by_cases hgap : gap = []
    · rw [hgap, List.append_nil]
    · rw [scan_across_gap before gap _ hgap hblank, scan_split before behind k (hdelimiter hk),
        scan_delimiter [] k behind (hdelimiter hk), ofLetters, List.nil_append, List.append_assoc]
  | behindBracket before behind gap k hk hblank =>
    rw [scan_split before behind k (hdelimiter hk), scan_split before _ k (hdelimiter hk), scan_gap gap behind hblank]

/-- blanks changed in any number of places, back and forth -/
theorem scan_of_respacings {cs ds : List Char} (h : Relation.EqvGen Respaced cs ds) : scan [] cs = scan [] ds := by
  induction h with
  | rel _ _ hstep => exact scan_respaced hstep
  | refl _ => rfl
  | symm _ _ _ ih => exact ih.symm
  | trans _ _ _ _ _ ihcs ihds => exact ihcs.trans ihds

/-! ## The whole of reading -/

/-- **Reading is splitting at delimiters.** A text that is split at any delimiter is read part by part, with the
delimiter as a token between the parts when it is a bracket; a text without delimiters is one word, and none when it is
empty. So a text is words and brackets written down, one for each token: they hold its characters in their order, all
but the blanks, and no word holds a delimiter. Texts that differ in their blanks alone, as far as words stay apart, have
the same tokens. -/
theorem tokenize_splits (rule : String) :
    (∀ (before behind : String) (d : Char), isDelimiter d = true →
      tokenize (before ++ String.singleton d ++ behind) = tokenize before ++ ofDelimiter d ++ tokenize behind) ∧
    (∀ w : String, w ≠ "" → (∀ c ∈ w.toList, isDelimiter c = false) → tokenize w = [ofWord w]) ∧
    tokenize "" = [] ∧
    (∃ ps, Spelling ps rule.toList ∧ tokenize rule = ps.map Piece.token ∧
      ps.flatMap Piece.letters = rule.toList.filter (fun c => !isBlank c) ∧ ∀ p ∈ ps, p.IsUndivided) ∧
    ∀ other : String, Relation.EqvGen Respaced rule.toList other.toList → tokenize other = tokenize rule := by
  refine ⟨tokenize_delimiter, ?_, tokenize_empty, ?_, ?_⟩
  · intro w hne hw
    exact tokenize_word w ((isWord_iff w).2 ⟨hne, hw⟩)
  · obtain ⟨ps, hps⟩ := exists_spelling rule.toList
    exact ⟨ps, hps, scan_of_spelling ps _ hps, hps.flatMap_letters, hps.isUndivided⟩
  · intro other hother
    exact (scan_of_respacings hother).symm

/-- an ideographic blank between two words, a numeral beyond 64 bits, and other blanks in three places -/
theorem tokenize_splits_at_gaps :
    tokenize ("page" ++ String.singleton '\u3000' ++ "allow)") = tokenize "page" ++ [] ++ tokenize "allow)" ∧
    tokenize "9223372036854775808" = [.str "9223372036854775808"] ∧
    tokenize "a\t\t( b )" = [.str "a", .str "(", .str "b", .str ")"] := by
  obtain ⟨hsplit, hword, -, -, hrespaced⟩ := tokenize_splits "a (b)"
  refine ⟨hsplit "page" "allow)" '\u3000' (by decide), ?_, ?_⟩
  · obtain ⟨hne, hletters⟩ := (isWord_iff "9223372036854775808").1 (by decide)
    rw [hword "9223372036854775808" hne hletters]
    decide
  · have hgap : Respaced "a (b)".toList "a\t\t(b)".toList :=
      .gap ['a'] ['(', 'b', ')'] [' '] ['\t', '\t'] nofun nofun (List.all_eq_true.1 (by decide))
    have hbehind : Respaced "a\t\t(b)".toList "a\t\t( b)".toList :=
      .behindBracket ['a', '\t', '\t'] ['b', ')'] [' '] '(' (by decide) (List.all_eq_true.1 (by decide))
    have hbefore : Respaced "a\t\t( b)".toList "a\t\t( b )".toList :=
      .beforeBracket ['a', '\t', '\t', '(', ' ', 'b'] [] [' '] ')' (by decide) (List.all_eq_true.1 (by decide))
    have hsteps := (Relation.EqvGen.rel _ _ hgap).trans _ _ _
      ((Relation.EqvGen.rel _ _ hbehind).trans _ _ _ (.rel _ _ hbefore))
    exact (hrespaced _ hsteps).trans (by decide)

end Token

end AccessRules
