import LockDiscipline.Proofs.Guards.Suppressed
import LockDiscipline.Proofs.Rules.CanonicalName

/-! Which attributes silence a rule. A rule is silenced by an attribute with its name or with that of
its category, and by a suppression that lists one of its words. Its code is recognised as the name of
an attribute, but silences nothing; and a word counts only if no quote around it is set off by white
space. -/

namespace LockDiscipline

open Text

/-- The text as it is meant in a suppression: without any quotes and white space at its ends, and with
the letters and marks of canonical names. -/
def bareName (s : String) : String :=
  String.ofList ((stripEnds isWrapping s.toList).map canonicalChar)

theorem canonicalChar_toLower (c : Char) : canonicalChar c.toLower = canonicalChar c := by
  by_cases hhyphen : c = '-'
  · subst hhyphen
    decide
  · have hlower : c.toLower = canonicalChar c := by rw [canonicalChar, if_neg hhyphen]
    rw [hlower, canonicalChar_canonicalChar]

/-- A class that canonical names keep holds a letter whatever its case. -/
private theorem class_toLower {p : Char → Bool} (hp : ∀ c, p (canonicalChar c) = p c) (c : Char) :
    p c.toLower = p c := by
  rw [← hp, canonicalChar_toLower, hp]

theorem canonicalName_lower (s : String) : canonicalName (lower s) = canonicalName s := by
  have hchar : canonicalChar ∘ Char.toLower = canonicalChar := funext canonicalChar_toLower
  have hcore : canonicalCore (lower s) = (canonicalCore s).map Char.toLower := by
    rw [canonicalCore, lower, String.toList_map, stripEnds_map (class_toLower isQuote_canonicalChar),
      stripEnds_map (class_toLower isBlank_canonicalChar), canonicalCore]
  rw [← String.toList_inj, toList_canonicalName, hcore, List.map_map, hchar, toList_canonicalName]

/-- A canonical name ends in no quote exactly when no quote of the text is set off. -/
theorem bare_canonicalName_iff {s : String} :
    Bare isQuote (canonicalName s).toList ↔ QuotesOutside s := by
  rw [toList_canonicalName, bare_map isQuote_canonicalChar, quotesOutside_iff, canonicalCore]

theorem lower_canonicalName (s : String) : lower (canonicalName s) = canonicalName s := by
  have hchar : Char.toLower ∘ canonicalChar = canonicalChar :=
    funext fun c => Char.toLower_toLower_eq_toLower _
  rw [← String.toList_inj, lower, String.toList_map, toList_canonicalName, List.map_map, hchar]

theorem Category.ofWord?_canonicalName_iff {s : String} {category : Category} :
    Category.ofWord? (canonicalName s) = some category ↔ canonicalName s = category.render := by
  cases category
  rw [Category.ofWord?, lower_canonicalName]
  split <;> simp_all [Category.render]

theorem canonicalName_of_quotesOutside {s : String} (h : QuotesOutside s) :
    canonicalName s = bareName s := by
  obtain ⟨quotes, blanks, core, blanks', quotes', hs, hquotes, hblanks, hcore⟩ := h
  obtain ⟨hblank, hquote⟩ := bare_isWrapping_iff.1 hcore
  have hwhole : stripEnds isWrapping s.toList = core := by
    have hassoc : s.toList = (quotes ++ blanks) ++ core ++ (blanks' ++ quotes') := by simp [hs]
    rw [hassoc]
    refine stripEnds_append (fun c hc => ?_) hcore
    have hmem : c ∈ blanks ++ blanks' ∨ c ∈ quotes ++ quotes' := by
      simp only [List.mem_append] at hc ⊢
      tauto
    rcases hmem with hc | hc
    · simp [isWrapping, hblanks c hc]
    · simp [isWrapping, hquotes c hc]
  have hinner : canonicalCore s = core := by
    rw [canonicalCore, hs, stripEnds_append hquotes (bare_isQuote_append hblanks hquote),
      stripEnds_append hblanks hblank]
  rw [← String.toList_inj, toList_canonicalName, bareName, String.toList_ofList, hwhole, hinner]

namespace Rule

/-- The words by which a suppression silences the rule. -/
def words (r : Rule) : List String :=
  ("all" :: r.category.render :: r.name :: r.aliases).map canonicalName

variable {r : Rule}

theorem words_eq (hr : r ∈ all) :
    r.words = "all" :: r.category.render :: r.name :: r.aliases.map canonicalName := by
  revert r; decide +kernel

/-- A text has the canonical name of a word exactly when it means the word and no quote is set off. -/
theorem canonicalName_mem_words_iff (hr : r ∈ all) {text : String} :
    canonicalName text ∈ r.words ↔ bareName text ∈ r.words ∧ QuotesOutside text := by
  have hwords : ∀ r ∈ all, ∀ word ∈ r.words, Bare isQuote word.toList := by decide +kernel
  constructor
  · intro h
    have houtside : QuotesOutside text := bare_canonicalName_iff.1 (hwords r hr _ h)
    exact ⟨canonicalName_of_quotesOutside houtside ▸ h, houtside⟩
  · rintro ⟨h, houtside⟩
    exact canonicalName_of_quotesOutside houtside ▸ h

/-- No two of the names that make an attribute mean a rule, or a suppression, are one. -/
theorem nodup_names (hr : r ∈ all) : [canonicalName r.code, r.name, r.category.render, "allow",
    "suppresswarnings"].Nodup := by
  revert r; decide +kernel

theorem canonicalName_of_hasCode {name : String} (h : r.hasCode name = true) :
    canonicalName name = canonicalName r.code := by
  have hlower : lower r.code = lower name := by simpa [hasCode] using h
  rw [← canonicalName_lower, ← hlower, canonicalName_lower]

/-- The code of a rule as the name of an attribute is read whole. -/
theorem canonicalName_lastPiece_of_hasCode (hr : r ∈ all) {name : String}
    (h : r.hasCode name = true) : canonicalName (lastPiece '.' name) = canonicalName r.code := by
  have hlower : lower r.code = lower name := by simpa [hasCode] using h
  have hdot : '.' ∉ name.toList := by
    intro hmem
    have hcode : ∀ r ∈ all, '.' ∉ (lower r.code).toList := by decide +kernel
    refine hcode r hr ?_
    rw [hlower, lower, String.toList_map]
    exact List.mem_map.2 ⟨'.', hmem, rfl⟩
  rw [lastPiece_of_not_mem hdot, canonicalName_of_hasCode h]

end Rule

namespace Attribute

variable {r : Rule} {a : Attribute}

/-- The words that the attribute lists: the pieces of its arguments between the commas. -/
def items (a : Attribute) : List String := a.args.flatMap (pieces ',')

/-- `a.Silences r`: what it takes for the attribute `a` to silence the rule `r`. -/
inductive Silences (a : Attribute) (r : Rule) : Prop
  | name : canonicalName (lastPiece '.' a.name) = r.name → a.Silences r
  | category : canonicalName (lastPiece '.' a.name) = r.category.render → a.Silences r
  | item {text} : a.isSuppression = true → text ∈ a.items → bareName text ∈ r.words →
      QuotesOutside text → a.Silences r

/-- `a.Spells r`: the attribute `a` means the rule `r`, by its own name or by a word that it lists. -/
inductive Spells (a : Attribute) (r : Rule) : Prop
  | name : canonicalName (lastPiece '.' a.name) = r.name → a.Spells r
  | code : r.hasCode a.name = true → a.Spells r
  | item {text} : a.isSuppression = true → text ∈ a.items →
      bareName text ∈ r.words ∨ bareName text = canonicalName r.code → a.Spells r

theorem isSuppression_iff : a.isSuppression = true ↔
    canonicalName (lastPiece '.' a.name) = "allow" ∨
      canonicalName (lastPiece '.' a.name) = "suppresswarnings" := by
  simp [isSuppression]

/-- A suppression silences a rule by nothing but the words that it lists. -/
theorem silences_iff_of_isSuppression (hr : r ∈ Rule.all) (h : a.isSuppression = true) :
    a.Silences r ↔ ∃ text ∈ a.items, bareName text ∈ r.words ∧ QuotesOutside text := by
  have hnames := Rule.nodup_names hr
  have hname := isSuppression_iff.1 h
  constructor
  · rintro (heq | heq | ⟨-, htext, hword, houtside⟩)
    · grind
    · grind
    · exact ⟨_, htext, hword, houtside⟩
  · rintro ⟨text, htext, hword, houtside⟩
    exact .item h htext hword houtside

/-- The code of a rule, as the name of an attribute, silences nothing. -/
theorem not_silences_of_hasCode (hr : r ∈ Rule.all) (h : r.hasCode a.name = true) :
    ¬ a.Silences r := by
  have hnames := Rule.nodup_names hr
  have hname := Rule.canonicalName_lastPiece_of_hasCode hr h
  rintro (heq | heq | ⟨hsup, -⟩)
  · grind
  · grind
  · have hsup := isSuppression_iff.1 hsup
    grind

/-- Of the spellings that mean a rule, the code silences nothing, neither as the name of the attribute
nor as a listed word, and a listed word does only if no quote around it is set off by white space. -/
theorem Spells.silences_iff (hr : r ∈ Rule.all) (h : a.Spells r) :
    a.Silences r ↔ r.hasCode a.name = false ∧ (a.isSuppression = true →
      ∃ text ∈ a.items, bareName text ∈ r.words ∧ QuotesOutside text) := by
  constructor
  · intro hsilences
    refine ⟨Bool.eq_false_iff.2 fun hcode => not_silences_of_hasCode hr hcode hsilences, ?_⟩
    exact fun hsup => (silences_iff_of_isSuppression hr hsup).1 hsilences
  · rintro ⟨hcode, hitem⟩
    rcases h with heq | hcode' | ⟨hsup, -⟩
    · exact .name heq
    · rw [hcode] at hcode'
      nomatch hcode'
    · exact (silences_iff_of_isSuppression hr hsup).2 (hitem hsup)

end Attribute

namespace Allowance

variable {r : Rule} {a : Allowance} {category : Category} {name : String}

theorem allows_iff : a.allows category name = true ↔
    a.Lists .everything ∨ a.Lists (.rule (canonicalName name)) ∨ a.Lists (.category category) := by
  simp [allows, Lists, or_assoc]

/-- Declarations together allow what one of them allows. -/
theorem allows_foldl_merge {α : Type} {l : List α} {f : α → Allowance} :
    ((l.map f).foldl merge {}).allows category name = true ↔
      ∃ x ∈ l, (f x).allows category name = true := by
  simp only [allows_iff, lists_foldl_merge, not_lists_empty, false_or, ← exists_or, ← and_or_left]

@[simp] theorem lists_ofRule {word : String} {s : Suppression} :
    (ofRule word).Lists s ↔ s = .rule word := by
  cases s <;> simp [Lists, ofRule]

@[simp] theorem lists_ofCategory {c : Category} {s : Suppression} :
    (ofCategory c).Lists s ↔ s = .category c := by
  cases s <;> simp [Lists, ofCategory]

@[simp] theorem lists_everything {s : Suppression} :
    ({ everything := true } : Allowance).Lists s ↔ s = .everything := by
  cases s <;> simp [Lists]

/-- A word of a suppression silences the rules that it is a word of. -/
theorem allows_ofWord (hr : r ∈ Rule.all) {text : String} :
    (ofWord text).allows r.category r.name = true ↔ canonicalName text ∈ r.words := by
  have hwords := Rule.words_eq hr
  have hempty : "" ∉ r.words := by revert r; decide +kernel
  have hother : ∀ other ∈ Rule.all, ∀ word ∈ other.aliases.map canonicalName,
      word ∈ r.words ↔ r.name = other.name := by
    revert r; decide +kernel
  rw [allows_iff, Rule.canonicalName_name hr, ofWord]
  split
  case isTrue h => simp [h, hempty]
  case isFalse =>
  split
  case isTrue h => simp [h, hwords]
  case isFalse hall =>
  split
  case h_1 category h =>
    rw [Category.ofWord?_canonicalName_iff] at h
    obtain rfl : category = r.category := by cases category; cases r.category; rfl
    simp [h, hwords]
  case h_2 hcategory =>
  have hne : canonicalName text ≠ r.category.render := by
    intro h
    rw [← Category.ofWord?_canonicalName_iff, hcategory] at h
    nomatch h
  split
  case h_1 other h =>
    have hword : canonicalName text ∈ other.aliases.map canonicalName := by
      simpa using List.find?_some h
    simp [hother other (List.mem_of_find?_eq_some h) _ hword]
  case h_2 h =>
    have hnone : canonicalName text ∉ r.aliases.map canonicalName := by
      simpa using List.find?_eq_none.1 h r hr
    have hiff : canonicalName text ∈ r.words ↔ canonicalName text = r.name := by
      simp [hwords, hall, hne, hnone]
    simp [hiff, eq_comm]

/-- An attribute silences a rule by its name or by that of its category, or by a word of the rule that
it lists. -/
theorem allows_ofAttribute (hr : r ∈ Rule.all) {attr : Attribute} :
    (ofAttribute attr).allows r.category r.name = true ↔ attr.Silences r := by
  rw [ofAttribute]
  split
  case isTrue h =>
    have hsup : attr.isSuppression = true := h
    rw [allows_foldl_merge, Attribute.silences_iff_of_isSuppression hr hsup]
    simp only [allows_ofWord hr, Rule.canonicalName_mem_words_iff hr, Attribute.items]
  case isFalse h =>
  split
  case h_1 category hcategory =>
    rw [Category.ofWord?_canonicalName_iff] at hcategory
    obtain rfl : category = r.category := by cases category; cases r.category; rfl
    have hallows : (ofCategory r.category).allows r.category r.name = true := by simp [allows_iff]
    exact iff_of_true hallows (.category hcategory)
  case h_2 hcategory =>
  have hsilences : attr.Silences r ↔ canonicalName (lastPiece '.' attr.name) = r.name := by
    refine ⟨?_, .name⟩
    rintro (heq | heq | ⟨hsup, -⟩)
    · exact heq
    · rw [← Category.ofWord?_canonicalName_iff, hcategory] at heq
      nomatch heq
    · exact absurd hsup h
  rw [hsilences, allows_iff, Rule.canonicalName_name hr]
  split
  case isTrue => simp [eq_comm]
  case isFalse hnone =>
    have hother : r.name ≠ canonicalName (lastPiece '.' attr.name) := fun heq =>
      hnone (List.any_eq_true.2 ⟨r, hr, by simp [heq]⟩)
    simp [hother.symm]

/-- The attributes of a declaration silence a rule exactly when one of them does. Of those that mean
the rule, an attribute does exactly when it is not named by the code and, if it lists words, one of
them is a word of the rule, not its code, with no quote set off by white space. -/
theorem allows_ofAttributes_iff (hr : r ∈ Rule.all) :
    (∀ attributes, (ofAttributes attributes).allows r.category r.name = true ↔
      ∃ a ∈ attributes, a.Silences r) ∧
    ∀ a : Attribute, a.Spells r → (a.Silences r ↔ r.hasCode a.name = false ∧
      (a.isSuppression = true →
        ∃ text ∈ a.items, bareName text ∈ r.words ∧ QuotesOutside text)) := by
  refine ⟨fun attributes => ?_, fun a h => h.silences_iff hr⟩
  simp only [ofAttributes, allows_foldl_merge, allows_ofAttribute hr]

/-- A suppression whose argument, in quotes, ends with the name of the rule silences it. -/
theorem allows_ofAttributes_iff_quoted :
    let a : Attribute := ⟨"SuppressWarnings", ["\"unchecked,Guarded-By \""], none⟩
    Rule.guardedBy ∈ Rule.all ∧ a.Spells .guardedBy ∧ a.Silences .guardedBy ∧
      (ofAttributes [a]).allows .correctness "guarded_by" = true := by
  intro a
  have hr : Rule.guardedBy ∈ Rule.all := by decide
  have hsup : a.isSuppression = true := by decide +kernel
  have htext : "Guarded-By \"" ∈ a.items := by decide +kernel
  have hword : bareName "Guarded-By \"" ∈ Rule.guardedBy.words := by decide +kernel
  have houtside : QuotesOutside "Guarded-By \"" := by decide +kernel
  have hspells : a.Spells .guardedBy := .item hsup htext (.inl hword)
  have hsilences : a.Silences .guardedBy := ((allows_ofAttributes_iff hr).2 a hspells).2
    ⟨by decide +kernel, fun _ => ⟨_, htext, hword, houtside⟩⟩
  exact ⟨hr, hspells, hsilences,
    ((allows_ofAttributes_iff hr).1 [a]).2 ⟨a, List.mem_singleton_self a, hsilences⟩⟩

end Allowance

namespace Counter

/-- The code of a rule means the rule, as the name of an attribute or as a listed word, and so does a
listed word with white space before its first quote; but none of them silences the rule. -/
theorem allows_ofAttributes_code :
    (⟨"GUARD001", [], none⟩ : Attribute).Spells .guardedBy ∧
    (Allowance.ofAttributes [⟨"GUARD001", [], none⟩]).allows .correctness "guarded_by" = false ∧
    (⟨"allow", ["GUARD001"], none⟩ : Attribute).Spells .guardedBy ∧
    (Allowance.ofAttributes [⟨"allow", ["GUARD001"], none⟩]).allows .correctness "guarded_by" =
      false ∧
    (⟨"SuppressWarnings", ["\"unchecked\", \"GuardedBy\""], none⟩ : Attribute).Spells .guardedBy ∧
    (Allowance.ofAttributes [⟨"SuppressWarnings", ["\"unchecked\", \"GuardedBy\""], none⟩]).allows
      .correctness "guarded_by" = false := by
  refine ⟨.code (by decide +kernel), by decide +kernel, ?_, by decide +kernel, ?_, by decide +kernel⟩
  · exact .item (by decide +kernel) (show "GUARD001" ∈ Attribute.items _ by decide +kernel)
      (by decide +kernel)
  · exact .item (by decide +kernel) (show " \"GuardedBy\"" ∈ Attribute.items _ by decide +kernel)
      (by decide +kernel)

end Counter

end LockDiscipline
