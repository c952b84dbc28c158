import LockDiscipline.Lint.Config
import Mathlib

/-! Canonical names of rules. The quotes at the ends of a text are taken away before the white space
there, so a quote that white space sets off from the end stays. The canonical name of a text is its
own canonical name exactly when there is no such quote, and only then does a setting that is stored
under it lie where it is looked up. -/

namespace LockDiscipline

namespace Text

variable {p : Char → Bool} {cs core : List Char}

/-- No character that satisfies `p` stands at either end. -/
def Bare (p : Char → Bool) (cs : List Char) : Prop :=
  (∀ c ∈ cs.head?, p c = false) ∧ ∀ c ∈ cs.getLast?, p c = false

instance : Decidable (Bare p cs) :=
  decidable_of_iff (cs.head?.all (!p ·) = true ∧ cs.getLast?.all (!p ·) = true)
    (by simp [Bare, Option.all_eq_true])

theorem bare_of_forall (h : ∀ c ∈ cs, p c = false) : Bare p cs :=
  ⟨fun c hc => h c (List.mem_of_mem_head? hc), fun c hc => h c (List.mem_of_mem_getLast? hc)⟩

theorem Bare.append {cs' : List Char} (h : Bare p cs) (h' : Bare p cs') : Bare p (cs ++ cs') := by
  constructor
  · intro c hc
    rw [List.head?_append] at hc
    rcases Option.or_eq_some_iff.1 hc with hc | ⟨-, hc⟩
    · exact h.1 c hc
    · exact h'.1 c hc
  · intro c hc
    rw [List.getLast?_append] at hc
    rcases Option.or_eq_some_iff.1 hc with hc | ⟨-, hc⟩
    · exact h'.2 c hc
    · exact h.2 c hc

theorem bare_map {f : Char → Char} (hf : ∀ c, p (f c) = p c) : Bare p (cs.map f) ↔ Bare p cs := by
  simp [Bare, hf]

theorem stripEnds_map {f : Char → Char} (hf : ∀ c, p (f c) = p c) :
    stripEnds p (cs.map f) = (stripEnds p cs).map f := by
  have hcomp : p ∘ f = p := funext hf
  simp only [stripEnds, List.dropWhile_map, ← List.map_reverse, hcomp]

private theorem dropWhile_of_head (h : ∀ c ∈ cs.head?, p c = false) : cs.dropWhile p = cs := by
  cases cs with
  | nil => rfl
  | cons c rest => rw [List.dropWhile_cons_of_neg (by simp [h c rfl])]

private theorem head_dropWhile : ∀ c ∈ (cs.dropWhile p).head?, p c = false := by
  intro c hc
  rw [← List.find?_not_eq_head?_dropWhile] at hc
  simpa using List.find?_some hc

/-- What is taken off satisfies `p`, and what is left has no such end. -/
theorem exists_stripEnds (p : Char → Bool) (cs : List Char) :
    ∃ before after, cs = before ++ stripEnds p cs ++ after ∧
      (∀ c ∈ before ++ after, p c = true) ∧ Bare p (stripEnds p cs) := by
  let kept := cs.dropWhile p
  have hkept : kept = stripEnds p cs ++ kept.rtakeWhile p :=
    List.rdropWhile_append_rtakeWhile.symm
  refine ⟨cs.takeWhile p, kept.rtakeWhile p, ?_, ?_, ?_, ?_⟩
  · rw [List.append_assoc, ← hkept, List.takeWhile_append_dropWhile]
  · intro c hc
    rcases List.mem_append.1 hc with hc | hc
    · exact List.mem_takeWhile_imp hc
    · exact List.mem_rtakeWhile_imp hc
  · intro c hc
    have hfirst : c ∈ kept.head? := by
      rw [hkept, List.head?_append, Option.mem_def.1 hc]
      rfl
    exact head_dropWhile c hfirst
  · intro c hc
    rw [stripEnds, List.getLast?_reverse] at hc
    exact head_dropWhile c hc

theorem stripEnds_append {before after : List Char} (hends : ∀ c ∈ before ++ after, p c = true)
    (hcore : Bare p core) : stripEnds p (before ++ core ++ after) = core := by
  obtain ⟨hbefore, hafter⟩ := List.forall_mem_append.1 hends
  have hback : ∀ c ∈ after.reverse, p c = true := fun c hc => hafter c (List.mem_reverse.1 hc)
  rw [stripEnds, List.append_assoc, List.dropWhile_append_of_pos hbefore]
  cases core with
  | nil =>
    rw [List.nil_append, List.dropWhile_eq_nil_iff.2 hafter]
    rfl
  | cons c rest =>
    have hlast : (c :: rest).reverse.dropWhile p = (c :: rest).reverse :=
      dropWhile_of_head fun c' hc' => hcore.2 c' (by rwa [List.head?_reverse] at hc')
    have hfirst : (c :: rest ++ after).dropWhile p = c :: rest ++ after := dropWhile_of_head hcore.1
    rw [hfirst, List.reverse_append, List.dropWhile_append_of_pos hback, hlast,
      List.reverse_reverse]

theorem bare_stripEnds (p : Char → Bool) (cs : List Char) : Bare p (stripEnds p cs) := by
  obtain ⟨_, _, -, -, h⟩ := exists_stripEnds p cs
  exact h

theorem stripEnds_eq_self_iff : stripEnds p cs = cs ↔ Bare p cs := by
  constructor
  · intro h
    exact h ▸ bare_stripEnds p cs
  · intro h
    have hcs : stripEnds p ([] ++ cs ++ []) = cs := stripEnds_append (by simp) h
    rwa [List.nil_append, List.append_nil] at hcs

theorem length_stripEnds_le (p : Char → Bool) (cs : List Char) :
    (stripEnds p cs).length ≤ cs.length := by
  obtain ⟨before, after, h, -⟩ := exists_stripEnds p cs
  have hlength := congrArg List.length h
  simp only [List.length_append] at hlength
  omega

/-- Stripping that loses no character changes nothing. -/
theorem stripEnds_of_length_le (h : cs.length ≤ (stripEnds p cs).length) : stripEnds p cs = cs := by
  obtain ⟨before, after, hcs, -⟩ := exists_stripEnds p cs
  have hlength := congrArg List.length hcs
  simp only [List.length_append] at hlength
  obtain rfl : before = [] := List.length_eq_zero_iff.1 (by omega)
  obtain rfl : after = [] := List.length_eq_zero_iff.1 (by omega)
  rw [List.nil_append, List.append_nil] at hcs
  exact hcs.symm

/-- A single or double quote. -/
def isQuote (c : Char) : Bool := c = '"' || c = '\''

/-- A quote or white space. -/
def isWrapping (c : Char) : Bool := isBlank c || isQuote c

/-- No quote at either end of the text is set off from it by white space: at each end there are
quotes, then white space, and then what stands at the end of neither. -/
def QuotesOutside (s : String) : Prop :=
  ∃ quotes blanks core blanks' quotes', s.toList = quotes ++ (blanks ++ core ++ blanks') ++ quotes' ∧
    (∀ c ∈ quotes ++ quotes', isQuote c = true) ∧ (∀ c ∈ blanks ++ blanks', isBlank c = true) ∧
    Bare isWrapping core

theorem bare_isWrapping_iff : Bare isWrapping cs ↔ Bare isBlank cs ∧ Bare isQuote cs := by
  simp only [Bare, isWrapping, Bool.or_eq_false_iff]
  grind

theorem not_isQuote_of_isBlank {c : Char} (h : isBlank c = true) : isQuote c = false := by
  rw [Bool.eq_false_iff]
  intro hquote
  simp only [isQuote, Bool.or_eq_true, decide_eq_true_eq] at hquote
  rcases hquote with rfl | rfl
  · exact absurd h (by decide)
  · exact absurd h (by decide)

/-- White space around what ends in no quote leaves no quote at the ends. -/
theorem bare_isQuote_append {blanks blanks' : List Char}
    (hblanks : ∀ c ∈ blanks ++ blanks', isBlank c = true) (hcore : Bare isQuote core) :
    Bare isQuote (blanks ++ core ++ blanks') := by
  obtain ⟨hbefore, hafter⟩ := List.forall_mem_append.1 hblanks
  have hbare {l : List Char} (hl : ∀ c ∈ l, isBlank c = true) : Bare isQuote l :=
    bare_of_forall fun c hc => not_isQuote_of_isBlank (hl c hc)
  exact ((hbare hbefore).append hcore).append (hbare hafter)

/-- Without the quotes at its ends, and then without the white space there, a text has a quote at an
end exactly when white space sets one off. -/
theorem quotesOutside_iff {s : String} :
    QuotesOutside s ↔ Bare isQuote (stripEnds isBlank (stripEnds isQuote s.toList)) := by
  constructor
  · rintro ⟨quotes, blanks, core, blanks', quotes', hs, hquotes, hblanks, hcore⟩
    obtain ⟨hblank, hquote⟩ := bare_isWrapping_iff.1 hcore
    rw [hs, stripEnds_append hquotes (bare_isQuote_append hblanks hquote),
      stripEnds_append hblanks hblank]
    exact hquote
  · intro h
    obtain ⟨quotes, quotes', hs, hquotes, -⟩ := exists_stripEnds isQuote s.toList
    obtain ⟨blanks, blanks', hinner, hblanks, hblank⟩ :=
      exists_stripEnds isBlank (stripEnds isQuote s.toList)
    exact ⟨quotes, blanks, _, blanks', quotes', by rw [← hinner, ← hs], hquotes, hblanks,
      bare_isWrapping_iff.2 ⟨hblank, h⟩⟩

instance {s : String} : Decidable (QuotesOutside s) := decidable_of_iff _ quotesOutside_iff.symm

end Text

open Text

/-- The character as it stands in canonical names. -/
def canonicalChar (c : Char) : Char := Char.toLower (if c = '-' then '_' else c)

private theorem toNat_toLower {c : Char} (h : c.isUpper = true) :
    (65 ≤ c.toNat ∧ c.toNat ≤ 90) ∧ c.toLower.toNat = c.toNat + 32 := by
  have hupper : 65 ≤ c.toNat ∧ c.toNat ≤ 90 := by
    simpa [Char.isUpper, UInt32.le_iff_toNat_le] using h
  have hvalid : (c.toNat + 32).isValidChar := .inl (by omega)
  exact ⟨hupper, by rw [Char.toLower_eq_of_isUpper h, Char.toNat_ofNat, if_pos hvalid]⟩

/-- A letter or mark that canonical names write in another way lies, like what is written for it,
between the hyphen and the small `z`. -/
theorem canonicalChar_eq_or (c : Char) : canonicalChar c = c ∨
    (45 ≤ c.toNat ∧ c.toNat ≤ 122) ∧ 45 ≤ (canonicalChar c).toNat ∧ (canonicalChar c).toNat ≤ 122 := by
  by_cases hhyphen : c = '-'
  · subst hhyphen
    exact .inr (by decide)
  · rw [canonicalChar, if_neg hhyphen]
    by_cases hupper : c.isUpper = true
    · obtain ⟨hc, hlower⟩ := toNat_toLower hupper
      exact .inr (by omega)
    · exact .inl (Char.toLower_eq_of_not_isUpper hupper)

theorem canonicalChar_canonicalChar (c : Char) :
    canonicalChar (canonicalChar c) = canonicalChar c := by
  by_cases hhyphen : c = '-'
  · subst hhyphen
    decide
  · have hlower : canonicalChar c = c.toLower := by rw [canonicalChar, if_neg hhyphen]
    have hne : c.toLower ≠ '-' := by
      intro heq
      by_cases hupper : c.isUpper = true
      · have hnat := (toNat_toLower hupper).2
        rw [heq] at hnat
        have hhyphen : ('-').toNat = 45 := rfl
        have hc := (toNat_toLower hupper).1
        omega
      · exact hhyphen (Char.toLower_eq_of_not_isUpper hupper ▸ heq)
    rw [hlower, canonicalChar, if_neg hne, Char.toLower_toLower_eq_toLower]

/-- Canonical names keep a class of characters that lies outside the letters and marks they change. -/
private theorem class_canonicalChar {p : Char → Bool}
    (hp : ∀ c : Char, 45 ≤ c.toNat → c.toNat ≤ 122 → p c = false) (c : Char) :
    p (canonicalChar c) = p c := by
  rcases canonicalChar_eq_or c with h | ⟨⟨h₁, h₂⟩, h₃, h₄⟩
  · rw [h]
  · rw [hp c h₁ h₂, hp _ h₃ h₄]

theorem isBlank_canonicalChar (c : Char) : isBlank (canonicalChar c) = isBlank c := by
  refine class_canonicalChar (fun c h h' => ?_) c
  simp [isBlank, inTable, blankRanges, CodeRange.contains]
  omega

theorem isQuote_canonicalChar (c : Char) : isQuote (canonicalChar c) = isQuote c := by
  refine class_canonicalChar (fun c h h' => ?_) c
  rw [Bool.eq_false_iff]
  intro hquote
  simp only [isQuote, Bool.or_eq_true, decide_eq_true_eq] at hquote
  rcases hquote with rfl | rfl
  · exact absurd h (by decide)
  · exact absurd h (by decide)

/-- What is left of a text in its canonical name. -/
def canonicalCore (s : String) : List Char := stripEnds isBlank (stripEnds isQuote s.toList)

theorem toList_canonicalName (s : String) :
    (canonicalName s).toList = (canonicalCore s).map canonicalChar := by
  have hquote : (fun c => decide (c = '"') || decide (c = '\'')) = isQuote := rfl
  simp only [canonicalName, lower, trim, strip, String.toList_map, String.toList_ofList, hquote,
    List.map_map]
  rfl

theorem canonicalCore_canonicalName (s : String) : canonicalCore (canonicalName s) =
    (stripEnds isBlank (stripEnds isQuote (canonicalCore s))).map canonicalChar := by
  rw [canonicalCore, toList_canonicalName, stripEnds_map isQuote_canonicalChar,
    stripEnds_map isBlank_canonicalChar]

/-- A canonical name is its own canonical name exactly when no quote is left at its ends. -/
theorem canonicalName_canonicalName_iff {s : String} :
    canonicalName (canonicalName s) = canonicalName s ↔ QuotesOutside s := by
  have hchar : canonicalChar ∘ canonicalChar = canonicalChar := funext canonicalChar_canonicalChar
  rw [← String.toList_inj, toList_canonicalName, canonicalCore_canonicalName, List.map_map, hchar,
    toList_canonicalName, quotesOutside_iff, ← canonicalCore]
  constructor
  · intro h
    have hlength := congrArg List.length h
    rw [List.length_map, List.length_map] at hlength
    have hinner := length_stripEnds_le isBlank (stripEnds isQuote (canonicalCore s))
    exact stripEnds_eq_self_iff.1 (stripEnds_of_length_le (by omega))
  · intro h
    rw [stripEnds_eq_self_iff.2 h, canonicalCore, stripEnds_eq_self_iff.2 (bare_stripEnds _ _)]

theorem canonicalChar_eq_self_iff {c : Char} :
    canonicalChar c = c ↔ c ≠ '-' ∧ c.isUpper = false := by
  by_cases hhyphen : c = '-'
  · subst hhyphen
    decide
  · rw [canonicalChar, if_neg hhyphen, and_iff_right hhyphen]
    cases hupper : c.isUpper with
    | true =>
      have hnat := (toNat_toLower hupper).2
      refine ⟨fun heq => ?_, nofun⟩
      rw [heq] at hnat
      omega
    | false => exact ⟨fun _ => rfl, fun _ => Char.toLower_eq_of_not_isUpper (by simp [hupper])⟩

/-- The texts that are their own canonical names: no quote or white space stands at an end, and there
are neither hyphens nor capitals. -/
theorem canonicalName_eq_self_iff {s : String} : canonicalName s = s ↔
    (∀ c ∈ s.toList, c ≠ '-' ∧ c.isUpper = false) ∧ Bare isWrapping s.toList := by
  rw [← String.toList_inj, toList_canonicalName, canonicalCore]
  constructor
  · intro h
    have hlength := congrArg List.length h
    have hinner := length_stripEnds_le isBlank (stripEnds isQuote s.toList)
    have houter := length_stripEnds_le isQuote s.toList
    rw [List.length_map] at hlength
    have hquote : stripEnds isQuote s.toList = s.toList := stripEnds_of_length_le (by omega)
    rw [hquote] at h hlength
    have hblank : stripEnds isBlank s.toList = s.toList := stripEnds_of_length_le (by omega)
    rw [hblank] at h
    refine ⟨fun c hc => canonicalChar_eq_self_iff.1 ?_, bare_isWrapping_iff.2
      ⟨stripEnds_eq_self_iff.1 hblank, stripEnds_eq_self_iff.1 hquote⟩⟩
    exact List.map_inj_left.1 (h.trans (List.map_id _).symm) c hc
  · rintro ⟨hchars, hbare⟩
    obtain ⟨hblank, hquote⟩ := bare_isWrapping_iff.1 hbare
    rw [stripEnds_eq_self_iff.2 hquote, stripEnds_eq_self_iff.2 hblank]
    have hmap := List.map_inj_left.2 fun c hc => canonicalChar_eq_self_iff.2 (hchars c hc)
    exact hmap.trans (List.map_id _)

namespace LintConfig

variable {c : LintConfig} {s : String} {level : Level}

theorem mem_configuredRules_setRuleLevel {name : String} :
    name ∈ (c.setRuleLevel s level).configuredRules ↔
      name = canonicalName s ∨ name ∈ c.configuredRules := by
  rw [configuredRules, configuredRules, setRuleLevel, OrderedMap.mem_keys_insert]

theorem levelFor_setRuleLevel {name : String} {category : Category} {fallback : Level} :
    (c.setRuleLevel s level).levelFor name category fallback =
      if canonicalName name = canonicalName s then level else c.levelFor name category fallback := by
  rw [levelFor, setRuleLevel, OrderedMap.get?_insert, levelFor]
  by_cases h : canonicalName name = canonicalName s
  · simp only [if_pos h]
  · simp only [if_neg h]

/-- What is stored under the canonical name of a text is looked up under the canonical name of the
key. The two are one exactly when no quote at an end of the text is set off by white space. If one
is, the level that was set is found under the text but not under the key that lists it: there the
settings stay as they were. -/
theorem storedName_stable_iff (s : String) :
    (canonicalName (canonicalName s) = canonicalName s ↔ QuotesOutside s) ∧
    (∀ c : LintConfig, ∀ level name,
      (name ∈ (c.setRuleLevel s level).configuredRules ↔
        name = canonicalName s ∨ name ∈ c.configuredRules) ∧
      ∀ category fallback,
        (c.setRuleLevel s level).levelFor s category fallback = level ∧
        (QuotesOutside s →
          (c.setRuleLevel s level).levelFor (canonicalName s) category fallback = level) ∧
        (¬ QuotesOutside s →
          (c.setRuleLevel s level).levelFor (canonicalName s) category fallback =
            c.levelFor (canonicalName s) category fallback)) ∧
    ∀ c : LintConfig, ∀ id, id ∈ (c.disable s).disabled ↔ id = canonicalName s ∨ id ∈ c.disabled := by
  refine ⟨canonicalName_canonicalName_iff, fun c level name => ?_, fun c id => ?_⟩
  · refine ⟨mem_configuredRules_setRuleLevel, fun category fallback => ⟨?_, fun h => ?_, fun h => ?_⟩⟩
    · rw [levelFor_setRuleLevel, if_pos rfl]
    · rw [levelFor_setRuleLevel, if_pos (canonicalName_canonicalName_iff.2 h)]
    · rw [levelFor_setRuleLevel, if_neg (mt canonicalName_canonicalName_iff.1 h)]
  · rw [disable, OrderedSet.mem_insert]

end LintConfig

namespace Counter

/-- White space before the first quote keeps it in the canonical name, which so is not its own. The
level that is set is not found under the key that lists it, and the check of this name is not the
one that is switched off. -/
theorem storedName_spacedQuote :
    canonicalName " \"guarded_by\"" = "\"guarded_by" ∧
      canonicalName "\"guarded_by" = "guarded_by" ∧
      (LintConfig.default.setRuleLevel " \"guarded_by\"" .allow).configuredRules =
        ["\"guarded_by", "unresolvable_guard"] ∧
      (LintConfig.default.setRuleLevel " \"guarded_by\"" .allow).levelFor " \"guarded_by\""
        .correctness .error = .allow ∧
      (LintConfig.default.setRuleLevel " \"guarded_by\"" .allow).levelFor "\"guarded_by"
        .correctness .error = .error ∧
      (LintConfig.default.disable " \"guarded_by\"").disabled.toList = ["\"guarded_by"] := by
  decide +kernel

end Counter

end LockDiscipline
