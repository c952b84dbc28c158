import LockDiscipline.Lock.Token
import LockDiscipline.Proofs.Except

/-! The tokens of a text. A text is read from left to right in one way only: white space comes
between tokens, and a word goes on as far as it can. Scanning finds that way. -/

namespace LockDiscipline

namespace Text

theorem not_inTable_of_apart {table table' : List CodeRange} {c : Char}
    (h : ∀ r ∈ table, ∀ r' ∈ table', r.last < r'.first ∨ r'.last < r.first)
    (hc : inTable table c = true) : inTable table' c = false := by
  obtain ⟨r, hr, hcr⟩ := List.any_eq_true.1 hc
  refine List.any_eq_false.2 fun r' hr' hcr' => ?_
  rw [CodeRange.contains_iff] at hcr hcr'
  rcases h r hr r' hr' with hlt | hlt <;> omega

theorem isAlphanumeric_of_isBlank {c : Char} (h : isBlank c = true) : isAlphanumeric c = false := by
  have halphabetic : ∀ r ∈ blankRanges, ∀ r' ∈ alphabeticRanges,
      r.last < r'.first ∨ r'.last < r.first := by decide +kernel
  have hnumeric : ∀ r ∈ blankRanges, ∀ r' ∈ numericRanges,
      r.last < r'.first ∨ r'.last < r.first := by decide +kernel
  rw [isAlphanumeric, isAlphabetic, isNumeric, not_inTable_of_apart halphabetic h,
    not_inTable_of_apart hnumeric h, Bool.or_self]

end Text

namespace LockToken

variable {c : Char}

theorem isIdentRest_of_isIdentStart (h : isIdentStart c = true) : isIdentRest c = true := by
  simp only [isIdentStart, isIdentRest, Text.isAlphanumeric, Bool.or_eq_true] at h ⊢
  exact h.imp_left (Or.imp_left .inl)

/-- White space ends an identifier. -/
theorem isIdentRest_of_isBlank (h : Text.isBlank c = true) : isIdentRest c = false := by
  have hlow : c ≠ '_' := by
    rintro rfl
    exact absurd h (by decide +kernel)
  have hdollar : c ≠ '$' := by
    rintro rfl
    exact absurd h (by decide +kernel)
  simp [isIdentRest, Text.isAlphanumeric_of_isBlank h, hlow, hdollar]

/-- The characters that are tokens by themselves. -/
def marks : List Char := ['.', '(', ')']

theorem isIdentRest_mark (hc : c ∈ marks) : isIdentRest c = false := by
  have hall : marks.all (fun c => !isIdentRest c) = true := by decide +kernel
  simpa using List.all_eq_true.1 hall c hc

theorem isBlank_mark (hc : c ∈ marks) : Text.isBlank c = false := by
  have hall : marks.all (fun c => !Text.isBlank c) = true := by decide +kernel
  simpa using List.all_eq_true.1 hall c hc

theorem isBlank_of_isIdentRest (h : isIdentRest c = true) : Text.isBlank c = false := by
  refine Bool.eq_false_iff.2 fun hblank => ?_
  rw [isIdentRest_of_isBlank hblank] at h
  cases h

theorem ne_mark {c' : Char} (h : isIdentRest c = true) (hc' : c' ∈ marks) : c ≠ c' := by
  rintro rfl
  rw [isIdentRest_mark hc'] at h
  cases h

/-- An identifier: it begins with a letter, `_` or `$` and goes on with these and numbers. -/
def IsIdentifier (id : String) : Prop :=
  ∃ c cs, id.toList = c :: cs ∧ isIdentStart c = true ∧ ∀ c' ∈ cs, isIdentRest c' = true

/-- A name: an identifier, but not the word `this`. -/
structure IsName (id : String) : Prop where
  identifier : IsIdentifier id
  ne_this : id ≠ "this"

/-- No identifier before `cs` could go on. -/
def EndsWord (cs : List Char) : Prop := ∀ c ∈ cs.head?, isIdentRest c = false

/-- `Lexes cs ts`: the characters, read from left to right, are the tokens. White space separates
tokens, and a word is taken as far as it goes. -/
inductive Lexes : List Char → List LockToken → Prop
  | nil : Lexes [] []
  | blank {c cs ts} : Text.isBlank c = true → Lexes cs ts → Lexes (c :: cs) ts
  | dot {cs ts} : Lexes cs ts → Lexes ('.' :: cs) (.dot :: ts)
  | openParen {cs ts} : Lexes cs ts → Lexes ('(' :: cs) (.openParen :: ts)
  | closeParen {cs ts} : Lexes cs ts → Lexes (')' :: cs) (.closeParen :: ts)
  | this {cs ts} : EndsWord cs → Lexes cs ts → Lexes ("this".toList ++ cs) (.this :: ts)
  | ident {id cs ts} : IsName id → EndsWord cs → Lexes cs ts →
      Lexes (id.toList ++ cs) (.ident id :: ts)

variable {id : String} {cs : List Char} {ts : List LockToken} {offset : Nat}

theorem isIdentifier_this : IsIdentifier "this" :=
  ⟨'t', ['h', 'i', 's'], rfl, by decide +kernel, List.all_eq_true.1 (by decide +kernel)⟩

/-- All characters of an identifier could go on in one. -/
theorem IsIdentifier.isIdentRest (hid : IsIdentifier id) : ∀ c ∈ id.toList, isIdentRest c = true := by
  obtain ⟨c, cs, htext, hstart, hcs⟩ := hid
  rw [htext]
  exact List.forall_mem_cons.2 ⟨isIdentRest_of_isIdentStart hstart, hcs⟩

theorem Lexes.word (hid : IsIdentifier id) (hend : EndsWord cs) (hcs : Lexes cs ts) :
    Lexes (id.toList ++ cs) (ofWord id :: ts) := by
  by_cases hthis : id = "this"
  · subst hthis
    exact .this hend hcs
  · rw [ofWord, if_neg hthis]
    exact .ident ⟨hid, hthis⟩ hend hcs

theorem endsWord_dropWhile (cs : List Char) : EndsWord (cs.dropWhile isIdentRest) := by
  intro c hc
  have hhead := List.head?_dropWhile_not isIdentRest cs
  rwa [Option.mem_def.1 hc] at hhead

theorem lexes_of_scan (h : scan offset cs = .ok ts) : Lexes cs ts := by
  fun_induction scan offset cs generalizing ts with
  | case1 =>
    cases h
    exact .nil
  | case2 _ _ _ hblank ih => exact .blank hblank (ih h)
  | case3 _ _ _ ih =>
    obtain ⟨ts, hts, rfl⟩ := map_eq_ok_iff.1 h
    exact .dot (ih hts)
  | case4 _ _ _ _ ih =>
    obtain ⟨ts, hts, rfl⟩ := map_eq_ok_iff.1 h
    exact .openParen (ih hts)
  | case5 _ _ _ _ _ ih =>
    obtain ⟨ts, hts, rfl⟩ := map_eq_ok_iff.1 h
    exact .closeParen (ih hts)
  | case6 _ c cs _ _ _ _ hstart =>
    rename_i ih
    obtain ⟨ts, hts, rfl⟩ := map_eq_ok_iff.1 h
    have hid : IsIdentifier (String.ofList (c :: cs.takeWhile isIdentRest)) :=
      ⟨c, cs.takeWhile isIdentRest, String.toList_ofList, hstart,
        List.all_eq_true.1 List.all_takeWhile⟩
    -- What was taken for the word and what was left make up the text again.
    have hword := (ih hts).word hid (endsWord_dropWhile cs)
    rwa [String.toList_ofList, List.cons_append, List.takeWhile_append_dropWhile] at hword
  | case7 => cases h

/-- A word before characters that end it is taken whole. -/
theorem takeWhile_of_endsWord {word : List Char} (hword : ∀ c ∈ word, isIdentRest c = true)
    (hend : EndsWord cs) : (word ++ cs).takeWhile isIdentRest = word ∧
      (word ++ cs).dropWhile isIdentRest = cs := by
  rw [List.takeWhile_append_of_pos hword, List.dropWhile_append_of_pos hword]
  cases cs with
  | nil => simp
  | cons c cs => simp [hend c rfl]

theorem scan_word (hid : IsIdentifier id) (hend : EndsWord cs) :
    scan offset (id.toList ++ cs) =
      (ofWord id :: ·) <$> scan (offset + width id.toList) cs := by
  obtain ⟨c, word, htext, hstart, hword⟩ := hid
  have hc := isIdentRest_of_isIdentStart hstart
  obtain ⟨htake, hdrop⟩ := takeWhile_of_endsWord hword hend
  rw [htext, List.cons_append, scan, if_neg (Bool.not_eq_true _ ▸ isBlank_of_isIdentRest hc),
    if_neg (ne_mark hc (by decide)), if_neg (ne_mark hc (by decide)),
    if_neg (ne_mark hc (by decide)), if_pos hstart]
  simp only [htake, hdrop, ← htext, String.ofList_toList]

theorem scan_of_lexes (h : Lexes cs ts) (offset : Nat) : scan offset cs = .ok ts := by
  induction h generalizing offset with
  | nil => rw [scan]
  | blank hblank _ ih => rw [scan, if_pos hblank, ih]
  | dot _ ih =>
    rw [scan, if_neg (by decide +kernel), if_pos rfl, ih]
    rfl
  | openParen _ ih =>
    rw [scan, if_neg (by decide +kernel), if_neg (by decide), if_pos rfl, ih]
    rfl
  | closeParen _ ih =>
    rw [scan, if_neg (by decide +kernel), if_neg (by decide), if_neg (by decide), if_pos rfl, ih]
    rfl
  | this hend _ ih =>
    rw [scan_word isIdentifier_this hend, ih]
    rfl
  | ident hid hend _ ih =>
    rw [scan_word hid.identifier hend, ih, ofWord, if_neg hid.ne_this]
    rfl

/-- Scanning finds the tokens that the text says, whatever was read before. -/
theorem scan_eq_ok_iff : scan offset cs = .ok ts ↔ Lexes cs ts :=
  ⟨lexes_of_scan, fun h => scan_of_lexes h offset⟩

end LockToken

end LockDiscipline
