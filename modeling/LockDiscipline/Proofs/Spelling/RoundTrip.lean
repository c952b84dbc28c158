import LockDiscipline.Proofs.Spelling.Grammar

/-! Reading undoes rendering, and rendering undoes reading up to white space: of all the texts from
which an expression is read, its rendering is the one without white space. -/

namespace LockDiscipline

open LockToken

namespace Text

/-- The text without its white space. -/
def withoutBlanks (text : String) : String :=
  String.ofList (text.toList.filter fun c => !isBlank c)

end Text

namespace LockToken

variable {id : String} {cs : List Char} {ts : List LockToken}

/-- The token as it is written. -/
def chars : LockToken → List Char
  | .this => "this".toList
  | .ident id => id.toList
  | .dot => ['.']
  | .openParen => ['(']
  | .closeParen => [')']

theorem IsIdentifier.filter_isBlank (hid : IsIdentifier id) :
    id.toList.filter (fun c => !Text.isBlank c) = id.toList := by
  refine List.filter_eq_self.2 fun c hc => ?_
  rw [isBlank_of_isIdentRest (hid.isIdentRest c hc), Bool.not_false]

theorem filter_isBlank_mark {c : Char} (hc : c ∈ marks) :
    (c :: cs).filter (fun c => !Text.isBlank c) = c :: cs.filter fun c => !Text.isBlank c := by
  refine List.filter_cons_of_pos ?_
  rw [isBlank_mark hc, Bool.not_false]

/-- Without its white space, a text is its tokens. -/
theorem Lexes.filter_isBlank (h : Lexes cs ts) :
    cs.filter (fun c => !Text.isBlank c) = ts.flatMap chars := by
  induction h with
  | nil => rfl
  | blank hblank _ ih => rw [List.filter_cons_of_neg (by simp [hblank]), ih]
  | dot _ ih | openParen _ ih | closeParen _ ih =>
    rw [filter_isBlank_mark (by decide), ih]
    rfl
  | this _ _ ih =>
    rw [List.filter_append, isIdentifier_this.filter_isBlank, ih]
    rfl
  | ident hid _ _ ih =>
    rw [List.filter_append, hid.identifier.filter_isBlank, ih]
    rfl

theorem Lexes.isName (h : Lexes cs ts) (hmem : .ident id ∈ ts) : IsName id := by
  induction h with
  | nil => cases hmem
  | blank _ _ ih => exact ih hmem
  | dot _ ih | openParen _ ih | closeParen _ ih | this _ _ ih => exact ih (by simpa using hmem)
  | ident hid _ _ ih =>
    rcases List.mem_cons.1 hmem with heq | hmem
    · cases heq
      exact hid
    · exact ih hmem

theorem endsWord_mark {c : Char} (hc : c ∈ marks) : EndsWord (c :: cs) := by
  intro c' hc'
  obtain rfl : c = c' := Option.some.inj hc'
  exact isIdentRest_mark hc

end LockToken

namespace LockChain

theorem endsWord_links (links : List ChainLink) : EndsWord ((linkTokens links).flatMap chars) := by
  cases links with
  | nil => exact nofun
  | cons link links => exact endsWord_mark (by decide)

theorem lexes_link {link : ChainLink} {cs : List Char} {ts : List LockToken}
    (hnames : ∀ id, .ident id ∈ link.tokens → IsName id) (hend : EndsWord cs) (hcs : Lexes cs ts) :
    Lexes (link.tokens.flatMap chars ++ cs) (link.tokens ++ ts) := by
  cases link with
  | member id =>
    have hlexes := Lexes.ident (hnames id (by simp [ChainLink.tokens])) hend hcs
    simpa [ChainLink.tokens, chars] using hlexes
  | call id =>
    have hlexes := Lexes.ident (hnames id (by simp [ChainLink.tokens]))
      (endsWord_mark (by decide)) (.openParen (.closeParen hcs))
    simpa [ChainLink.tokens, chars] using hlexes

theorem lexes_links {links : List ChainLink}
    (hnames : ∀ id, .ident id ∈ linkTokens links → IsName id) :
    Lexes ((linkTokens links).flatMap chars) (linkTokens links) := by
  induction links with
  | nil => exact .nil
  | cons link links ih =>
    have hlinks := ih fun id hid => hnames id (by simp_all [linkTokens])
    have hlink : ∀ id, .ident id ∈ link.tokens → IsName id :=
      fun id hid => hnames id (by simp_all [linkTokens])
    simpa [linkTokens, chars] using Lexes.dot (lexes_link hlink (endsWord_links links) hlinks)

/-- The tokens of a chain can be written without white space: no two words stand side by side. -/
theorem lexes_chars {chain : LockChain} (hnames : ∀ id, .ident id ∈ chain.tokens → IsName id) :
    Lexes (chain.tokens.flatMap chars) chain.tokens := by
  obtain ⟨head, links⟩ := chain
  have hlinks : Lexes ((linkTokens links).flatMap chars) (linkTokens links) :=
    lexes_links fun id hid => hnames id (List.mem_append_right _ hid)
  rw [tokens, List.flatMap_append]
  cases head with
  | this => exact .this (endsWord_links links) hlinks
  | link first =>
    exact lexes_link (fun id hid => hnames id (List.mem_append_left _ hid)) (endsWord_links links)
      hlinks

end LockChain

namespace LockExpr

/-- The names in an expression, from left to right. -/
def names : LockExpr → List String
  | .this => []
  | .name id | .call id => [id]
  | .select base id | .invoke base id => base.names ++ [id]

theorem toList_render_extend (e : LockExpr) (link : ChainLink) :
    (link.extend e).render.toList = e.render.toList ++ '.' :: link.tokens.flatMap chars := by
  cases link <;> simp [ChainLink.extend, render, ChainLink.tokens, chars]

theorem toList_render_foldl_extend (links : List ChainLink) (e : LockExpr) :
    (links.foldl ChainLink.extend e).render.toList =
      e.render.toList ++ (LockChain.linkTokens links).flatMap chars := by
  induction links generalizing e with
  | nil => simp [LockChain.linkTokens]
  | cons link links ih =>
    rw [List.foldl_cons, ih, toList_render_extend]
    simp [LockChain.linkTokens, chars]

/-- The rendering of a chain is its tokens without white space. -/
theorem toList_render_expr (chain : LockChain) :
    chain.expr.render.toList = chain.tokens.flatMap chars := by
  rw [LockChain.expr, toList_render_foldl_extend, LockChain.tokens, List.flatMap_append]
  congr 1
  rcases chain.head with _ | (id | id) <;>
    simp [ChainHead.expr, ChainHead.tokens, ChainLink.tokens, render, chars]

theorem mem_names_foldl_extend {links : List ChainLink} {e : LockExpr} {id : String} :
    id ∈ (links.foldl ChainLink.extend e).names ↔
      id ∈ e.names ∨ .ident id ∈ LockChain.linkTokens links := by
  induction links generalizing e with
  | nil => simp [LockChain.linkTokens]
  | cons link links ih =>
    rw [List.foldl_cons, ih]
    cases link <;>
      simp [ChainLink.extend, names, ChainLink.tokens, LockChain.linkTokens, or_assoc]

theorem mem_names_expr {chain : LockChain} {id : String} :
    id ∈ chain.expr.names ↔ .ident id ∈ chain.tokens := by
  rw [LockChain.expr, mem_names_foldl_extend, LockChain.tokens, List.mem_append]
  refine or_congr_left ?_
  rcases chain.head with _ | (id' | id') <;>
    simp [ChainHead.expr, ChainHead.tokens, ChainLink.tokens, names]

theorem exists_chain_extend (chain : LockChain) (link : ChainLink) :
    ∃ longer : LockChain, longer.expr = link.extend chain.expr := by
  refine ⟨⟨chain.head, chain.links ++ [link]⟩, ?_⟩
  rw [LockChain.expr, List.foldl_append]
  rfl

theorem exists_chain (e : LockExpr) : ∃ chain : LockChain, chain.expr = e := by
  induction e with
  | this => exact ⟨⟨.this, []⟩, rfl⟩
  | name id => exact ⟨⟨.link (.member id), []⟩, rfl⟩
  | call id => exact ⟨⟨.link (.call id), []⟩, rfl⟩
  | select base id ih =>
    obtain ⟨chain, rfl⟩ := ih
    exact exists_chain_extend chain (.member id)
  | invoke base id ih =>
    obtain ⟨chain, rfl⟩ := ih
    exact exists_chain_extend chain (.call id)

theorem read_render {e : LockExpr} (hnames : ∀ id ∈ e.names, IsName id) :
    read e.render = .ok e := by
  obtain ⟨chain, rfl⟩ := exists_chain e
  refine read_eq_ok_iff.2 ⟨chain, ?_, rfl⟩
  rw [toList_render_expr]
  exact LockChain.lexes_chars fun id hid => hnames id (mem_names_expr.2 hid)

theorem isName_of_read {text : String} {e : LockExpr} (h : read text = .ok e) :
    ∀ id ∈ e.names, IsName id := by
  obtain ⟨chain, hlexes, rfl⟩ := read_eq_ok_iff.1 h
  exact fun id hid => hlexes.isName (mem_names_expr.1 hid)

theorem render_of_read {text : String} {e : LockExpr} (h : read text = .ok e) :
    e.render = Text.withoutBlanks text := by
  obtain ⟨chain, hlexes, rfl⟩ := read_eq_ok_iff.1 h
  rw [Text.withoutBlanks, hlexes.filter_isBlank, ← toList_render_expr, String.ofList_toList]

/-- Reading and rendering are inverse. An expression is read from its rendering if its names are
such, and only then. An expression that is read from a text renders as the text without its white
space, and so two texts are read alike if and only if they differ in white space alone. -/
theorem read_render_inverse :
    (∀ e : LockExpr, read e.render = .ok e ↔ ∀ id ∈ e.names, IsName id) ∧
      (∀ text e, read text = .ok e → e.render = Text.withoutBlanks text) ∧
      ∀ text text' e e', read text = .ok e → read text' = .ok e' →
        (e = e' ↔ Text.withoutBlanks text = Text.withoutBlanks text') := by
  refine ⟨fun e => ⟨isName_of_read, read_render⟩, fun _ _ => render_of_read, ?_⟩
  intro text text' e e' h h'
  rw [← render_of_read h, ← render_of_read h']
  refine ⟨congrArg render, fun hrender => ?_⟩
  -- Both expressions are read from the rendering that they share.
  have hread := read_render (isName_of_read h)
  rw [hrender, read_render (isName_of_read h')] at hread
  exact (Except.ok.inj hread).symm

end LockExpr

open Sample

/-- A text with white space is read as the same expression as the rendering without it. -/
theorem LockExpr.read_render_inverse_spacedChain :
    read spacedText = .ok spacedChain.expr ∧ read "this.a().b" = .ok spacedChain.expr ∧
      (∀ id ∈ spacedChain.expr.names, IsName id) ∧ spacedChain.expr.render = "this.a().b" ∧
      Text.withoutBlanks spacedText = Text.withoutBlanks "this.a().b" := by
  have hspaced : read spacedText = .ok spacedChain.expr := by decide +kernel
  have hplain : read "this.a().b" = .ok spacedChain.expr := by decide +kernel
  have hrender : spacedChain.expr.render = "this.a().b" := by decide +kernel
  obtain ⟨hnames, -, hsame⟩ := read_render_inverse
  exact ⟨hspaced, hplain, (hnames _).1 (hrender ▸ hplain), hrender,
    (hsame _ _ _ _ hspaced hplain).1 rfl⟩

end LockDiscipline
