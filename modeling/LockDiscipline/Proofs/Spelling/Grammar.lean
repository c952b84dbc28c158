import LockDiscipline.Lock.Reader
import LockDiscipline.Proofs.Spelling.Lexeme
import Mathlib.Data.List.Basic

/-! The grammar of lock expressions: a head, and any number of links after it, each behind a dot.
Reading accepts the texts whose tokens are such a chain and no others, and what it gives is the
chain with its links taken from left to right. -/

namespace LockDiscipline

open LockToken

/-- A link of a chain: a member, or a call without arguments. -/
inductive ChainLink where
  | member (id : String)
  | call (id : String)
  deriving DecidableEq, Repr

/-- What a chain begins with. -/
inductive ChainHead where
  | this
  | link (first : ChainLink)
  deriving DecidableEq, Repr

/-- A chain of members and calls. -/
structure LockChain where
  head : ChainHead
  links : List ChainLink
  deriving DecidableEq, Repr

/-- An identifier, for a call with parentheses behind it. -/
def ChainLink.tokens : ChainLink → List LockToken
  | .member id => [.ident id]
  | .call id => [.ident id, .openParen, .closeParen]

/-- The expression with one more link at its end. -/
def ChainLink.extend (base : LockExpr) : ChainLink → LockExpr
  | .member id => .select base id
  | .call id => .invoke base id

/-- The word `this`, or a link. -/
def ChainHead.tokens : ChainHead → List LockToken
  | .this => [.this]
  | .link first => first.tokens

/-- The head as an expression. -/
def ChainHead.expr : ChainHead → LockExpr
  | .this => .this
  | .link (.member id) => .name id
  | .link (.call id) => .call id

namespace LockChain

/-- The links with their dots. -/
def linkTokens (links : List ChainLink) : List LockToken :=
  links.flatMap fun link => .dot :: link.tokens

/-- The tokens of a chain: the head, and each link after a dot. -/
def tokens (chain : LockChain) : List LockToken :=
  chain.head.tokens ++ linkTokens chain.links

/-- The expression of a chain: the links are put to the head one after another. -/
def expr (chain : LockChain) : LockExpr :=
  chain.links.foldl ChainLink.extend chain.head.expr

end LockChain

namespace LockExpr

theorem root_extend (e : LockExpr) (link : ChainLink) : (link.extend e).root = e.root := by
  cases link <;> rfl

theorem root_foldl_extend (links : List ChainLink) (e : LockExpr) :
    (links.foldl ChainLink.extend e).root = e.root := by
  induction links generalizing e with
  | nil => rfl
  | cons link links ih => rw [List.foldl_cons, ih, root_extend]

/-- The links are read one after another, and none of them takes a part of the next one. -/
theorem ofTail_linkTokens (links : List ChainLink) (e : LockExpr) :
    ofTail e (LockChain.linkTokens links) = .ok (links.foldl ChainLink.extend e) := by
  induction links generalizing e with
  | nil => rfl
  | cons link links ih =>
    rw [List.foldl_cons, ← ih]
    cases link with
    | call id => rfl
    -- What comes after a member is nothing or a dot, and so the member is not taken for a call.
    | member id => cases links <;> rfl

theorem links_of_ofTail {e e' : LockExpr} {ts : List LockToken} (h : ofTail e ts = .ok e') :
    ∃ links, LockChain.linkTokens links = ts ∧ links.foldl ChainLink.extend e = e' := by
  fun_induction ofTail e ts with
  | case1 e =>
    cases h
    exact ⟨[], rfl, rfl⟩
  | case2 e id ts ih =>
    obtain ⟨links, rfl, hlinks⟩ := ih h
    exact ⟨.call id :: links, rfl, hlinks⟩
  | case5 e id ts _ _ _ ih =>
    obtain ⟨links, rfl, hlinks⟩ := ih h
    exact ⟨.member id :: links, rfl, hlinks⟩
  | case3 | case4 | case6 | case7 | case8 => cases h

theorem ofTokens_tokens (chain : LockChain) : ofTokens chain.tokens = .ok chain.expr := by
  obtain ⟨head, links⟩ := chain
  rw [LockChain.expr, ← ofTail_linkTokens]
  cases head with
  | this => cases links <;> rfl
  | link first =>
    cases first with
    | call id => rfl
    | member id => cases links <;> rfl

theorem chain_of_ofTokens {ts : List LockToken} {e : LockExpr} :
    ofTokens ts = .ok e → ∃ chain : LockChain, chain.tokens = ts ∧ chain.expr = e := by
  fun_cases ofTokens ts with
  | case3 ts =>
    intro h
    obtain ⟨links, rfl, hlinks⟩ := links_of_ofTail h
    exact ⟨⟨.this, links⟩, rfl, hlinks⟩
  | case4 id ts =>
    intro h
    obtain ⟨links, rfl, hlinks⟩ := links_of_ofTail h
    exact ⟨⟨.link (.call id), links⟩, rfl, hlinks⟩
  | case7 id ts =>
    intro h
    obtain ⟨links, rfl, hlinks⟩ := links_of_ofTail h
    exact ⟨⟨.link (.member id), links⟩, rfl, hlinks⟩
  | case1 | case2 | case5 | case6 | case8 => exact nofun

/-- An expression is read from a text exactly if the text says its chain. -/
theorem read_eq_ok_iff {text : String} {e : LockExpr} : read text = .ok e ↔
    ∃ chain : LockChain, Lexes text.toList chain.tokens ∧ chain.expr = e := by
  rw [read, bind_eq_ok_iff]
  constructor
  · rintro ⟨ts, hscan, hparse⟩
    obtain ⟨chain, rfl, hchain⟩ := chain_of_ofTokens hparse
    exact ⟨chain, scan_eq_ok_iff.1 hscan, hchain⟩
  · rintro ⟨chain, hlexes, rfl⟩
    exact ⟨chain.tokens, scan_eq_ok_iff.2 hlexes, ofTokens_tokens chain⟩

/-- Reading accepts exactly the grammar: a text can be read if and only if its tokens are a chain,
`this` or a link first and then any number of links, each after a dot. What is read is the chain
with one member or call for each link, from left to right, and its root is the head. -/
theorem read_iff_grammar (text : String) :
    ((∃ e, read text = .ok e) ↔ ∃ chain : LockChain, Lexes text.toList chain.tokens) ∧
      ∀ chain : LockChain, Lexes text.toList chain.tokens →
        read text = .ok chain.expr ∧ chain.expr.root = chain.head.expr := by
  refine ⟨⟨?_, ?_⟩, fun chain hlexes => ⟨read_eq_ok_iff.2 ⟨chain, hlexes, rfl⟩, ?_⟩⟩
  · rintro ⟨e, he⟩
    obtain ⟨chain, hlexes, -⟩ := read_eq_ok_iff.1 he
    exact ⟨chain, hlexes⟩
  · rintro ⟨chain, hlexes⟩
    exact ⟨chain.expr, read_eq_ok_iff.2 ⟨chain, hlexes, rfl⟩⟩
  · rw [LockChain.expr, root_foldl_extend]
    cases chain.head with
    | this => rfl
    | link first => cases first <;> rfl

end LockExpr

namespace Sample

/-- A chain with white space of several kinds between its tokens. -/
def spacedText : String := "\tthis . a\u2003( )\n.b "

/-- The chain `this.a().b`. -/
def spacedChain : LockChain := ⟨.this, [.call "a", .member "b"]⟩

end Sample

open Sample

/-- The white space does not matter. -/
theorem LockExpr.read_iff_grammar_spacedChain : Lexes spacedText.toList spacedChain.tokens ∧
    (∃ e, read spacedText = .ok e) ∧
      read spacedText = .ok (.select (.invoke .this "a") "b") ∧ spacedChain.expr.root = .this := by
  have hscan : scan 0 spacedText.toList = .ok spacedChain.tokens := by decide +kernel
  have hlexes := scan_eq_ok_iff.1 hscan
  obtain ⟨hread, hchain⟩ := read_iff_grammar spacedText
  obtain ⟨hexpr, hroot⟩ := hchain spacedChain hlexes
  exact ⟨hlexes, hread.2 ⟨spacedChain, hlexes⟩, hexpr, hroot⟩

example : ∀ text ∈ ["", ".a", "a.", "a..b", "a b", "a(", "a(b)", "this()", "a.this"],
    (LockExpr.read text).toOption = none := by decide +kernel

end LockDiscipline
