import LockDiscipline.Yaml.Cursor

/-!
The texts of scalars: plain, quoted, and in blocks of lines.
-/

namespace LockDiscipline.Yaml

private theorem length_skip_lt {c : Cursor} {x : Char} {rest : List Char} {n : Nat}
    (h : c.rest = x :: rest) (hn : 0 < n) : (c.skip n).rest.length < c.rest.length := by
  simp only [Cursor.skip, List.length_drop, h, List.length_cons]
  omega

/-- What was read of a plain scalar. -/
structure PlainScalar where
  text : List Char
  /-- Whether line breaks stand between the scalar and the cursor. -/
  brokeLine : Bool
  cursor : Cursor

/-- Reads a plain scalar to its end, from a cursor after the words `text`, which are held backwards,
and the gap behind them. It ends before a colon at the end of a word, before a comment, before a
mark between documents, in a block before a line left of `margin`, and within brackets before a
bracket or a comma. -/
def plain (flow : Bool) (margin : Nat) (text : List Char) (gap : Gap) (c : Cursor) :
    Option PlainScalar :=
  match _hb : c.lineBreak? with
  | some (b, d) => plain flow margin text (gap.addBreak b) d
  | none =>
    match _hr : c.rest with
    | [] => some ⟨text.reverse, gap.isBroken, c⟩
    | x :: rest =>
      if isBlank x then
        if gap.isBroken ∧ c.place.column < margin ∧ x = '\t' then none
        else plain flow margin text (gap.addBlank x) (c.skip 1)
      else if gap ≠ ∅ ∧
          ((!flow ∧ c.place.column < margin) ∨ c.atDocumentMark ∨ x = '#') then
        some ⟨text.reverse, gap.isBroken, c⟩
      else if flow ∧ x = ':' ∧ rest.head?.any (fun y => y = '?' || isFlowMark y) then none
      else if (x = ':' ∧ atWordEnd rest) ∨ (flow ∧ isFlowMark x) then
        some ⟨text.reverse, gap.isBroken, c⟩
      else plain flow margin (x :: gap.addTo text) ∅ (c.skip 1)
termination_by c.rest.length
decreasing_by
  · exact Cursor.lineBreak?_length _hb
  · exact length_skip_lt _hr (by decide)
  · exact length_skip_lt _hr (by decide)

/-- The character that `n` hexadecimal digits stand for. -/
def hexChar? (n : Nat) (cs : List Char) : Option Char := do
  let digits ← (cs.take n).mapM hexDigit?
  let code := digits.foldl (fun v d => 16 * v + d) 0
  if digits.length = n ∧ code.isValidChar then some (Char.ofNat code) else none

/-- The character that an escape stands for, and the length of the escape, both without the
backslash. -/
def escape? : List Char → Option (Char × Nat)
  | [] => none
  | c :: rest =>
    match c with
    | '0' => some ('\x00', 1)
    | 'a' => some ('\x07', 1)
    | 'b' => some ('\x08', 1)
    | 't' | '\t' => some ('\t', 1)
    | 'n' => some ('\n', 1)
    | 'v' => some ('\x0b', 1)
    | 'f' => some ('\x0c', 1)
    | 'r' => some ('\r', 1)
    | 'e' => some ('\x1b', 1)
    | ' ' | '"' | '/' | '\\' => some (c, 1)
    | 'N' => some ('\x85', 1)
    | '_' => some ('\xa0', 1)
    | 'L' => some ('\u2028', 1)
    | 'P' => some ('\u2029', 1)
    | 'x' => (hexChar? 2 rest).map (·, 3)
    | 'u' => (hexChar? 4 rest).map (·, 5)
    | 'U' => (hexChar? 8 rest).map (·, 9)
    | _ => none

/-- Reads a scalar up to the closing `mark`, which is a single or a double quote, from a cursor
after the words `text`, which are held backwards, and the gap behind them. Within single quotes a
doubled quote is a quote; within double quotes a backslash starts an escape. -/
def quoted (mark : Char) (text : List Char) (gap : Gap) (c : Cursor) :
    Option (List Char × Cursor) :=
  match _hb : c.lineBreak? with
  | some (b, d) => quoted mark text (gap.addBreak b) d
  | none =>
    match _hr : c.rest with
    | [] => none
    | x :: rest =>
      if isBlank x then quoted mark text (gap.addBlank x) (c.skip 1)
      else if c.atDocumentMark then none
      else
        let text := gap.addTo text
        if x = mark then
          if mark = '\'' ∧ rest.head? = some '\'' then quoted mark ('\'' :: text) ∅ (c.skip 2)
          else some (text.reverse, c.skip 1)
        else if mark = '"' ∧ x = '\\' then
          match _he : (c.skip 1).lineBreak? with
          | some (_, d) => quoted mark text (.breaks none []) d
          | none =>
            match escape? rest with
            | some (e, n) => quoted mark (e :: text) ∅ (c.skip (n + 1))
            | none => none
        else quoted mark (x :: text) ∅ (c.skip 1)
termination_by c.rest.length
decreasing_by
  · exact Cursor.lineBreak?_length _hb
  · exact length_skip_lt _hr (by decide)
  · exact length_skip_lt _hr (by decide)
  · exact Nat.lt_trans (Cursor.lineBreak?_length _he) (length_skip_lt _hr (by decide))
  · exact length_skip_lt _hr (by omega)
  · exact length_skip_lt _hr (by decide)

/-- What becomes of the line breaks at the end of a block. -/
inductive Chomping where
  | strip
  | clip
  | keep
  deriving DecidableEq, Repr

/-- The signs behind the mark of a block: what becomes of its end, and how far its lines are
indented. -/
structure BlockHeader where
  chomping : Chomping := .clip
  indent : Option Nat := none
  deriving DecidableEq, Repr

/-- The sign for the end of a block that stands here. -/
def chomping? (c : Cursor) : Option (Chomping × Cursor) :=
  match c.rest with
  | '+' :: _ => some (.keep, c.skip 1)
  | '-' :: _ => some (.strip, c.skip 1)
  | _ => none

/-- The header of a block, with its signs in any order; an indentation of 0 is refused. -/
def blockHeader? (c : Cursor) : Option (BlockHeader × Cursor) :=
  let indent (c : Cursor) : Option (Option Nat × Cursor) :=
    match c.rest with
    | d :: _ =>
      if d = '0' then none
      else if d.isDigit then some (some (d.toNat - '0'.toNat), c.skip 1)
      else some (none, c)
    | [] => some (none, c)
  match chomping? c with
  | some (chomping, c) => do
    let (indent, c) ← indent c
    return ({ chomping, indent }, c)
  | none => do
    match ← indent c with
    | (none, c) => return ({}, c)
    | (indent, c) =>
      let (chomping, c) := (chomping? c).getD (.clip, c)
      return ({ chomping, indent }, c)

/-- Reads the blank lines before the first line of a block, of which `breaks` were read already, held
backwards, and finds the indentation: that of the line with most spaces in front among the first
line and the blank ones, and at least `margin` and 1. A tab among the spaces is refused. -/
def firstIndent (margin : Nat) (breaks : List Char) (widest : Nat) (c : Cursor) :
    Option (Nat × List Char × Cursor) :=
  match _hb : c.lineBreak? with
  | some (b, d) => firstIndent margin (b :: breaks) (max widest c.place.column) d
  | none =>
    match _hr : c.rest with
    | ' ' :: _ => firstIndent margin breaks widest (c.skip 1)
    | '\t' :: _ => none
    | _ => some (max (max widest c.place.column) (max margin 1), breaks, c)
termination_by c.rest.length
decreasing_by
  · exact Cursor.lineBreak?_length _hb
  · exact length_skip_lt _hr (by decide)

/-- What was read of a block. -/
structure BlockText where
  /-- The lines, held backwards, without the last line break. -/
  text : List Char := []
  /-- The break at the end of the last line. -/
  last : Option Char := none
  /-- The breaks of the blank lines after it, held backwards. -/
  blank : List Char := []
  /-- Whether the last line starts with a blank. -/
  indented : Bool := false

namespace BlockText

/-- The text with its end as it was asked for. -/
def finish (b : BlockText) (chomping : Chomping) : List Char :=
  match chomping with
  | .strip => b.text.reverse
  | .clip => b.text.reverse ++ b.last.toList
  | .keep => b.text.reverse ++ b.last.toList ++ b.blank.reverse

/-- The text with the first character of another line. When lines are folded, a single line feed
between two lines that do not start with a blank counts as a space, and the first of several as
nothing. -/
def startLine (b : BlockText) (folded : Bool) (x : Char) : BlockText :=
  let joint :=
    if folded ∧ b.last = some '\n' ∧ !b.indented ∧ !isBlank x then
      if b.blank.isEmpty then [' '] else []
    else b.last.toList
  { text := x :: (b.blank ++ (joint ++ b.text)), indented := isBlank x }

end BlockText

/-- Reads the lines of a block that are indented by `indent`; a tab in front of them is refused. -/
def blockLines (folded : Bool) (indent : Nat) (inLine : Bool) (b : BlockText) (c : Cursor) :
    Option (BlockText × Cursor) :=
  match _hb : c.lineBreak? with
  | some (x, d) =>
    blockLines folded indent false
      (if inLine then { b with last := some x } else { b with blank := x :: b.blank }) d
  | none =>
    match _hr : c.rest with
    | [] => some (b, c)
    | x :: _ =>
      if inLine then blockLines folded indent true { b with text := x :: b.text } (c.skip 1)
      else if c.place.column < indent ∧ x = ' ' then blockLines folded indent false b (c.skip 1)
      else if c.place.column < indent ∧ x = '\t' then none
      else if c.place.column = indent then
        blockLines folded indent true (b.startLine folded x) (c.skip 1)
      else some (b, c)
termination_by c.rest.length
decreasing_by
  · exact Cursor.lineBreak?_length _hb
  · exact length_skip_lt _hr (by decide)
  · exact length_skip_lt _hr (by decide)
  · exact length_skip_lt _hr (by decide)

/-- Reads a block from behind its mark. -/
def block (folded : Bool) (margin : Nat) (c : Cursor) : Option (List Char × Cursor) := do
  let (header, c) ← blockHeader? c
  let c ← c.endOfLine?
  let (indent, start, c) ← match header.indent with
    | some n => some (margin - 1 + n, [], c)
    | none => firstIndent margin [] 0 c
  let (b, c) ← blockLines folded indent false { blank := start } c
  return (b.finish header.chomping, c)

end LockDiscipline.Yaml
