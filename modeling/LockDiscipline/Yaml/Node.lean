import LockDiscipline.Yaml.Token

/-!
The tree of nodes that the tokens of a text make up. A text holds one document at most.
-/

namespace LockDiscipline.Yaml

/-- What may stand before a node. -/
structure Properties where
  anchor : Option Nat := none
  tag : Option (List UInt8) := none
  deriving DecidableEq, Repr

/-- A node of a document. -/
inductive Node where
  | reference (number : Nat)
  | scalar (properties : Properties) (text : String) (isPlain : Bool)
  | sequence (properties : Properties) (items : List Node)
  | mapping (properties : Properties) (entries : List (Node × Node))

namespace Node

/-- The node where nothing is written. -/
def nothing : Node := .scalar {} "" true

/-- The node and all nodes within it, in the order in which they start. -/
def all : Node → List Node
  | .sequence p items => .sequence p items :: items.attach.flatMap fun ⟨item, _⟩ => item.all
  | .mapping p entries =>
    .mapping p entries :: entries.attach.flatMap fun ⟨entry, _⟩ => entry.1.all ++ entry.2.all
  | node => [node]
termination_by node => sizeOf node
decreasing_by
  · have := List.sizeOf_lt_of_mem ‹_›
    simp only [sequence.sizeOf_spec]
    omega
  · have := List.sizeOf_lt_of_mem ‹_›
    obtain ⟨k, v⟩ := entry
    simp only [mapping.sizeOf_spec, Prod.mk.sizeOf_spec] at this ⊢
    omega
  · have := List.sizeOf_lt_of_mem ‹_›
    obtain ⟨k, v⟩ := entry
    simp only [mapping.sizeOf_spec, Prod.mk.sizeOf_spec] at this ⊢
    omega

/-- The anchor before the node. -/
def anchor? : Node → Option Nat
  | .reference _ => none
  | .scalar p _ _ => p.anchor
  | .sequence p _ => p.anchor
  | .mapping p _ => p.anchor

/-- How often the node is entered or left when a document is read: once if nothing can be inside
it, twice otherwise. -/
def steps : Node → Nat
  | .reference _ => 1
  | .scalar _ _ _ => 1
  | .sequence _ _ => 2
  | .mapping _ _ => 2

end Node

/-- What was read from the start of fewer than `n` tokens, and the tokens after it. -/
structure Parsed (α : Type) (n : Nat) where
  result : α
  rest : List Token
  shorter : rest.length < n

/-- Reads anchor and tag before a node, in any order; refused if the tag has an unknown handle. -/
def properties? (directives : List TagDirective) (ts : List Token) :
    Option (Parsed Properties (ts.length + 1)) :=
  match ts with
  | .anchor a :: .tag t :: rest =>
    (t.resolve? directives).map fun tag =>
      ⟨⟨some a, some tag⟩, rest, Nat.lt_add_of_pos_right (Nat.zero_lt_succ 2)⟩
  | .tag t :: .anchor a :: rest =>
    (t.resolve? directives).map fun tag =>
      ⟨⟨some a, some tag⟩, rest, Nat.lt_add_of_pos_right (Nat.zero_lt_succ 2)⟩
  | .anchor a :: rest =>
    some ⟨⟨some a, none⟩, rest, Nat.lt_add_of_pos_right (Nat.zero_lt_succ 1)⟩
  | .tag t :: rest =>
    (t.resolve? directives).map fun tag =>
      ⟨⟨none, some tag⟩, rest, Nat.lt_add_of_pos_right (Nat.zero_lt_succ 1)⟩
  | ts => some ⟨{}, ts, Nat.lt_succ_self _⟩

/-- Where an item of a block may be missing. -/
def endsItem (t : Token) : Bool := t = .blockEntry || t = .blockEnd

/-- Where a key or a value of a block, or an item of a sequence in it, may be missing. -/
def endsEntry (t : Token) : Bool := t = .key || t = .value || t = .blockEnd

/-- Where a value between brackets may be missing. -/
def endsFlowValue (t : Token) : Bool :=
  t = .flowEntry || t = .flowSequenceEnd || t = .flowMappingEnd

/-- The node where nothing is written but its properties; refused if there are none of them either,
so that no token was read. -/
def missing {n : Nat} (p : Properties) (rest : List Token) :
    Option (Parsed Node n) :=
  if h : rest.length < n then some ⟨.scalar p "" true, rest, h⟩ else none

mutual

/-- Reads a node. Blocks are refused if not `block`; a sequence may stand without an indentation of
its own if `indentless`. -/
def node? (directives : List TagDirective) (block indentless : Bool) (ts : List Token) :
    Option (Parsed Node ts.length) :=
  match ts with
  | .reference number :: rest => some ⟨.reference number, rest, by simp⟩
  | ts =>
    (properties? directives ts).bind fun ⟨p, us, hu⟩ =>
      match us, hu with
      | [], hu => missing p []
      | t :: us, hu =>
        have : us.length < ts.length := Nat.lt_of_succ_lt_succ hu
        clear% hu
        match t, block, indentless with
        | .scalar text isPlain, _, _ => some ⟨.scalar p text isPlain, us, this⟩
        | .flowSequenceStart, _, _ =>
          (flowItems? directives us).map fun ⟨items, rest, h⟩ =>
            ⟨.sequence p items, rest, Nat.lt_trans h this⟩
        | .flowMappingStart, _, _ =>
          (flowEntries? directives us).map fun ⟨entries, rest, h⟩ =>
            ⟨.mapping p entries, rest, Nat.lt_trans h this⟩
        | .blockEntry, _, true =>
          (indentlessItems? directives us).map fun ⟨items, rest, h⟩ =>
            ⟨.sequence p items, rest, Nat.lt_of_le_of_lt (Nat.le_of_lt_succ h) this⟩
        | .blockSequenceStart, true, _ =>
          (blockItems? directives us).map fun ⟨items, rest, h⟩ =>
            ⟨.sequence p items, rest, Nat.lt_trans h this⟩
        | .blockMappingStart, true, _ =>
          (blockEntries? directives us).map fun ⟨entries, rest, h⟩ =>
            ⟨.mapping p entries, rest, Nat.lt_trans h this⟩
        | t, _, _ => missing p (t :: us)
termination_by 4 * ts.length + 1
decreasing_by all_goals omega

/-- Reads a node, or nothing before a token that ends where a node may be missing. -/
def nodeBefore? (directives : List TagDirective) (ends : Token → Bool) (block indentless : Bool)
    (ts : List Token) : Option (Parsed Node (ts.length + 1)) :=
  if ts.head?.any ends then some ⟨.nothing, ts, Nat.lt_succ_self _⟩
  else (node? directives block indentless ts).map fun ⟨node, rest, h⟩ =>
    ⟨node, rest, Nat.lt_succ_of_lt h⟩
termination_by 4 * ts.length + 2

/-- Reads a value behind a colon, or nothing if there is no colon. -/
def valueBefore? (directives : List TagDirective) (ends : Token → Bool) (block : Bool)
    (ts : List Token) : Option (Parsed Node (ts.length + 1)) :=
  match ts with
  | .value :: rest =>
    (nodeBefore? directives ends block block rest).map fun ⟨node, rest, h⟩ =>
      ⟨node, rest, Nat.lt_succ_of_lt h⟩
  | ts => some ⟨.nothing, ts, Nat.lt_succ_self _⟩
termination_by 4 * ts.length + 3

/-- Reads the items of a block up to its end. -/
def blockItems? (directives : List TagDirective) (ts : List Token) :
    Option (Parsed (List Node) ts.length) :=
  match ts with
  | .blockEntry :: rest =>
    (nodeBefore? directives endsItem true false rest).bind fun ⟨item, rest, _⟩ =>
    (blockItems? directives rest).map fun ⟨items, rest, _⟩ =>
      ⟨item :: items, rest, by simp only [List.length_cons]; omega⟩
  | .blockEnd :: rest => some ⟨[], rest, by simp⟩
  | _ => none
termination_by 4 * ts.length

/-- Reads the items of a sequence without an indentation of its own, from behind the first dash. -/
def indentlessItems? (directives : List TagDirective) (ts : List Token) :
    Option (Parsed (List Node) (ts.length + 1)) :=
  (nodeBefore? directives (fun t => endsItem t || endsEntry t) true false ts).bind
    fun ⟨item, rest, h⟩ =>
      match rest, h with
      | .blockEntry :: rest, h =>
        (indentlessItems? directives rest).map fun ⟨items, rest, _⟩ =>
          ⟨item :: items, rest, by simp only [List.length_cons] at h; omega⟩
      | rest, h => some ⟨[item], rest, h⟩
termination_by 4 * ts.length + 3
decreasing_by
  · omega
  · simp only [List.length_cons] at h; omega

/-- Reads the entries of a block up to its end. -/
def blockEntries? (directives : List TagDirective) (ts : List Token) :
    Option (Parsed (List (Node × Node)) ts.length) :=
  match ts with
  | .key :: rest =>
    (nodeBefore? directives endsEntry true true rest).bind fun ⟨key, rest, _⟩ =>
    (valueBefore? directives endsEntry true rest).bind fun ⟨value, rest, _⟩ =>
    (blockEntries? directives rest).map fun ⟨entries, rest, _⟩ =>
      ⟨(key, value) :: entries, rest, by simp only [List.length_cons]; omega⟩
  | .blockEnd :: rest => some ⟨[], rest, by simp⟩
  | _ => none
termination_by 4 * ts.length

/-- Reads the only entry of a mapping among the items of a sequence, from behind the mark of its
key. Where the key is missing, the token that stands in its place is passed over with it. -/
def flowPair? (directives : List TagDirective) (ts : List Token) :
    Option (Parsed Node ts.length) :=
  match ts with
  | [] => none
  | t :: rest =>
    if t = .value ∨ t = .flowEntry ∨ t = .flowSequenceEnd then
      (valueBefore? directives endsFlowValue false rest).map fun ⟨value, rest, h⟩ =>
        ⟨.mapping {} [(.nothing, value)], rest, h⟩
    else
      (node? directives false false (t :: rest)).bind fun ⟨key, rest, _⟩ =>
      (valueBefore? directives endsFlowValue false rest).map fun ⟨value, rest, _⟩ =>
        ⟨.mapping {} [(key, value)], rest, by omega⟩
termination_by 4 * ts.length + 2
decreasing_by all_goals (simp only [List.length_cons] at *; omega)

/-- Reads an item between brackets, which may be a mapping of one entry without brackets. -/
def flowItem? (directives : List TagDirective) (ts : List Token) :
    Option (Parsed Node ts.length) :=
  match ts with
  | .key :: rest =>
    (flowPair? directives rest).map fun ⟨pair, rest, h⟩ => ⟨pair, rest, Nat.lt_succ_of_lt h⟩
  | ts => node? directives false false ts
termination_by 4 * ts.length + 2

/-- Reads items between brackets up to the closing one, from where an item may start. -/
def flowItems? (directives : List TagDirective) (ts : List Token) :
    Option (Parsed (List Node) ts.length) :=
  if ts.head? = some .flowSequenceEnd then
    match ts with
    | _ :: rest => some ⟨[], rest, by simp⟩
    | [] => none
  else
    (flowItem? directives ts).bind fun ⟨item, rest, h⟩ =>
      match rest, h with
      | .flowSequenceEnd :: rest, h =>
        some ⟨[item], rest, by simp only [List.length_cons] at h; omega⟩
      | .flowEntry :: rest, h =>
        (flowItems? directives rest).map fun ⟨items, rest, _⟩ =>
          ⟨item :: items, rest, by simp only [List.length_cons] at h; omega⟩
      | _, _ => none
termination_by 4 * ts.length + 3
decreasing_by
  · omega
  · simp only [List.length_cons] at h; omega

/-- Reads an entry between brackets, of which the value may be missing. -/
def flowMember? (directives : List TagDirective) (ts : List Token) :
    Option (Parsed (Node × Node) ts.length) :=
  match ts with
  | .key :: rest =>
    (nodeBefore? directives (fun t => t = .value || endsFlowValue t) false false rest).bind
      fun ⟨key, rest, _⟩ =>
        (valueBefore? directives endsFlowValue false rest).map fun ⟨value, rest, _⟩ =>
          ⟨(key, value), rest, by simp only [List.length_cons]; omega⟩
  | ts =>
    (node? directives false false ts).map fun ⟨key, rest, h⟩ => ⟨(key, .nothing), rest, h⟩
termination_by 4 * ts.length + 2

/-- Reads entries between brackets up to the closing one, from where an entry may start. -/
def flowEntries? (directives : List TagDirective) (ts : List Token) :
    Option (Parsed (List (Node × Node)) ts.length) :=
  if ts.head? = some .flowMappingEnd then
    match ts with
    | _ :: rest => some ⟨[], rest, by simp⟩
    | [] => none
  else
    (flowMember? directives ts).bind fun ⟨entry, rest, h⟩ =>
      match rest, h with
      | .flowMappingEnd :: rest, h =>
        some ⟨[entry], rest, by simp only [List.length_cons] at h; omega⟩
      | .flowEntry :: rest, h =>
        (flowEntries? directives rest).map fun ⟨entries, rest, _⟩ =>
          ⟨entry :: entries, rest, by simp only [List.length_cons] at h; omega⟩
      | _, _ => none
termination_by 4 * ts.length + 3
decreasing_by
  · omega
  · simp only [List.length_cons] at h; omega

end

/-- Reads the directives before a document, of which at most one may give a version, namely 1.1 or
1.2, and none may repeat the handle of another. -/
def directives? (version : Bool) (read : List TagDirective) :
    List Token → Option (List TagDirective × List Token)
  | .version major minor :: rest =>
    if version ∨ major ≠ 1 ∨ (minor ≠ 1 ∧ minor ≠ 2) then none else directives? true read rest
  | .tagDirective d :: rest =>
    if read.any (·.handle = d.handle) then none else directives? version (read ++ [d]) rest
  | ts => some (read ++ TagDirective.standard, ts)

/-- The root of the only document of a text; none in an empty text. Refused if the text is not a
document, or more than one. -/
def document? (ts : List Token) : Option (Option Node) := do
  if ts.isEmpty then return none
  let (directives, rest) ← directives? false [] ts
  let (root, rest) ←
    match rest with
    | .documentStart :: rest =>
      match rest with
      | [] | .documentStart :: _ | .documentEnd :: _ | .version _ _ :: _ | .tagDirective _ :: _ =>
        some (Node.nothing, rest)
      | rest => (node? directives true false rest).map fun r => (r.result, r.rest)
    | rest =>
      if rest.length < ts.length then none
      else (node? directives true false rest).map fun r => (r.result, r.rest)
  if (rest.dropWhile (· = .documentEnd)).isEmpty then return some root else none

end LockDiscipline.Yaml
