/-!
The BLAKE3 hash function, with which codes are derived when a sink is run: a message is cut into
chunks of 1024 bytes and these into blocks of 64, the blocks of a chunk are compressed in a row, and
the chunks are the leaves of a binary tree.
-/

namespace LockDiscipline.Blake3

/-- The chaining value every chunk starts from. -/
def initial : Vector UInt32 8 :=
  #v[0x6A09E667, 0xBB67AE85, 0x3C6EF372, 0xA54FF53A, 0x510E527F, 0x9B05688C, 0x1F83D9AB, 0x5BE0CD19]

/-- The word of sixteen whose place in the next round is each place. -/
def permutation : Vector (Fin 16) 16 :=
  #v[2, 6, 3, 10, 7, 0, 4, 13, 1, 11, 12, 5, 9, 14, 15, 8]

/-- Marks the first block of a chunk. -/
def chunkStart : UInt32 := 1

/-- Marks the last block of a chunk. -/
def chunkEnd : UInt32 := 2

/-- Marks an inner node of the tree. -/
def parent : UInt32 := 4

/-- Marks the root of the tree. -/
def root : UInt32 := 8

/-- The word with its bits moved `n` places down, around the end. -/
def rotateRight (w : UInt32) (n : UInt32) : UInt32 := (w >>> n) ||| (w <<< (32 - n))

/-- Mixes two message words into four words of the state. -/
def mix (s : Vector UInt32 16) (a b c d : Fin 16) (x y : UInt32) : Vector UInt32 16 :=
  let s := s.set a (s[a] + s[b] + x)
  let s := s.set d (rotateRight (s[d] ^^^ s[a]) 16)
  let s := s.set c (s[c] + s[d])
  let s := s.set b (rotateRight (s[b] ^^^ s[c]) 12)
  let s := s.set a (s[a] + s[b] + y)
  let s := s.set d (rotateRight (s[d] ^^^ s[a]) 8)
  let s := s.set c (s[c] + s[d])
  s.set b (rotateRight (s[b] ^^^ s[c]) 7)

/-- Mixes all message words into the state, first down the columns, then along the diagonals. -/
def round (s m : Vector UInt32 16) : Vector UInt32 16 :=
  let s := mix s 0 4 8 12 m[0] m[1]
  let s := mix s 1 5 9 13 m[2] m[3]
  let s := mix s 2 6 10 14 m[4] m[5]
  let s := mix s 3 7 11 15 m[6] m[7]
  let s := mix s 0 5 10 15 m[8] m[9]
  let s := mix s 1 6 11 12 m[10] m[11]
  let s := mix s 2 7 8 13 m[12] m[13]
  mix s 3 4 9 14 m[14] m[15]

/-- `n` rounds, with the message words permuted before each one but the first. -/
def rounds : Nat → Vector UInt32 16 → Vector UInt32 16 → Vector UInt32 16
  | 0, s, _ => s
  | n + 1, s, m => rounds n (round s m) (permutation.map fun i => m[i])

/-- A compression still to be made: where it starts from, what it takes in, and its marks. -/
structure Node where
  chaining : Vector UInt32 8
  block : Vector UInt32 16
  /-- The number of the chunk; 0 at inner nodes. -/
  counter : UInt64
  /-- How many bytes of the block are message. -/
  length : UInt32
  marks : UInt32

namespace Node

/-- The compression with the marks `extra` added. -/
def compress (n : Node) (extra : UInt32) : Vector UInt32 8 :=
  let h := n.chaining
  let s := rounds 7
    #v[h[0], h[1], h[2], h[3], h[4], h[5], h[6], h[7],
      initial[0], initial[1], initial[2], initial[3],
      n.counter.toUInt32, (n.counter >>> 32).toUInt32, n.length, n.marks ||| extra] n.block
  #v[s[0] ^^^ s[8], s[1] ^^^ s[9], s[2] ^^^ s[10], s[3] ^^^ s[11],
    s[4] ^^^ s[12], s[5] ^^^ s[13], s[6] ^^^ s[14], s[7] ^^^ s[15]]

/-- The node above two others. -/
def join (left right : Node) : Node :=
  { chaining := initial
    block := left.compress 0 ++ right.compress 0
    counter := 0, length := 64, marks := parent }

end Node

/-- The four bytes from place `4 * i` on as one word, the lowest first; missing bytes are 0. -/
def wordAt (bytes : List UInt8) (i : Nat) : UInt32 :=
  let byte (k : Nat) : UInt32 := (bytes[4 * i + k]?.getD 0).toUInt32
  byte 0 ||| byte 1 <<< 8 ||| byte 2 <<< 16 ||| byte 3 <<< 24

/-- The list cut after every `n + 1` elements; an empty list is one empty piece. -/
def cut {α : Type} (n : Nat) (l : List α) : List (List α) :=
  if l.length ≤ n + 1 then [l]
  else l.take (n + 1) :: cut n (l.drop (n + 1))
termination_by l.length
decreasing_by simp only [List.length_drop]; omega

/-- The last compression of a chunk, from the chaining value before `blocks`. -/
def chunkNode (counter : UInt64) (chaining : Vector UInt32 8) (marks : UInt32) :
    List (List UInt8) → Node
  | [] => { chaining, block := .ofFn fun _ => 0, counter, length := 0, marks := marks ||| chunkEnd }
  | [block] =>
    { chaining, block := .ofFn fun i => wordAt block i, counter
      length := .ofNat block.length, marks := marks ||| chunkEnd }
  | block :: rest =>
    let node : Node :=
      { chaining, block := .ofFn fun i => wordAt block i, counter
        length := .ofNat block.length, marks }
    chunkNode counter (node.compress 0) 0 rest

/-- The tree over the chunks, of which the first has the number `counter`. Its left half is the
largest complete tree that leaves something for the right half. -/
def tree (counter : Nat) : List (List UInt8) → Node
  | [] => chunkNode (.ofNat counter) initial chunkStart []
  | [chunk] => chunkNode (.ofNat counter) initial chunkStart (cut 63 chunk)
  | first :: second :: rest =>
    let chunks := first :: second :: rest
    let half := 1 <<< (chunks.length - 1).log2
    (tree counter (chunks.take half)).join (tree (counter + half) (chunks.drop half))
termination_by chunks => chunks.length
decreasing_by
  · have h : 2 ^ (rest.length + 1).log2 ≤ rest.length + 1 := Nat.log2_self_le (by omega)
    simp only [List.length_take, List.length_cons, Nat.add_sub_cancel, Nat.one_shiftLeft]
    omega
  · have h : 0 < 2 ^ (rest.length + 1).log2 := Nat.two_pow_pos _
    simp only [List.length_drop, List.length_cons, Nat.add_sub_cancel, Nat.one_shiftLeft]
    omega

/-- The hash of a message: eight words, each as four bytes with the lowest first. -/
def hash (message : List UInt8) : Vector UInt8 32 :=
  let words := (tree 0 (cut 1023 message)).compress root
  .ofFn fun i => (words.get ⟨i / 4, by omega⟩ >>> (8 * .ofNat (i % 4))).toUInt8

end LockDiscipline.Blake3
