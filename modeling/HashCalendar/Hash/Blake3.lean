/-
**The hash function BLAKE3.**

A message is cut into chunks of 1024 bytes, a chunk into blocks of 64 bytes.  Blocks are stirred
one after the other into a chaining value of eight words; the chaining values of chunks are joined
pairwise in a binary tree, where the left part of a subtree has the largest power of two of chunks
that leaves something for the right part.  The node at the root is flagged, and the first 32 bytes
of its output, least significant bytes first, are the digest.

Main definitions:

* `HashCalendar.Blake3.compress` — the compression function on sixteen words of state;
* `HashCalendar.Blake3.Node` — a compression not yet performed, so that the root can be flagged;
* `HashCalendar.Blake3.chunkNode`, `HashCalendar.Blake3.treeNode` — the node of a chunk and of a
  run of chunks;
* `HashCalendar.Blake3.hash` — the 32 bytes of the digest.

Main results:

* `HashCalendar.Blake3.length_hash` — a digest has 32 bytes.
-/

import HashCalendar.Hash.Word

set_option relaxedAutoImplicit false
set_option autoImplicit false

namespace HashCalendar.Blake3

/-! ### Constants -/

/-- Where each word of a block goes between two rounds. -/
def permutation : Vector (Fin 16) 16 := #v[2, 6, 3, 10, 7, 0, 4, 13, 1, 11, 12, 5, 9, 14, 15, 8]

/-- Marks the first block of a chunk. -/
def chunkStart : UInt32 := 1
/-- Marks the last block of a chunk. -/
def chunkEnd : UInt32 := 2
/-- Marks a node over two subtrees. -/
def parentFlag : UInt32 := 4
/-- Marks the root of the tree. -/
def rootFlag : UInt32 := 8

/-! ### Compression -/

/-- Stirs two message words into four words of the state. -/
def mix (s : Vector UInt32 16) (a b c d : Fin 16) (x y : UInt32) : Vector UInt32 16 :=
  let a1 := s[a] + s[b] + x
  let d1 := Word.rotateRight (s[d] ^^^ a1) 16
  let c1 := s[c] + d1
  let b1 := Word.rotateRight (s[b] ^^^ c1) 12
  let a2 := a1 + b1 + y
  let d2 := Word.rotateRight (d1 ^^^ a2) 8
  let c2 := c1 + d2
  let b2 := Word.rotateRight (b1 ^^^ c2) 7
  (((s.set a a2).set b b2).set c c2).set d d2

/-- One round: the columns of the state, then its diagonals. -/
def round (s m : Vector UInt32 16) : Vector UInt32 16 :=
  let s := mix s 0 4 8 12 m[0] m[1]
  let s := mix s 1 5 9 13 m[2] m[3]
  let s := mix s 2 6 10 14 m[4] m[5]
  let s := mix s 3 7 11 15 m[6] m[7]
  let s := mix s 0 5 10 15 m[8] m[9]
  let s := mix s 1 6 11 12 m[10] m[11]
  let s := mix s 2 7 8 13 m[12] m[13]
  mix s 3 4 9 14 m[14] m[15]

/-- The words of a block in the order of the next round. -/
def permute (m : Vector UInt32 16) : Vector UInt32 16 := permutation.map fun k => m[k]

/-- Seven rounds on the chaining value, four constants, the counter, the block length and the
flags; the chaining value that results. -/
def compress (chaining : Vector UInt32 8) (block : Vector UInt32 16) (counter : UInt64)
    (length flags : UInt32) : Vector UInt32 8 :=
  let start : Vector UInt32 16 :=
    (chaining ++ (Word.initial.take 4 ++
      #v[counter.toUInt32, (counter >>> 32).toUInt32, length, flags])).cast (by rfl)
  let last := (Nat.repeat (fun sm : Vector UInt32 16 × Vector UInt32 16 =>
    (round sm.1 sm.2, permute sm.2)) 7 (start, block)).1
  Vector.ofFn fun k : Fin 8 => last[k] ^^^ last[k.val + 8]

/-! ### The tree -/

/-- A compression that has not been performed yet. -/
structure Node where
  chaining : Vector UInt32 8
  block : Vector UInt32 16
  counter : UInt64
  length : UInt32
  flags : UInt32

/-- The chaining value of a node below the root. -/
def Node.value (n : Node) : Vector UInt32 8 :=
  compress n.chaining n.block n.counter n.length n.flags

/-- The first eight words of the output of the root. -/
def Node.rootValue (n : Node) : Vector UInt32 8 :=
  compress n.chaining n.block 0 n.length (n.flags ||| rootFlag)

/-- The block of `length` bytes at an offset, filled up with zeros. -/
def blockAt (message : Array UInt8) (offset length : Nat) : Vector UInt32 16 :=
  let cut := message.extract offset (offset + length)
  Vector.ofFn fun k : Fin 16 => Word.ofLittleEndian cut (4 * k)

/-- The node of the chunk of `length` bytes at an offset, for `length ≤ 1024`. -/
def chunkNode (message : Array UInt8) (offset length : Nat) : Node :=
  let blocks := max 1 ((length + 63) / 64)
  let counter := (offset / 1024).toUInt64
  let flagsAt (k : Nat) : UInt32 :=
    (if k = 0 then chunkStart else 0) ||| (if k + 1 = blocks then chunkEnd else 0)
  let chaining := (List.range (blocks - 1)).foldl
    (fun cv k => compress cv (blockAt message (offset + 64 * k) 64) counter 64 (flagsAt k))
    Word.initial
  let rest := length - 64 * (blocks - 1)
  { chaining, counter
    block := blockAt message (offset + 64 * (blocks - 1)) rest
    length := rest.toUInt32
    flags := flagsAt (blocks - 1) }

/-- The node over two subtrees. -/
def parentNode (left right : Vector UInt32 8) : Node :=
  { chaining := Word.initial
    block := left ++ right
    counter := 0
    length := 64
    flags := parentFlag }

/-- The node over at most `2 ^ height` chunks from chunk `first` on.  The left part has half of the
chunks that a tree of this height can have; a tree whose chunks all fit into it is a lower one. -/
def treeNode (message : Array UInt8) (first : Nat) : (height chunks : Nat) → Node
  | 0, _ => chunkNode message (1024 * first) (min 1024 (message.size - 1024 * first))
  | height + 1, chunks =>
    let half := 1 <<< height
    if half < chunks then
      parentNode (treeNode message first height half).value
        (treeNode message (first + half) height (chunks - half)).value
    else treeNode message first height chunks

/-- The 32 bytes of the digest of a message. -/
def hash (message : Bytes) : Bytes :=
  let bytes := message.toArray
  let chunks := (bytes.size + 1023) / 1024
  Word.concat Word.littleEndian (treeNode bytes 0 (chunks.log2 + 1) chunks).rootValue

theorem length_hash (message : Bytes) : (hash message).length = 32 :=
  Word.length_concat (fun _ => rfl) _

end HashCalendar.Blake3
