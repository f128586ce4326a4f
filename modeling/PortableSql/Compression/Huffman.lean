import PortableSql.Number.Power

/-!
Huffman codes. The lengths of the codewords determine the code: words are given out in ascending order,
the shorter ones first and those of one length by symbol. A code has to be complete, so that every long
enough sequence of bits begins with a codeword. Some codes may also be tiny: no word at all, or a single one
of one bit.
-/
namespace PortableSql.Compression

open Number (twoPow)

/-- A code as a tree: the bits of a word lead from the root to its symbol. -/
inductive Huffman
  | empty
  | leaf (symbol : Nat)
  | node (zero one : Huffman)
  deriving Repr

namespace Huffman

/-- Adds a word for a symbol. -/
def insert (symbol : Nat) : List Bool → Huffman → Huffman
  | [], _ => .leaf symbol
  | bit :: word, tree =>
    let (zero, one) :=
      match tree with
      | .node zero one => (zero, one)
      | _ => (.empty, .empty)
    if bit then .node zero (insert symbol word one) else .node (insert symbol word zero) one

/-- The bits of a number, the most significant first. -/
def wordOf (length n : Nat) : List Bool :=
  (List.range length).map fun i => n.testBit (length - 1 - i)

/-- Gives out words to symbols that are in order of their lengths, beginning with the word `next` among
the words of a length. -/
def assign (tree : Huffman) (next length : Nat) : List (Nat × Nat) → Huffman
  | [] => tree
  | (size, symbol) :: rest =>
    let code := next * twoPow (size - length)
    assign (tree.insert symbol (wordOf size code)) (code + 1) size rest

/-- The greatest length of a codeword. -/
def maxLength : Nat := 15

/-- The symbols that have a word, with the lengths of their words. -/
def usedLengths (lengths : List Nat) : List (Nat × Nat) :=
  lengths.zipIdx.filter fun entry => entry.1 ≠ 0

/-- The symbols that have a word, the shorter words first and those of one length by symbol. -/
def inOrder (lengths : List Nat) : List (Nat × Nat) :=
  (List.range (maxLength + 1)).flatMap fun length =>
    (usedLengths lengths).filter fun entry => entry.1 = length

/-- The code for symbols from 0 on with these lengths, where symbols of length 0 have no word. -/
def ofLengths (lengths : List Nat) : Huffman :=
  assign .empty 0 0 (inOrder lengths)

/-- Whether every long enough sequence of bits begins with exactly one word: the words share all
sequences of the greatest length. -/
def isComplete (lengths : List Nat) : Bool :=
  (usedLengths lengths).foldr (fun entry n => twoPow (maxLength - entry.1) + n) 0 = twoPow maxLength

/-- Whether there is no word, or a single one of one bit. -/
def isTiny (lengths : List Nat) : Bool :=
  match usedLengths lengths with
  | [] => true
  | [(length, _)] => length = 1
  | _ => false

/-- The code with these lengths, if it is complete. A tiny one may do as well. -/
def ofLengths? (tiny : Bool) (lengths : List Nat) : Option Huffman :=
  if isComplete lengths || tiny && isTiny lengths then some (ofLengths lengths) else none

/-- Reads one word: its symbol and the bits behind it. -/
def decode : Huffman → List Bool → Option (Nat × List Bool)
  | .leaf symbol, bits => some (symbol, bits)
  | .node zero one, bit :: bits => if bit then decode one bits else decode zero bits
  | _, _ => none

end Huffman

end PortableSql.Compression
