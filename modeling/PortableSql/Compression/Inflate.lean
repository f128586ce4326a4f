import PortableSql.Compression.Checksum
import PortableSql.Compression.Huffman

/-!
Deflated data: a sequence of blocks of bits, each stored, or in the fixed Huffman code, or in a Huffman
code that the block brings along.
-/
namespace PortableSql.Compression

/-- What a reader makes of data that no writer should write. -/
structure Tolerance where
  /-- Whether a block may have a literal code with the single word of the end of the block. -/
  tinyLiterals : Bool
  /-- Whether bytes may be repeated from before the first one, where zeros are taken to stand. -/
  zerosBefore : Bool
  deriving DecidableEq, Repr

/-- Refuses all that it can. -/
def Tolerance.strict : Tolerance := ⟨false, false⟩

/-- Lets pass all that has a meaning. -/
def Tolerance.lenient : Tolerance := ⟨true, true⟩

/-- The bits of bytes, those of a byte from the least significant on. -/
def bitsOf (bytes : List UInt8) : List Bool :=
  bytes.flatMap fun b => (List.range 8).map fun i => b.toNat.testBit i

/-- Reads a number of some bits, the least significant first. -/
def readBits : Nat → List Bool → Option (Nat × List Bool)
  | 0, bits => some (0, bits)
  | _ + 1, [] => none
  | n + 1, bit :: bits =>
    (readBits n bits).map fun (value, rest) => (2 * value + (if bit then 1 else 0), rest)

/-- The bits from the next byte on, where `bits` are the rest of whole bytes. -/
def alignToByte (bits : List Bool) : List Bool :=
  bits.drop (bits.length % 8)

/-- Reads whole bytes. -/
def readBytes : Nat → Array UInt8 → List Bool → Option (Array UInt8 × List Bool)
  | 0, out, bits => some (out, bits)
  | n + 1, out, bits =>
    match readBits 8 bits with
    | some (value, rest) => readBytes n (out.push (UInt8.ofNat value)) rest
    | none => none

/-- Base values and numbers of extra bits of the length symbols from 257 on. -/
def lengthTable : List (Nat × Nat) :=
  [(3, 0), (4, 0), (5, 0), (6, 0), (7, 0), (8, 0), (9, 0), (10, 0), (11, 1), (13, 1), (15, 1),
   (17, 1), (19, 2), (23, 2), (27, 2), (31, 2), (35, 3), (43, 3), (51, 3), (59, 3), (67, 4),
   (83, 4), (99, 4), (115, 4), (131, 5), (163, 5), (195, 5), (227, 5), (258, 0)]

/-- Base values and numbers of extra bits of the distance symbols. -/
def distanceTable : List (Nat × Nat) :=
  [(1, 0), (2, 0), (3, 0), (4, 0), (5, 1), (7, 1), (9, 2), (13, 2), (17, 3), (25, 3), (33, 4),
   (49, 4), (65, 5), (97, 5), (129, 6), (193, 6), (257, 7), (385, 7), (513, 8), (769, 8),
   (1025, 9), (1537, 9), (2049, 10), (3073, 10), (4097, 11), (6145, 11), (8193, 12),
   (12289, 12), (16385, 13), (24577, 13)]

/-- Reads the number that a symbol of a table stands for, with its extra bits. -/
def readTabled (table : List (Nat × Nat)) (symbol : Nat) (bits : List Bool) :
    Option (Nat × List Bool) :=
  match table[symbol]? with
  | some (base, extra) => (readBits extra bits).map fun (n, rest) => (base + n, rest)
  | none => none

/-- Repeats `length` bytes from `distance` bytes back. -/
def copyBack (tolerance : Tolerance) (distance : Nat) : Nat → Array UInt8 → Option (Array UInt8)
  | 0, out => some out
  | length + 1, out =>
    if distance ≤ out.size then
      match out[out.size - distance]? with
      | some b => copyBack tolerance distance length (out.push b)
      | none => none
    else if tolerance.zerosBefore then
      copyBack tolerance distance length (out.push 0)
    else
      none

/-- The symbol that ends a block. -/
def endOfBlock : Nat := 256

/-- Reads the symbols of a block. Each takes at least a bit, so `steps` need not exceed their number. -/
def inflateSymbols (tolerance : Tolerance) (literals distances : Huffman) :
    Nat → Array UInt8 → List Bool → Option (Array UInt8 × List Bool)
  | 0, _, _ => none
  | steps + 1, out, bits =>
    match literals.decode bits with
    | none => none
    | some (symbol, bits) =>
      if symbol < endOfBlock then
        inflateSymbols tolerance literals distances steps (out.push (UInt8.ofNat symbol)) bits
      else if symbol = endOfBlock then
        some (out, bits)
      else
        match readTabled lengthTable (symbol - endOfBlock - 1) bits with
        | none => none
        | some (length, bits) =>
          match distances.decode bits with
          | none => none
          | some (symbol, bits) =>
            match readTabled distanceTable symbol bits with
            | none => none
            | some (distance, bits) =>
              match copyBack tolerance distance length out with
              | none => none
              | some out => inflateSymbols tolerance literals distances steps out bits

/-- The lengths of the fixed code for literals and lengths. -/
def fixedLiteralLengths : List Nat :=
  List.replicate 144 8 ++ List.replicate 112 9 ++ List.replicate 24 7 ++ List.replicate 8 8

/-- The lengths of the fixed code for distances. -/
def fixedDistanceLengths : List Nat :=
  List.replicate 32 5

/-- The order in which the lengths of the code for lengths are written. -/
def lengthOrder : List Nat :=
  [16, 17, 18, 0, 8, 7, 9, 6, 10, 5, 11, 4, 12, 3, 13, 2, 14, 1, 15]

/-- Reads numbers of three bits. -/
def readTriples : Nat → List Bool → Option (List Nat × List Bool)
  | 0, bits => some ([], bits)
  | n + 1, bits =>
    match readBits 3 bits with
    | none => none
    | some (value, bits) => (readTriples n bits).map fun (values, rest) => (value :: values, rest)

/-- Reads code lengths until `count` of them are there, those read so far in front. A repetition may not
go past the end. -/
def readLengths (code : Huffman) (count : Nat) : Nat → List Nat → List Bool →
    Option (List Nat × List Bool)
  | 0, lengths, bits => if lengths.length = count then some (lengths, bits) else none
  | steps + 1, lengths, bits =>
    if count ≤ lengths.length then
      if lengths.length = count then some (lengths, bits) else none
    else
      match code.decode bits with
      | none => none
      | some (symbol, bits) =>
        let again (value base extra : Nat) : Option (List Nat × List Bool) :=
          match readBits extra bits with
          | none => none
          | some (n, bits) =>
            readLengths code count steps (lengths ++ List.replicate (base + n) value) bits
        if symbol < 16 then
          readLengths code count steps (lengths ++ [symbol]) bits
        else if symbol = 16 then
          match lengths.getLast? with
          | some last => again last 3 2
          | none => none
        else if symbol = 17 then again 0 3 3
        else again 0 11 7

/-- The number of symbols for literals, the end of a block and lengths. -/
def literalSymbols : Nat := 286

/-- The number of symbols for distances. -/
def distanceSymbols : Nat := 30

/-- Reads the codes that a block brings along, for literals and for distances. -/
def readCodes (tolerance : Tolerance) (bits : List Bool) :
    Option (Huffman × Huffman × List Bool) := do
  let (literals, bits) ← readBits 5 bits
  let (distances, bits) ← readBits 5 bits
  let (lengths, bits) ← readBits 4 bits
  let literalCount := literals + 257
  let distanceCount := distances + 1
  if literalSymbols < literalCount ∨ distanceSymbols < distanceCount then none
  let (values, bits) ← readTriples (lengths + 4) bits
  let ordered := lengthOrder.zip values
  let code ← Huffman.ofLengths? false ((List.range 19).map fun i => (ordered.lookup i).getD 0)
  let count := literalCount + distanceCount
  let (all, bits) ← readLengths code count count [] bits
  let literalCode ← Huffman.ofLengths? tolerance.tinyLiterals (all.take literalCount)
  let distanceCode ← Huffman.ofLengths? true (all.drop literalCount)
  return (literalCode, distanceCode, bits)

/-- Reads a stored block behind its header. -/
def inflateStored (out : Array UInt8) (bits : List Bool) : Option (Array UInt8 × List Bool) := do
  let (length, bits) ← readBits 16 (alignToByte bits)
  let (check, bits) ← readBits 16 bits
  if length + check = 65535 then readBytes length out bits else none

/-- Reads blocks up to the last one; each takes at least a bit. -/
def inflateBlocks (tolerance : Tolerance) : Nat → Array UInt8 → List Bool → Option (Array UInt8 × List Bool)
  | 0, _, _ => none
  | steps + 1, out, bits =>
    match readBits 1 bits with
    | none => none
    | some (last, bits) =>
      match readBits 2 bits with
      | none => none
      | some (kind, bits) =>
        let block : Option (Array UInt8 × List Bool) :=
          if kind = 0 then inflateStored out bits
          else if kind = 1 then
            inflateSymbols tolerance (.ofLengths fixedLiteralLengths)
              (.ofLengths fixedDistanceLengths) (bits.length + 1) out bits
          else if kind = 2 then do
            let (literals, distances, bits) ← readCodes tolerance bits
            inflateSymbols tolerance literals distances (bits.length + 1) out bits
          else none
        match block with
        | none => none
        | some (out, bits) =>
          if last = 1 then some (out, bits) else inflateBlocks tolerance steps out bits

/-- The data that deflated bytes stand for, and the bytes behind them. -/
def inflate (tolerance : Tolerance) (bytes : List UInt8) : Option (List UInt8 × List UInt8) :=
  let bits := bitsOf bytes
  match inflateBlocks tolerance (bits.length + 1) #[] bits with
  | none => none
  | some (out, rest) => some (out.toList, bytes.drop (bytes.length - rest.length / 8))

end PortableSql.Compression
