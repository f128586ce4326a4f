import PortableSql.Image.Png.Reader
import PortableSql.Image.Png.Stored
import PortableSql.Proofs.Compression.Zlib

/-!
# The chunks of a stored image

Every chunk reads back with its name, its data and a checksum that fits: first the header with the sides,
then the image data in one piece, however many chunks it takes, up to the chunk that ends the file.
-/
namespace PortableSql.Png

open Compression

theorem ofBigEndian_word {n : Nat} (h : n < 2 ^ 32) : ofBigEndian (bigEndian 4 n) = n := by
  rw [ofBigEndian_bigEndian]
  exact Nat.mod_eq_of_lt h

theorem chunk_length {name : String} (hn : (chunkName name).length = 4) (data : List UInt8) :
    (chunk name data).length = data.length + 12 := by
  simp [chunk, hn]
  omega

theorem nextName_chunk {name : String} (hn : (chunkName name).length = 4) (data rest : List UInt8) :
    Chunk.nextName (chunk name data ++ rest) = chunkName name := by
  simp only [Chunk.nextName, chunk, List.append_assoc]
  rw [drop_bigEndian, List.take_left' hn]

theorem read_chunk {name : String} (hn : (chunkName name).length = 4) {data : List UInt8}
    (hd : data.length < 2 ^ 32) (rest : List UInt8) :
    Chunk.read (chunk name data ++ rest) = some (⟨chunkName name, data, true⟩, rest) := by
  have bodyLength : (chunkName name ++ data).length = data.length + 4 := by
    rw [List.length_append, hn, Nat.add_comm]
  have body : ∀ back : List UInt8,
      (chunkName name ++ data ++ back).take (data.length + 4) = chunkName name ++ data :=
    fun back => List.take_left' bodyLength
  have behindBody : ∀ back : List UInt8,
      (chunkName name ++ data ++ back).drop (data.length + 4) = back :=
    fun back => List.drop_left' bodyLength
  have behind : (chunk name data ++ rest).drop (data.length + 12) = rest :=
    List.drop_left' (chunk_length hn data)
  have first : (chunkName name ++ data).take 4 = chunkName name := List.take_left' hn
  have second : (chunkName name ++ data).drop 4 = data := List.drop_left' hn
  have check : ofBigEndian (bigEndian 4 (crc32 (chunkName name ++ data)).toNat)
      = (crc32 (chunkName name ++ data)).toNat := ofBigEndian_word (crc32 _).toNat_lt
  have shape : chunk name data ++ rest = bigEndian 4 data.length ++ (chunkName name ++ data
      ++ (bigEndian 4 (crc32 (chunkName name ++ data)).toNat ++ rest)) := by
    simp only [chunk, List.append_assoc]
  rw [shape] at behind ⊢
  simp only [Chunk.read, take_bigEndian, drop_bigEndian, ofBigEndian_word hd, body, behindBody,
    bigEndian_length, if_true, first, second, check, behind, decide_true]

/-- The header that is written for the sides of an image. -/
def writtenHeader (width height : Nat) : Header :=
  ⟨width, height, 8, .rgba, false, none, none, none, none, []⟩

@[simp] theorem writtenHeader_pixelBits (width height : Nat) :
    (writtenHeader width height).pixelBits = 32 := rfl

@[simp] theorem writtenHeader_passes (width height : Nat) :
    (writtenHeader width height).passes = [⟨0, 0, 1, 1⟩] := rfl

@[simp] theorem writtenHeader_passSize (width height : Nat) :
    (writtenHeader width height).passSize ⟨0, 0, 1, 1⟩ = (width, height) := by
  simp [Header.passSize, writtenHeader, Header.shown]

@[simp] theorem writtenHeader_rowLength (width height : Nat) :
    (writtenHeader width height).rowLength width = 4 * width := by
  rw [Header.rowLength, writtenHeader_pixelBits]
  omega

theorem writtenHeader_dataLength {width : Nat} (height : Nat) (someWidth : width ≠ 0) :
    (writtenHeader width height).dataLength = height * (1 + 4 * width) := by
  simp [Header.dataLength, someWidth]

/-- The data of the first chunk that is written. -/
def headerData (width height : Nat) : List UInt8 :=
  bigEndian 4 width ++ bigEndian 4 height ++ [8, 6, 0, 0, 0]

theorem read_headerData {width height : Nat} (hw : width < 2 ^ 32) (hh : height < 2 ^ 32)
    (someWidth : width ≠ 0) (someHeight : height ≠ 0) :
    Header.read (headerData width height) = some (writtenHeader width height) := by
  have sides : (bigEndian 4 width ++ bigEndian 4 height).length = 8 := by simp
  have behind : (headerData width height).drop 8 = [8, 6, 0, 0, 0] := List.drop_left' sides
  have first : (headerData width height).take 4 = bigEndian 4 width := by
    rw [headerData, List.append_assoc, take_bigEndian]
  have second : ((headerData width height).drop 4).take 4 = bigEndian 4 height := by
    rw [headerData, List.append_assoc, drop_bigEndian, take_bigEndian]
  have depth : (8 : UInt8).toNat ∈ ColorType.rgba.depths := by decide
  simp only [Header.read, behind, ColorType.ofNumber?, Option.bind_eq_bind, Option.bind_some, first,
    second, ofBigEndian_word hw, ofBigEndian_word hh, ne_eq, someWidth, someHeight, depth]
  simp [writtenHeader]

theorem readHeader_written {width height : Nat} (hw : width < 2 ^ 32) (hh : height < 2 ^ 32)
    (someWidth : width ≠ 0) (someHeight : height ≠ 0) (steps : Nat) (rest : List UInt8) :
    readHeader (steps + 1) (chunk "IHDR" (headerData width height) ++ rest)
      = some (writtenHeader width height, rest) := by
  have short : (headerData width height).length < 2 ^ 32 := by simp [headerData]
  have filled : (headerData width height).isEmpty = false := by simp [headerData]
  rw [readHeader, read_chunk (by decide) short]
  dsimp only
  rw [if_neg (by simp), filled, if_neg Bool.false_ne_true,
    read_headerData hw hh someWidth someHeight]
  rfl

theorem length_lt_of_le_dataLimit {data : List UInt8} (h : data.length ≤ dataLimit) :
    data.length < 2 ^ 32 := by
  unfold dataLimit at h
  omega

/-- The data of consecutive chunks is put together, up to the chunk at the end. -/
theorem readData_dataChunks (steps : Nat) (data : List UInt8)
    (h : (dataChunks data).length ≤ steps) :
    readData (chunkName "IDAT") (steps + 1) none (dataChunks data ++ chunk "IEND" []) = some data := by
  have name : (chunkName "IDAT").length = 4 := by decide
  have behind (steps : Nat) :
      readData (chunkName "IDAT") (steps + 1) none (chunk "IEND" []) = some [] := by
    have length : (chunk "IEND" []).length = 12 := chunk_length (by decide) []
    have other : Chunk.nextName (chunk "IEND" []) ≠ chunkName "IDAT" := by
      have next := nextName_chunk (by decide : (chunkName "IEND").length = 4) [] []
      rw [List.append_nil] at next
      rw [next]
      decide
    rw [readData, if_neg (by omega), if_neg other]
  have step (steps : Nat) {front : List UInt8} (rest : List UInt8) (h : front.length ≤ dataLimit) :
      readData (chunkName "IDAT") (steps + 1) none (chunk "IDAT" front ++ rest)
        = (readData (chunkName "IDAT") steps none rest).map fun back => front ++ back := by
    have long : ¬ (chunk "IDAT" front ++ rest).length < 8 := by
      rw [List.length_append, chunk_length name]
      omega
    rw [readData, if_neg long, if_pos (nextName_chunk name front rest),
      read_chunk name (length_lt_of_le_dataLimit h)]
    rfl
  fun_induction dataChunks data generalizing steps with
  | case1 data small =>
    rw [chunk_length name] at h
    obtain ⟨fewer, rfl⟩ : ∃ fewer, steps = fewer + 1 := ⟨steps - 1, by omega⟩
    rw [step _ _ small, behind]
    simp
  | case2 data large ih =>
    have first : (data.take dataLimit).length ≤ dataLimit := List.length_take_le ..
    rw [List.length_append, chunk_length name] at h
    obtain ⟨fewer, rfl⟩ : ∃ fewer, steps = fewer + 1 := ⟨steps - 1, by omega⟩
    rw [List.append_assoc, step _ _ first, ih fewer (by omega)]
    simp

theorem nextName_dataChunks (data rest : List UInt8) :
    Chunk.nextName (dataChunks data ++ rest) = chunkName "IDAT" := by
  rw [dataChunks]
  split
  · exact nextName_chunk (by decide) _ _
  · rw [List.append_assoc]
    exact nextName_chunk (by decide) _ _

theorem readChunks_written (steps : Nat) {header : Header} (still : header.sequence = none)
    (data : List UInt8) (h : (dataChunks data).length ≤ steps) :
    readChunks (steps + 1) header (dataChunks data ++ chunk "IEND" []) = some (header, data) := by
  have among : Chunk.nextName (dataChunks data ++ chunk "IEND" []) ∈ dataNames := by
    rw [nextName_dataChunks]
    decide
  have first : readChunks (steps + 1) header (dataChunks data ++ chunk "IEND" []) =
      (readData (Chunk.nextName (dataChunks data ++ chunk "IEND" [])) (steps + 1) header.sequence
        (dataChunks data ++ chunk "IEND" [])).map fun data => (header, data) := if_pos among
  rw [first, nextName_dataChunks, still, readData_dataChunks steps data h]
  rfl

end PortableSql.Png
