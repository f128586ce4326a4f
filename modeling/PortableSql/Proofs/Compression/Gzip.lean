import PortableSql.Proofs.Compression.Stored
import PortableSql.Proofs.Text.Utf8

/-!
# Gzip data

Data in the gzip format reads back, and no text in UTF-8 begins as such data does, so the two bytes at the
beginning tell compressed data from plain text.
-/
namespace PortableSql.Compression.Gzip

open Text

theorem take_stored (bytes : List UInt8) : (stored bytes).take 2 = magic := rfl

/-- The header that is written is ten bytes long and has no optional part. -/
theorem skipHeader_stored (bytes : List UInt8) :
    skipHeader (stored bytes) = some (storedBlocks bytes
      ++ (littleEndian 4 (crc32 bytes).toNat ++ littleEndian 4 bytes.length)) := by
  rw [← List.append_assoc]
  rfl

theorem ofLittleEndian_word (n : Nat) : ofLittleEndian (littleEndian 4 n) = n % 4294967296 :=
  ofLittleEndian_littleEndian 4 n

theorem decompress_stored (bytes : List UInt8) : decompress (stored bytes) = some bytes := by
  have check : (crc32 bytes).toNat % 4294967296 = (crc32 bytes).toNat :=
    Nat.mod_eq_of_lt (crc32 bytes).toNat_lt
  have last : ∀ word, (littleEndian 4 word).take 4 = littleEndian 4 word :=
    fun word => List.take_of_length_le (littleEndian_length 4 word).le
  simp only [decompress, skipHeader_stored, Option.bind_eq_bind, Option.bind_some,
    inflate_storedBlocks, take_littleEndian, drop_littleEndian, last, ofLittleEndian_word, check]
  simp

/-- The second byte of the two continues a character of several bytes, which the first one does not
begin. -/
theorem take_encodeUtf8_ne_magic (s : String) : (encodeUtf8 s).take 2 ≠ magic := by
  intro h
  have whole : encodeUtf8 s = 0x1f :: 0x8b :: (encodeUtf8 s).drop 2 := by
    conv_lhs => rw [← List.take_append_drop 2 (encodeUtf8 s), h]
    rfl
  have second := second_of_encodeUtf8 whole (by decide)
  revert second
  decide

end PortableSql.Compression.Gzip
