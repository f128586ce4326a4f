import PortableSql.Proofs.Compression.Stored

/-!
# Zlib data

Data in the zlib format reads back. Stored blocks repeat nothing, so the strict reader takes them.
-/
namespace PortableSql.Compression.Zlib

theorem decompress_stored (bytes : List UInt8) : decompress (stored bytes) = some bytes := by
  have header : isHeader 0x78 0x01 = true := by decide
  simp only [stored, decompress, header, if_true, inflate_storedBlocks, bigEndian_length, le_refl]

end PortableSql.Compression.Zlib
