import PortableSql.Proofs.Image.Png.RoundTrip

/-!
# Images and their pixels

Every image has four bytes for each of its pixels. Their number is counted in words of 64 bits, and the sides
of an image may ask for more. Main statement: with fewer than 2^62 pixels a buffer makes an image exactly if it
has four bytes for each of them and is refused otherwise; with more, the program ends whatever the buffer holds
(`new_outcomes`). What is read from a file in the PNG format is never refused: a pass puts pixels of four bytes
in the places of others, and so does a whole file (`length_of_readPixels`).
-/
namespace PortableSql.Bitmap

variable {width height : UInt32} {rgba : List UInt8} {image : Bitmap}

/-! ## Buffers -/

/-- The size of the buffer is the number of bytes that the pixels take, or there are too many of them. -/
theorem bufferSize?_eq_ite (width height : UInt32) :
    bufferSize? width height =
      if width.toNat * height.toNat < 2 ^ 62 then some (width.toNat * height.toNat * 4) else none := by
  have bound : width.toNat * height.toNat * 4 < wordCount ↔ width.toNat * height.toNat < 2 ^ 62 := by
    rw [wordCount]
    omega
  simp only [bufferSize?_eq, mulWord?, bound]

theorem new_of_many (many : 2 ^ 62 ≤ width.toNat * height.toNat) (rgba : List UInt8) :
    new width height rgba = .aborted := by
  have size := bufferSize?_eq_ite width height
  rw [if_neg (Nat.not_lt.2 many)] at size
  unfold new
  split
  · rfl
  · rename_i sized
    cases size.symm.trans sized

theorem new_of_other_length (few : width.toNat * height.toNat < 2 ^ 62)
    (other : rgba.length ≠ width.toNat * height.toNat * 4) :
    new width height rgba =
      .refused ⟨width, height, width.toNat * height.toNat * 4, rgba.length⟩ := by
  have size := bufferSize?_eq_ite width height
  rw [if_pos few] at size
  unfold new
  split
  · rename_i overflows
    cases size.symm.trans overflows
  · rename_i found sized
    obtain rfl := Option.some.inj (size.symm.trans sized)
    exact dif_neg (Ne.symm other)

theorem new_of_length (few : width.toNat * height.toNat < 2 ^ 62)
    (fits : rgba.length = width.toNat * height.toNat * 4) :
    ∃ image, new width height rgba = .made image ∧
      image.width = width ∧ image.height = height ∧ image.rgba = rgba := by
  have sized : bufferSize? width height = some rgba.length := by
    rw [bufferSize?_eq_ite, if_pos few, fits]
  exact ⟨⟨width, height, rgba, sized⟩, new_self ⟨width, height, rgba, sized⟩, rfl, rfl, rfl⟩

/-- What becomes of a buffer. With sides that ask for fewer than 2^62 pixels it makes an image, which has these
sides and the buffer for its pixels, exactly if it holds four bytes for each of them; otherwise it is refused,
with both sizes. With any more pixels the program ends, whatever the buffer holds. -/
theorem new_outcomes (width height : UInt32) (rgba : List UInt8) :
    ((∃ image, new width height rgba = .made image) ↔
        width.toNat * height.toNat < 2 ^ 62 ∧ rgba.length = width.toNat * height.toNat * 4) ∧
      (∀ image, new width height rgba = .made image →
        image.width = width ∧ image.height = height ∧ image.rgba = rgba) ∧
      (∀ e, new width height rgba = .refused e ↔
        (width.toNat * height.toNat < 2 ^ 62 ∧ rgba.length ≠ width.toNat * height.toNat * 4) ∧
          e = ⟨width, height, width.toNat * height.toNat * 4, rgba.length⟩) ∧
      (new width height rgba = .aborted ↔ 2 ^ 62 ≤ width.toNat * height.toNat) := by
  rcases Nat.lt_or_ge (width.toNat * height.toNat) (2 ^ 62) with few | many
  · have notMany := Nat.not_le.2 few
    by_cases fits : rgba.length = width.toNat * height.toNat * 4
    · obtain ⟨image, made, same⟩ := new_of_length few fits
      simp only [made, few, fits, notMany]
      simpa using same
    · simp only [new_of_other_length few fits, few, fits, notMany]
      simp [fits, eq_comm]
  · have notFew := Nat.not_lt.2 many
    simp only [new_of_many many, many, notFew]
    simp

/-- No buffer is refused for an image of 2^31 pixels on each side, not even the empty one: the program ends. -/
theorem new_aborts_without_pixels :
    ([] : List UInt8).length ≠ (2147483648 : UInt32).toNat * (2147483648 : UInt32).toNat * 4 ∧
      new 2147483648 2147483648 [] = .aborted :=
  ⟨by decide, new_of_many (by decide) []⟩

end PortableSql.Bitmap

namespace PortableSql.Png

open Compression

/-! ## Pixels of a file -/

/-- Pixels of four bytes, as many as there are places. -/
structure IsCanvas (places : Nat) (canvas : Array (List UInt8)) : Prop where
  size : canvas.size = places
  four : ∀ pixel ∈ canvas, pixel.length = 4

variable {h after : Header} {places : Nat} {canvas : Array (List UInt8)}

theorem paletteColor_length (h : Header) (index : Nat) : (h.paletteColor index).length = 4 := by
  simp only [Header.paletteColor]
  split <;> simp_all

theorem pixel_length (h : Header) (samples : List Nat) : (h.pixel samples).length = 4 := by
  unfold Header.pixel
  split
  case h_5 => exact paletteColor_length h _
  all_goals rfl

theorem length_of_mem_pixels {width : Nat} {row : List Nat} :
    ∀ pixel ∈ h.pixels width row, pixel.length = 4 := by
  induction width generalizing row with
  | zero => simp [Header.pixels]
  | succ width ih =>
    rw [Header.pixels]
    exact List.forall_mem_cons.2 ⟨pixel_length h _, ih⟩

namespace IsCanvas

theorem blank (h : Header) (places : Nat) : IsCanvas places (Array.replicate places h.blankPixel) := by
  refine ⟨Array.size_replicate, fun pixel member => ?_⟩
  rw [(Array.mem_replicate.1 member).2]
  rfl

theorem set (isCanvas : IsCanvas places canvas) (place : Nat) {pixel : List UInt8}
    (four : pixel.length = 4) : IsCanvas places (canvas.setIfInBounds place pixel) := by
  refine ⟨Array.size_setIfInBounds.trans isCanvas.size, fun other member => ?_⟩
  rcases Array.mem_or_eq_of_mem_setIfInBounds member with old | rfl
  · exact isCanvas.four other old
  · exact four

theorem placePass (isCanvas : IsCanvas places canvas) (p : Pass) (rows : List (List UInt8))
    (width : Nat) : IsCanvas places (placePass h p rows canvas width) := by
  -- row by row, and pixel by pixel in a row
  refine List.foldlRecOn _ _ isCanvas fun canvas isCanvas (row, j) _ => ?_
  refine List.foldlRecOn _ _ isCanvas fun canvas isCanvas (pixel, i) member => ?_
  exact isCanvas.set _ (length_of_mem_pixels pixel (List.fst_mem_of_mem_zipIdx member))

theorem readPasses {passes : List Pass} {bytes : List UInt8} {filled : Array (List UInt8)}
    (isCanvas : IsCanvas places canvas) (read : readPasses h passes canvas bytes = some filled) :
    IsCanvas places filled := by
  induction passes generalizing canvas bytes with
  | nil =>
    cases read
    exact isCanvas
  | cons p later ih =>
    rw [Png.readPasses] at read
    dsimp only at read
    split at read
    · exact ih isCanvas read
    · split at read
      · cases read
      · exact ih (isCanvas.placePass p _ _) read

theorem flatten_length (isCanvas : IsCanvas places canvas) :
    canvas.toList.flatten.length = places * 4 := by
  have lengths : canvas.toList.map List.length = List.replicate places 4 := by
    rw [← isCanvas.size, ← Array.length_toList, List.eq_replicate_iff]
    exact ⟨by simp, by simpa using isCanvas.four⟩
  rw [List.length_flatten, lengths, List.sum_replicate, smul_eq_mul]

end IsCanvas

/-! ## Sides of a file -/

theorem ofBigEndian_take_lt (bytes : List UInt8) : ofBigEndian (bytes.take 4) < 2 ^ 32 := by
  have bound := ofLittleEndian_lt (bytes.take 4).reverse
  have short : (bytes.take 4).reverse.length ≤ 4 := by simp
  exact Nat.lt_of_lt_of_le bound (Nat.pow_le_pow_right (by decide) short)

/-- The sides of an image and of what is shown of it are words of 32 bits. -/
structure Header.Fits (h : Header) : Prop where
  width : h.width < 2 ^ 32
  height : h.height < 2 ^ 32
  shownWidth : h.shown.width < 2 ^ 32
  shownHeight : h.shown.height < 2 ^ 32

theorem fits_of_read {data : List UInt8} (read : Header.read data = some h) : h.Fits := by
  unfold Header.read at read
  split at read
  · obtain ⟨color, _, taken⟩ := Option.bind_eq_some_iff.1 read
    obtain ⟨_, same⟩ := Option.ite_none_right_eq_some.1 taken
    cases same
    have wide := ofBigEndian_take_lt data
    have high := ofBigEndian_take_lt (data.drop 4)
    exact ⟨wide, high, wide, high⟩
  · cases read

theorem Header.Fits.takeFrame {data : List UInt8} (fits : h.Fits)
    (taken : h.takeFrame data = some after) : after.Fits := by
  unfold Header.takeFrame at taken
  dsimp only at taken
  split at taken
  · obtain ⟨⟨_, _, _, wide, high, _⟩, same⟩ := Option.ite_none_right_eq_some.1 taken
    cases same
    have width := fits.width
    have height := fits.height
    refine ⟨width, height, ?_, ?_⟩
    · show ofBigEndian _ < _
      omega
    · show ofBigEndian _ < _
      omega
  · cases taken

theorem Header.Fits.takeData {c : Chunk} (fits : h.Fits) (taken : h.takeData c = some after) :
    after.Fits := by
  unfold Header.takeData at taken
  split at taken
  · cases taken
    exact ⟨fits.width, fits.height, fits.shownWidth, fits.shownHeight⟩
  · split at taken
    · obtain ⟨_, same⟩ := Option.ite_none_right_eq_some.1 taken
      cases same
      exact ⟨fits.width, fits.height, fits.shownWidth, fits.shownHeight⟩
    · split at taken
      · exact fits.takeFrame taken
      · obtain ⟨_, same⟩ := Option.ite_none_right_eq_some.1 taken
        cases same
        exact fits

theorem Header.Fits.take {c : Chunk} (fits : h.Fits) (taken : h.take c = some after) :
    after.Fits := by
  unfold Header.take at taken
  obtain ⟨_, taken⟩ := Option.ite_none_left_eq_some.1 taken
  obtain ⟨between, takenData, rfl⟩ := Option.map_eq_some_iff.1 taken
  have fits := fits.takeData takenData
  exact ⟨fits.width, fits.height, fits.shownWidth, fits.shownHeight⟩

theorem fits_of_readHeader {steps : Nat} {bytes rest : List UInt8}
    (read : readHeader steps bytes = some (h, rest)) : h.Fits := by
  induction steps generalizing bytes with
  | zero => cases read
  | succ steps ih =>
    rw [readHeader] at read
    split at read
    · cases read
    · split at read
      · cases read
      · split at read
        · exact ih read
        · obtain ⟨_, header, same⟩ := Option.map_eq_some_iff.1 read
          cases same
          exact fits_of_read header

theorem Header.Fits.readChunks {steps : Nat} {bytes data : List UInt8} (fits : h.Fits)
    (read : readChunks steps h bytes = some (after, data)) : after.Fits := by
  induction steps generalizing h bytes with
  | zero => cases read
  | succ steps ih =>
    change (if Chunk.nextName bytes ∈ dataNames then _ else _) = _ at read
    split at read
    · obtain ⟨_, _, same⟩ := Option.map_eq_some_iff.1 read
      cases same
      exact fits
    · split at read
      · cases read
      · split at read
        · cases read
        · split at read
          · exact ih fits read
          · split at read
            · rename_i taken
              exact ih (fits.take taken) read
            · cases read

/-- Whatever a file holds, its pixels are as many as the sides of what they show ask for. -/
theorem length_of_readPixels {bytes rgba : List UInt8} {frame : Frame}
    (read : readPixels bytes = some (frame, rgba)) :
    rgba.length = frame.width * frame.height * 4 ∧ frame.width < 2 ^ 32 ∧ frame.height < 2 ^ 32 := by
  unfold readPixels at read
  simp only [Option.bind_eq_bind, Option.bind_none, Option.ite_none_left_eq_some,
    Option.bind_eq_some_iff, Prod.exists] at read
  obtain ⟨_, _, _, header, h, _, chunks, _, _, _, _, canvas, filled, same⟩ := read
  cases same
  have fits := (fits_of_readHeader header).readChunks chunks
  have isCanvas := (IsCanvas.blank h _).readPasses filled
  exact ⟨isCanvas.flatten_length, fits.shownWidth, fits.shownHeight⟩

/-- The pixels of a file make its image, or there are too many of them. -/
theorem new_of_readPixels {bytes rgba : List UInt8} {frame : Frame}
    (read : readPixels bytes = some (frame, rgba)) (e : BitmapSizeError) :
    Bitmap.new (UInt32.ofNat frame.width) (UInt32.ofNat frame.height) rgba ≠ .refused e := by
  obtain ⟨length, wide, high⟩ := length_of_readPixels read
  rw [← UInt32.toNat_ofNat_of_lt' wide, ← UInt32.toNat_ofNat_of_lt' high] at length
  rcases Nat.lt_or_ge ((UInt32.ofNat frame.width).toNat * (UInt32.ofNat frame.height).toNat) (2 ^ 62)
    with few | many
  · obtain ⟨image, made, _⟩ := Bitmap.new_of_length few length
    rw [made]
    rintro ⟨⟩
  · rw [Bitmap.new_of_many many]
    rintro ⟨⟩

end PortableSql.Png
