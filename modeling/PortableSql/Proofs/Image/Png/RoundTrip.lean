import Mathlib.Tactic
import PortableSql.Proofs.Image.Png.Chunks

/-!
# Images come back

Rows are written behind the number of the filter that changes nothing, and read into a canvas pixel by
pixel; four bytes of a row make up a pixel, so the canvas ends up with the bytes of the image in their
order.
-/
namespace PortableSql.Png

open Compression

/-- The rows of an image. -/
def rowsOf (rowLength : Nat) : Nat → List UInt8 → List (List UInt8)
  | 0, _ => []
  | rows + 1, bytes => bytes.take rowLength :: rowsOf rowLength rows (bytes.drop rowLength)

@[simp] theorem rowsOf_length (rowLength rows : Nat) (bytes : List UInt8) :
    (rowsOf rowLength rows bytes).length = rows := by
  induction rows generalizing bytes with
  | zero => rfl
  | succ rows ih => simp [rowsOf, ih]

theorem length_take_row {α : Type} {rowLength rows : Nat} {content : List α}
    (h : content.length = (rows + 1) * rowLength) : (content.take rowLength).length = rowLength := by
  rw [List.length_take, h, Nat.succ_mul]
  omega

theorem length_drop_row {α : Type} {rowLength rows : Nat} {content : List α}
    (h : content.length = (rows + 1) * rowLength) :
    (content.drop rowLength).length = rows * rowLength := by
  rw [List.length_drop, h, Nat.succ_mul]
  omega

theorem flatten_rowsOf {rowLength rows : Nat} {bytes : List UInt8}
    (h : bytes.length = rows * rowLength) : (rowsOf rowLength rows bytes).flatten = bytes := by
  induction rows generalizing bytes with
  | zero =>
    have empty : bytes = [] := List.eq_nil_of_length_eq_zero (by simpa using h)
    rw [empty]
    rfl
  | succ rows ih =>
    rw [rowsOf, List.flatten_cons, ih (length_drop_row h), List.take_append_drop]

theorem length_of_mem_rowsOf {rowLength rows : Nat} {bytes row : List UInt8}
    (h : bytes.length = rows * rowLength) (member : row ∈ rowsOf rowLength rows bytes) :
    row.length = rowLength := by
  induction rows generalizing bytes with
  | zero => simp [rowsOf] at member
  | succ rows ih =>
    rcases List.mem_cons.mp member with rfl | member
    · exact length_take_row h
    · exact ih (length_drop_row h) member

theorem unfilteredRows_length {rowLength rows : Nat} {bytes : List UInt8}
    (h : bytes.length = rows * rowLength) :
    (unfilteredRows rowLength rows bytes).length = rows * (1 + rowLength) := by
  induction rows generalizing bytes with
  | zero => simp [unfilteredRows]
  | succ rows ih =>
    rw [unfilteredRows, List.length_cons, List.length_append, ih (length_drop_row h),
      length_take_row h, Nat.succ_mul]
    omega

theorem unfilterRow_zero (step : Nat) (above done : Array UInt8) (bytes : List UInt8) :
    unfilterRow 0 step above done bytes = some (done ++ bytes.toArray) := by
  induction bytes generalizing done with
  | nil => simp [unfilterRow]
  | cons b bytes ih =>
    have same : UInt8.ofNat (b.toNat + 0) = b := by simp
    rw [unfilterRow]
    simp only [prediction?, same, ih]
    simp

theorem unfilterRows_unfilteredRows (step rowLength : Nat) {rows : Nat} (above : Array UInt8)
    {bytes : List UInt8} (h : bytes.length = rows * rowLength) :
    unfilterRows step rowLength rows above (unfilteredRows rowLength rows bytes)
      = some (rowsOf rowLength rows bytes, []) := by
  induction rows generalizing above bytes with
  | zero => rfl
  | succ rows ih =>
    have row := length_take_row h
    have long : ¬ (bytes.take rowLength ++ unfilteredRows rowLength rows (bytes.drop rowLength)).length
        < rowLength := by
      rw [List.length_append, row]
      omega
    rw [unfilteredRows, unfilterRows, if_neg long, List.take_left' row, List.drop_left' row,
      unfilterRow_zero]
    simp only [ih _ (length_drop_row h), Option.map_some, rowsOf]
    simp

theorem foldl_setIfInBounds {α : Type} (base : Nat) {front middle pixels : List α} (back : List α)
    {first : Nat} (start : front.length = base + first) (room : middle.length = pixels.length) :
    (pixels.zipIdx first).foldl (fun canvas (pixel, i) => canvas.setIfInBounds (base + i) pixel)
        (front ++ middle ++ back).toArray
      = (front ++ pixels ++ back).toArray := by
  induction pixels generalizing front middle first with
  | nil =>
    have filled : middle = [] := List.eq_nil_of_length_eq_zero room
    rw [filled]
    rfl
  | cons pixel pixels ih =>
    cases middle with
    | nil => simp at room
    | cons old middle =>
      have set : (front ++ old :: middle ++ back).toArray.setIfInBounds (base + first) pixel
          = ((front ++ [pixel]) ++ middle ++ back).toArray := by
        rw [← start]
        simp
      have later := @ih (front ++ [pixel]) middle (first + 1)
        (by rw [List.length_append, start]; rfl) (by simpa using room)
      simp only [List.zipIdx_cons, List.foldl_cons, set, later]
      simp

/-- The same for the rows of an image, each put behind the ones before it. -/
theorem foldl_rows {α β : Type} (stride : Nat) (pixelsOf : β → List α) {front middle : List α}
    {rows : List β} (back : List α) {first : Nat} (start : front.length = first * stride)
    (room : middle.length = rows.length * stride) (width : ∀ row ∈ rows, (pixelsOf row).length = stride) :
    (rows.zipIdx first).foldl
        (fun canvas (row, j) => (pixelsOf row).zipIdx.foldl
          (fun canvas (pixel, i) => canvas.setIfInBounds (j * stride + i) pixel) canvas)
        (front ++ middle ++ back).toArray
      = (front ++ rows.flatMap pixelsOf ++ back).toArray := by
  induction rows generalizing front middle first with
  | nil =>
    have filled : middle = [] := List.eq_nil_of_length_eq_zero (by simpa using room)
    rw [filled]
    rfl
  | cons row rows ih =>
    have ownWidth := width row (List.mem_cons_self ..)
    have here : (middle.take stride).length = (pixelsOf row).length :=
      (length_take_row room).trans ownWidth.symm
    have split : front ++ middle ++ back
        = front ++ middle.take stride ++ (middle.drop stride ++ back) := by
      rw [← List.append_assoc, List.append_assoc front (middle.take stride), List.take_append_drop]
    have set := foldl_setIfInBounds (first * stride) (middle.drop stride ++ back)
      (show front.length = first * stride + 0 from start) here
    have next : (front ++ pixelsOf row).length = (first + 1) * stride := by
      rw [List.length_append, start, ownWidth, Nat.succ_mul]
    have later := @ih (front ++ pixelsOf row) (middle.drop stride) (first + 1) next
      (length_drop_row room) fun row member => width row (List.mem_cons_of_mem _ member)
    simp only [List.zipIdx_cons, List.foldl_cons, split, set]
    rw [← List.append_assoc, later]
    simp

theorem pixels_length (h : Header) (width : Nat) (row : List Nat) :
    (h.pixels width row).length = width := by
  induction width generalizing row with
  | zero => rfl
  | succ width ih => simp [Header.pixels, ih]

/-- Pixels of four bytes are the bytes of their row. -/
theorem flatten_pixels {h : Header} (color : h.color = .rgba) (depth : h.depth = 8) {width : Nat}
    {row : List UInt8} (length : row.length = 4 * width) :
    (h.pixels width (row.map UInt8.toNat)).flatten = row := by
  induction width generalizing row with
  | zero =>
    have empty : row = [] := List.eq_nil_of_length_eq_zero (by simpa using length)
    rw [empty]
    rfl
  | succ width ih =>
    match row, length with
    | r :: g :: b :: a :: rest, length =>
      have later : rest.length = 4 * width := by
        simp only [List.length_cons] at length
        omega
      have first : h.pixel [r.toNat, g.toNat, b.toNat, a.toNat] = [r, g, b, a] := by
        simp [Header.pixel, color, depth, toByte]
      have channels : h.color.channels = 4 := by rw [color]; rfl
      simp only [Header.pixels, channels, List.map_cons, List.take_succ_cons, List.take_zero,
        List.drop_succ_cons, List.drop_zero, first, List.flatten_cons, ih later]
      rfl

theorem placePass_written (width height : Nat) {rows : List (List UInt8)}
    {canvas : List (List UInt8)} (room : canvas.length = rows.length * width) :
    placePass (writtenHeader width height) ⟨0, 0, 1, 1⟩ rows canvas.toArray width
      = (rows.flatMap fun row =>
          (writtenHeader width height).pixels width (row.map UInt8.toNat)).toArray := by
  have placed := foldl_rows width
    (fun row : List UInt8 => (writtenHeader width height).pixels width (row.map UInt8.toNat))
    [] (show ([] : List (List UInt8)).length = 0 * width by simp) room
    (fun row _ => pixels_length _ width _)
  simp only [List.nil_append, List.append_nil] at placed
  rw [← placed, placePass]
  simp [writtenHeader, Header.stride, Header.shown, samples]

/-- The rows that were written fill the canvas with the bytes of the image. -/
theorem readPasses_written {width height : Nat} (someWidth : width ≠ 0) (someHeight : height ≠ 0)
    {rgba : List UInt8} (size : rgba.length = height * (4 * width)) (blank : List UInt8) :
    ∃ canvas, readPasses (writtenHeader width height) [⟨0, 0, 1, 1⟩]
        (Array.replicate (width * height) blank) (unfilteredRows (4 * width) height rgba) = some canvas
      ∧ canvas.toList.flatten = rgba := by
  have room : (List.replicate (width * height) blank).length
      = (rowsOf (4 * width) height rgba).length * width := by
    rw [List.length_replicate, rowsOf_length, Nat.mul_comm]
  have placed := placePass_written width height room
  have rows := unfilterRows_unfilteredRows 4 (4 * width) #[] size
  have step : ((writtenHeader width height).pixelBits + 7) / 8 = 4 := by simp
  refine ⟨((rowsOf (4 * width) height rgba).flatMap fun row =>
    (writtenHeader width height).pixels width (row.map UInt8.toNat)).toArray, ?_, ?_⟩
  · rw [readPasses]
    simp only [writtenHeader_passSize, someWidth, someHeight, or_self, if_false, step,
      writtenHeader_rowLength, rows, readPasses]
    rw [← List.toArray_replicate, placed]
  · have whole : ∀ row ∈ rowsOf (4 * width) height rgba,
        ((writtenHeader width height).pixels width (row.map UInt8.toNat)).flatten = row := by
      intro row member
      apply flatten_pixels rfl rfl
      exact length_of_mem_rowsOf size member
    have rowByRow : (rowsOf (4 * width) height rgba).map (List.flatten ∘ fun row =>
        (writtenHeader width height).pixels width (row.map UInt8.toNat))
        = rowsOf (4 * width) height rgba :=
      (List.map_congr_left whole).trans (List.map_id _)
    rw [List.flatMap_def, List.flatten_flatten, List.map_map, rowByRow, flatten_rowsOf size]

/-- The parts of a written file behind its signature. -/
def writtenChunks (width height : Nat) (rgba : List UInt8) : List UInt8 :=
  chunk "IHDR" (headerData width height)
    ++ (dataChunks (Zlib.stored (unfilteredRows (4 * width) height rgba)) ++ chunk "IEND" [])

theorem stored_eq_some {image : Bitmap} {bytes : List UInt8} (written : stored image = some bytes) :
    image.width.toNat ≠ 0 ∧ image.height.toNat ≠ 0
      ∧ bytes = signature ++ writtenChunks image.width.toNat image.height.toNat image.rgba := by
  rw [stored] at written
  split at written
  · cases written
  · rename_i sides
    obtain ⟨someWidth, someHeight⟩ := not_or.1 sides
    refine ⟨someWidth, someHeight, ?_⟩
    rw [Option.some.injEq] at written
    rw [← written]
    simp only [writtenChunks, headerData, List.append_assoc]

/-- What the chunks of a written file say, in the order in which they are read. -/
theorem read_writtenChunks {width height : Nat} (hw : width < 2 ^ 32) (hh : height < 2 ^ 32)
    (someWidth : width ≠ 0) (someHeight : height ≠ 0) (rgba : List UInt8) {steps : Nat}
    (h : (writtenChunks width height rgba).length ≤ steps) :
    ∃ rest, readHeader steps (writtenChunks width height rgba) = some (writtenHeader width height, rest)
      ∧ readChunks steps (writtenHeader width height) rest = some (writtenHeader width height,
          Zlib.stored (unfilteredRows (4 * width) height rgba)) := by
  rw [writtenChunks, List.length_append, List.length_append, chunk_length (by decide)] at h
  obtain ⟨fewer, rfl⟩ : ∃ fewer, steps = fewer + 1 := ⟨steps - 1, by omega⟩
  refine ⟨_, readHeader_written hw hh someWidth someHeight fewer _, ?_⟩
  apply readChunks_written fewer
  · rfl
  · omega

/-- What is read of a file that is written for an image are its sides and its pixels. -/
theorem readPixels_stored {image : Bitmap} {bytes : List UInt8} (written : stored image = some bytes) :
    readPixels bytes = some (⟨image.width.toNat, image.height.toNat⟩, image.rgba) := by
  obtain ⟨someWidth, someHeight, rfl⟩ := stored_eq_some written
  have size : image.rgba.length = image.height.toNat * (4 * image.width.toNat) := by
    rw [image.rgba_length]
    ring
  obtain ⟨rest, header, chunks⟩ := read_writtenChunks image.width.toNat_lt image.height.toNat_lt
    someWidth someHeight image.rgba
    (List.length_append.trans_ge (Nat.le_add_left _ signature.length))
  obtain ⟨canvas, filled, flat⟩ := readPasses_written someWidth someHeight size
    (writtenHeader image.width.toNat image.height.toNat).blankPixel
  have long : ¬ (unfilteredRows (4 * image.width.toNat) image.height.toNat image.rgba).length
      < image.height.toNat * (1 + 4 * image.width.toNat) := by
    rw [unfilteredRows_length size]
    omega
  have front : (signature ++ writtenChunks image.width.toNat image.height.toNat image.rgba).take 8
      = signature := List.take_left' rfl
  have behind : (signature ++ writtenChunks image.width.toNat image.height.toNat image.rgba).drop 8
      = writtenChunks image.width.toNat image.height.toNat image.rgba := List.drop_left' rfl
  have color : (writtenHeader image.width.toNat image.height.toNat).color ≠ .palette := by
    simp [writtenHeader]
  have shown : (writtenHeader image.width.toNat image.height.toNat).shown
      = ⟨image.width.toNat, image.height.toNat⟩ := rfl
  simp only [readPixels, front, behind, header, chunks, Zlib.decompress_stored,
    writtenHeader_dataLength _ someWidth, long, shown, writtenHeader_passes, filled, flat, color,
    Option.bind_eq_bind, Option.bind_some, false_and, if_false, ne_eq, not_true_eq_false]
  rfl

/-- A file that is written for an image is read as the image. -/
theorem decode_stored {image : Bitmap} {bytes : List UInt8} (written : stored image = some bytes) :
    decode bytes = some image := by
  rw [decode, readPixels_stored written]
  simp only [Option.bind_eq_bind, Option.bind_some, UInt32.ofNat_toNat, image.new_self]
  rfl

end PortableSql.Png
