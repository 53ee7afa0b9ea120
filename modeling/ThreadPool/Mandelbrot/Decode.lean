import ThreadPool.Mandelbrot.Layout
import Mathlib.Tactic.Linarith

namespace ThreadPool.Mandelbrot

open Foundation

/-! # Reading a bitmap back

`decodeBmp` follows the file format: little-endian fields, and rows of pixels
from the bottom up, each padded to a multiple of four bytes. A rendered bitmap
decodes to the grid it was rendered from.
-/

variable {iterations : Nat → Nat → Int} {width height x y value offset : Nat} {maxIter : Int}
  {bmp : Buffer UInt8}

structure Image where
  fileSize : Nat
  dataOffset : Nat
  infoSize : Nat
  width : Nat
  height : Nat
  planes : Nat
  bitsPerPixel : Nat
  imageSize : Nat
  /-- Blue, green and red of the pixel in column `x` and row `y`, counted from the top left. -/
  pixel : (x y : Nat) → UInt8 × UInt8 × UInt8
  /-- Byte `k` of the padding of the row `row`, counted from the bottom. -/
  padding : (row k : Nat) → UInt8

/-- The length of a row in the file. -/
def stride (width bitsPerPixel : Nat) : Nat := (width * bitsPerPixel + 31) / 32 * 4

def decodeBmp (file : Buffer UInt8) : Option Image :=
  if file.size < 54 ∨ file.cell 0 ≠ 66 ∨ file.cell 1 ≠ 77 then none
  else
    let dataOffset := file.readU32 10
    let width := file.readU32 18
    let height := file.readU32 22
    let bitsPerPixel := file.readU16 28
    let row := stride width bitsPerPixel
    if file.size < dataOffset + row * height then none
    else some {
      fileSize := file.readU32 2
      dataOffset, width, height, bitsPerPixel
      infoSize := file.readU32 14
      planes := file.readU16 26
      imageSize := file.readU32 34
      pixel := fun x y =>
        let bgr := dataOffset + (height - 1 - y) * row + 3 * x
        (file.cell bgr, file.cell (bgr + 1), file.cell (bgr + 2))
      padding := fun r k => file.cell (dataOffset + r * row + 3 * width + k) }

theorem readU16_of_stores (stored : ∀ entry ∈ u16Stores offset value, bmp.cell entry.1 = entry.2)
    (bound : value < 2 ^ 16) : bmp.readU16 offset = value := by
  simp only [u16Stores, List.forall_mem_cons] at stored
  obtain ⟨first, second, _⟩ := stored
  simp only [Buffer.readU16, first, second, lowByte_toNat, Nat.shiftRight_eq_div_pow]
  omega

theorem readU32_of_stores (stored : ∀ entry ∈ u32Stores offset value, bmp.cell entry.1 = entry.2)
    (bound : value < 2 ^ 32) : bmp.readU32 offset = value := by
  simp only [u32Stores, List.forall_mem_cons] at stored
  obtain ⟨first, second, third, fourth, _⟩ := stored
  simp only [Buffer.readU32, Buffer.readU16, first, second, third, fourth, lowByte_toNat,
    Nat.shiftRight_eq_div_pow]
  omega

/-- The colour arithmetic stays in a byte for every limit that the server admits. -/
theorem colorPixel_bounds {iter : Int} (lower : 0 ≤ iter) (limit : maxIter ≤ 5000) :
    (0 ≤ (colorPixel iter maxIter).blue ∧ (colorPixel iter maxIter).blue ≤ 255) ∧
    (0 ≤ (colorPixel iter maxIter).green ∧ (colorPixel iter maxIter).green ≤ 255) ∧
    (0 ≤ (colorPixel iter maxIter).red ∧ (colorPixel iter maxIter).red ≤ 255) := by
  by_cases reached : iter ≥ maxIter
  · simp [colorPixel, reached]
  · have product : wrap 32 (iter * 255) = iter * 255 := wrap_of_range_32 (by omega) (by omega)
    have quotient : (iter * 255).tdiv maxIter = iter * 255 / maxIter :=
      Int.tdiv_eq_ediv_of_nonneg (by omega)
    obtain ⟨t, scaled⟩ : ∃ t, iter * 255 / maxIter = t := ⟨_, rfl⟩
    have nonneg : 0 ≤ t := scaled ▸ Int.ediv_nonneg (by omega) (by omega)
    have below : t < 255 := by
      rw [← scaled]
      exact Int.ediv_lt_of_lt_mul (by omega) (by omega)
    have square : 0 ≤ t * t ∧ t * t ≤ 64516 := by
      constructor
      · exact Int.mul_nonneg nonneg nonneg
      · nlinarith
    have shade : wrap 32 (t * 120) = t * 120 := wrap_of_range_32 (by omega) (by omega)
    have level : wrap 32 (t * t) = t * t := wrap_of_range_32 (by omega) (by omega)
    simp only [colorPixel, reached, if_false, product, quotient, scaled, shade, level,
      Int.tdiv_eq_ediv_of_nonneg nonneg, Int.tdiv_eq_ediv_of_nonneg square.1,
      Int.tdiv_eq_ediv_of_nonneg (show 0 ≤ t * 120 by omega)]
    rw [wrap_of_range_32 (by omega) (by omega), wrap_of_range_32 (by omega) (by omega)]
    omega

theorem Layout.imageStores_consistent (layout : Layout width height) :
    Buffer.Consistent (imageStores iterations width height maxIter) := by
  intro entry member other also same
  obtain ⟨x, column, y, row, pixel⟩ := mem_imageStores.mp member
  obtain ⟨x', column', y', row', pixel'⟩ := mem_imageStores.mp also
  obtain ⟨i, low, offset⟩ := mem_pixelStores pixel
  obtain ⟨j, low', offset'⟩ := mem_pixelStores pixel'
  by_cases here : (x, y) = (x', y')
  · obtain ⟨rfl, rfl⟩ := Prod.mk.inj here
    refine Buffer.consistent_of_nodup ?_ entry pixel other pixel' same
    simp [pixelStores, Colour.stores]
  · exact absurd (offset.symm.trans (same.trans offset'))
      (layout.apart x column y row x' column' y' row' here i low j low')

theorem Layout.stores_consistent (layout : Layout width height) :
    Buffer.Consistent (headerStores width height ++ imageStores iterations width height maxIter) := by
  refine .append (Buffer.consistent_of_nodup ?_) layout.imageStores_consistent ?_
  · rw [headerStores_fst]
    decide
  · intro entry header other image same
    obtain ⟨x, column, y, row, pixel⟩ := mem_imageStores.mp image
    obtain ⟨i, _, offset⟩ := mem_pixelStores pixel
    have before := headerStores_lt header
    have behind := (layout.inside x column y row).1
    omega

/-- The contents of a rendered bitmap. -/
structure Contents (iterations : Nat → Nat → Int) (width height : Nat) (maxIter : Int)
    (bmp : Buffer UInt8) : Prop where
  size : bmp.size = totalBytes width height
  header : ∀ entry ∈ headerStores width height, bmp.cell entry.1 = entry.2
  pixels : ∀ x < width, ∀ y < height,
    ∀ entry ∈ pixelStores iterations width height maxIter y x, bmp.cell entry.1 = entry.2
  padding : ∀ r < height, ∀ k, 3 * width ≤ k → k < rowBytes width →
    bmp.cell (bmpHeaderSize + r * rowBytes width + k) = 0

theorem Layout.contents (layout : Layout width height)
    (stored : (Buffer.zeroed (totalBytes width height)).storeAll
      (headerStores width height ++ imageStores iterations width height maxIter) = some bmp) :
    Contents iterations width height maxIter bmp := by
  have bytes := Buffer.storeAll_cell layout.stores_consistent stored
  obtain ⟨size, frame⟩ := Buffer.storeAll_frame stored
  refine ⟨size, ?_, ?_, ?_⟩
  · intro entry member
    exact bytes entry (List.mem_append_left _ member)
  · intro x column y row entry member
    exact bytes entry (List.mem_append_right _ (mem_imageStores.mpr ⟨x, column, y, row, member⟩))
  · intro r inRows k afterPixels inRow
    refine (frame _ fun written => ?_).trans rfl
    obtain ⟨entry, member, offset⟩ := List.mem_map.mp written
    rcases List.mem_append.mp member with header | image
    · have before := headerStores_lt header
      omega
    · obtain ⟨x, column, y, row, pixel⟩ := mem_imageStores.mp image
      obtain ⟨i, low, position⟩ := mem_pixelStores pixel
      rw [layout.offset x column y row] at position
      have place : (height - 1 - y) * rowBytes width + (3 * x + i) = r * rowBytes width + k := by
        omega
      have wide := layout.row
      have columns := (row_column_unique (by omega) inRow place).2
      omega

/-- The image that the decoder finds is the grid that was rendered. -/
structure Shows (image : Image) (iterations : Nat → Nat → Int) (columns rows : Nat) (maxIter : Int) :
    Prop where
  width : image.width = columns
  height : image.height = rows
  bitsPerPixel : image.bitsPerPixel = 24
  planes : image.planes = 1
  dataOffset : image.dataOffset = 54
  infoSize : image.infoSize = 40
  imageSize : image.imageSize + 54 = image.fileSize
  pixel : ∀ x < columns, ∀ y < rows, image.pixel x y =
    (castU8 (colorPixel (iterations x y) maxIter).blue,
      castU8 (colorPixel (iterations x y) maxIter).green,
      castU8 (colorPixel (iterations x y) maxIter).red)
  padding : ∀ r < rows, ∀ k < stride columns 24 - 3 * columns, image.padding r k = 0

theorem Contents.decodes (contents : Contents iterations width height maxIter bmp)
    (narrow : 3 * width + 3 < 2 ^ 32) (short : height < 2 ^ 31)
    (small : bmpHeaderSize + rowBytes width * height < 2 ^ 32) :
    ∃ image, decodeBmp bmp = some image ∧ image.fileSize = bmp.size ∧
      Shows image iterations width height maxIter := by
  have layout := layout_of_narrow narrow short
  have header := contents.header
  have total := layout.total
  rw [headerStores, totalBytes_eq narrow short, pixelBytes_eq narrow short,
    Nat.mod_eq_of_lt small, Nat.mod_eq_of_lt (show width < 2 ^ 32 by omega),
    Nat.mod_eq_of_lt (show height < 2 ^ 32 by omega),
    Nat.mod_eq_of_lt (show rowBytes width * height < 2 ^ 32 by omega)] at header
  simp only [List.forall_mem_append] at header
  obtain ⟨⟨⟨⟨⟨⟨⟨⟨magic, fileSize⟩, dataOffset⟩, infoSize⟩, columns⟩, rows⟩, planes⟩, depth⟩, imageSize⟩ :=
    header
  have fileSizeField := readU32_of_stores fileSize small
  have dataOffsetField := readU32_of_stores dataOffset (by decide)
  have infoSizeField := readU32_of_stores infoSize (by decide)
  have widthField := readU32_of_stores columns (by omega)
  have heightField := readU32_of_stores rows (by omega)
  have planesField := readU16_of_stores planes (by decide)
  have depthField := readU16_of_stores depth (by decide)
  have imageSizeField := readU32_of_stores imageSize (by omega)
  have row : stride width 24 = rowBytes width := by
    rw [stride, rowBytes_eq narrow]
    omega
  have size := contents.size.trans total
  have first : bmp.cell 0 = 66 := magic (0, 66) (by simp)
  have second : bmp.cell 1 = 77 := magic (1, 77) (by simp)
  have large : ¬ bmp.size < 54 := by
    rw [size, bmpHeaderSize]
    omega
  have room : ¬ bmp.size < bmpHeaderSize + rowBytes width * height := by omega
  simp only [decodeBmp, large, first, second, ne_eq, not_true_eq_false, or_self, if_false,
    dataOffsetField, widthField, heightField, depthField, row, room]
  refine ⟨_, rfl, fileSizeField.trans size.symm, {
    width := rfl
    height := rfl
    bitsPerPixel := rfl
    planes := planesField
    dataOffset := rfl
    infoSize := infoSizeField
    imageSize := ?_
    pixel := ?_
    padding := ?_ }⟩
  · change bmp.readU32 34 + 54 = bmp.readU32 2
    rw [imageSizeField, fileSizeField, bmpHeaderSize]
    omega
  · intro x column y inRows
    have bytes := contents.pixels x column y inRows
    simp only [pixelStores, Colour.stores, List.forall_mem_cons,
      layout.offset x column y inRows] at bytes
    obtain ⟨blue, green, red, _⟩ := bytes
    simp only [blue, green, red]
  · intro r inRows k inPadding
    rw [row] at inPadding
    have wide := layout.row
    change bmp.cell (bmpHeaderSize + r * rowBytes width + 3 * width + k) = 0
    rw [Nat.add_assoc (bmpHeaderSize + r * rowBytes width)]
    exact contents.padding r inRows (3 * width + k) (by omega) (by omega)

end ThreadPool.Mandelbrot
