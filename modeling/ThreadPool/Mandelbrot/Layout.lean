import ThreadPool.Mandelbrot.Bitmap
import Mathlib.Data.Nat.Bitwise
import Mathlib.Tactic.Ring

namespace ThreadPool.Mandelbrot

open Foundation

/-! # The layout of the bitmap

The renderer is one list of stores. Where the row size does not lose its upper
bits to the 32-bit mask, every store is inside the buffer and the pixels do not
overlap.
-/

variable {iterations : Nat → Nat → Int} {width height x y : Nat} {maxIter : Int}

section Stores

variable (iterations : Nat → Nat → Int) (width height : Nat) (maxIter : Int)

def headerStores : List (Nat × UInt8) :=
  [(0, 66), (1, 77)] ++ u32Stores 2 (totalBytes width height % 2 ^ 32) ++
    u32Stores 10 bmpHeaderSize ++ u32Stores 14 40 ++ u32Stores 18 (width % 2 ^ 32) ++
    u32Stores 22 (height % 2 ^ 32) ++ u16Stores 26 1 ++ u16Stores 28 24 ++
    u32Stores 34 (pixelBytes width height % 2 ^ 32)

def pixelStores (y x : Nat) : List (Nat × UInt8) :=
  (colorPixel (iterations x y) maxIter).stores (pixelOffset width height x y)

def imageStores : List (Nat × UInt8) :=
  (List.range' 0 height).flatMap fun y =>
    (List.range' 0 width).flatMap (pixelStores iterations width height maxIter y)

theorem writeHeader_eq (bmp : Buffer UInt8) :
    writeHeader width height bmp = bmp.storeAll (headerStores width height) := by
  have single : ∀ (buffer : Buffer UInt8) (offset : Nat) (value : UInt8),
      buffer.store offset value = buffer.storeAll [(offset, value)] := by
    intro buffer offset value
    cases stored : buffer.store offset value <;> simp [Buffer.storeAll, stored]
  simp only [writeHeader, headerStores, putU32, putU16, single, Option.bind_eq_bind,
    Buffer.storeAll_append, Option.bind_assoc]
  rw [show [(0, (66 : UInt8)), (1, 77)] = [(0, 66)] ++ [(1, 77)] from rfl, Buffer.storeAll_append,
    Option.bind_assoc]

theorem drawRow_eq (remaining : Nat) (bmp : Buffer UInt8) :
    drawRow iterations width height maxIter y remaining x bmp =
      bmp.storeAll ((List.range' x remaining).flatMap
        (pixelStores iterations width height maxIter y)) := by
  induction remaining generalizing x bmp with
  | zero => rfl
  | succ remaining ih =>
      simp only [drawRow, List.range'_succ, List.flatMap_cons, Buffer.storeAll_append,
        Option.bind_eq_bind, ih]
      rfl

theorem drawRows_eq (remaining : Nat) (bmp : Buffer UInt8) :
    drawRows iterations width height maxIter remaining y bmp =
      bmp.storeAll ((List.range' y remaining).flatMap fun y =>
        (List.range' 0 width).flatMap (pixelStores iterations width height maxIter y)) := by
  induction remaining generalizing y bmp with
  | zero => rfl
  | succ remaining ih =>
      simp only [drawRows, List.range'_succ, List.flatMap_cons, Buffer.storeAll_append,
        Option.bind_eq_bind, ih, drawRow_eq]

end Stores

theorem mem_imageStores {entry : Nat × UInt8} :
    entry ∈ imageStores iterations width height maxIter ↔
      ∃ x < width, ∃ y < height, entry ∈ pixelStores iterations width height maxIter y x := by
  simp only [imageStores, List.mem_flatMap, List.mem_range'_1]
  constructor
  · rintro ⟨y, row, x, column, member⟩
    exact ⟨x, by omega, y, by omega, member⟩
  · rintro ⟨x, column, y, row, member⟩
    exact ⟨y, by omega, x, by omega, member⟩

theorem mem_pixelStores {entry : Nat × UInt8} :
    entry ∈ pixelStores iterations width height maxIter y x →
      ∃ i < 3, entry.1 = pixelOffset width height x y + i := by
  simp only [pixelStores, Colour.stores, List.mem_cons, List.not_mem_nil, or_false]
  rintro (rfl | rfl | rfl)
  · exact ⟨0, by decide, rfl⟩
  · exact ⟨1, by decide, rfl⟩
  · exact ⟨2, by decide, rfl⟩

/-- A positive image is rendered by its stores, unless an allocation fails. -/
theorem mandelbrotBmp_eq {columns rows : Int} (wide : 0 < columns) (tall : 0 < rows)
    (limit : 0 < maxIter)
    (fits : pixelBytes columns.toNat rows.toNat ≤ totalBytes columns.toNat rows.toNat) :
    mandelbrotBmp iterations columns rows maxIter true =
      ((Buffer.zeroed (totalBytes columns.toNat rows.toNat)).storeAll
        (headerStores columns.toNat rows.toNat ++
          imageStores iterations columns.toNat rows.toNat maxIter)).map BmpResult.rendered := by
  rw [mandelbrotBmp, if_neg (by omega)]
  simp only [Nat.not_lt.mpr fits, if_false, if_true, writeHeader_eq, drawRows_eq,
    Buffer.storeAll_append, Option.bind_eq_bind, Option.map_bind, imageStores]
  cases (Buffer.zeroed (totalBytes columns.toNat rows.toNat)).storeAll
    (headerStores columns.toNat rows.toNat) with
  | none => rfl
  | some bmp =>
      cases drawn : bmp.storeAll ((List.range' 0 rows.toNat).flatMap fun y =>
        (List.range' 0 columns.toNat).flatMap
          (pixelStores iterations columns.toNat rows.toNat maxIter y)) <;> simp [drawn]

/-- The mask of the row size clears two low bits and everything above bit 31. -/
theorem and_mask (value : Nat) : value &&& 0xfffffffc = value % 2 ^ 32 / 4 * 4 := by
  refine Nat.eq_of_testBit_eq fun bit => ?_
  rw [show (0xfffffffc : Nat) = (2 ^ 30 - 1) <<< 2 by rfl,
    show value % 2 ^ 32 / 4 * 4 = ((value % 2 ^ 32) >>> 2) <<< 2 by
      rw [Nat.shiftLeft_eq, Nat.shiftRight_eq_div_pow]]
  simp only [Nat.testBit_and, Nat.testBit_shiftLeft, Nat.testBit_two_pow_sub_one,
    Nat.testBit_shiftRight, Nat.testBit_mod_two_pow]
  by_cases low : 2 ≤ bit
  · have back : 2 + (bit - 2) = bit := by omega
    have range : (bit - 2 < 30) = (bit < 32) := by
      rw [eq_iff_iff]
      omega
    simp [low, back, range, Bool.and_comm]
  · simp [low]

/-- What the accesses of the renderer rely on. -/
structure Layout (width height : Nat) : Prop where
  row : 3 * width ≤ rowBytes width
  aligned : 4 ∣ rowBytes width
  total : totalBytes width height = bmpHeaderSize + rowBytes width * height
  offset : ∀ x < width, ∀ y < height,
    pixelOffset width height x y = bmpHeaderSize + (height - 1 - y) * rowBytes width + 3 * x
  inside : ∀ x < width, ∀ y < height, bmpHeaderSize ≤ pixelOffset width height x y ∧
    pixelOffset width height x y + 2 < totalBytes width height
  apart : ∀ x < width, ∀ y < height, ∀ x' < width, ∀ y' < height, (x, y) ≠ (x', y') →
    ∀ i < 3, ∀ j < 3, pixelOffset width height x y + i ≠ pixelOffset width height x' y' + j

section Narrow

variable (narrow : 3 * width + 3 < 2 ^ 32) (short : height < 2 ^ 31)

include narrow in
theorem rowBytes_eq : rowBytes width = (3 * width + 3) / 4 * 4 := by
  have product : sizeT (width * 3) = width * 3 := Nat.mod_eq_of_lt (by omega)
  have sum : sizeT (width * 3 + 3) = width * 3 + 3 := Nat.mod_eq_of_lt (by omega)
  rw [rowBytes, product, sum, and_mask, Nat.mod_eq_of_lt (by omega), Nat.mul_comm width 3]

include narrow short in
theorem image_lt : rowBytes width * height < 2 ^ 63 := by
  have row : rowBytes width < 2 ^ 32 := by
    rw [rowBytes_eq narrow]
    omega
  calc rowBytes width * height < 2 ^ 32 * 2 ^ 31 := Nat.mul_lt_mul'' row short
    _ = 2 ^ 63 := by decide

include narrow short in
theorem pixelBytes_eq : pixelBytes width height = rowBytes width * height :=
  Nat.mod_eq_of_lt (by have bound := image_lt narrow short; omega)

include narrow short in
theorem totalBytes_eq : totalBytes width height = bmpHeaderSize + rowBytes width * height := by
  have bound := image_lt narrow short
  rw [totalBytes, pixelBytes_eq narrow short]
  exact Nat.mod_eq_of_lt (by rw [bmpHeaderSize]; omega)

/-- The rows behind row `y` and the row itself are part of the image. -/
theorem rows_le (row : Nat) (inRows : y < height) :
    (height - 1 - y) * row + row ≤ row * height := by
  calc (height - 1 - y) * row + row = (height - 1 - y + 1) * row := by ring
    _ ≤ height * row := Nat.mul_le_mul_right row (by omega)
    _ = row * height := Nat.mul_comm ..

include narrow short in
theorem pixelOffset_eq (inColumns : x < width) (inRows : y < height) :
    pixelOffset width height x y =
      bmpHeaderSize + (height - 1 - y) * rowBytes width + 3 * x := by
  have bound := image_lt narrow short
  have rows := rows_le (rowBytes width) inRows
  have wide : 3 * width ≤ rowBytes width := by
    rw [rowBytes_eq narrow]
    omega
  simp only [pixelOffset, sizeT, bmpHeaderSize]
  rw [Nat.mod_eq_of_lt (by omega : (height - 1 - y) * rowBytes width < 2 ^ 64),
    Nat.mod_eq_of_lt (by omega : 54 + (height - 1 - y) * rowBytes width < 2 ^ 64),
    Nat.mod_eq_of_lt (by omega : x * 3 < 2 ^ 64), Nat.mul_comm x 3, Nat.mod_eq_of_lt (by omega)]

/-- A position in the image determines its row and its place in the row. -/
theorem row_column_unique {row r r' k k' : Nat} (inRow : k < row) (inRow' : k' < row)
    (same : r * row + k = r' * row + k') : r = r' ∧ k = k' := by
  have quotient := congrArg (· / row) same
  have remainder := congrArg (· % row) same
  have positive : 0 < row := by omega
  simp only [Nat.mul_comm _ row, Nat.mul_add_div positive, Nat.mul_add_mod, Nat.div_eq_of_lt inRow,
    Nat.div_eq_of_lt inRow', Nat.mod_eq_of_lt inRow, Nat.mod_eq_of_lt inRow'] at quotient remainder
  exact ⟨quotient, remainder⟩

include narrow short in
theorem layout_of_narrow : Layout width height := by
  have row : 3 * width ≤ rowBytes width := by
    rw [rowBytes_eq narrow]
    omega
  refine ⟨row, ?_, totalBytes_eq narrow short, fun x column y inRows =>
    pixelOffset_eq narrow short column inRows, ?_, ?_⟩
  · rw [rowBytes_eq narrow]
    exact Nat.dvd_mul_left ..
  · intro x column y inRows
    have rows := rows_le (rowBytes width) inRows
    rw [pixelOffset_eq narrow short column inRows, totalBytes_eq narrow short]
    omega
  · intro x column y inRows x' column' y' inRows' different i low j low' same
    rw [pixelOffset_eq narrow short column inRows, pixelOffset_eq narrow short column' inRows']
      at same
    have place : (height - 1 - y) * rowBytes width + (3 * x + i) =
        (height - 1 - y') * rowBytes width + (3 * x' + j) := by omega
    obtain ⟨rows, columns⟩ := row_column_unique (by omega) (by omega) place
    exact different (by rw [show x = x' by omega, show y = y' by omega])

end Narrow

theorem headerStores_fst (width height : Nat) : (headerStores width height).map Prod.fst =
    [0, 1, 2, 3, 4, 5, 10, 11, 12, 13, 14, 15, 16, 17, 18, 19, 20, 21, 22, 23, 24, 25, 26, 27, 28,
      29, 34, 35, 36, 37] := rfl

theorem headerStores_lt {entry : Nat × UInt8} (member : entry ∈ headerStores width height) :
    entry.1 < bmpHeaderSize := by
  have offset : entry.1 ∈ (headerStores width height).map Prod.fst := List.mem_map_of_mem member
  rw [headerStores_fst] at offset
  revert offset
  generalize entry.1 = offset
  revert offset
  decide

theorem Layout.stores_inside (layout : Layout width height) (iterations : Nat → Nat → Int)
    (maxIter : Int) {entry : Nat × UInt8}
    (member : entry ∈ headerStores width height ++ imageStores iterations width height maxIter) :
    entry.1 < totalBytes width height := by
  rcases List.mem_append.mp member with header | image
  · rw [layout.total]
    exact Nat.lt_of_lt_of_le (headerStores_lt header) (Nat.le_add_right ..)
  · obtain ⟨x, column, y, row, pixel⟩ := mem_imageStores.mp image
    obtain ⟨i, low, offset⟩ := mem_pixelStores pixel
    have inside := (layout.inside x column y row).2
    omega

/-- A row that, in bytes and rounded up, does not fit 32 bits is cut short by the mask. -/
theorem Layout.narrow (layout : Layout width height) (wide : width < 2 ^ 31) :
    3 * width + 3 < 2 ^ 32 := by
  have product : sizeT (width * 3) = width * 3 := Nat.mod_eq_of_lt (by omega)
  have row := layout.row
  rw [rowBytes, product, and_mask] at row
  omega

/-- The layout is as it should be if and only if the row, in bytes and rounded up, fits 32
bits, and then the renderer stays in its buffer. -/
theorem bitmap_within_bounds (iterations : Nat → Nat → Int) (columns rows maxIter : Int)
    (wide : 0 < columns) (columnsInt : columns < 2 ^ 31) (tall : 0 < rows) (rowsInt : rows < 2 ^ 31)
    (limit : 0 < maxIter) :
    (Layout columns.toNat rows.toNat ↔ columns ≤ 1431655764) ∧
      (columns ≤ 1431655764 →
        ∃ bmp, mandelbrotBmp iterations columns rows maxIter true = some (.rendered bmp) ∧
          bmp.size = totalBytes columns.toNat rows.toNat) := by
  have narrow_layout : columns ≤ 1431655764 → Layout columns.toNat rows.toNat := by
    intro narrow
    exact layout_of_narrow (by omega) (by omega)
  refine ⟨⟨fun layout => ?_, narrow_layout⟩, fun narrow => ?_⟩
  · have narrow := layout.narrow (by omega)
    omega
  · have layout := narrow_layout narrow
    have fits : pixelBytes columns.toNat rows.toNat ≤ totalBytes columns.toNat rows.toNat := by
      rw [layout.total, pixelBytes_eq (by omega) (by omega)]
      exact Nat.le_add_left ..
    obtain ⟨bmp, stored⟩ := Buffer.storeAll_inside
      (show ∀ entry ∈ _, entry.1 < (Buffer.zeroed (totalBytes columns.toNat rows.toNat)).size from
        fun entry member => layout.stores_inside iterations maxIter member)
    refine ⟨bmp, ?_, (Buffer.storeAll_frame stored).1⟩
    rw [mandelbrotBmp_eq wide tall limit fits, stored]
    rfl

theorem bitmap_within_bounds_sample : Layout 640 420 ∧
    ∃ bmp, mandelbrotBmp (fun _ _ => 0) 640 420 800 true = some (.rendered bmp) ∧
      bmp.size = totalBytes 640 420 := by
  obtain ⟨layout, rendered⟩ := bitmap_within_bounds (fun _ _ => 0) 640 420 800 (by decide) (by decide)
    (by decide) (by decide) (by decide)
  exact ⟨layout.mpr (by decide), rendered (by decide)⟩

/-- The first width whose rounded row passes 32 bits: the mask leaves a row of 0
bytes, the buffer has room for the header only, and the first pixel is stored
behind its end. -/
theorem wide_bitmap_leaves_buffer :
    rowBytes 1431655765 = 0 ∧ totalBytes 1431655765 1 = bmpHeaderSize ∧
      pixelOffset 1431655765 1 0 0 = bmpHeaderSize ∧
      mandelbrotBmp (fun _ _ => 0) 1431655765 1 1 true = none := by
  have row : rowBytes 1431655765 = 0 := by decide
  have total : totalBytes 1431655765 1 = bmpHeaderSize := by
    rw [totalBytes, pixelBytes, row]
    decide
  have offset : pixelOffset 1431655765 1 0 0 = bmpHeaderSize := by
    rw [pixelOffset, row]
    decide
  refine ⟨row, total, offset, ?_⟩
  have member : (bmpHeaderSize, castU8 80) ∈ imageStores (fun _ _ => 0) 1431655765 1 1 := by
    refine mem_imageStores.mpr ⟨0, by decide, 0, by decide, ?_⟩
    rw [pixelStores, offset]
    decide
  have outside : (Buffer.zeroed (totalBytes 1431655765 1)).storeAll
      (headerStores 1431655765 1 ++ imageStores (fun _ _ => 0) 1431655765 1 1) = none :=
    Buffer.storeAll_outside (List.mem_append_right _ member) total.le
  rw [mandelbrotBmp_eq (by decide) (by decide) (by decide) (by decide)]
  exact congrArg (Option.map BmpResult.rendered) outside

end ThreadPool.Mandelbrot
