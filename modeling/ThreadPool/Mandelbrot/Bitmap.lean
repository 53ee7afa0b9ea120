import ThreadPool.Foundation.Buffers
import ThreadPool.Foundation.Word

namespace ThreadPool.Mandelbrot

open Foundation

/-! # The bitmap renderer

`mandelbrot_bmp` allocates a buffer, writes the header field by field and then
the pixels row by row, bottom row first in memory. The loops are kept, with
every store checked against the bounds of the buffer, and are shown to perform
one list of stores. The iteration counts are a parameter of the rendering, so
that the results do not rest on floating-point arithmetic.
-/

def bmpHeaderSize : Nat := 54

/-- The value of a `size_t` expression. -/
def sizeT (value : Nat) : Nat := value % 2 ^ 64

/-- `((size_t)width * 3u + 3u) & ~3u`: the mask is a 32-bit `unsigned`. -/
def rowBytes (width : Nat) : Nat := sizeT (sizeT (width * 3) + 3) &&& 0xfffffffc

def pixelBytes (width height : Nat) : Nat := sizeT (rowBytes width * height)

def totalBytes (width height : Nat) : Nat := sizeT (bmpHeaderSize + pixelBytes width height)

def u16Stores (offset value : Nat) : List (Nat × UInt8) :=
  [(offset, lowByte value), (offset + 1, lowByte (value >>> 8))]

def u32Stores (offset value : Nat) : List (Nat × UInt8) :=
  [(offset, lowByte value), (offset + 1, lowByte (value >>> 8)),
    (offset + 2, lowByte (value >>> 16)), (offset + 3, lowByte (value >>> 24))]

def putU16 (buffer : Buffer UInt8) (offset value : Nat) : Option (Buffer UInt8) :=
  buffer.storeAll (u16Stores offset value)

def putU32 (buffer : Buffer UInt8) (offset value : Nat) : Option (Buffer UInt8) :=
  buffer.storeAll (u32Stores offset value)

/-- The three values that `color_pixel` computes, before their casts. -/
structure Colour where
  blue : Int
  green : Int
  red : Int
deriving DecidableEq, Repr

/-- `color_pixel`, in the arithmetic of a 32-bit `int`. -/
def colorPixel (iter maxIter : Int) : Colour :=
  if iter ≥ maxIter then ⟨8, 8, 12⟩
  else
    let t := (wrap 32 (iter * 255)).tdiv maxIter
    { blue := wrap 32 (80 + (wrap 32 (t * 120)).tdiv 255)
      green := (wrap 32 (t * t)).tdiv 255
      red := wrap 32 (255 - t.tdiv 3) }

/-- `(uint8_t)value`. -/
def castU8 (value : Int) : UInt8 := UInt8.ofNat (value % 256).toNat

def Colour.stores (colour : Colour) (bgr : Nat) : List (Nat × UInt8) :=
  [(bgr, castU8 colour.blue), (bgr + 1, castU8 colour.green), (bgr + 2, castU8 colour.red)]

/-- The address that `dst + (size_t)x * 3u` denotes in row `y`. -/
def pixelOffset (width height x y : Nat) : Nat :=
  sizeT (sizeT (bmpHeaderSize + sizeT ((height - 1 - y) * rowBytes width)) + sizeT (x * 3))

section Loops

variable (iterations : Nat → Nat → Int) (width height : Nat) (maxIter : Int)

/-- The inner loop, from column `x` on. -/
def drawRow (y : Nat) : (remaining x : Nat) → Buffer UInt8 → Option (Buffer UInt8)
  | 0, _, bmp => some bmp
  | remaining + 1, x, bmp => do
      let bmp ← bmp.storeAll
        ((colorPixel (iterations x y) maxIter).stores (pixelOffset width height x y))
      drawRow y remaining (x + 1) bmp

/-- The outer loop, from row `y` on. -/
def drawRows : (remaining y : Nat) → Buffer UInt8 → Option (Buffer UInt8)
  | 0, _, bmp => some bmp
  | remaining + 1, y, bmp => do
      let bmp ← drawRow iterations width height maxIter y width 0 bmp
      drawRows remaining (y + 1) bmp

def writeHeader (bmp : Buffer UInt8) : Option (Buffer UInt8) := do
  let bmp ← bmp.store 0 66
  let bmp ← bmp.store 1 77
  let bmp ← putU32 bmp 2 (totalBytes width height % 2 ^ 32)
  let bmp ← putU32 bmp 10 bmpHeaderSize
  let bmp ← putU32 bmp 14 40
  let bmp ← putU32 bmp 18 (width % 2 ^ 32)
  let bmp ← putU32 bmp 22 (height % 2 ^ 32)
  let bmp ← putU16 bmp 26 1
  let bmp ← putU16 bmp 28 24
  putU32 bmp 34 (pixelBytes width height % 2 ^ 32)

end Loops

inductive BmpResult where
  | failed
  | rendered (bmp : Buffer UInt8)

/-- `mandelbrot_bmp` with the given iteration counts; `allocated` is the outcome
of `calloc`. The whole is undefined when a store leaves the buffer. -/
def mandelbrotBmp (iterations : Nat → Nat → Int) (width height maxIter : Int) (allocated : Bool) :
    Option BmpResult :=
  if width ≤ 0 ∨ height ≤ 0 ∨ maxIter ≤ 0 then some .failed
  else
    let columns := width.toNat
    let rows := height.toNat
    let total := totalBytes columns rows
    if total < pixelBytes columns rows then some .failed
    else if allocated then do
      let bmp ← writeHeader columns rows (.zeroed total)
      let bmp ← drawRows iterations columns rows maxIter rows 0 bmp
      return .rendered bmp
    else some .failed

/-- The `while` loop of a pixel, on the machine's `double`; it runs while the
point is inside and `remaining`, which is `max_iter - iter`, is not 0. -/
def escapeLoop (cx cy : Float) : (remaining iter : Nat) → (zx zy : Float) → Nat
  | 0, iter, _, _ => iter
  | remaining + 1, iter, zx, zy =>
      if zx * zx + zy * zy ≤ 4.0 then
        escapeLoop cx cy remaining (iter + 1) (zx * zx - zy * zy + cx) (2.0 * zx * zy + cy)
      else iter

/-- The number of iterations that `mandelbrot_bmp` counts for a pixel. -/
def escapeCount (width height maxIter : Nat) (x y : Nat) : Int :=
  let cy := (y.toFloat / (height - 1).toFloat) * 2.4 - 1.2
  let cx := (x.toFloat / (width - 1).toFloat) * 3.5 - 2.5
  escapeLoop cx cy maxIter 0 0.0 0.0

theorem escapeLoop_le (cx cy : Float) (remaining iter : Nat) (zx zy : Float) :
    escapeLoop cx cy remaining iter zx zy ≤ iter + remaining := by
  induction remaining generalizing iter zx zy with
  | zero => exact Nat.le_refl _
  | succ remaining ih =>
      rw [escapeLoop]
      split
      · have bound := ih (iter + 1) (zx * zx - zy * zy + cx) (2.0 * zx * zy + cy)
        omega
      · omega

/-- The counts of the loop are between 0 and the limit. -/
theorem escapeCount_bounds (width height maxIter x y : Nat) :
    0 ≤ escapeCount width height maxIter x y ∧ escapeCount width height maxIter x y ≤ maxIter := by
  have bound := fun cx cy => escapeLoop_le cx cy maxIter 0 0.0 0.0
  simp only [Nat.zero_add] at bound
  exact ⟨Int.natCast_nonneg _, Int.ofNat_le.mpr (bound _ _)⟩

end ThreadPool.Mandelbrot
