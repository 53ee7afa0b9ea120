import ThreadPool.Mandelbrot.Decode
import ThreadPool.Server.Query

namespace ThreadPool.Server

open Foundation Mandelbrot

/-! # Serving an image

`serve_render` reads the size and the iteration limit from the query, renders
and sends the bitmap. The bounds of the three parameters keep every image in
the range in which the renderer and the header are exact.
-/

variable {query : List Char} {iterations : Nat → Nat → Int}

inductive Body where
  | text (content : List Char)
  | image (bmp : Buffer UInt8)

/-- The `resp_t` of a request, with the header and the body that are sent. -/
structure Response where
  status : Nat
  bytes : Nat
  header : List Char
  body : Body

/-- The last line of every header. -/
def headerEnd : List Char := "\r\nConnection: close\r\n\r\n".toList

def sendStatus (code : Nat) (reason body : List Char) : Response :=
  { status := code
    bytes := body.length
    header := cut 512 ("HTTP/1.0 ".toList ++ decimal code ++ [' '] ++ reason ++
      "\r\nContent-Type: text/plain\r\nContent-Length: ".toList ++ decimal body.length ++
      headerEnd)
    body := .text body }

def headerFront : List Char :=
  "HTTP/1.0 200 OK\r\nContent-Type: image/bmp\r\nContent-Length: ".toList

def imageHeader (length : Nat) : List Char := headerFront ++ decimal length ++ headerEnd

def renderWidth (query : List Char) : Int := queryInt query ['w'] 640 16 2048

def renderHeight (query : List Char) : Int := queryInt query ['h'] 420 16 2048

def renderIter (query : List Char) : Int := queryInt query ['i', 't', 'e', 'r'] 800 1 5000

/-- `serve_render`, with the iteration counts and the outcome of the allocation
of the bitmap. -/
def serveRender (iterations : Nat → Nat → Int) (query : List Char) (allocated : Bool) :
    Option Response := do
  let result ← mandelbrotBmp iterations (renderWidth query) (renderHeight query) (renderIter query)
    allocated
  match result with
  | .failed => return sendStatus 500 "Internal Server Error".toList "render failed\n".toList
  | .rendered bmp => return {
      status := 200
      bytes := bmp.size
      header := cut 256 (imageHeader bmp.size)
      body := .image bmp }

theorem renderWidth_bounds (query : List Char) : 16 ≤ renderWidth query ∧ renderWidth query ≤ 2048 :=
  queryInt_bounds query _ (by decide) (by decide)

theorem renderHeight_bounds (query : List Char) :
    16 ≤ renderHeight query ∧ renderHeight query ≤ 2048 :=
  queryInt_bounds query _ (by decide) (by decide)

theorem renderIter_bounds (query : List Char) : 1 ≤ renderIter query ∧ renderIter query ≤ 5000 :=
  queryInt_bounds query _ (by decide) (by decide)

/-- The largest image that can be asked for has fewer than 10⁸ bytes. -/
theorem image_size_lt {width height : Nat} (columns : width ≤ 2048) (rows : height ≤ 2048) :
    bmpHeaderSize + rowBytes width * height < 10 ^ 8 := by
  have row : rowBytes width ≤ 6147 := by
    rw [rowBytes_eq (by omega)]
    omega
  calc bmpHeaderSize + rowBytes width * height ≤ 54 + 6147 * 2048 :=
        Nat.add_le_add_left (Nat.mul_le_mul row rows) _
    _ < 10 ^ 8 := by decide

theorem imageHeader_fits {length : Nat} (bound : length < 10 ^ 8) :
    cut 256 (imageHeader length) = imageHeader length := by
  have digits : (decimal length).length ≤ 8 := decimal_length_le (by decide) bound
  have front : headerFront.length = 58 := by decide
  have back : headerEnd.length = 23 := by decide
  refine cut_eq_self ?_
  rw [imageHeader, List.length_append, List.length_append, front, back]
  omega

/-- The renderer draws every image that a query can ask for. -/
theorem query_rendered (query : List Char) (iterations : Nat → Nat → Int) :
    ∃ bmp, mandelbrotBmp iterations (renderWidth query) (renderHeight query) (renderIter query)
        true = some (.rendered bmp) ∧
      Contents iterations (renderWidth query).toNat (renderHeight query).toNat (renderIter query)
        bmp := by
  have columns := renderWidth_bounds query
  have rows := renderHeight_bounds query
  have limit := renderIter_bounds query
  have narrow : 3 * (renderWidth query).toNat + 3 < 2 ^ 32 := by omega
  have short : (renderHeight query).toNat < 2 ^ 31 := by omega
  have layout := layout_of_narrow narrow short
  obtain ⟨bmp, stored⟩ := Buffer.storeAll_inside
    (show ∀ entry ∈ _, entry.1 < (Buffer.zeroed (totalBytes (renderWidth query).toNat
        (renderHeight query).toNat)).size from
      fun entry member => layout.stores_inside iterations (renderIter query) member)
  refine ⟨bmp, ?_, layout.contents stored⟩
  rw [mandelbrotBmp_eq (by omega) (by omega) (by omega), stored]
  · rfl
  · rw [layout.total, pixelBytes_eq narrow short]
    exact Nat.le_add_left ..

/-- Every image that is served decodes to the grid that was asked for, and its
`Content-Length` is the size that the file itself states. -/
theorem served_image_decodes (query : List Char) (iterations : Nat → Nat → Int)
    (counted : ∀ x y, 0 ≤ iterations x y ∧ iterations x y ≤ renderIter query) :
    ∃ bmp image, decodeBmp bmp = some image ∧
      serveRender iterations query true = some {
        status := 200
        bytes := image.fileSize
        header := imageHeader image.fileSize
        body := .image bmp } ∧
      Shows image iterations (renderWidth query).toNat (renderHeight query).toNat
        (renderIter query) ∧
      ∀ x y, (0 ≤ (colorPixel (iterations x y) (renderIter query)).blue ∧
          (colorPixel (iterations x y) (renderIter query)).blue ≤ 255) ∧
        (0 ≤ (colorPixel (iterations x y) (renderIter query)).green ∧
          (colorPixel (iterations x y) (renderIter query)).green ≤ 255) ∧
        (0 ≤ (colorPixel (iterations x y) (renderIter query)).red ∧
          (colorPixel (iterations x y) (renderIter query)).red ≤ 255) := by
  have columns := renderWidth_bounds query
  have rows := renderHeight_bounds query
  have limit := renderIter_bounds query
  have narrow : 3 * (renderWidth query).toNat + 3 < 2 ^ 32 := by omega
  have short : (renderHeight query).toNat < 2 ^ 31 := by omega
  have small : bmpHeaderSize + rowBytes (renderWidth query).toNat * (renderHeight query).toNat <
      10 ^ 8 := image_size_lt (by omega) (by omega)
  obtain ⟨bmp, rendered, contents⟩ := query_rendered query iterations
  obtain ⟨image, decoded, fileSize, shown⟩ := contents.decodes narrow short (by omega)
  have size : bmp.size < 10 ^ 8 := by
    rw [contents.size, totalBytes_eq narrow short]
    exact small
  refine ⟨bmp, image, decoded, ?_, shown, fun x y => colorPixel_bounds (counted x y).1 limit.2⟩
  simp only [serveRender, rendered, fileSize, imageHeader_fits size, Option.bind_eq_bind,
    Option.bind_some]
  rfl

/-- A width of 32 with the other parameters left out, rendered by the loop of the source. -/
theorem served_image_decodes_width : ∃ bmp image, decodeBmp bmp = some image ∧
    serveRender (escapeCount 32 420 800) ['w', '=', '3', '2'] true = some {
      status := 200
      bytes := image.fileSize
      header := imageHeader image.fileSize
      body := .image bmp } ∧
    Shows image (escapeCount 32 420 800) 32 420 800 := by
  have width : renderWidth ['w', '=', '3', '2'] = 32 := by
    rw [renderWidth, queryInt]
    decide
  have height : renderHeight ['w', '=', '3', '2'] = 420 := by
    rw [renderHeight, queryInt]
    decide
  have limit : renderIter ['w', '=', '3', '2'] = 800 := by
    rw [renderIter, queryInt]
    decide
  obtain ⟨bmp, image, decoded, served, shown, _⟩ :=
    served_image_decodes ['w', '=', '3', '2'] (escapeCount 32 420 800) (by
      intro x y
      rw [limit]
      exact escapeCount_bounds 32 420 800 x y)
  rw [width, height, limit] at shown
  exact ⟨bmp, image, decoded, served, shown⟩

/-- A request for an image is answered with status 200, or 500 when the bitmap cannot be allocated. -/
theorem serveRender_status (iterations : Nat → Nat → Int) (query : List Char) (allocated : Bool) :
    ∃ response, serveRender iterations query allocated = some response ∧
      response.status = if allocated then 200 else 500 := by
  cases allocated with
  | true =>
      obtain ⟨bmp, rendered, _⟩ := query_rendered query iterations
      exact ⟨_, by rw [serveRender, rendered]; rfl, rfl⟩
  | false =>
      have failed : mandelbrotBmp iterations (renderWidth query) (renderHeight query)
          (renderIter query) false = some .failed := by
        simp only [mandelbrotBmp, Bool.false_eq_true, if_false, ite_self]
      exact ⟨_, by rw [serveRender, failed]; rfl, rfl⟩

end ThreadPool.Server
