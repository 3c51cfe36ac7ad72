import LSystem.Picture.Bitmap

/-!
# Picture files

The PNG form of a picture with straight alpha: the signature, a header, the
rows in a zlib stream that stores them as they are, and an end chunk. Every
chunk carries a checksum.
-/

namespace LSystem.Png

def wordBytes (w : UInt32) : List UInt8 :=
  [(w >>> 24).toUInt8, (w >>> 16).toUInt8, (w >>> 8).toUInt8, w.toUInt8]

def crcStep (crc : UInt32) (b : UInt8) : UInt32 :=
  (List.range 8).foldl (fun c _ => if c &&& 1 = 1 then (c >>> 1) ^^^ 0xedb88320 else c >>> 1)
    (crc ^^^ b.toUInt32)

def crc (bytes : List UInt8) : UInt32 := bytes.foldl crcStep 0xffffffff ^^^ 0xffffffff

def adler (bytes : List UInt8) : UInt32 :=
  let (a, b) := bytes.foldl
    (fun (a, b) byte =>
      let a := (a + byte.toUInt32) % 65521
      (a, (b + a) % 65521))
    ((1 : UInt32), (0 : UInt32))
  (b <<< 16) ||| a

def chunk (type : String) (data : List UInt8) : List UInt8 :=
  let body := type.toUTF8.toList ++ data
  wordBytes (UInt32.ofNat data.length) ++ body ++ wordBytes (crc body)

/-- The rows of a picture, `height` of them with `size` bytes each, and the filter byte in front of
each row that says it is not filtered. -/
def rows (size : Nat) : Nat → List UInt8 → List UInt8
  | 0, _ => []
  | height + 1, bytes => 0 :: bytes.take size ++ rows size height (bytes.drop size)

def blockSize : Nat := 65535

/-- Bytes as stored blocks, of which the last one says so. -/
def stored (bytes : List UInt8) : List UInt8 :=
  let length := min bytes.length blockSize
  let low := UInt8.ofNat (length % 256)
  let high := UInt8.ofNat (length / 256)
  if _fits : bytes.length ≤ blockSize then
    [1, low, high, ~~~low, ~~~high] ++ bytes
  else
    [0, low, high, ~~~low, ~~~high] ++ bytes.take blockSize ++ stored (bytes.drop blockSize)
  termination_by bytes.length
  decreasing_by
    simp only [List.length_drop, blockSize] at _fits ⊢
    omega

def zlib (bytes : List UInt8) : List UInt8 :=
  [0x78, 0x01] ++ stored bytes ++ wordBytes (adler bytes)

def encode (bitmap : Bitmap) : List UInt8 :=
  let header := wordBytes bitmap.width ++ wordBytes bitmap.height ++ [8, 6, 0, 0, 0]
  let rows := rows (4 * bitmap.width.toNat) bitmap.height.toNat bitmap.straight
  [0x89, 0x50, 0x4e, 0x47, 0x0d, 0x0a, 0x1a, 0x0a] ++ chunk "IHDR" header ++
    chunk "IDAT" (zlib rows) ++ chunk "IEND" []

end LSystem.Png
