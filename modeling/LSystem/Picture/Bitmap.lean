import LSystem.Picture.Color

/-!
# Bitmaps

Pixel buffers: rows from the top, four bytes a pixel. The size of the buffer
and the size of the picture need not agree; a pixel is there only if its bytes are.
-/

namespace LSystem

structure Bitmap where
  width : UInt32
  height : UInt32
  data : List UInt8
  /-- Whether alpha is multiplied into the colors. -/
  multiplied : Bool

/-- Divides the alpha out of every whole pixel; bytes behind the last one are left alone. -/
def straightBytes : List UInt8 → List UInt8
  | r :: g :: b :: a :: rest => (Pixel.straight ⟨r, g, b, a⟩).toBytes ++ straightBytes rest
  | rest => rest

theorem length_straightBytes (bytes : List UInt8) :
    (straightBytes bytes).length = bytes.length := by
  fun_induction straightBytes bytes with
  | case1 r g b a rest ih =>
    simp only [Pixel.toBytes, List.length_append, List.length_cons, List.length_nil, ih]
    omega
  | case2 => rfl

namespace Bitmap

/-- The index of a pixel's first byte, in the arithmetic of 64-bit words. -/
def byteIndex (bitmap : Bitmap) (x y : UInt32) : UInt64 :=
  (y.toUInt64 * bitmap.width.toUInt64 + x.toUInt64) * 4

/-- A pixel inside the bitmap whose four bytes are inside the buffer. They end at the index plus
four, taken here without a bound. Where words wrap, as in `byteIndex`, this end is 0 for the index
`2 ^ 64 - 4`, such as that of the last of exactly `2 ^ 62` pixels, and no byte lies in the range;
where additions are checked, this one fails. Only a buffer of `2 ^ 64` bytes could tell the wrapped
end from the one taken here, and no buffer is that long. -/
def pixel? (bitmap : Bitmap) (x y : UInt32) : Option Pixel :=
  if x < bitmap.width ∧ y < bitmap.height then
    match (bitmap.data.drop (bitmap.byteIndex x y).toNat).take 4 with
    | [r, g, b, a] => some ⟨r, g, b, a⟩
    | _ => none
  else none

def straight (bitmap : Bitmap) : List UInt8 :=
  if bitmap.multiplied then straightBytes bitmap.data else bitmap.data

end Bitmap

end LSystem
