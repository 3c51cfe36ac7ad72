import LSystem.Paint.Surface
import LSystem.Picture.Bitmap
import LSystem.Picture.Stroke

/-!
# Canvases

A surface that keeps what was drawn since it was last cleared and can tell the
color of every pixel. A stroke is drawn once over what is below it, however
often it crosses itself. Tiles that the outline of a stroke touches are drawn
through a mask, the others as a whole, which differs in how it rounds.
-/

namespace LSystem

def blendWhole (alpha above below : UInt8) : UInt8 :=
  UInt8.ofNat (above.toNat + (below.toNat * (255 - alpha.toNat) + 255) / 256)

def blendMasked (alpha above below : UInt8) : UInt8 :=
  UInt8.ofNat ((above.toNat * 255 + below.toNat * (255 - alpha.toNat) + 255) / 256)

def Pixel.over (blend : UInt8 → UInt8 → UInt8 → UInt8) (above below : Pixel) : Pixel where
  red := blend above.alpha above.red below.red
  green := blend above.alpha above.green below.green
  blue := blend above.alpha above.blue below.blue
  alpha := blend above.alpha above.alpha below.alpha

structure Mark where
  stroke : Stroke
  pixel : Pixel

def Mark.apply (mark : Mark) (x y : Nat) (below : Pixel) : Pixel :=
  if mark.stroke.covers x y then
    mark.pixel.over (if mark.stroke.touchesTile x y then blendMasked else blendWhole) below
  else below

structure Canvas where
  width : UInt16
  height : UInt16
  ground : Pixel := .clear
  marks : Array (Thunk Mark) := #[]

namespace Canvas

/-- An empty canvas; no side may be zero or take more than 16 bits. -/
def new (width height : Nat) : Except Error Canvas :=
  if UInt16.size ≤ width then .error .surfaceWidth
  else if UInt16.size ≤ height then .error .surfaceHeight
  else if width = 0 ∨ height = 0 then .error .surfaceEmpty
  else .ok { width := UInt16.ofNat width, height := UInt16.ofNat height }

def markCount (canvas : Canvas) : Nat := canvas.marks.size

/-- Adds a mark; paint without alpha and paths without elements leave none. -/
def mark (canvas : Canvas) (path : Path Float) (paint : Paint Float) : Canvas :=
  if paint.color.alpha = 0 ∨ path.isEmpty then canvas
  else
    let mark := Thunk.mk fun _ => ⟨.ofPath path paint.width, paint.color.toPixel⟩
    { canvas with marks := canvas.marks.push mark }

def draw (canvas : Canvas) : PaintCall Float → Canvas
  | .clear color => { canvas with ground := color.toPixel, marks := #[] }
  | .line start stop paint => canvas.mark #[.moveTo start, .lineTo stop] paint
  | .path path paint => canvas.mark path paint

instance : Surface Canvas Float := ⟨fun canvas call => (canvas.draw call, .ok ())⟩

def color (canvas : Canvas) (x y : Nat) : Pixel :=
  canvas.marks.foldl (fun below mark => mark.get.apply x y below) canvas.ground

def pixel? (canvas : Canvas) (x y : Nat) : Option Pixel :=
  if x < canvas.width.toNat ∧ y < canvas.height.toNat then some (canvas.color x y) else none

def bitmap (canvas : Canvas) : Bitmap where
  width := canvas.width.toUInt32
  height := canvas.height.toUInt32
  data :=
    (List.range canvas.height.toNat).flatMap fun y =>
      (List.range canvas.width.toNat).flatMap fun x => (canvas.color x y).toBytes
  multiplied := true

end Canvas

end LSystem
