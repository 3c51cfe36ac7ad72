import LSystem.Paint.Path

/-!
# Strokes

The area that a line of some width covers: all points no farther from the path
than half the width, so that joins and ends are round. Its outline runs along
both sides of every straight piece, around the outer side of each join, straight
across the inner side, and around the ends.
-/

namespace LSystem

structure Segment where
  start : Point Float
  stop : Point Float

namespace Segment

/-- The square of the distance of a point from the nearest point of the segment. -/
def squaredDistance (s : Segment) (p : Point Float) : Float :=
  let dx := s.stop.x - s.start.x
  let dy := s.stop.y - s.start.y
  let along := ((p.x - s.start.x) * dx + (p.y - s.start.y) * dy) / (dx * dx + dy * dy)
  let t := Double.maximum 0 (Double.minimum 1 along)
  let ex := p.x - (s.start.x + t * dx)
  let ey := p.y - (s.start.y + t * dy)
  ex * ex + ey * ey

def isProper (s : Segment) : Bool := s.start.x != s.stop.x || s.start.y != s.stop.y

def direction (s : Segment) : Point Float := ⟨s.stop.x - s.start.x, s.stop.y - s.start.y⟩

def sideways (s : Segment) (length : Float) : Point Float :=
  let d := s.direction
  let k := length / Float.sqrt (d.x * d.x + d.y * d.y)
  ⟨-d.y * k, d.x * k⟩

def moved (s : Segment) (d : Point Float) : Segment :=
  ⟨⟨s.start.x + d.x, s.start.y + d.y⟩, ⟨s.stop.x + d.x, s.stop.y + d.y⟩⟩

def xAt (s : Segment) (y : Float) : Float :=
  let dy := s.stop.y - s.start.y
  if dy == 0 then s.start.x else s.start.x + (y - s.start.y) / dy * (s.stop.x - s.start.x)

end Segment

namespace Path

def curvePieces : Nat := 64

def curvePoint (t : Float) : List (Point Float) → Point Float
  | [] => ⟨0, 0⟩
  | [p] => p
  | p :: q :: rest =>
    let mix (a b : Point Float) : Point Float := ⟨a.x + t * (b.x - a.x), a.y + t * (b.y - a.y)⟩
    curvePoint t ((p :: q :: rest).zipWith mix (q :: rest))
  termination_by points => points.length
  decreasing_by simp

def curvePoints (controls : List (Point Float)) : List (Point Float) :=
  (List.range curvePieces).map fun i =>
    curvePoint ((i + 1).toFloat / curvePieces.toFloat) controls

def chain (start : Point Float) : List (Point Float) → List Segment
  | [] => []
  | p :: rest => ⟨start, p⟩ :: chain p rest

structure Part where
  segments : List Segment
  closed : Bool

def part (segments : Array Segment) (closed : Bool) : Part :=
  ⟨segments.toList.filter Segment.isProper, closed⟩

/-- The parts of the rest of a path, where `drawn` is the part under way up to the point `current`,
which began at `start`. -/
def partsFrom (drawn : Array Segment) (start current : Point Float) :
    List (PathElement Float) → List Part
  | [] => [part drawn false]
  | .moveTo p :: rest => part drawn false :: partsFrom #[] p p rest
  | .lineTo p :: rest => partsFrom (drawn.push ⟨current, p⟩) start p rest
  | .quadTo c p :: rest =>
    partsFrom (drawn ++ chain current (curvePoints [current, c, p])) start p rest
  | .curveTo c d p :: rest =>
    partsFrom (drawn ++ chain current (curvePoints [current, c, d, p])) start p rest
  | .close :: rest => part (drawn.push ⟨current, start⟩) true :: partsFrom #[] start start rest

def parts (path : Path Float) : List Part :=
  (partsFrom #[] ⟨0, 0⟩ ⟨0, 0⟩ path.toList).filter fun part => !part.segments.isEmpty

end Path

/-! ### Outlines -/

namespace Outline

def arcPieces : Nat := 16

/-- An arc around a center: it begins at the step `radius` from it and turns by `angle`, in
radians. -/
def arc (center radius : Point Float) (angle : Float) : List Segment :=
  let points := (List.range (arcPieces + 1)).map fun i =>
    let turn := angle * i.toFloat / arcPieces.toFloat
    let c := Float.cos turn
    let s := Float.sin turn
    (⟨center.x + c * radius.x - s * radius.y, center.y + s * radius.x + c * radius.y⟩ : Point Float)
  match points with
  | [] => []
  | p :: rest => Path.chain p rest

def join (radius : Float) (s t : Segment) : List Segment :=
  let a := s.direction
  let b := t.direction
  let n := s.sideways radius
  let m := t.sideways radius
  let p := s.stop
  let turn := Float.atan2 (a.x * b.y - a.y * b.x) (a.x * b.x + a.y * b.y)
  let across (n m : Point Float) : Segment := ⟨⟨p.x + n.x, p.y + n.y⟩, ⟨p.x + m.x, p.y + m.y⟩⟩
  if 0 < turn then across n m :: arc p ⟨-n.x, -n.y⟩ turn
  else across ⟨-n.x, -n.y⟩ ⟨-m.x, -m.y⟩ :: arc p n turn

def sides (radius : Float) : List Segment → List Segment
  | [] => []
  | s :: rest =>
    let n := s.sideways radius
    let joined :=
      match rest with
      | [] => []
      | t :: _ => join radius s t
    s.moved n :: s.moved ⟨-n.x, -n.y⟩ :: joined ++ sides radius rest

def halfTurn : Float := Double.degree * 180

def ends (radius : Float) (part : Path.Part) : List Segment :=
  match part.segments.head?, part.segments.getLast? with
  | some first, some last =>
    if part.closed then join radius last first
    else
      let n := first.sideways radius
      let m := last.sideways radius
      arc first.start n halfTurn ++ arc last.stop ⟨-m.x, -m.y⟩ halfTurn
  | _, _ => []

def ofPart (radius : Float) (part : Path.Part) : List Segment :=
  sides radius part.segments ++ ends radius part

end Outline

/-! ### Strokes -/

structure Stroke where
  segments : List Segment
  outline : List Segment
  radius : Float

def Stroke.ofPath (path : Path Float) (width : Float) : Stroke :=
  let parts := path.parts
  let radius := width / 2
  { segments := parts.flatMap (·.segments)
    outline := parts.flatMap (Outline.ofPart radius)
    radius }

namespace Stroke

def covers (stroke : Stroke) (x y : Nat) : Bool :=
  let center : Point Float := ⟨x.toFloat + 0.5, y.toFloat + 0.5⟩
  stroke.segments.any fun s => s.squaredDistance center ≤ stroke.radius * stroke.radius

def tile : Nat := 4

/-- Whether a segment of an outline touches a tile, given by its column and row; what lies to the
left of the first column counts as in it. -/
def touches (column row : Nat) (s : Segment) : Bool :=
  let side := tile.toFloat
  let top := Double.minimum s.start.y s.stop.y
  let bottom := Double.maximum s.start.y s.stop.y
  if (top / side).floor ≤ row.toFloat && row.toFloat < (bottom / side).ceil then
    let a := s.xAt (Double.maximum top (row.toFloat * side))
    let b := s.xAt (Double.minimum bottom ((row + 1).toFloat * side))
    let (a, b) := if top == bottom then (s.start.x, s.stop.x) else (a, b)
    let left := Double.maximum 0 (Double.minimum a b / side).floor
    let right := Double.maximum 0 (Double.maximum a b / side).floor
    left ≤ column.toFloat && column.toFloat ≤ right
  else false

def touchesTile (stroke : Stroke) (x y : Nat) : Bool :=
  stroke.outline.any (touches (x / tile) (y / tile))

end Stroke

end LSystem
