import RenderAssets.Shape.Steps
import RenderAssets.Mesh.Basic

/-!
# The capped cylinder

The axis is vertical. Each cap is a fan around a centre vertex of its own, and
the side has a ring of vertices at either end with radial normals, so caps and
side share no vertex. The vertices are numbered in this order: bottom centre and
bottom rim, top centre and top rim, bottom ring of the side, top ring of the side.

Neighbouring quads of the side are split along different diagonals. Each vertex
of the side then has the same triangle area on both of its quads, which keeps
smooth normals radial. That needs an even number of segments, so the number
asked for is raised to four and then to the next even number.
-/

namespace RenderAssets.Shape.Cylinder

/-- The number of segments used: at least four, and even. -/
def segmentCount (requested : UInt32) : UInt32 :=
  let atLeast := max requested 4
  atLeast + atLeast % 2

/-- The segment after a given one; the first follows the last. -/
def following (segments segment : UInt32) : UInt32 := (segment + 1) % segments

/-- The two ends of the cylinder. -/
inductive End where
  | bottom
  | top
  deriving DecidableEq, Repr

/-- The centre vertex of a cap. -/
def capCenter (segments : UInt32) : End → UInt32
  | .bottom => 0
  | .top => segments + 1

/-- A vertex on the rim of a cap. -/
def capRim (segments : UInt32) (side : End) (segment : UInt32) : UInt32 :=
  capCenter segments side + 1 + segment

/-- A vertex on a ring of the side. -/
def sideRing (segments : UInt32) : End → UInt32 → UInt32
  | .bottom, segment => (segments + 1) + (segments + 1) + segment
  | .top, segment => (segments + 1) + (segments + 1) + segments + segment

/-- The triangle of a cap over one segment. It faces outwards: the rim runs
forward at the bottom and backward at the top. -/
def capTriangle (segments : UInt32) (side : End) (segment : UInt32) : Triangle UInt32 :=
  let current := capRim segments side segment
  let next := capRim segments side (following segments segment)
  match side with
  | .bottom => ⟨capCenter segments side, current, next⟩
  | .top => ⟨capCenter segments side, next, current⟩

/-- The two triangles of the side over one segment. Even segments are split from
the bottom of this segment to the top of the next, odd ones the other way. -/
def sideTriangles (segments segment : UInt32) : List (Triangle UInt32) :=
  let bottom := sideRing segments .bottom segment
  let bottomNext := sideRing segments .bottom (following segments segment)
  let top := sideRing segments .top segment
  let topNext := sideRing segments .top (following segments segment)
  if segment % 2 = 0 then
    [⟨bottom, top, topNext⟩, ⟨bottom, topNext, bottomNext⟩]
  else
    [⟨bottom, top, bottomNext⟩, ⟨top, topNext, bottomNext⟩]

/-- The bottom cap, the top cap and the side. -/
def triangles (segments : UInt32) : List (Triangle UInt32) :=
  (steps segments.toNat).map (capTriangle segments .bottom) ++
    (steps segments.toNat).map (capTriangle segments .top) ++
    (steps segments.toNat).flatMap (sideTriangles segments)

variable {α : Type} [Trigonometric α]

/-- The directions of the segments around the axis, of length one. -/
def directions (segments : UInt32) : List (Vector3 α) :=
  (steps segments.toNat).map fun segment =>
    let angle : α := turnAngle segment segments
    ⟨Trigonometric.cos angle, 0, Trigonometric.sin angle⟩

/-- A direction taken out to the radius and moved along the axis. -/
def onRing (radius height : α) (direction : Vector3 α) : Vector3 α :=
  ⟨direction.x * radius, height, direction.z * radius⟩

/-- The height of an end of the cylinder. -/
def height (halfLength : α) : End → α
  | .bottom => -halfLength
  | .top => halfLength

/-- The direction that a cap faces. -/
def capNormal : End → Vector3 α
  | .bottom => ⟨0, -1, 0⟩
  | .top => ⟨0, 1, 0⟩

/-- The ring of positions at an end. -/
def ringPositions (radius halfLength : α) (segments : UInt32) (side : End) : List (Vector3 α) :=
  (directions segments).map (onRing radius (height halfLength side))

/-- The positions of a cap, centre first. -/
def capPositions (radius halfLength : α) (segments : UInt32) (side : End) : List (Vector3 α) :=
  ⟨0, height halfLength side, 0⟩ :: ringPositions radius halfLength segments side

/-- All positions in the order of the vertex numbers. -/
def positions (radius halfLength : α) (segments : UInt32) : List (Vector3 α) :=
  capPositions radius halfLength segments .bottom ++
    capPositions radius halfLength segments .top ++
    ringPositions radius halfLength segments .bottom ++
    ringPositions radius halfLength segments .top

/-- The normals of a cap all face the same way. -/
def capNormals (segments : UInt32) (side : End) : List (Vector3 α) :=
  List.replicate (segments.toNat + 1) (capNormal side)

/-- All normals in the order of the vertex numbers. -/
def normals (segments : UInt32) : List (Vector3 α) :=
  capNormals segments .bottom ++ capNormals segments .top ++
    directions segments ++ directions segments

/-- The cylinder of a radius and half a length, with about as many segments as
asked for. -/
def mesh (radius halfLength : α) (requested : UInt32) : TriangleMesh α :=
  let segments := segmentCount requested
  { positions := (positions radius halfLength segments).toArray
    normals? := some (normals segments).toArray
    indices? := some (.uint32 (Triangle.flatten (triangles segments)))
    label? := some "cylinder" }

end RenderAssets.Shape.Cylinder
